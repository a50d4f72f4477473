import NemoServer.Server.Ownership
import NemoServer.Server.Sample

/-!
# The block flag, cached and stored

Every interleaving of the tasks of the peer map, with the database up. A look-up reads the database
and enters what it read in a second step, and a change of the flag writes the database and the
entry in two; as long as nobody comes between these steps of one task (`Orderly`), a peer whose
block has returned is found blocked, and no entry is made that is not current.
-/

set_option autoImplicit false

namespace NemoServer

open Prog PeerMap

/-! ## Order -/

/-- The item is this call of task `n`. -/
def CallsOp (n : ℕ) (o : Op) : TaskStep → Prop
  | .step m _ _ o' _ => m = n ∧ o' = o
  | _ => False

/-- The item writes the status of `id` to the database. -/
def SetsStatus (id : String) : TaskStep → Prop
  | .step _ _ _ (.dbSetPeerStatus id' _ _) _ => id' = id
  | _ => False

/-- The item writes the status of `id` to the database, or deletes the row. -/
def ChangesFlag (id : String) : TaskStep → Prop
  | .step _ _ _ (.dbSetPeerStatus id' _ _) _ => id' = id
  | .step _ _ _ (.dbDeletePeer id') _ => id' = id
  | _ => False

/-- The item changes the flag of `id`, or enters `id` in the map. -/
def Disturbs (id : String) : TaskStep → Prop
  | .step _ _ _ (.mapInstall id' _) _ => id' = id
  | .step _ _ _ (.mapGetOrInsert id') _ => id' = id
  | i => ChangesFlag id i

/-- After the history `l`, task `n` may perform the operation: since its look-up nobody has
entered the peer or changed its flag, and since its write of a status nobody has written
another. -/
def MayPerform (l : List TaskStep) (n : ℕ) (j : PeerTask) : Op → Prop
  | .mapInstall id _ => System.Quiet (CallsOp n (.mapGet id)) (Disturbs id) l
  | .mapGetOrInsert id => System.Quiet (CallsOp n (.mapGet id)) (SetsStatus id) l
  | .writeStatus _ status => ∀ id note, j = .setPeerStatus id status note →
      System.Quiet (CallsOp n (.dbSetPeerStatus id status note)) (SetsStatus id) l
  | _ => True

/-- The database is up, and no task is overtaken. -/
def Orderly (l : List TaskStep) (p : Pool Op Op.Res Server PeerTask) :
    Choice PeerTask Env → Prop
  | .step n => p.shared.dbUp = true ∧
      ∀ j past o k, p.live n = some ⟨j, past, .call o k⟩ → MayPerform l n j o
  | _ => True

variable {X : Setup} {l l' : List TaskStep} {p : Pool Op Op.Res Server PeerTask}
  {n : ℕ} {j : PeerTask} {past : Past} {o : Op} {s : Server} {id : String}

theorem Run.orderly (hr : (peerTasks X).Run Server.Booted Orderly l p)
    (hx : (.step n j past o s :: l') <:+ l) : s.dbUp = true ∧ MayPerform l' n j o := by
  obtain ⟨p', c, p'', -, hc, ha, -, rfl⟩ := hr.before _ _ hx
  obtain ⟨k, hl⟩ := System.advance_step_live ha
  obtain rfl := System.advance_choice ha
  exact ⟨hc.1, hc.2 j past o k hl⟩

/-! ## The row -/

/-- The row of the peer says that it is blocked. -/
def Marked (P : Peers) (id : String) : Prop :=
  ∃ row, Database.getPeer P.db id = some row ∧ row.status = some 0

/-- A row with a status, which no item changes, stays. -/
theorem Run.row_status (hr : (peerTasks X).Run Server.Booted Orderly l p) {x : TaskStep}
    (hx : (x :: l') <:+ l) (hno : ¬ChangesFlag id x) {status : Option ℤ}
    (hrow : ∃ row, Database.getPeer x.pre.peers.db id = some row ∧ row.status = status) :
    ∃ row, Database.getPeer ((peerTasks X).post x).peers.db id = some row ∧
      row.status = status := by
  obtain ⟨row, hrow, hstatus⟩ := hrow
  obtain ⟨n, j, past, o, s, rfl, hperf, hpost⟩ | hpost | hpost := Run.item_peers hr hx
  · obtain ⟨G, hG, hknown⟩ := hperf.owned
    obtain ⟨row', hrow', -, -, hst⟩ := hG.row_kept hperf.rule (hperf.known hknown) s.dbUp hrow
      (fun heq => hno (by subst heq; rfl))
    rw [hpost]
    refine ⟨row', hrow', (hst fun status note heq => hno ?_).trans hstatus⟩
    subst heq
    rfl
  · exact ⟨row, by rw [hpost, hrow], hstatus⟩
  · exact ⟨row, by rw [hpost]; exact hrow, hstatus⟩

/-! ## Since a block -/

/-- The item by which task `n` writes to the database that `id` is blocked. -/
def blockItem (n : ℕ) (id : String) (note : Option String) (s : Server) : TaskStep :=
  .step n (.setPeerStatus id (some 0) note) [] (.dbSetPeerStatus id (some 0) note) s

/-- The block was written, and the flag was not changed in the items `after` it. -/
structure BlockStands (X : Setup) (id : String) (note : Option String) (s : Server)
    (after : List TaskStep) : Prop where
  wrote : (Op.sem X (.dbSetPeerStatus id (some 0) note) s).1 = some true
  quiet : ∀ x ∈ after, ¬ChangesFlag id x

variable {note : Option String} {after before : List TaskStep} {s₀ : Server} {m : ℕ}

theorem BlockStands.suffix (h : BlockStands X id note s₀ after) (hs : l' <:+ after) :
    BlockStands X id note s₀ l' :=
  ⟨h.wrote, fun x hx => h.quiet x (hs.subset hx)⟩

/-- The row says so ever since. -/
theorem BlockStands.marked (h : BlockStands X id note s₀ after)
    (hr : (peerTasks X).Run Server.Booted Orderly (after ++ blockItem n id note s₀ :: before) p) :
    Marked p.shared.peers id := by
  refine hr.carry (I := fun s => Marked s.peers id) ?_ fun a x b heq hx => ?_
  · have hperf := Run.performed hr ⟨after, rfl⟩
    have hpost : ((peerTasks X).post (blockItem n id note s₀)).peers =
        s₀.peers.act X s₀.dbUp (.dbSetPeerStatus id (some 0) note) := hperf.post
    have hwrote := h.wrote
    rw [dbSetPeerStatus_fst] at hwrote
    rw [hpost]
    split at hwrote
    · next hup =>
      obtain ⟨row, hmem, hid⟩ := List.any_eq_true.1 (Option.some.inj hwrote)
      obtain ⟨G, hG, -⟩ := hperf.owned
      have hrow : Database.getPeer s₀.peers.db id = some row :=
        (Database.getPeer_eq_some hG.ids).2 ⟨hmem, by simpa using hid⟩
      rw [hup]
      exact ⟨_, by rw [Peers.getPeer_setStatus, hrow]; rfl, by simp [show row.id = id by simpa using hid,
        Row.withStatus]⟩
    · cases hwrote
  · subst heq
    have hsuf : (x :: (b ++ blockItem n id note s₀ :: before)) <:+
        (a ++ x :: b) ++ blockItem n id note s₀ :: before := ⟨a, by simp⟩
    exact Run.row_status hr hsuf (h.quiet x (by simp)) hx

/-- What the database answers to a look-up that began since the block. -/
theorem BlockStands.lookedUp (h : BlockStands X id note s₀ after)
    (hr : (peerTasks X).Run Server.Booted Orderly l p)
    (hl : (after ++ blockItem n id note s₀ :: before) <:+ l) {answer : Option (Option Row)}
    (hlook : LookedUp X (System.calls m (after ++ blockItem n id note s₀ :: before)) id answer)
    (hnew : ∃ y ∈ after, CallsOp m (.mapGet id) y) :
    ∃ row, answer = some (some row) ∧ row.status = some 0 := by
  obtain ⟨s₁, s₂, h', hpast, -, hans⟩ := hlook
  -- the newest call of the task is among the items after the block
  have hne : System.calls m after ≠ [] := by
    obtain ⟨y, hy, hcall⟩ := hnew
    cases y with
    | step m' j past o s =>
      obtain ⟨rfl, rfl⟩ := hcall
      have hmem : ⟨.mapGet id, s⟩ ∈ System.calls m' after := System.mem_calls.2 ⟨j, past, hy⟩
      exact List.ne_nil_of_mem hmem
    | _ => cases hcall
  obtain ⟨c, cs, hcalls⟩ := List.exists_cons_of_ne_nil hne
  have hhead : c = ⟨.dbGetPeer id, s₁⟩ := by
    unfold System.calls at hpast hcalls
    rw [List.filterMap_append, hcalls, List.cons_append] at hpast
    exact (List.cons.inj hpast).1
  subst hhead
  obtain ⟨j, past', l₁, hz, -⟩ := System.calls_eq_cons hcalls
  obtain ⟨a, rfl⟩ := hz
  have hsuf : (.step m j past' (.dbGetPeer id) s₁ :: (l₁ ++ blockItem n id note s₀ :: before)) <:+
      l := List.IsSuffix.trans ⟨a, by simp⟩ hl
  have hl₁ : l₁ <:+ a ++ .step m j past' (.dbGetPeer id) s₁ :: l₁ :=
    ⟨a ++ [.step m j past' (.dbGetPeer id) s₁], by simp⟩
  obtain ⟨p', c, p'', hr', -, -, -, hpre⟩ := hr.before _ _ hsuf
  obtain ⟨row, hrow, hstatus⟩ := (h.suffix hl₁).marked hr'
  rw [hpre] at hrow
  have hrow' : Database.getPeer s₁.peers.db id = some row := hrow
  refine ⟨row, ?_, hstatus⟩
  rw [← hans, dbGetPeer_fst, (Run.orderly hr hsuf).1, hrow']
  rfl

/-- A cell of the peer stays blocked. -/
theorem BlockStands.cell_kept {x : TaskStep} {b : List TaskStep}
    (h : BlockStands X id note s₀ (x :: b)) (hr : (peerTasks X).Run Server.Booted Orderly l p)
    (hx : (x :: (b ++ blockItem n id note s₀ :: before)) <:+ l) {r : PeerRef}
    (hhas : ∀ G, Owned G x.pre.peers → (∀ m j past o s, .step m j past o s ∈
      b ++ blockItem n id note s₀ :: before → Known G x.pre.peers s o) → G.Has x.pre.peers id r)
    (hc : x.pre.peers.StatusIs r (some 0)) :
    ((peerTasks X).post x).peers.StatusIs r (some 0) := by
  obtain ⟨m, j, past, o, s, rfl, hperf, hpost⟩ | hpost | hpost := Run.item_peers hr hx
  · obtain ⟨G, hG, hknown⟩ := hperf.owned
    have hr' := hhas G hG hknown
    rw [hpost]
    refine Peers.statusIs_act hc hr'.lt (fun status heq => ?_) s.dbUp
    subst heq
    obtain ⟨id', note', s₁, s₂, rfl, hpast, hmap, -⟩ := hperf.rule
    -- the writer is a change of the flag of this very peer
    have hid : id' = id := by
      have hmem : ⟨.mapGet id', s₂⟩ ∈ past := by simp [hpast]
      exact ((hperf.known hknown _ hmem) r hmap).cell.symm.trans hr'.cell
    subst hid
    by_cases hm : m = n
    · subst hm
      have hjob := hr.job_unique.2 m _ _ _ _ _ _ _ _ (hx.subset List.mem_cons_self)
        (hx.subset (List.mem_cons_of_mem _ (List.mem_append_right _ List.mem_cons_self)))
      injection hjob
    · have hquiet := (Run.orderly hr hx).2 id' note' rfl
      obtain ⟨y, hy, hcall⟩ := hquiet.newer rfl (fun hcall => hm hcall.1.symm)
      refine absurd ?_ (h.quiet y (List.mem_cons_of_mem _ hy))
      cases y with
      | step m' j' past' o' s' =>
        obtain ⟨-, rfl⟩ := hcall
        rfl
      | _ => cases hcall
  · rw [hpost]
    exact hc
  · rw [hpost]
    exact hc

/-- An entry of the peer is blocked, or one of those that `D` excepts. -/
theorem BlockStands.entry_kept {x : TaskStep} {b : List TaskStep}
    (h : BlockStands X id note s₀ (x :: b)) (hr : (peerTasks X).Run Server.Booted Orderly l p)
    (hx : (x :: (b ++ blockItem n id note s₀ :: before)) <:+ l) {D : PeerRef → Prop}
    (hD : ∀ r, x.pre.peers.map id = some r → D r ∨ x.pre.peers.StatusIs r (some 0)) :
    ∀ r, ((peerTasks X).post x).peers.map id = some r →
      D r ∨ ((peerTasks X).post x).peers.StatusIs r (some 0) := by
  intro r hmap
  have hold : x.pre.peers.map id = some r →
      D r ∨ ((peerTasks X).post x).peers.StatusIs r (some 0) := by
    intro hmap
    exact (hD r hmap).imp_right fun hc => h.cell_kept hr hx (fun G hG _ => hG.map id r hmap) hc
  obtain ⟨m, j, past, o, s, rfl, hperf, hpost⟩ | hpost | hpost := Run.item_peers hr hx
  · have hsuf : (b ++ blockItem n id note s₀ :: before) <:+ l := (List.suffix_cons _ _).trans hx
    have hb := h.suffix (List.suffix_cons _ b)
    have hlook := hperf.rule
    have hmay := (Run.orderly hr hx).2
    rw [hpost] at hmap
    obtain hmap | ⟨row, rfl, hcell⟩ | ⟨rfl, hnone, hcell⟩ := Peers.act_map hmap
    · exact hold hmap
    · -- the look-up began after the block
      have hlook : LookedUp X past id (some (some row)) := hlook
      rw [hperf.past] at hlook
      obtain ⟨row', hrow', hstatus⟩ := hb.lookedUp hr hsuf hlook
        (System.Quiet.newer hmay rfl fun hcall => by cases hcall.2)
      obtain rfl := Option.some.inj (Option.some.inj hrow')
      exact .inr ⟨_, by rw [hpost]; exact hcell, hstatus⟩
    · obtain ⟨answer, hlook, hans⟩ := hlook
      rw [hperf.past] at hlook
      obtain ⟨row', hrow', -⟩ := hb.lookedUp hr hsuf hlook
        (System.Quiet.newer hmay rfl fun hcall => by cases hcall.2)
      exact absurd hrow' (hans row')
  · rw [hpost] at hmap
    exact hold hmap
  · rw [hpost] at hmap
    cases hmap

/-- What the entries of the peer are after an item since the block, they are still. -/
theorem BlockStands.entries {v : TaskStep} {late mid : List TaskStep}
    (h : BlockStands X id note s₀ (late ++ v :: mid))
    (hr : (peerTasks X).Run Server.Booted Orderly
      (late ++ v :: (mid ++ blockItem n id note s₀ :: before)) p) {D : PeerRef → Prop}
    (hv : ∀ r, ((peerTasks X).post v).peers.map id = some r →
      D r ∨ ((peerTasks X).post v).peers.StatusIs r (some 0)) :
    ∀ r, p.shared.peers.map id = some r → D r ∨ p.shared.peers.StatusIs r (some 0) := by
  refine hr.carry (I := fun s => ∀ r, s.peers.map id = some r →
    D r ∨ s.peers.StatusIs r (some 0)) hv fun a x b heq hx => ?_
  subst heq
  have hb : BlockStands X id note s₀ (x :: (b ++ v :: mid)) := h.suffix ⟨a, by simp⟩
  have hsuf : (x :: ((b ++ v :: mid) ++ blockItem n id note s₀ :: before)) <:+
      (a ++ x :: b) ++ v :: (mid ++ blockItem n id note s₀ :: before) := ⟨a, by simp⟩
  exact hb.entry_kept hr hsuf hx

/-- A cell that was the entry of the peer, blocked, is blocked still. -/
theorem BlockStands.cell {v : TaskStep} {late mid : List TaskStep} {r : PeerRef}
    (h : BlockStands X id note s₀ (late ++ v :: mid))
    (hr : (peerTasks X).Run Server.Booted Orderly
      (late ++ v :: (mid ++ blockItem n id note s₀ :: before)) p)
    (hv : ((peerTasks X).post v).peers.StatusIs r (some 0)) {s : Server}
    (hget : ∃ m j past, v = .step m j past (.mapGet id) s) (hmap : s.map id = some r) :
    p.shared.peers.StatusIs r (some 0) := by
  obtain ⟨m, j, past, rfl⟩ := hget
  refine hr.carry (I := fun s => s.peers.StatusIs r (some 0)) hv fun a x b heq hx => ?_
  subst heq
  have hb : BlockStands X id note s₀ (x :: (b ++ .step m j past (.mapGet id) s :: mid)) :=
    h.suffix ⟨a, by simp⟩
  have hsuf : (x :: ((b ++ .step m j past (.mapGet id) s :: mid) ++
      blockItem n id note s₀ :: before)) <:+ (a ++ x :: b) ++ .step m j past (.mapGet id) s ::
        (mid ++ blockItem n id note s₀ :: before) := ⟨a, by simp⟩
  refine hb.cell_kept hr hsuf (fun G _ hknown => ?_) hx
  exact hknown m j past (.mapGet id) s (by simp) r hmap

/-- The last item of a change of the status of `id` by task `n`: there is no entry, or it is
written. -/
def Returns (n : ℕ) (id : String) : TaskStep → Prop
  | .step m _ _ (.mapGet id') s => m = n ∧ id' = id ∧ s.map id = none
  | .step m _ _ (.writeStatus _ _) _ => m = n
  | _ => False

/-- Once the block has returned, an entry of the peer is blocked. -/
theorem BlockStands.blocked {i : TaskStep} {late mid : List TaskStep}
    (h : BlockStands X id note s₀ (late ++ i :: mid))
    (hr : (peerTasks X).Run Server.Booted Orderly
      (late ++ i :: (mid ++ blockItem n id note s₀ :: before)) p) (hi : Returns n id i) :
    ∀ r, p.shared.peers.map id = some r → p.shared.peers.StatusIs r (some 0) := by
  have hend : ∀ r, ((peerTasks X).post i).peers.map id = some r →
      False ∨ ((peerTasks X).post i).peers.StatusIs r (some 0) := by
    cases i with
    | step m j past o s =>
      cases o with
      | mapGet id' =>
        obtain ⟨-, rfl, hnone⟩ := hi
        intro r hmap
        have hmap' : s.map id' = some r := hmap
        cases hnone.symm.trans hmap'
      | writeStatus r₀ status =>
        obtain rfl : m = n := hi
        have hsuf : (.step m j past (.writeStatus r₀ status) s ::
            (mid ++ blockItem m id note s₀ :: before)) <:+
            late ++ .step m j past (.writeStatus r₀ status) s ::
              (mid ++ blockItem m id note s₀ :: before) := ⟨late, rfl⟩
        have hperf := Run.performed hr hsuf
        obtain ⟨G, hG, hknown⟩ := hperf.owned
        obtain ⟨id', note', s₁, s₂, rfl, hpast, hmap, -⟩ := hperf.rule
        have hjob := hr.job_unique.2 m _ _ _ _ _ _ _ _ (hsuf.subset List.mem_cons_self)
          (hsuf.subset (List.mem_cons_of_mem _ (List.mem_append_right _ List.mem_cons_self)))
        obtain ⟨rfl, rfl, rfl⟩ := PeerTask.setPeerStatus.inj hjob
        -- the task looked into the map after its write to the database
        have hcalls : System.calls m (mid ++ blockItem m id' note' s₀ :: before) =
            [⟨.mapGet id', s₂⟩, ⟨.dbSetPeerStatus id' (some 0) note', s₁⟩] :=
          hperf.past.symm.trans hpast
        have hmid : ∃ cs, System.calls m mid = ⟨.mapGet id', s₂⟩ :: cs := by
          unfold System.calls at hcalls ⊢
          rw [List.filterMap_append] at hcalls
          cases hm : mid.filterMap (Item.callOf m) with
          | nil =>
            rw [hm, List.nil_append, blockItem, List.filterMap_cons] at hcalls
            simp [Item.callOf] at hcalls
          | cons c cs =>
            rw [hm, List.cons_append] at hcalls
            exact ⟨cs, by rw [(List.cons.inj hcalls).1]⟩
        obtain ⟨cs, hmid⟩ := hmid
        obtain ⟨j', past', l₁, ⟨a, rfl⟩, -⟩ := System.calls_eq_cons hmid
        obtain ⟨p', c, p'', hr', -, -, -, hpre⟩ := hr.before _ _ hsuf
        have hb : BlockStands X id' note' s₀ (a ++ .step m j' past' (.mapGet id') s₂ :: l₁) :=
          h.suffix ⟨late ++ [.step m (.setPeerStatus id' (some 0) note') past
            (.writeStatus r₀ (some 0)) s], by simp⟩
        have hr₁ : (peerTasks X).Run Server.Booted Orderly (a ++ .step m j' past' (.mapGet id') s₂ ::
            (l₁ ++ blockItem m id' note' s₀ :: before)) p' := by
          simpa using hr'
        have hent := hb.entries (D := (· = r₀)) hr₁
          fun r hr => .inl (Option.some.inj (hr.symm.trans hmap))
        rw [hpre] at hent
        have hb' : BlockStands X id' note' s₀ (.step m (.setPeerStatus id' (some 0) note') past
            (.writeStatus r₀ (some 0)) s :: (a ++ .step m j' past' (.mapGet id') s₂ :: l₁)) :=
          h.suffix ⟨late, rfl⟩
        intro r hmap'
        refine .inr ((hb'.entry_kept hr hsuf hent r hmap').elim ?_ fun hst => hst)
        rintro rfl
        have hpost : ((peerTasks X).post (.step m (.setPeerStatus id' (some 0) note') past
            (.writeStatus r (some 0)) s)).peers = s.peers.act X s.dbUp (.writeStatus r (some 0)) :=
          hperf.post
        have hmem : ⟨.mapGet id', s₂⟩ ∈ past := by simp [hpast]
        obtain ⟨c, hc⟩ := Option.isSome_iff_exists.1 ((hperf.known hknown _ hmem) r hmap).isSome
        rw [hpost]
        exact ⟨_, Peers.modify_cells_self hc _, rfl⟩
      | _ => cases hi
    | _ => cases hi
  intro r hmap
  exact (h.entries hr hend r hmap).resolve_left fun hf => hf

/-! ## Checks of the flag -/

theorem isPeerBlocked_exec {h new : Past} {b : Bool}
    (he : (isPeerBlocked id).Exec (Op.sem X) h (new ++ h) b) : ∃ s₁ s₂,
      (∃ r, s₁.map id = some r ∧ new = [⟨.readPeer r, s₂⟩, ⟨.mapGet id, s₁⟩] ∧
        b = ((s₂.cell r).status == some 0)) ∨
      s₁.map id = none ∧ new = [⟨.dbGetPeer id, s₂⟩, ⟨.mapGet id, s₁⟩] ∧
        (s₂.dbUp = true → b = (storedStatus s₂.db id == some 0)) := by
  obtain ⟨h₁, status, hstat, hh, rfl⟩ := exec_bind.1 he
  subst hh
  unfold peerStatus getInMemory at hstat
  obtain ⟨h₂, r, ⟨s₁, rfl, rfl⟩, hstat⟩ := exec_bind.1 hstat
  cases hmap : s₁.map id with
  | some r =>
    simp only [Op.sem, hmap] at hstat
    obtain ⟨s₂, hcalls, rfl⟩ := hstat
    have hnew : new = [⟨.readPeer r, s₂⟩, ⟨.mapGet id, s₁⟩] := List.append_cancel_right hcalls
    exact ⟨s₁, s₂, .inl ⟨r, hmap, hnew, by simp [Op.sem]⟩⟩
  | none =>
    simp only [Op.sem, hmap] at hstat
    obtain ⟨s₂, hstat⟩ := hstat
    simp only [Op.sem, Server.query, bind_eq, ret_bind] at hstat
    refine ⟨s₁, s₂, .inr ⟨hmap, ?_, fun hup => ?_⟩⟩
    · split at hstat <;> exact List.append_cancel_right hstat.1
    · rw [hup] at hstat
      simp only [if_true] at hstat
      obtain ⟨-, rfl⟩ := hstat
      simp [storedStatus]

/-- Consecutive calls of a task, as items. -/
theorem calls_pair {l : List TaskStep} {c₁ c₂ : Call Op Server}
    (h : [c₂, c₁] <:+: System.calls m l) : ∃ j j' past past' l₁ l₂,
      (.step m j past c₂.op c₂.pre :: l₂) <:+ l ∧ (.step m j' past' c₁.op c₁.pre :: l₁) <:+ l₂ := by
  obtain ⟨u, v, huv⟩ := h
  have hcalls : l.filterMap (Item.callOf m) = u ++ (c₂ :: c₁ :: v) := by
    simpa [System.calls] using huv.symm
  obtain ⟨a, b, rfl, -, hb⟩ := List.filterMap_eq_append_iff.1 hcalls
  obtain ⟨j, past, l₂, hs₂, hl₂⟩ := System.calls_eq_cons (n := m) (l := b) hb
  obtain ⟨j', past', l₁, hs₁, -⟩ := System.calls_eq_cons hl₂
  exact ⟨j, j', past, past', l₁, l₂, hs₂.trans ⟨a, rfl⟩, hs₁⟩

/-- Every check that began after the block had returned finds the peer blocked. -/
theorem BlockStands.checked {i : TaskStep} {late mid : List TaskStep}
    (h : BlockStands X id note s₀ (late ++ i :: mid))
    (hr : (peerTasks X).Run Server.Booted Orderly
      (late ++ i :: (mid ++ blockItem n id note s₀ :: before)) p) (hi : Returns n id i)
    {new past : Past} {b : Bool} (hnew : new <:+: System.calls m late)
    (he : (isPeerBlocked id).Exec (Op.sem X) past (new ++ past) b) : b = true := by
  obtain ⟨s₁, s₂, ⟨r, hmap, rfl, rfl⟩ | ⟨hmap, rfl, hb⟩⟩ := isPeerBlocked_exec he
  · obtain ⟨j₂, j₁, past₂, past₁, l₁, l₂, ⟨a₂, rfl⟩, ⟨a₁, rfl⟩⟩ := calls_pair hnew
    generalize hx₁ : (.step m j₁ past₁ (.mapGet id) s₁ : TaskStep) = x₁ at *
    generalize hx₂ : (.step m j₂ past₂ (.readPeer r) s₂ : TaskStep) = x₂ at *
    -- the entry that was found was blocked, and is blocked when it is read
    have hsuf₁ : (x₁ :: (l₁ ++ i :: (mid ++ blockItem n id note s₀ :: before))) <:+
        (a₂ ++ x₂ :: (a₁ ++ x₁ :: l₁)) ++ i :: (mid ++ blockItem n id note s₀ :: before) :=
      ⟨a₂ ++ x₂ :: a₁, by simp⟩
    have hsuf₂ : (x₂ :: (a₁ ++ x₁ :: (l₁ ++ i :: mid ++ blockItem n id note s₀ :: before))) <:+
        (a₂ ++ x₂ :: (a₁ ++ x₁ :: l₁)) ++ i :: (mid ++ blockItem n id note s₀ :: before) :=
      ⟨a₂, by simp⟩
    obtain ⟨p₁, c₁, p₁', hr₁, -, -, -, hpre₁⟩ := hr.before _ _ hsuf₁
    obtain ⟨p₂, c₂, p₂', hr₂, -, -, -, hpre₂⟩ := hr.before _ _ hsuf₂
    subst hx₁ hx₂
    simp only [Item.pre] at hpre₁ hpre₂
    have hfound : s₁.peers.StatusIs r (some 0) := by
      rw [← hpre₁]
      refine (h.suffix ⟨a₂ ++ .step m j₂ past₂ (.readPeer r) s₂ :: (a₁ ++
        [.step m j₁ past₁ (.mapGet id) s₁]), by simp⟩ :
        BlockStands X id note s₀ (l₁ ++ i :: mid)).blocked hr₁ hi r ?_
      rw [hpre₁]
      exact hmap
    have hread := (h.suffix ⟨a₂ ++ [.step m j₂ past₂ (.readPeer r) s₂], by simp⟩ :
      BlockStands X id note s₀ (a₁ ++ .step m j₁ past₁ (.mapGet id) s₁ :: (l₁ ++ i :: mid))).cell
      hr₂ hfound ⟨m, j₁, past₁, rfl⟩ hmap
    rw [hpre₂] at hread
    obtain ⟨c, hc, hstatus⟩ := hread
    have hcell : (s₂.cell r).status = some 0 :=
      (congrArg Stored.status (stored_cell hc)).trans hstatus
    simp [hcell]
  · obtain ⟨j₂, j₁, past₂, past₁, l₁, l₂, ⟨a₂, rfl⟩, -⟩ := calls_pair hnew
    have hsuf : (.step m j₂ past₂ (.dbGetPeer id) s₂ ::
        ((l₂ ++ i :: mid) ++ blockItem n id note s₀ :: before)) <:+
        (a₂ ++ .step m j₂ past₂ (.dbGetPeer id) s₂ :: l₂) ++
          i :: (mid ++ blockItem n id note s₀ :: before) := ⟨a₂, by simp⟩
    obtain ⟨p₂, c₂, p₂', hr₂, -, -, -, hpre₂⟩ := hr.before _ _ hsuf
    obtain ⟨row, hrow, hstatus⟩ := (h.suffix
      ⟨a₂ ++ [.step m j₂ past₂ (.dbGetPeer id) s₂], by simp⟩ :
      BlockStands X id note s₀ (l₂ ++ i :: mid)).marked hr₂
    rw [hpre₂] at hrow
    have hrow' : Database.getPeer s₂.db id = some row := hrow
    rw [hb (Run.orderly hr hsuf).1]
    simp [storedStatus, hrow', hstatus]

/-! ## Entries that are made -/

theorem ChangesFlag.disturbs {x : TaskStep} (h : ChangesFlag id x) : Disturbs id x := by
  cases x with
  | step n j past o s => cases o <;> first | exact h | cases h
  | _ => cases h

/-- Without an item that enters it, a peer that is not in the map stays out of it. -/
theorem Run.map_none (hr : (peerTasks X).Run Server.Booted Orderly l p) {x : TaskStep}
    (hx : (x :: l') <:+ l) (hno : ¬Disturbs id x) (hnone : x.pre.peers.map id = none) :
    ((peerTasks X).post x).peers.map id = none := by
  obtain ⟨n, j, past, o, s, rfl, -, hpost⟩ | hpost | hpost := Run.item_peers hr hx
  · rw [hpost]
    cases hmap : (s.peers.act X s.dbUp o).map id with
    | none => rfl
    | some r =>
      obtain hmap | ⟨row, rfl, -⟩ | ⟨rfl, -, -⟩ := Peers.act_map hmap
      · cases hnone.symm.trans hmap
      · exact absurd rfl hno
      · exact absurd rfl hno
  · rw [hpost]
    exact hnone
  · rw [hpost]
    rfl

/-- An entry a look-up makes replaces none, and carries the status of a row that is there. -/
theorem Run.install_current (hr : (peerTasks X).Run Server.Booted Orderly l p) {row : Row}
    (hx : (.step n j past (.mapInstall id row) s :: l') <:+ l) :
    s.map id = none ∧ ∃ row', Database.getPeer s.db id = some row' ∧ row'.status = row.status := by
  have hperf := Run.performed hr hx
  have hquiet := (Run.orderly hr hx).2
  obtain ⟨s₁, s₂, h', hpast, hnone, hans⟩ := hperf.rule
  rw [hperf.past] at hpast
  -- the look-up of the map is the newest call of its kind, and all is quiet since
  have hmem : ∃ j past, .step n j past (.mapGet id) s₂ ∈ l' := by
    have hc : ⟨.mapGet id, s₂⟩ ∈ System.calls n l' := by simp [hpast]
    exact System.mem_calls.1 hc
  obtain ⟨j₂, past₂, hmem⟩ := hmem
  obtain ⟨new, v, old, rfl, hv, hnew⟩ := hquiet.split hmem ⟨rfl, rfl⟩
  cases v with
  | step m jv pastv ov sv =>
    obtain ⟨rfl, rfl⟩ := hv
    have hsplit : System.calls m new ++ ⟨.mapGet id, sv⟩ :: System.calls m old =
        ⟨.dbGetPeer id, s₁⟩ :: ⟨.mapGet id, s₂⟩ :: h' := by
      rw [← hpast]
      simp [System.calls, Item.callOf]
    have hcalls : System.calls m new = [⟨.dbGetPeer id, s₁⟩] ∧ sv = s₂ := by
      cases hm : System.calls m new with
      | nil => simp [hm] at hsplit
      | cons c cs =>
        rw [hm] at hsplit
        injection hsplit with hc hrest
        cases cs with
        | nil =>
          injection hrest with hd
          injection hd with _ hs
          exact ⟨by rw [hc], hs⟩
        | cons d cs =>
          injection hrest with hd
          have hin : d ∈ System.calls m new := by simp [hm]
          obtain ⟨j₃, past₃, hin⟩ := System.mem_calls.1 hin
          exact absurd ⟨rfl, congrArg Call.op hd⟩ (hnew _ hin).1
    obtain ⟨hcalls, rfl⟩ := hcalls
    obtain ⟨j₁, past₁, l₁, ⟨a, rfl⟩, -⟩ := System.calls_eq_cons hcalls
    obtain ⟨p', c, p'', hr', -, -, -, rfl⟩ := hr.before _ _ hx
    refine ⟨?_, ?_⟩
    · refine hr'.carry (I := fun s => s.peers.map id = none) hnone fun b x d heq hpre => ?_
      have hsuf : (x :: (d ++ .step m jv pastv (.mapGet id) sv :: old)) <:+
          (a ++ .step m j₁ past₁ (.dbGetPeer id) s₁ :: l₁) ++
            .step m jv pastv (.mapGet id) sv :: old := ⟨b, by rw [heq]; simp⟩
      exact Run.map_none hr' hsuf (hnew x (by rw [heq]; simp)).2 hpre
    · have hr₁ : (peerTasks X).Run Server.Booted Orderly (a ++ .step m j₁ past₁ (.dbGetPeer id) s₁ ::
          (l₁ ++ .step m jv pastv (.mapGet id) sv :: old)) p' := by
        simpa using hr'
      refine hr₁.carry (I := fun s => ∃ row', Database.getPeer s.peers.db id = some row' ∧
        row'.status = row.status) ?_ fun b x d heq hpre => ?_
      · have hpost : ((peerTasks X).post (.step m j₁ past₁ (.dbGetPeer id) s₁)).peers =
            s₁.peers.act X s₁.dbUp (.dbGetPeer id) := (Run.performed hr₁ ⟨a, rfl⟩).post
        rw [dbGetPeer_fst] at hans
        rw [hpost]
        split at hans
        · exact ⟨row, Option.some.inj hans, rfl⟩
        · cases hans
      · subst heq
        have hsuf : (x :: (d ++ .step m j₁ past₁ (.dbGetPeer id) s₁ ::
            (l₁ ++ .step m jv pastv (.mapGet id) sv :: old))) <:+ (b ++ x :: d) ++
            .step m j₁ past₁ (.dbGetPeer id) s₁ ::
              (l₁ ++ .step m jv pastv (.mapGet id) sv :: old) := ⟨b, by simp⟩
        exact Run.row_status hr₁ hsuf (fun hch => (hnew x (by simp)).2 hch.disturbs) hpre
  | _ => cases hv

/-! ## The law -/

/-- With the database up and no task overtaken: once a block of a peer has returned, every check
that begins later finds the peer blocked, as long as nobody writes another status or deletes it;
and an entry that a look-up makes replaces none, and carries the status of a row that is there. -/
theorem block_flag_coherent (X : Setup) (l : List TaskStep)
    (p : Pool Op Op.Res Server PeerTask) (hr : (peerTasks X).Run Server.Booted Orderly l p) :
    (∀ n id note s late i mid before,
      l = late ++ i :: (mid ++ blockItem n id note s :: before) →
      BlockStands X id note s (late ++ i :: mid) → Returns n id i →
      ∀ m past new blocked, new <:+: System.calls m late →
        (isPeerBlocked id).Exec (Op.sem X) past (new ++ past) blocked → blocked = true) ∧
    ∀ n j past id row s l', (.step n j past (.mapInstall id row) s :: l') <:+ l →
      s.map id = none ∧
        ∃ row', Database.getPeer s.db id = some row' ∧ row'.status = row.status := by
  refine ⟨?_, fun n j past id row s l' hx => Run.install_current hr hx⟩
  intro n id note s late i mid before hl h hi m past new blocked hnew he
  subst hl
  exact h.checked hr hi hnew he

/-! ## A look-up that is overtaken -/

/-- The database is up. -/
def DbUp (_ : List TaskStep) (p : Pool Op Op.Res Server PeerTask) (_ : Choice PeerTask Env) :
    Prop := p.shared.dbUp = true

namespace Sample

/-- A peer nobody has blocked. -/
def openRow : Row := ⟨0, "target1", [1], [1], "", none, none, none⟩

def openServer : Server := { server [] with db := [openRow], uuids := 1 }

theorem openServer_booted : openServer.Booted where
  tcpPunch := rfl
  pendingRelay := rfl
  tcpPeers := rfl
  map := rfl
  cells := rfl
  conns := rfl
  ids := by decide
  guids := by decide
  guid_lt := by decide
  id_len := by decide
  uuid_ne := by decide

abbrev tasks : System Op Op.Res Server PeerTask Env := peerTasks (setup .offer false)

def block : PeerTask := .setPeerStatus "target1" (some 0) none

/-- The peer is blocked, and looked at. -/
def blockThenCheck : List (Choice PeerTask Env) :=
  [.start block, .step 0, .step 0, .start (.isPeerBlocked "target1"), .step 1, .step 1]

/-- A look-up reads the row, the peer is blocked, the look-up enters what it read, and the peer is
looked at. -/
def overtaken : List (Choice PeerTask Env) :=
  [.start (.get "target1"), .step 0, .step 0, .start block, .step 1, .step 1, .step 0,
    .start (.isPeerBlocked "target1"), .step 2, .step 2]

/-- The server after the block is written, and after the stale entry is made. -/
def marked : Server :=
  (Op.sem (setup .offer false) (.dbSetPeerStatus "target1" (some 0) none) openServer).2

def stale : Server := (Op.sem (setup .offer false) (.mapInstall "target1" openRow) marked).2

/-- The operation is one that any task may perform at any time. -/
def free : Op → Bool
  | .mapInstall _ _ => false
  | .mapGetOrInsert _ => false
  | .writeStatus _ _ => false
  | _ => true

def mayStep (p : Pool Op Op.Res Server PeerTask) : Choice PeerTask Env → Bool
  | .step n => p.shared.dbUp && match p.live n with
    | some ⟨_, _, .call o _⟩ => free o
    | _ => true
  | _ => true

theorem orderly_of_mayStep (l : List TaskStep) (p : Pool Op Op.Res Server PeerTask)
    (c : Choice PeerTask Env) (h : mayStep p c = true) : Orderly l p c := by
  cases c with
  | step n =>
    obtain ⟨hup, hfree⟩ := Bool.and_eq_true_iff.1 h
    refine ⟨hup, fun j past o k hl => ?_⟩
    rw [hl] at hfree
    cases o <;> trivial
  | _ => trivial

def isUp (p : Pool Op Op.Res Server PeerTask) (_ : Choice PeerTask Env) : Bool := p.shared.dbUp

theorem dbUp_of_isUp (l : List TaskStep) (p : Pool Op Op.Res Server PeerTask)
    (c : Choice PeerTask Env) (h : isUp p c = true) : DbUp l p c := h

end Sample

open Sample in
theorem block_flag_coherent_blocked : ∃ l p, tasks.Run Server.Booted Orderly l p ∧
    (∃ late i mid before,
      l = late ++ i :: (mid ++ blockItem 0 "target1" none openServer :: before) ∧
      BlockStands (setup .offer false) "target1" none openServer (late ++ i :: mid) ∧
      Returns 0 "target1" i) ∧
    ∀ n id note s late i mid before,
      l = late ++ i :: (mid ++ blockItem n id note s :: before) →
      BlockStands (setup .offer false) id note s (late ++ i :: mid) → Returns n id i →
      ∀ m past new blocked, new <:+: System.calls m late →
        (isPeerBlocked id).Exec (Op.sem (setup .offer false)) past (new ++ past) blocked →
        blocked = true := by
  have hrun := (System.Run.boot openServer_booted).execIf
    (fun l p c _ => orderly_of_mayStep l p c) blockThenCheck
    (S := tasks)
  refine ⟨_, _, hrun, ?_, (block_flag_coherent (setup .offer false) _ _ hrun).1⟩
  refine ⟨[_, _, _], _, [], [_], rfl, ⟨rfl, ?_⟩, rfl, rfl, rfl⟩
  intro x hx
  simp only [List.mem_append, List.mem_cons, List.not_mem_nil, or_false] at hx
  rcases hx with (rfl | rfl | rfl) | rfl <;> exact fun h => h

open Sample in
/-- The block has returned, nobody has changed the flag since, and the peer is not blocked. -/
theorem not_block_flag_coherent : ¬∀ l p, tasks.Run Server.Booted DbUp l p →
    ∀ n id note s late i mid before,
      l = late ++ i :: (mid ++ blockItem n id note s :: before) →
      BlockStands (setup .offer false) id note s (late ++ i :: mid) → Returns n id i →
      ∀ m past new blocked, new <:+: System.calls m late →
        (isPeerBlocked id).Exec (Op.sem (setup .offer false)) past (new ++ past) blocked →
        blocked = true := by
  intro h
  have hrun := (System.Run.boot openServer_booted).execIf (S := tasks)
    (fun l p c _ => dbUp_of_isUp l p c) overtaken
  have hfalse := h _ _ hrun 1 "target1" none openServer [_, _, _, _] _ [] [_, _, _, _] rfl
    ⟨rfl, fun x hx => ?_⟩ ⟨rfl, rfl, rfl⟩ 2 []
    [⟨.readPeer 0, stale⟩, ⟨.mapGet "target1", stale⟩] false ⟨[], [], rfl⟩
    ⟨stale, stale, rfl, rfl⟩
  · cases hfalse
  · simp only [List.mem_append, List.mem_cons, List.not_mem_nil, or_false] at hx
    rcases hx with (rfl | rfl | rfl | rfl) | rfl <;> exact fun h => h

end NemoServer
