import NemoServer.Laws.Coherence
import NemoServer.Server.Registering

/-!
# What a registration was told

Every interleaving of the tasks of the peer map, with a database that fails at any time. A
registration checks the uuid of its peer, writes to the entry, and writes to the database in steps
of their own, and it is answered whether or not the last one succeeds. As long as no task comes
between them (`Uncontested`), the first uuid that is confirmed for a peer is the only one until the
peer is deleted.
-/

set_option autoImplicit false

namespace NemoServer

open Prog PeerMap Rendezvous

/-! ## What the peers say of a uuid -/

namespace Peers

/-- The row of the peer carries the uuid. -/
def StoredAs (P : Peers) (id : String) (u : Bytes) : Prop :=
  ∃ row, Database.getPeer P.db id = some row ∧ row.uuid = u

/-- The entry `r` carries the uuid. -/
def Carries (P : Peers) (r : PeerRef) (u : Bytes) : Prop :=
  r < P.nextCell ∧ ∃ c, P.cells r = some c ∧ c.uuid = u

/-- The entry `r` is the one of the peer in the map, or carries the uuid of its row. -/
def Current (P : Peers) (id : String) (r : PeerRef) : Prop :=
  r < P.nextCell ∧ (P.map id = some r ∨ ∃ u, P.StoredAs id u ∧ P.Carries r u)

/-- Entries carry the uuids of their rows. -/
structure Pinned (P : Peers) : Prop where
  agree : ∀ id r u, P.map id = some r → P.StoredAs id u → P.Carries r u
  nonempty : ∀ id u, P.StoredAs id u → u ≠ []

/-- From `P` to `P'`, what is known of the uuid of the peer stays true. -/
structure Steady (id : String) (P P' : Peers) : Prop where
  storedAs : ∀ u, P.StoredAs id u → P'.StoredAs id u
  carries : ∀ r u, u ≠ [] → P.Carries r u → P'.Carries r u
  current : ∀ r, P.Current id r → P'.Current id r

variable {X : Setup} {P P' : Peers} {id : String} {r : PeerRef} {u v : Bytes}

theorem StoredAs.unique (h : P.StoredAs id u) (h' : P.StoredAs id v) : u = v := by
  obtain ⟨row, hrow, rfl⟩ := h
  obtain ⟨row', hrow', rfl⟩ := h'
  rw [Option.some.inj (hrow.symm.trans hrow')]

theorem Carries.unique (h : P.Carries r u) (h' : P.Carries r v) : u = v := by
  obtain ⟨-, c, hc, rfl⟩ := h
  obtain ⟨-, c', hc', rfl⟩ := h'
  rw [Option.some.inj (hc.symm.trans hc')]

theorem storedAs_of_isSome (h : (Database.getPeer P.db id).isSome = true) :
    ∃ u, P.StoredAs id u := by
  obtain ⟨row, hrow⟩ := Option.isSome_iff_exists.1 h
  exact ⟨row.uuid, row, hrow, rfl⟩

/-- A current entry carries the uuid of the row, if there is one. -/
theorem Current.carries (h : P.Current id r) (hp : P.Pinned) (hs : P.StoredAs id u) :
    P.Carries r u := by
  obtain ⟨-, hmap | ⟨v, hv, hc⟩⟩ := h
  · exact hp.agree id r u hmap hs
  · exact hv.unique hs ▸ hc

theorem carries_modify {q : PeerRef} {f : Stored → Stored} (h : P.Carries r u)
    (hf : q = r → ∀ c, c.uuid = u → (f c).uuid = u) : (P.modify q f).Carries r u := by
  obtain ⟨hlt, c, hc, hu⟩ := h
  by_cases hq : r = q
  · subst hq
    exact ⟨hlt, f c, modify_cells_self hc f, hf rfl c hu⟩
  · exact ⟨hlt, c, (modify_cells_of_ne hq f).trans hc, hu⟩

theorem carries_install {c : Stored} (h : P.Carries r u) : (P.install id c).Carries r u := by
  obtain ⟨hlt, c', hc, hu⟩ := h
  exact ⟨Nat.lt_succ_of_lt hlt, c', (Table.insert_of_ne _ _ (Nat.ne_of_lt hlt)).trans hc, hu⟩

/-- The uuid of an entry changes only by being written. -/
theorem carries_act {o : Op} (h : P.Carries r u)
    (ho : ∀ addr uuid pk ip, o = .writePk r addr uuid pk ip → uuid = u) (up : Bool) :
    (P.act X up o).Carries r u := by
  cases o with
  | mapInstall id row => exact carries_install h
  | mapGetOrInsert id =>
    simp only [act]
    split
    · exact h
    · exact carries_install h
  | writePk q addr uuid pk ip =>
    exact carries_modify h fun hq _ _ => ho addr uuid pk ip (by rw [hq])
  | writeGuid q guid => exact carries_modify h fun _ _ hu => hu
  | writeStatus q status => exact carries_modify h fun _ _ hu => hu
  | _ => exact h

theorem nextCell_le_act (P : Peers) (o : Op) (up : Bool) : P.nextCell ≤ (P.act X up o).nextCell := by
  cases o with
  | mapInstall id row => exact Nat.le_succ _
  | mapGetOrInsert id =>
    simp only [act]
    split
    · exact le_rfl
    · exact Nat.le_succ _
  | _ => exact le_rfl

end Peers

namespace Owned

variable {X : Setup} {G : Owners} {P : Peers} {j : PeerTask} {past : Past} {o : Op} {id : String}
  {u : Bytes}

/-- A row keeps its uuid until it is deleted. -/
theorem storedAs_act (h : Owned G P) (hrule : TaskRule X j past o)
    (hpast : ∀ x ∈ past, Known G P x.pre x.op) (up : Bool) (hs : P.StoredAs id u)
    (hdel : o ≠ .dbDeletePeer id) : (P.act X up o).StoredAs id u := by
  obtain ⟨row, hrow, rfl⟩ := hs
  obtain ⟨row', hrow', -, huuid, -⟩ := h.row_kept hrule hpast up hrow hdel
  exact ⟨row', hrow', huuid⟩

/-- A row is there already, or it is inserted where there was none. -/
theorem storedAs_of_act (h : Owned G P) (hrule : TaskRule X j past o)
    (hpast : ∀ x ∈ past, Known G P x.pre x.op) {up : Bool} (hs : (P.act X up o).StoredAs id u) :
    P.StoredAs id u ∨ (∃ pk info, o = .dbInsertPeer id u pk info) ∧
      Database.getPeer P.db id = none := by
  cases up with
  | false =>
    cases o with
    | mapGetOrInsert id' =>
      simp only [Peers.act] at hs
      split at hs <;> exact .inl hs
    | _ => exact .inl hs
  | true =>
    cases o with
    | mapGetOrInsert id' =>
      simp only [Peers.act] at hs
      split at hs <;> exact .inl hs
    | dbInsertPeer id' uuid pk info =>
      simp only [Peers.act, if_true, Database.insertPeer] at hs
      split at hs
      · exact .inl hs
      · obtain ⟨row, hrow, rfl⟩ := hs
        simp only [Option.getD_some, Database.getPeer_append] at hrow
        cases hold : Database.getPeer P.db id with
        | some row' =>
          rw [hold, Option.some_or] at hrow
          exact .inl ⟨row, hold.trans hrow, rfl⟩
        | none =>
          rw [hold, Option.none_or, Database.getPeer, List.find?_singleton] at hrow
          obtain ⟨hid, hrow⟩ := Option.ite_none_right_eq_some.1 hrow
          obtain rfl := Option.some.inj hrow
          obtain rfl : id' = id := eq_of_beq hid
          exact .inr ⟨⟨pk, info, rfl⟩, rfl⟩
    | dbUpdatePk guid id' pk info =>
      obtain ⟨rk, a, r, -, rfl, -, hwrote⟩ := hrule
      obtain ⟨-, hg⟩ := (hwrote.owner hpast).2 guid rfl
      simp only [Peers.act, if_true, Database.updatePk] at hs
      split at hs
      · exact .inl hs
      · obtain ⟨row, hrow, rfl⟩ := hs
        rw [Option.getD_some, Database.getPeer_map] at hrow
        · obtain ⟨row', hrow', rfl⟩ := Option.map_eq_some_iff.1 hrow
          refine .inl ⟨row', hrow', ?_⟩
          split <;> rfl
        · intro row' hrow'
          split
          · next hrg => rw [← (h.row row' hrow').2, hrg, hg]
          · rfl
    | dbSetPeerStatus id' status note =>
      obtain ⟨row, hrow, rfl⟩ := hs
      rw [Peers.getPeer_setStatus] at hrow
      obtain ⟨row', hrow', rfl⟩ := Option.map_eq_some_iff.1 hrow
      refine .inl ⟨row', hrow', ?_⟩
      split <;> rfl
    | dbSetManagementPolicy id' policy => cases hrule
    | dbDeletePeer id' =>
      obtain ⟨row, hrow, rfl⟩ := hs
      have hids : ((P.act X true (.dbDeletePeer id')).db.map (·.id)).Nodup :=
        h.ids.sublist (List.filter_sublist.map _)
      obtain ⟨hmem, hid⟩ := (Database.getPeer_eq_some hids).1 hrow
      exact .inl ⟨row, (Database.getPeer_eq_some h.ids).2 ⟨(List.mem_filter.1 hmem).1, hid⟩, rfl⟩
    | _ => exact .inl hs

end Owned

/-! ## Order -/

/-- The item is a look of task `n` for the peer. -/
def Looks (n : ℕ) (id : String) (i : TaskStep) : Prop := ∃ c, i.callOf n = some c ∧ IsLook id c

/-- The item deletes the peer: its row, or its entry in the map. -/
def Deletes (X : Setup) (id : String) : TaskStep → Prop
  | .step _ _ _ (.dbDeletePeer id') s => id' = id ∧ (Op.sem X (.dbDeletePeer id') s).1 = some true
  | .step _ _ _ (.mapRemove id') _ => id' = id
  | _ => False

/-- The item deletes the peer, or stops every task. -/
def Overtakes (X : Setup) (id : String) : TaskStep → Prop
  | .crash _ => True
  | i => Deletes X id i

/-- Since its last look for the peer, task `n` has not been overtaken. -/
def Undisturbed (X : Setup) (n : ℕ) (id : String) (l : List TaskStep) : Prop :=
  System.Quiet (Looks n id) (Overtakes X id) l

/-- After the history `l`, task `n` may perform the operation. What a look-up enters in the map is
what the database says, and it enters an empty entry only where there is no row; a registration
writes to an entry that carries no other uuid; and from its look for the peer to its answer the
peer is not deleted, its row is inserted, and there is a row where it counts on one. -/
def MayRegister (X : Setup) (l : List TaskStep) (n : ℕ) (j : PeerTask) (past : Past) (s : Server) :
    Op → Prop
  | .mapInstall id row => s.peers.StoredAs id row.uuid
  | .mapGetOrInsert id => s.map id = none → Database.getPeer s.db id = none
  | .readPeer r => ∀ rk addr, j = .registerPk rk addr → Unchanged rk addr past r s →
      (Database.getPeer s.db rk.id).isSome = true ∧ Undisturbed X n rk.id l
  | .writePk r _ uuid _ _ => (s.cell r).uuid = [] ∨ (s.cell r).uuid = uuid
  | .dbInsertPeer id _ _ _ =>
      (s.dbUp = true ∨ (Database.getPeer s.db id).isSome = true) ∧ Undisturbed X n id l
  | .dbUpdatePk _ id _ _ => (Database.getPeer s.db id).isSome = true ∧ Undisturbed X n id l
  | .udpSend (.registerPkResponse .ok) _ => ∀ rk addr, j = .registerPk rk addr →
      Undisturbed X n rk.id l
  | _ => True

/-- No task comes between the steps of another. -/
def Uncontested (X : Setup) (l : List TaskStep) (p : Pool Op Op.Res Server PeerTask) :
    Choice PeerTask Env → Prop
  | .step n => ∀ j past o k, p.live n = some ⟨j, past, .call o k⟩ →
      MayRegister X l n j past p.shared o
  | _ => True

variable {X : Setup} {l l' : List TaskStep} {p : Pool Op Op.Res Server PeerTask} {P P' : Peers}
  {n : ℕ} {j : PeerTask} {past : Past} {o : Op} {s : Server} {id : String} {r : PeerRef}
  {u : Bytes} {rk : RegisterPk} {addr : SocketAddr}

theorem Run.mayRegister (hr : (peerTasks X).Run Server.Booted (Uncontested X) l p)
    (hx : (.step n j past o s :: l') <:+ l) : MayRegister X l' n j past s o := by
  obtain ⟨p', c, p'', -, hc, ha, -, rfl⟩ := hr.before _ _ hx
  obtain ⟨k, hl⟩ := System.advance_step_live ha
  obtain rfl := System.advance_choice ha
  exact hc j past o k hl

/-! ## One step -/

/-- A uuid in an entry is not written over. -/
theorem MayRegister.carries (hmay : MayRegister X l n j past s o) (hne : u ≠ [])
    (hc : s.peers.Carries r u) : (s.peers.act X s.dbUp o).Carries r u := by
  refine Peers.carries_act hc (fun addr uuid pk ip heq => ?_) s.dbUp
  subst heq
  obtain ⟨-, c, hcell, rfl⟩ := hc
  have huuid : (s.cell r).uuid = c.uuid := congrArg Stored.uuid (stored_cell hcell)
  obtain hempty | hsame := hmay
  · exact absurd (huuid.symm.trans hempty) hne
  · exact hsame.symm.trans huuid

/-- A step that does not delete the peer leaves standing what is known of its uuid. -/
theorem Peers.Pinned.steady (hp : s.peers.Pinned) (hperf : Performed X l n j past o s)
    (hmay : MayRegister X l n j past s o) (hno : ¬Deletes X id (.step n j past o s)) :
    Peers.Steady id s.peers (s.peers.act X s.dbUp o) := by
  obtain ⟨G, hG, hknown⟩ := hperf.owned
  have hstored : ∀ u, s.peers.StoredAs id u → (s.peers.act X s.dbUp o).StoredAs id u := by
    intro u hs
    by_cases hdel : o = .dbDeletePeer id
    · subst hdel
      -- the query failed
      have hup : s.dbUp = false := by
        by_contra hup
        obtain ⟨row, hrow, -⟩ := hs
        refine hno ⟨rfl, ?_⟩
        rw [dbDeletePeer_fst, if_pos (by simpa using hup)]
        refine congrArg some (List.any_eq_true.2 ?_)
        obtain ⟨hmem, hid⟩ := (Database.getPeer_eq_some hG.ids).1 hrow
        exact ⟨row, hmem, by simpa using hid⟩
      rw [hup]
      exact hs
    · exact hG.storedAs_act hperf.rule (hperf.known hknown) s.dbUp hs hdel
  have hcarries : ∀ r u, u ≠ [] → s.peers.Carries r u → (s.peers.act X s.dbUp o).Carries r u :=
    fun r u hne hc => hmay.carries hne hc
  refine ⟨hstored, hcarries, fun r hcur => ?_⟩
  obtain ⟨hlt, hcur⟩ := hcur
  refine ⟨lt_of_lt_of_le hlt (Peers.nextCell_le_act _ o s.dbUp), ?_⟩
  have hrow : ∀ u, s.peers.StoredAs id u → s.peers.Carries r u →
      ∃ u, (s.peers.act X s.dbUp o).StoredAs id u ∧ (s.peers.act X s.dbUp o).Carries r u :=
    fun u hs hc => ⟨u, hstored u hs, hcarries r u (hp.nonempty id u hs) hc⟩
  obtain hmap | ⟨u, hs, hc⟩ := hcur
  · cases o with
    | mapInstall id' row =>
      by_cases hid : id' = id
      · subst hid
        exact .inr (hrow _ hmay (hp.agree _ r _ hmap hmay))
      · exact .inl ((Table.insert_of_ne _ _ (Ne.symm hid)).trans hmap)
    | mapGetOrInsert id' =>
      simp only [Peers.act]
      split
      · exact .inl hmap
      · next hnone =>
        refine .inl ((Table.insert_of_ne _ _ fun hid => ?_).trans hmap)
        subst hid
        exact hnone (by rw [hmap]; rfl)
    | mapRemove id' =>
      refine .inl ?_
      rw [Peers.act, Table.remove_eq_some]
      exact ⟨fun hid => hno hid.symm, hmap⟩
    | _ => exact .inl hmap
  · exact .inr (hrow u hs hc)

/-! ## What the calls tell -/

/-- What a call made in the state `s` tells about the uuid of the peer, as long as the peer is not
deleted. -/
def Tells (P : Peers) (id : String) (j : PeerTask) (past : Past) (s : Server) : Op → Prop
  | .mapGet id' => id' = id → ∀ r, s.map id = some r → P.Current id r
  | .mapInstall id' _ => id' = id → P.Current id s.nextCell
  | .mapGetOrInsert id' => id' = id → P.Current id (s.getOrInsert id).1
  | .readPeer r => ∀ rk addr, j = .registerPk rk addr → rk.id = id → Unchanged rk addr past r s →
      P.StoredAs id rk.uuid
  | .writePk r _ uuid _ _ => uuid ≠ [] ∧ P.Carries r uuid
  | .dbInsertPeer id' uuid _ _ => id' = id → P.StoredAs id uuid
  | .dbUpdatePk _ id' _ _ => id' = id → ∀ rk addr, j = .registerPk rk addr → P.StoredAs id rk.uuid
  | _ => True

theorem Tells.mono (h : Tells P id j past s o) (hs : Peers.Steady id P P') :
    Tells P' id j past s o := by
  cases o with
  | mapGet id' => exact fun hid r hr => hs.current r (h hid r hr)
  | mapInstall id' row => exact fun hid => hs.current _ (h hid)
  | mapGetOrInsert id' => exact fun hid => hs.current _ (h hid)
  | readPeer r => exact fun rk addr hj hid hun => hs.storedAs _ (h rk addr hj hid hun)
  | writePk r addr uuid pk ip => exact ⟨h.1, hs.carries r uuid h.1 h.2⟩
  | dbInsertPeer id' uuid pk info => exact fun hid => hs.storedAs _ (h hid)
  | dbUpdatePk guid id' pk info => exact fun hid rk addr hj => hs.storedAs _ (h hid rk addr hj)
  | _ => trivial

/-- After the history `l`, entries carry the uuids of their rows, and every call tells what it does
until it is overtaken. -/
structure Told (X : Setup) (l : List TaskStep) (P : Peers) : Prop where
  pinned : P.Pinned
  tells : ∀ id n j past o s l', System.Since (Overtakes X id) l (.step n j past o s) l' →
    Tells P id j past s o

namespace Told

variable {C : List TaskStep → Pool Op Op.Res Server PeerTask → Choice PeerTask Env → Prop}

/-- A task that is not overtaken may rely on its calls since its last look. -/
theorem keeps (h : Told X l P) (hr : (peerTasks X).Run Server.Booted C (.step n j past o s :: l) p)
    (hq : Undisturbed X n id l) {c : Call Op Server} {h' : Past} (hs : SinceLook id past c h') :
    Tells P id j h' c.pre c.op := by
  have hpast : past = System.calls n l := hr.past n j past o s l List.suffix_rfl
  rw [hpast] at hs
  obtain ⟨j', past', l', hsince, hrest⟩ := System.Quiet.since hq hs
  have hsuf : (.step n j' past' c.op c.pre :: l') <:+ .step n j past o s :: l :=
    hsince.suffix.trans (List.suffix_cons _ _)
  obtain rfl : j' = j := hr.job_unique.2 n j' j past' past c.op o c.pre s
    (hsuf.subset List.mem_cons_self) List.mem_cons_self
  obtain rfl : past' = h' := (hr.past n j' past' c.op c.pre l' hsuf).trans hrest
  exact h.tells id n j' past' c.op c.pre l' hsince

/-- The entry it holds is current. -/
theorem held (h : Told X l P) (hr : (peerTasks X).Run Server.Booted C (.step n j past o s :: l) p)
    (hq : Undisturbed X n id l) (hheld : HeldSince past id r) : P.Current id r := by
  obtain ⟨s', h', hs, hmap⟩ | ⟨row, s', h', hs, rfl⟩ | ⟨s', h', hs, rfl⟩ := hheld
  · exact h.keeps hr hq hs rfl r hmap
  · exact h.keeps hr hq hs rfl
  · exact h.keeps hr hq hs rfl

/-- A row of the peer carries the uuid that a current entry carries. -/
theorem settled (h : Told X l P) (hcur : P.Current id r) (hc : P.Carries r u)
    (hsome : (Database.getPeer P.db id).isSome = true) : P.StoredAs id u := by
  obtain ⟨v, hv⟩ := Peers.storedAs_of_isSome hsome
  exact (hcur.carries h.pinned hv).unique hc ▸ hv

/-- What a step tells, it tells when it has happened. -/
theorem news (h : Told X l s.peers)
    (hr : (peerTasks X).Run Server.Booted C (.step n j past o s :: l) p)
    (hmay : MayRegister X l n j past s o) (id : String) :
    Tells (s.peers.act X s.dbUp o) id j past s o := by
  have hperf := Run.performed hr List.suffix_rfl
  have hreg : RegistrationRule j past o :=
    hr.guarantee (peerTasks_registering X) n j past o s List.mem_cons_self
  have hrule := hperf.rule
  obtain ⟨G, hG, hknown⟩ := hperf.owned
  have hpast := hperf.known hknown
  cases o with
  | mapGet id' =>
    rintro rfl r hmap
    exact ⟨(hG.map id' r hmap).lt, .inl hmap⟩
  | mapInstall id' row =>
    rintro rfl
    exact ⟨Nat.lt_succ_self _, .inl (Table.insert_self _ _ _)⟩
  | mapGetOrInsert id' =>
    rintro rfl
    unfold Server.getOrInsert
    cases hmap : s.map id' with
    | some r =>
      have hact : s.peers.act X s.dbUp (.mapGetOrInsert id') = s.peers := by
        simp [Peers.act, Server.peers, hmap]
      rw [hact]
      exact ⟨(hG.map id' r hmap).lt, .inl hmap⟩
    | none =>
      have hact : s.peers.act X s.dbUp (.mapGetOrInsert id') = s.peers.install id' .fresh := by
        simp [Peers.act, Server.peers, hmap]
      rw [hact]
      exact ⟨Nat.lt_succ_self _, .inl (Table.insert_self _ _ _)⟩
  | readPeer r =>
    rintro rk addr rfl rfl hun
    obtain ⟨hsome, hq⟩ := hmay rk addr rfl hun
    have hcur := h.held hr hq (hreg rk addr rfl)
    -- the entry it read carries its uuid
    obtain ⟨v, hv⟩ := Peers.storedAs_of_isSome (P := s.peers) hsome
    obtain ⟨-, c, hc, rfl⟩ := hcur.carries h.pinned hv
    have huuid : (s.cell r).uuid = rk.uuid := ((registerPkChange_some hun.2).2 rfl).1
    have hcell : (s.cell r).uuid = c.uuid := congrArg Stored.uuid (stored_cell hc)
    rw [← huuid, hcell]
    exact hv
  | writePk r addr uuid pk ip =>
    obtain ⟨rk, a, peer, -, rfl, -, hne, hadm, -⟩ := hrule
    have hhas := hadm.owner hpast
    obtain ⟨c, hc⟩ := Option.isSome_iff_exists.1 hhas.isSome
    exact ⟨hne, hhas.lt, _, Peers.modify_cells_self hc _, rfl⟩
  | dbInsertPeer id' uuid pk info =>
    rintro rfl
    obtain ⟨hup, hq⟩ := hmay
    obtain ⟨rk, a, r, rfl, rfl, rfl, hheld, addr, pk', ip, s', h', hwrote⟩ := hreg
    have hcur := h.held hr hq hheld
    have hcarries := (h.keeps hr hq hwrote).2
    cases hrow : Database.getPeer s.peers.db rk.id with
    | some row =>
      have hs := h.settled hcur hcarries (by rw [hrow]; rfl)
      exact hG.storedAs_act hrule hpast s.dbUp hs fun h => by cases h
    | none =>
      -- the database is up, and takes the row
      have hup' : s.dbUp = true := hup.resolve_right fun hsome => by
        rw [show Database.getPeer s.db rk.id = none from hrow] at hsome
        cases hsome
      have hany : ¬(s.peers.db.any fun row => row.id == rk.id) = true := by
        rw [List.any_eq_true]
        rintro ⟨row, hmem, hid⟩
        exact Database.getPeer_none.1 hrow row hmem (eq_of_beq hid)
      refine ⟨⟨s.peers.uuids, rk.id, rk.uuid, pk, info, none, none, none⟩, ?_, rfl⟩
      simp only [Peers.act, hup', if_true, Database.insertPeer, if_neg hany, Option.getD_some,
        Database.getPeer_append, hrow, Option.none_or]
      simp [Database.getPeer]
  | dbUpdatePk guid id' pk info =>
    rintro rfl rk addr rfl
    obtain ⟨hsome, hq⟩ := hmay
    obtain ⟨rk', a, r, hj, rfl, hheld, addr', pk', ip, s', h', hwrote⟩ := hreg
    obtain ⟨rfl, -⟩ := PeerTask.registerPk.inj hj
    have hs := h.settled (h.held hr hq hheld) (h.keeps hr hq hwrote).2 hsome
    exact hG.storedAs_act hrule hpast s.dbUp hs fun h => by cases h
  | _ => trivial

/-- Entries still carry the uuids of their rows when the step has happened. -/
theorem pinned_step (h : Told X l s.peers)
    (hr : (peerTasks X).Run Server.Booted C (.step n j past o s :: l) p)
    (hmay : MayRegister X l n j past s o) : (s.peers.act X s.dbUp o).Pinned := by
  have hperf := Run.performed hr List.suffix_rfl
  have hrule := hperf.rule
  obtain ⟨G, hG, hknown⟩ := hperf.owned
  have hpast := hperf.known hknown
  obtain ⟨G', -, hG', -⟩ := hG.act rfl hrule hpast s.dbUp
  refine ⟨fun id r u hmap hs => ?_, fun id u hs => ?_⟩
  · have hlt := (hG'.map id r hmap).lt
    obtain hmap | ⟨row, rfl, hcell⟩ | ⟨rfl, hnone, -⟩ := Peers.act_map hmap
    · obtain hs | ⟨⟨pk, info, rfl⟩, hnone⟩ := hG.storedAs_of_act hrule hpast hs
      · exact hmay.carries (h.pinned.nonempty id u hs) (h.pinned.agree id r u hmap hs)
      · -- the row is inserted: the entry is the one the task holds
        have hreg : RegistrationRule j past (.dbInsertPeer id u pk info) :=
          hr.guarantee (peerTasks_registering X) n j past _ s List.mem_cons_self
        obtain ⟨rk, a, r', -, rfl, rfl, hheld, addr, pk', ip, s', h', hwrote⟩ := hreg
        obtain ⟨-, hq⟩ := hmay
        obtain ⟨-, hmap' | ⟨v, ⟨row, hrow, -⟩, -⟩⟩ := h.held hr hq hheld
        · obtain rfl := Option.some.inj (hmap.symm.trans hmap')
          exact (h.keeps hr hq hwrote).2
        · cases hnone.symm.trans hrow
    · have hs : s.peers.StoredAs id u := hs
      have hsame : s.peers.StoredAs id row.uuid := hmay
      exact ⟨hlt, _, hcell, hsame.unique hs⟩
    · have hrow := hmay hnone
      obtain hs | ⟨⟨pk, info, heq⟩, -⟩ := hG.storedAs_of_act hrule hpast hs
      · obtain ⟨row, hrow', -⟩ := hs
        cases hrow.symm.trans hrow'
      · cases heq
  · obtain hs | ⟨⟨pk, info, rfl⟩, -⟩ := hG.storedAs_of_act hrule hpast hs
    · exact h.pinned.nonempty id u hs
    · obtain ⟨rk, a, r, -, -, -, -, hne, -⟩ := hrule
      exact hne

theorem step (h : Told X l s.peers)
    (hr : (peerTasks X).Run Server.Booted C (.step n j past o s :: l) p)
    (hmay : MayRegister X l n j past s o) :
    Told X (.step n j past o s :: l) (s.peers.act X s.dbUp o) := by
  refine ⟨h.pinned_step hr hmay, fun id n' j' past' o' s' l' hsince => ?_⟩
  cases hsince with
  | here => exact h.news hr hmay id
  | there hno hsince =>
    have hperf := Run.performed hr List.suffix_rfl
    exact (h.tells id n' j' past' o' s' l' hsince).mono (h.pinned.steady hperf hmay hno)

end Told

theorem Server.Booted.pinned (h : s.Booted) : s.peers.Pinned := by
  refine ⟨fun id r u hmap => ?_, fun id u hs => ?_⟩
  · have hnone : s.peers.map id = none := congrFun h.map id
    cases hnone.symm.trans hmap
  · obtain ⟨row, hrow, rfl⟩ := hs
    have hrow : Database.getPeer s.db id = some row := hrow
    exact h.uuid_ne row ((Database.getPeer_eq_some h.ids).1 hrow).1

/-- In every uncontested run the calls tell what they do. -/
theorem Run.told (hr : (peerTasks X).Run Server.Booted (Uncontested X) l p) :
    Told X l p.shared.peers := by
  induction hr using System.Run.induct with
  | hboot s hs =>
    refine ⟨hs.pinned, fun id n j past o s l' hsince => ?_⟩
    cases hsince
  | hstart l p j s hr hc hs ih =>
    obtain rfl := Option.some.inj hs
    refine ⟨ih.pinned, fun id n j past o s l' hsince => ?_⟩
    cases hsince with
    | there _ hsince => exact ih.tells id n j past o s l' hsince
  | hstep l p n j past o k hr hc hl ih =>
    have hr' := System.Run.next hr hc (System.advance_step hl)
    have hpost : ((peerTasks X).sem o p.shared).2.peers = p.shared.peers.act X p.shared.dbUp o :=
      (Run.performed hr' List.suffix_rfl).post
    rw [hpost]
    exact ih.step hr' (hc j past o k hl)
  | henv l p e s hr hc hs ih =>
    have hpeers : s.peers = p.shared.peers := act_peers hs
    rw [hpeers]
    refine ⟨ih.pinned, fun id n j past o s l' hsince => ?_⟩
    cases hsince with
    | there _ hsince => exact ih.tells id n j past o s l' hsince
  | hcrash l p hr hc ih =>
    have hpinned : ((peerTasks X).reboot p.shared).peers.Pinned := by
      refine ⟨fun id r u hmap => ?_, ih.pinned.nonempty⟩
      cases hmap
    refine ⟨hpinned, fun id n j past o s l' hsince => ?_⟩
    cases hsince with
    | there hno _ => exact absurd trivial hno

/-! ## The law -/

/-- The item by which a registration is answered that it succeeded. -/
def confirmItem (n : ℕ) (rk : RegisterPk) (addr : SocketAddr) (past : Past) (s : Server) :
    TaskStep :=
  .step n (.registerPk rk addr) past (.udpSend (.registerPkResponse .ok) addr) s

/-- When a registration is confirmed, the row of the peer carries its uuid. -/
theorem Run.confirmed (hr : (peerTasks X).Run Server.Booted (Uncontested X) l p)
    (hx : (confirmItem n rk addr past s :: l') <:+ l) : s.peers.StoredAs rk.id rk.uuid := by
  obtain ⟨p', c, p'', hr', -, -, hr'', hpre⟩ := hr.before _ _ hx
  have hs : p'.shared = s := hpre
  have htold := Run.told hr'
  rw [hs] at htold
  have hq : Undisturbed X n rk.id l' := Run.mayRegister hr hx rk addr rfl
  obtain ⟨rk', addr', hj, hconf⟩ :=
    hr.guarantee (peerTasks_registering X) n _ past _ s (hx.subset List.mem_cons_self)
  obtain ⟨rfl, rfl⟩ := PeerTask.registerPk.inj hj
  obtain ⟨r, s', h', hsince, hun⟩ | ⟨pk, info, s', h', hsince⟩ | ⟨guid, pk, info, s', h', hsince⟩ :=
    hconf
  · exact htold.keeps hr'' hq hsince rk addr rfl rfl hun
  · exact htold.keeps hr'' hq hsince rfl
  · exact htold.keeps hr'' hq hsince rfl rk addr rfl

/-- A row keeps its uuid until the peer is deleted. -/
theorem Run.storedAs {x : TaskStep} (hr : (peerTasks X).Run Server.Booted (Uncontested X) l p)
    (hx : (x :: l') <:+ l) (hno : ¬Deletes X id x) (hs : x.pre.peers.StoredAs id u) :
    ((peerTasks X).post x).peers.StoredAs id u := by
  obtain ⟨n, j, past, o, s, rfl, hperf, hpost⟩ | hpost | hpost := Run.item_peers hr hx
  · obtain ⟨p', c, p'', hr', -, -, -, hpre⟩ := hr.before _ _ hx
    have htold := Run.told hr'
    rw [hpre] at htold
    rw [hpost]
    exact (htold.pinned.steady hperf (Run.mayRegister hr hx) hno).storedAs u hs
  · rw [hpost]
    exact hs
  · rw [hpost]
    exact hs

/-- After the items `after` that a registration was confirmed: every other one of its peer has the
same uuid, the row of the peer carries it, and so does the entry of the peer, if there is one. -/
structure PinnedTo (rk : RegisterPk) (after : List TaskStep) (s : Server) : Prop where
  confirmed : ∀ n rk' addr past s', confirmItem n rk' addr past s' ∈ after → rk'.id = rk.id →
    rk'.uuid = rk.uuid
  stored : s.peers.StoredAs rk.id rk.uuid
  cached : ∀ r, s.map rk.id = some r → (s.cell r).uuid = rk.uuid

/-- As long as no task comes between the steps of another, a peer is pinned to the uuid that was
confirmed for it until it is deleted. -/
theorem registration_pinned (X : Setup) (l : List TaskStep)
    (p : Pool Op Op.Res Server PeerTask)
    (hr : (peerTasks X).Run Server.Booted (Uncontested X) l p) :
    ∀ n rk addr past s after before, l = after ++ confirmItem n rk addr past s :: before →
      (∀ x ∈ after, ¬Deletes X rk.id x) → PinnedTo rk after p.shared := by
  rintro n rk addr past s after before rfl hno
  have hstored : ∀ late q, late <:+ after → (peerTasks X).Run Server.Booted (Uncontested X)
      (late ++ confirmItem n rk addr past s :: before) q →
      q.shared.peers.StoredAs rk.id rk.uuid := by
    intro late q hlate hq
    refine hq.carry (I := fun s => s.peers.StoredAs rk.id rk.uuid) ?_ fun a x b heq hx => ?_
    · exact Run.confirmed hq ⟨late, rfl⟩
    · subst heq
      have hsuf : (x :: (b ++ confirmItem n rk addr past s :: before)) <:+
          (a ++ x :: b) ++ confirmItem n rk addr past s :: before := ⟨a, by simp⟩
      exact Run.storedAs hq hsuf (hno x (hlate.subset (by simp))) hx
  have hend := hstored after p List.suffix_rfl hr
  refine ⟨fun n' rk' addr' past' s' hmem hid => ?_, hend, fun r hmap => ?_⟩
  · obtain ⟨late, mid, rfl⟩ := List.append_of_mem hmem
    have hsuf : (confirmItem n' rk' addr' past' s' ::
        (mid ++ confirmItem n rk addr past s :: before)) <:+
        (late ++ confirmItem n' rk' addr' past' s' :: mid) ++
          confirmItem n rk addr past s :: before := ⟨late, by simp⟩
    obtain ⟨p', c, p'', hr', -, -, -, hpre⟩ := hr.before _ _ hsuf
    have hmid := hstored mid p' ⟨late ++ [confirmItem n' rk' addr' past' s'], by simp⟩ hr'
    rw [hpre] at hmid
    have hnew := Run.confirmed hr hsuf
    rw [hid] at hnew
    exact hnew.unique hmid
  · obtain ⟨-, c, hc, hu⟩ := (Run.told hr).pinned.agree rk.id r rk.uuid hmap hend
    exact (congrArg Stored.uuid (stored_cell hc)).trans hu

/-! ## Two first registrations at once -/

namespace Sample

/-- The target, with a uuid and a key of its own for each client. -/
def target1 (b : UInt8) : RegisterPk := ⟨"target1", [b], [b]⟩

def client (b : UInt8) : SocketAddr := .v4 ⟨10, 0, 0, b⟩ 1000

/-- A peer registers, and registers again. -/
def registerTwice : List (Choice PeerTask Env) :=
  .start (.registerPk (target1 1) (client 1)) :: List.replicate 15 (.step 0) ++
    .start (.registerPk (target1 1) (client 1)) :: List.replicate 10 (.step 1)

/-- Two clients register the same peer; both have read the empty entry before one writes to it. -/
def registerAtOnce : List (Choice PeerTask Env) :=
  .start (.registerPk (target1 1) (client 1)) :: .start (.registerPk (target1 2) (client 2)) ::
    List.replicate 7 (.step 0) ++ List.replicate 5 (.step 1) ++ List.replicate 8 (.step 0) ++
      List.replicate 7 (.step 1)

/-- The item overtakes nobody. -/
def calm : TaskStep → Bool
  | .crash _ => false
  | .step _ _ _ (.dbDeletePeer _) _ => false
  | .step _ _ _ (.mapRemove _) _ => false
  | _ => true

/-- The operation is one that a task may perform in the state `s`, if it is not overtaken. -/
def mayRegister (s : Server) (j : PeerTask) : Op → Bool
  | .mapInstall _ _ => false
  | .mapGetOrInsert id => (s.map id).isSome || (Database.getPeer s.db id).isNone
  | .readPeer r => match j with
    | .registerPk rk _ => (Database.getPeer s.db rk.id).isSome || (s.cell r).uuid.isEmpty
    | _ => true
  | .writePk r _ uuid _ _ => (s.cell r).uuid.isEmpty || (s.cell r).uuid == uuid
  | .dbInsertPeer _ _ _ _ => s.dbUp
  | .dbUpdatePk _ id _ _ => (Database.getPeer s.db id).isSome
  | _ => true

def mayGo (p : Pool Op Op.Res Server PeerTask) : Choice PeerTask Env → Bool
  | .step n => match p.live n with
    | some ⟨j, _, .call o _⟩ => mayRegister p.shared j o
    | _ => true
  | _ => true

theorem not_overtakes_of_calm {x : TaskStep} (h : calm x = true) : ¬Overtakes X id x := by
  cases x with
  | crash s => cases h
  | step n j past o s => cases o <;> first | exact fun hf => hf | cases h
  | _ => exact fun hf => hf

theorem undisturbed_of_calm (h : ∀ x ∈ l, calm x = true) : Undisturbed X n id l := by
  induction l with
  | nil => trivial
  | cons x l ih =>
    obtain ⟨hx, hl⟩ := List.forall_mem_cons.1 h
    exact .inr ⟨not_overtakes_of_calm hx, ih hl⟩

theorem mayRegister_of_calm (h : mayRegister s j o = true) (hl : ∀ x ∈ l, calm x = true) :
    MayRegister X l n j past s o := by
  cases o with
  | mapInstall id row => cases h
  | mapGetOrInsert id =>
    intro hnone
    simpa [mayRegister, hnone] using h
  | readPeer r =>
    rintro rk addr rfl ⟨-, hun⟩
    refine ⟨(Bool.or_eq_true_iff.1 h).resolve_right fun hempty => ?_, undisturbed_of_calm hl⟩
    rw [registerPkChange, if_pos (List.isEmpty_iff.1 hempty)] at hun
    cases hun
  | writePk r addr uuid pk ip => simpa [mayRegister, MayRegister] using h
  | dbInsertPeer id uuid pk info => exact ⟨.inl h, undisturbed_of_calm hl⟩
  | dbUpdatePk guid id pk info => exact ⟨h, undisturbed_of_calm hl⟩
  | udpSend msg addr =>
    cases msg with
    | registerPkResponse res =>
      cases res with
      | ok => exact fun rk addr _ => undisturbed_of_calm hl
      | _ => trivial
    | _ => trivial
  | _ => trivial

theorem uncontested_of_mayGo (l : List TaskStep) (p : Pool Op Op.Res Server PeerTask)
    (c : Choice PeerTask Env) (h : mayGo p c = true) (hl : ∀ x ∈ l, calm x = true) :
    Uncontested X l p c := by
  cases c with
  | step n =>
    intro j past o k hlive
    simp only [mayGo, hlive] at h
    exact mayRegister_of_calm h hl
  | _ => trivial

end Sample

open Sample in
/-- A peer that registers again is confirmed again. -/
theorem registration_pinned_twice : ∃ l p,
    tasks.Run Server.Booted (Uncontested (setup .offer false)) l p ∧
    (∃ past s after before past' s',
      l = confirmItem 1 (target1 1) (client 1) past' s' :: after ++
        confirmItem 0 (target1 1) (client 1) past s :: before) ∧
    ∀ n rk addr past s after before, l = after ++ confirmItem n rk addr past s :: before →
      (∀ x ∈ after, ¬Deletes (setup .offer false) rk.id x) → PinnedTo rk after p.shared := by
  have hrun := (System.Run.boot (server_booted [])).execIf
    (fun l p c _ h hl => uncontested_of_mayGo (X := setup .offer false) l p c h hl) registerTwice
    (S := tasks)
  have hrun := hrun.assuming fun x hx => List.all_eq_true.1 (by rfl : List.all _ calm = true) x hx
  exact ⟨_, _, hrun, ⟨_, _, [_, _, _, _, _, _, _, _, _, _], _, _, _, rfl⟩,
    registration_pinned (setup .offer false) _ _ hrun⟩

open Sample in
/-- Both clients are confirmed, with their own uuids. -/
theorem not_registration_pinned : ¬∀ l p, tasks.Run Server.Booted System.Free l p →
    ∀ n rk addr past s after before, l = after ++ confirmItem n rk addr past s :: before →
      (∀ x ∈ after, ¬Deletes (setup .offer false) rk.id x) → PinnedTo rk after p.shared := by
  intro h
  have hrun := (System.Run.boot (C := System.Free) (server_booted [])).exec (S := tasks)
    registerAtOnce
  have hpinned := h _ _ hrun 0 (target1 1) (client 1) _ _ [_, _, _, _, _, _, _] _ rfl fun x hx => ?_
  · have huuid := hpinned.confirmed 1 (target1 2) (client 2) _ _ List.mem_cons_self rfl
    exact absurd huuid (by decide)
  · simp only [List.mem_cons, List.not_mem_nil, or_false] at hx
    rcases hx with rfl | rfl | rfl | rfl | rfl | rfl | rfl <;> exact fun hf => hf

end NemoServer
