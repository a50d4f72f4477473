import NemoServer.Server.Discipline
import NemoServer.Server.Solo

/-!
# The tasks of the peer map

Any number of tasks that call the methods of `PeerMap`, over one server: look-ups, checks of the
block flag, changes of it, deletes and registrations. `TaskRule` says what such a task has done
before each of its writes, and every task keeps to it (`peerTasks_verified`).
-/

set_option autoImplicit false

namespace NemoServer

open Prog PeerMap Rendezvous

inductive PeerTask
  | get (id : String)
  | getOr (id : String)
  | isPeerBlocked (id : String)
  | setPeerStatus (id : String) (status : Option ℤ) (note : Option String)
  | deleteRegistered (id : String)
  /-- A registration with its answer; it is the caller of `get_or` and `update_pk`. -/
  | registerPk (rk : RegisterPk) (addr : SocketAddr)
  deriving DecidableEq

def PeerTask.code (X : Setup) : PeerTask → Handler Unit
  | .get id => do
    let _ ← PeerMap.get id
  | .getOr id => do
    let _ ← PeerMap.getOr id
  | .isPeerBlocked id => do
    let _ ← PeerMap.isPeerBlocked id
  | .setPeerStatus id status note => PeerMap.setPeerStatus id status note
  | .deleteRegistered id => PeerMap.deleteRegistered id
  | .registerPk rk addr => do
    match ← registerPkCore X rk addr with
    | some res => perform (.udpSend (.registerPkResponse res) addr)
    | none => pure ()

/-- The tasks of the peer map, in any number and in any order. -/
def peerTasks (X : Setup) : System Op Op.Res Server PeerTask Env where
  sem := Op.sem X
  code := PeerTask.code X
  start _ s := some s
  env := Server.act X
  reboot := Server.reboot

/-- The items of a run of these tasks. -/
abbrev TaskStep := Item Op Server PeerTask Env

/-! ## The rule -/

/-- The task has just looked for the peer: it was not in memory, and the database gave the
answer. -/
def LookedUp (X : Setup) (past : Past) (id : String) (answer : Option (Option Row)) : Prop :=
  ∃ s s' h, past = ⟨.dbGetPeer id, s⟩ :: ⟨.mapGet id, s'⟩ :: h ∧ s'.map id = none ∧
    (Op.sem X (.dbGetPeer id) s).1 = answer

/-- The task has just read the entry `r` of its peer, `peer`, and its rate limit. -/
def Admitted (past : Past) (rk : RegisterPk) (r : PeerRef) (peer : Peer) : Prop :=
  ∃ regPk s₁ s₂ s₃ s h, past = ⟨.writeRegPk r regPk, s₁⟩ :: ⟨.instantNow, s₂⟩ ::
    ⟨.readRegPk r, s₃⟩ :: ⟨.readPeer r, s⟩ :: h ∧ s.cell r = peer ∧ Held h rk.id r

/-- The task has just written its values to the entry `r`, where it found the guid. -/
def JustWrote (past : Past) (rk : RegisterPk) (r : PeerRef) (guid : Option ℕ) : Prop :=
  ∃ addr ip s h peer, past = ⟨.writePk r addr rk.uuid rk.pk ip, s⟩ :: h ∧ (s.cell r).guid = guid ∧
    Admitted h rk r peer

/-- What a task has done before it performs an operation. -/
def TaskRule (X : Setup) (j : PeerTask) (past : Past) : Op → Prop
  | .mapInstall id row => LookedUp X past id (some (some row))
  | .mapGetOrInsert id => ∃ answer, LookedUp X past id answer ∧ ∀ row, answer ≠ some (some row)
  | .dbSetPeerStatus id status note => j = .setPeerStatus id status note ∧ past = []
  | .writeStatus r status => ∃ id note s s', j = .setPeerStatus id status note ∧
      past = [⟨.mapGet id, s'⟩, ⟨.dbSetPeerStatus id status note, s⟩] ∧ s'.map id = some r ∧
      (Op.sem X (.dbSetPeerStatus id status note) s).1 = some true
  | .dbDeletePeer id => j = .deleteRegistered id ∧ past = []
  | .mapRemove id => j = .deleteRegistered id
  | .writePk r _ uuid pk _ => ∃ rk addr peer, j = .registerPk rk addr ∧ rk.uuid = uuid ∧
      rk.pk = pk ∧ uuid ≠ [] ∧ Admitted past rk r peer ∧ (peer.uuid = [] ∨ peer.uuid = uuid)
  | .dbInsertPeer id uuid pk _ => ∃ rk addr r, j = .registerPk rk addr ∧ rk.id = id ∧
      rk.uuid = uuid ∧ rk.pk = pk ∧ uuid ≠ [] ∧ JustWrote past rk r none
  | .writeGuid r guid => ∃ rk addr info s h, j = .registerPk rk addr ∧
      past = ⟨.dbInsertPeer rk.id rk.uuid rk.pk info, s⟩ :: h ∧
      (s.dbInsertPeer rk.id rk.uuid rk.pk info).1 = some guid ∧ JustWrote h rk r none
  | .dbUpdatePk guid id pk _ => ∃ rk addr r, j = .registerPk rk addr ∧ rk.id = id ∧
      rk.pk = pk ∧ JustWrote past rk r (some guid)
  | .dbSetManagementPolicy _ _ => False
  | o => o.kind ∈ [.look, .register, .reply]

theorem taskRule_of_look {X : Setup} {j : PeerTask} {past : Past} {o : Op} (h : Only [.look] o) :
    TaskRule X j past o := by
  have hk : o.kind = .look := by simpa [Only] using h
  cases o <;> first | exact List.mem_of_elem_eq_true rfl | cases hk

theorem taskRule_not_redeem {X : Setup} {j : PeerTask} {past : Past} {o : Op}
    (h : TaskRule X j past o) : o.kind ≠ .redeem := by
  intro hk
  cases o with
  | redeemPending addr authed =>
    have hmem : Kind.redeem ∈ [Kind.look, .register, .reply] := h
    simp at hmem
  | _ => cases hk

/-! ## Every task keeps to it -/

variable {X : Setup} {j : PeerTask} {past : Past}

/-- The handler keeps to the rule, and ends with `Q`. -/
abbrev Follows (X : Setup) (j : PeerTask) {α : Type} (p : Handler α) (past : Past)
    (Q : Past → α → Prop) : Prop :=
  p.Sat (Op.sem X) (fun _ => True) (fun past o _ => TaskRule X j past o) Q past

theorem follows_perform {α : Type} {o : Op} {f : o.Res → Handler α} {Q : Past → α → Prop}
    (hf : ∀ s, TaskRule X j past o ∧ Follows X j (f (Op.sem X o s).1) (⟨o, s⟩ :: past) Q) :
    Follows X j (perform o >>= f) past Q := fun s _ => hf s

theorem follows_look {α : Type} {p : Handler α} (hp : p.Uses (Only [.look])) :
    Follows X j p past fun past' _ => past <:+ past' := by
  refine (hp.sat fun _ o _ _ _ ho => taskRule_of_look ho).mono fun past' _ hs _ => hs

theorem follows_get (id : String) : Follows X j (PeerMap.get id) past fun past' r =>
    past <:+ past' ∧ match r with
      | some r => Held past' id r
      | none => ∃ answer, LookedUp X past' id answer ∧ ∀ row, answer ≠ some (some row) := by
  unfold PeerMap.get
  refine follows_perform fun s₁ => ⟨taskRule_of_look rfl, ?_⟩
  cases hmap : (Op.sem X (.mapGet id) s₁).1 with
  | some r => exact ⟨List.suffix_cons _ _, .inl ⟨s₁, List.mem_cons_self, hmap⟩⟩
  | none =>
    refine follows_perform fun s₂ => ⟨taskRule_of_look rfl, ?_⟩
    have hlook : LookedUp X (⟨.dbGetPeer id, s₂⟩ :: ⟨.mapGet id, s₁⟩ :: past) id
        (Op.sem X (.dbGetPeer id) s₂).1 := ⟨s₂, s₁, past, rfl, hmap, rfl⟩
    match hrow : (Op.sem X (.dbGetPeer id) s₂).1 with
    | some (some row) =>
      rw [hrow] at hlook
      refine follows_perform fun s₃ => ⟨hlook, ⟨[_, _, _], rfl⟩, .inr (.inl ⟨row, s₃, ?_, rfl⟩)⟩
      exact List.mem_cons_self
    | some none => exact ⟨⟨[_, _], rfl⟩, _, hlook, by simp [hrow]⟩
    | none => exact ⟨⟨[_, _], rfl⟩, _, hlook, by simp [hrow]⟩

theorem follows_getOr (id : String) : Follows X j (PeerMap.getOr id) past fun past' r =>
    past <:+ past' ∧ Held past' id r := by
  unfold PeerMap.getOr
  refine (follows_get id).bind fun h₁ r _ ⟨hs, hr⟩ => ?_
  cases r with
  | some r => exact ⟨hs, hr⟩
  | none =>
    refine fun s _ => ⟨hr, hs.trans (List.suffix_cons _ _), ?_⟩
    exact .inr (.inr ⟨s, List.mem_cons_self, rfl⟩)

theorem follows_setPeerStatus {id : String} {status : Option ℤ} {note : Option String}
    (hj : j = .setPeerStatus id status note) :
    Follows X j (PeerMap.setPeerStatus id status note) [] fun _ _ => True := by
  unfold PeerMap.setPeerStatus
  refine follows_perform fun s₁ => ⟨⟨hj, rfl⟩, ?_⟩
  match hset : (Op.sem X (.dbSetPeerStatus id status note) s₁).1 with
  | some true =>
    refine follows_perform fun s₂ => ⟨taskRule_of_look rfl, ?_⟩
    cases hmap : (Op.sem X (.mapGet id) s₂).1 with
    | some r => exact fun s₃ _ => ⟨⟨id, note, s₁, s₂, hj, rfl, hmap, hset⟩, trivial⟩
    | none => trivial
  | some false => trivial
  | none => trivial

theorem follows_deleteRegistered {id : String} (hj : j = .deleteRegistered id) :
    Follows X j (PeerMap.deleteRegistered id) [] fun _ _ => True := by
  unfold PeerMap.deleteRegistered
  refine follows_perform fun s₁ => ⟨⟨hj, rfl⟩, ?_⟩
  match (Op.sem X (.dbDeletePeer id) s₁).1 with
  | some true => exact fun s₂ _ => ⟨hj, trivial⟩
  | some false => trivial
  | none => trivial

theorem follows_updatePk {rk : RegisterPk} {a : SocketAddr} {r : PeerRef} {peer : Peer}
    (addr : SocketAddr) (ip : String) (hj : j = .registerPk rk a) (hne : rk.uuid ≠ [])
    (hr : Admitted past rk r peer) (huuid : peer.uuid = [] ∨ peer.uuid = rk.uuid) :
    Follows X j (PeerMap.updatePk X rk.id r addr rk.uuid rk.pk ip) past fun _ _ => True := by
  unfold PeerMap.updatePk
  refine follows_perform fun s₁ => ⟨⟨rk, a, peer, hj, rfl, rfl, hne, hr, huuid⟩, ?_⟩
  have hwrote : JustWrote (⟨.writePk r addr rk.uuid rk.pk ip, s₁⟩ :: past) rk r
      (Op.sem X (.writePk r addr rk.uuid rk.pk ip) s₁).1 :=
    ⟨addr, ip, s₁, past, peer, rfl, rfl, hr⟩
  cases hguid : (Op.sem X (.writePk r addr rk.uuid rk.pk ip) s₁).1 with
  | none =>
    rw [hguid] at hwrote
    refine follows_perform fun s₂ => ⟨⟨rk, a, r, hj, rfl, rfl, rfl, hne, hwrote⟩, ?_⟩
    cases hins : (Op.sem X (.dbInsertPeer rk.id rk.uuid rk.pk (X.infoToJson ip)) s₂).1 with
    | none => trivial
    | some guid => exact fun s₃ _ => ⟨⟨rk, a, _, s₂, _, hj, rfl, hins, hwrote⟩, trivial⟩
  | some guid =>
    rw [hguid] at hwrote
    refine follows_perform fun s₂ => ⟨⟨rk, a, r, hj, rfl, rfl, hwrote⟩, ?_⟩
    cases (Op.sem X (.dbUpdatePk guid rk.id rk.pk (X.infoToJson ip)) s₂).1 <;> trivial

theorem follows_registerPkCore {rk : RegisterPk} {addr : SocketAddr}
    (hj : j = .registerPk rk addr) :
    Follows X j (registerPkCore X rk addr) past fun _ _ => True := by
  unfold registerPkCore
  split
  · trivial
  next hne =>
  refine (follows_look (isPeerBlocked_uses rk.id)).bind fun h₁ blocked _ _ => ?_
  split
  · refine follows_perform fun s₁ => ⟨taskRule_of_look rfl, ?_⟩
    exact follows_perform fun s₂ => ⟨taskRule_of_look rfl, trivial⟩
  split
  · trivial
  refine follows_perform fun s₂ => ⟨taskRule_of_look rfl, ?_⟩
  split
  · trivial
  refine (follows_getOr rk.id).bind fun h₃ r _ ⟨_, hheld⟩ => ?_
  refine follows_perform fun s₄ => ⟨taskRule_of_look rfl, ?_⟩
  split
  · trivial
  next changed hchange =>
  refine follows_perform fun s₅ => ⟨taskRule_of_look rfl, ?_⟩
  refine follows_perform fun s₆ => ⟨taskRule_of_look rfl, ?_⟩
  split
  · trivial
  next regPk _ =>
  refine follows_perform fun s₇ => ⟨List.mem_of_elem_eq_true rfl, ?_⟩
  have hadm : Admitted (⟨.writeRegPk r regPk, s₇⟩ :: ⟨.instantNow, s₆⟩ :: ⟨.readRegPk r, s₅⟩ ::
      ⟨.readPeer r, s₄⟩ :: h₃) rk r (s₄.cell r) := ⟨regPk, s₇, s₆, s₅, s₄, h₃, rfl, rfl, hheld⟩
  split
  · refine (follows_updatePk addr addr.ip.toText hj (fun h => hne (.inl h)) hadm
      (registerPkChange_some hchange).1).bind fun h₈ _ _ _ => ?_
    exact follows_perform fun s₉ => ⟨taskRule_of_look rfl, trivial⟩
  · exact follows_perform fun s₉ => ⟨taskRule_of_look rfl, trivial⟩

theorem follows_code (X : Setup) (j : PeerTask) : Follows X j (j.code X) [] fun _ _ => True := by
  cases j with
  | get id => exact (follows_get id).bind fun _ _ _ _ => trivial
  | getOr id => exact (follows_getOr id).bind fun _ _ _ _ => trivial
  | isPeerBlocked id => exact (follows_look (isPeerBlocked_uses id)).bind fun _ _ _ _ => trivial
  | setPeerStatus id status note => exact follows_setPeerStatus rfl
  | deleteRegistered id => exact follows_deleteRegistered rfl
  | registerPk rk addr =>
    refine (follows_registerPkCore rfl).bind fun h₁ res _ _ => ?_
    cases res with
    | none => trivial
    | some res => exact fun s _ => ⟨List.mem_of_elem_eq_true rfl, trivial⟩

theorem peerTasks_verified (X : Setup) : (peerTasks X).Verified Server.Booted (fun _ => True)
    fun j past o _ => TaskRule X j past o where
  init _ _ := trivial
  code := follows_code X
  call _ _ _ _ _ _ := trivial
  start _ _ _ _ _ := trivial
  env _ _ _ _ _ := trivial
  reboot _ _ := trivial

end NemoServer
