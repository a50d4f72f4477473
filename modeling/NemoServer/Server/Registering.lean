import NemoServer.Server.PeerTasks

/-!
# What a registration has done

A registration looks for its peer, reads the entry it finds, writes its uuid to it, and inserts the
row of the peer or updates it, before it is answered. `RegistrationRule` says which of these calls
it has made since its last look into the map, and every task of the peer map keeps to it
(`peerTasks_registering`).
-/

set_option autoImplicit false

namespace NemoServer

open Prog PeerMap Rendezvous

/-- The call looks for the peer in the map. -/
def IsLook (id : String) (c : Call Op Server) : Prop := c.op = .mapGet id

/-- The task made the call `c` after the calls `h`, and has not looked for the peer since. -/
abbrev SinceLook (id : String) (past : Past) (c : Call Op Server) (h : Past) : Prop :=
  System.Since (IsLook id) past c h

/-- By its last look for the peer the task got the entry `r`. -/
def HeldSince (past : Past) (id : String) (r : PeerRef) : Prop :=
  (∃ s h, SinceLook id past ⟨.mapGet id, s⟩ h ∧ s.map id = some r) ∨
    (∃ row s h, SinceLook id past ⟨.mapInstall id row, s⟩ h ∧ s.nextCell = r) ∨
    ∃ s h, SinceLook id past ⟨.mapGetOrInsert id, s⟩ h ∧ (s.getOrInsert id).1 = r

/-- The registration has written its uuid to the entry `r`. -/
def WroteSince (past : Past) (rk : RegisterPk) (r : PeerRef) : Prop :=
  ∃ addr pk ip s h, SinceLook rk.id past ⟨.writePk r addr rk.uuid pk ip, s⟩ h

/-- The registration was let through, and finds nothing to write in the entry `r`. -/
def Unchanged (rk : RegisterPk) (addr : SocketAddr) (past : Past) (r : PeerRef) (s : Server) :
    Prop :=
  (∃ s', ⟨.checkIpBlocker addr.ip.toText rk.id, s'⟩ ∈ past) ∧
    registerPkChange (s.cell r) rk addr.ip.toText = some false

/-- The registration had nothing to write, or asked the database to write it. -/
def Confirmed (past : Past) (rk : RegisterPk) (addr : SocketAddr) : Prop :=
  (∃ r s h, SinceLook rk.id past ⟨.readPeer r, s⟩ h ∧ Unchanged rk addr h r s) ∨
    (∃ pk info s h, SinceLook rk.id past ⟨.dbInsertPeer rk.id rk.uuid pk info, s⟩ h) ∨
    ∃ guid pk info s h, SinceLook rk.id past ⟨.dbUpdatePk guid rk.id pk info, s⟩ h

/-- What a task has done before it performs an operation of a registration. -/
def RegistrationRule (j : PeerTask) (past : Past) : Op → Prop
  | .readPeer r => ∀ rk addr, j = .registerPk rk addr → HeldSince past rk.id r
  | .dbInsertPeer id uuid _ _ => ∃ rk addr r, j = .registerPk rk addr ∧ rk.id = id ∧
      rk.uuid = uuid ∧ HeldSince past id r ∧ WroteSince past rk r
  | .dbUpdatePk _ id _ _ => ∃ rk addr r, j = .registerPk rk addr ∧ rk.id = id ∧
      HeldSince past id r ∧ WroteSince past rk r
  | .udpSend (.registerPkResponse .ok) _ => ∃ rk addr, j = .registerPk rk addr ∧
      Confirmed past rk addr
  | _ => True

theorem registrationRule_of_other {j : PeerTask} {past : Past} {o : Op}
    (hj : ∀ rk addr, j ≠ .registerPk rk addr) (hr : o.kind ≠ .register) (hp : o.kind ≠ .reply) :
    RegistrationRule j past o := by
  cases o with
  | readPeer r => exact fun rk addr heq => absurd heq (hj rk addr)
  | dbInsertPeer id uuid pk info => exact absurd rfl hr
  | dbUpdatePk guid id pk info => exact absurd rfl hr
  | udpSend msg addr => exact absurd rfl hp
  | _ => trivial

/-! ## Later calls -/

variable {id : String} {past : Past} {r : PeerRef} {rk : RegisterPk} {addr : SocketAddr}
  {c : Call Op Server}

theorem HeldSince.cons (h : HeldSince past id r) (hc : ¬IsLook id c) :
    HeldSince (c :: past) id r := by
  obtain ⟨s, h', hs, hr⟩ | ⟨row, s, h', hs, hr⟩ | ⟨s, h', hs, hr⟩ := h
  · exact .inl ⟨s, h', hs.there hc, hr⟩
  · exact .inr (.inl ⟨row, s, h', hs.there hc, hr⟩)
  · exact .inr (.inr ⟨s, h', hs.there hc, hr⟩)

theorem WroteSince.cons (h : WroteSince past rk r) (hc : ¬IsLook rk.id c) :
    WroteSince (c :: past) rk r := by
  obtain ⟨addr, pk, ip, s, h', hs⟩ := h
  exact ⟨addr, pk, ip, s, h', hs.there hc⟩

theorem Confirmed.cons (h : Confirmed past rk addr) (hc : ¬IsLook rk.id c) :
    Confirmed (c :: past) rk addr := by
  obtain ⟨r, s, h', hs, hr⟩ | ⟨pk, info, s, h', hs⟩ | ⟨guid, pk, info, s, h', hs⟩ := h
  · exact .inl ⟨r, s, h', hs.there hc, hr⟩
  · exact .inr (.inl ⟨pk, info, s, h', hs.there hc⟩)
  · exact .inr (.inr ⟨guid, pk, info, s, h', hs.there hc⟩)

/-! ## Every task keeps to it -/

variable {X : Setup} {j : PeerTask}

/-- The handler keeps to the rule, and ends with `Q`. -/
abbrev Registers (X : Setup) (j : PeerTask) {α : Type} (p : Handler α) (past : Past)
    (Q : Past → α → Prop) : Prop :=
  p.Sat (Op.sem X) (fun _ => True) (fun past o _ => RegistrationRule j past o) Q past

theorem registers_perform {α : Type} {o : Op} {f : o.Res → Handler α} {Q : Past → α → Prop}
    (hf : ∀ s, RegistrationRule j past o ∧ Registers X j (f (Op.sem X o s).1) (⟨o, s⟩ :: past) Q) :
    Registers X j (perform o >>= f) past Q := fun s _ => hf s

theorem registers_other {p : Handler Unit} {ks : List Kind} (hp : p.Uses (Only ks))
    (hj : ∀ rk addr, j ≠ .registerPk rk addr) (hr : .register ∉ ks) (ha : .reply ∉ ks) :
    Registers X j p past fun _ _ => True := by
  refine (hp.sat fun past' o _ _ _ ho => ?_).mono fun _ _ _ _ => trivial
  have hk : o.kind ∈ ks := only_iff.1 ho
  refine registrationRule_of_other hj (fun heq => ?_) fun heq => ?_
  · exact hr (heq ▸ hk)
  · exact ha (heq ▸ hk)

theorem registers_isPeerBlocked (hj : j = .registerPk rk addr) :
    Registers X j (isPeerBlocked rk.id) past fun _ _ => True := by
  unfold isPeerBlocked peerStatus getInMemory
  refine Sat.bind (R := fun _ _ => True) ?_ fun _ _ _ _ => trivial
  refine registers_perform fun s₁ => ⟨trivial, ?_⟩
  cases hmap : (Op.sem X (.mapGet rk.id) s₁).1 with
  | some r =>
    refine registers_perform fun s₂ => ⟨fun rk' addr' heq => ?_, trivial⟩
    obtain ⟨rfl, -⟩ := PeerTask.registerPk.inj (hj.symm.trans heq)
    exact .inl ⟨s₁, past, .here, hmap⟩
  | none =>
    refine registers_perform fun s₂ => ⟨trivial, ?_⟩
    cases (Op.sem X (.dbGetPeer rk.id) s₂).1 <;> trivial

theorem registers_getOr (id : String) : Registers X j (PeerMap.getOr id) past fun past' r =>
    past <:+ past' ∧ HeldSince past' id r := by
  unfold PeerMap.getOr PeerMap.get
  refine registers_perform fun s₁ => ⟨trivial, ?_⟩
  cases hmap : (Op.sem X (.mapGet id) s₁).1 with
  | some r => exact ⟨List.suffix_cons _ _, .inl ⟨s₁, past, .here, hmap⟩⟩
  | none =>
    refine registers_perform fun s₂ => ⟨trivial, ?_⟩
    match (Op.sem X (.dbGetPeer id) s₂).1 with
    | some (some row) =>
      exact fun s₃ _ => ⟨trivial, ⟨[_, _, _], rfl⟩, .inr (.inl ⟨row, s₃, _, .here, rfl⟩)⟩
    | some none => exact fun s₃ _ => ⟨trivial, ⟨[_, _, _], rfl⟩, .inr (.inr ⟨s₃, _, .here, rfl⟩)⟩
    | none => exact fun s₃ _ => ⟨trivial, ⟨[_, _, _], rfl⟩, .inr (.inr ⟨s₃, _, .here, rfl⟩)⟩

theorem registers_updatePk {a : SocketAddr} (ip : String) (hj : j = .registerPk rk a)
    (hr : HeldSince past rk.id r) :
    Registers X j (PeerMap.updatePk X rk.id r addr rk.uuid rk.pk ip) past fun past' _ =>
      Confirmed past' rk a := by
  unfold PeerMap.updatePk
  refine registers_perform fun s₁ => ⟨trivial, ?_⟩
  have hheld : HeldSince (⟨.writePk r addr rk.uuid rk.pk ip, s₁⟩ :: past) rk.id r := hr.cons nofun
  have hwrote : WroteSince (⟨.writePk r addr rk.uuid rk.pk ip, s₁⟩ :: past) rk r :=
    ⟨addr, rk.pk, ip, s₁, past, .here⟩
  cases (Op.sem X (.writePk r addr rk.uuid rk.pk ip) s₁).1 with
  | none =>
    refine registers_perform fun s₂ => ⟨⟨rk, a, r, hj, rfl, rfl, hheld, hwrote⟩, ?_⟩
    have hconf : Confirmed (⟨.dbInsertPeer rk.id rk.uuid rk.pk (X.infoToJson ip), s₂⟩ ::
        ⟨.writePk r addr rk.uuid rk.pk ip, s₁⟩ :: past) rk a := .inr (.inl ⟨_, _, s₂, _, .here⟩)
    cases (Op.sem X (.dbInsertPeer rk.id rk.uuid rk.pk (X.infoToJson ip)) s₂).1 with
    | none => exact hconf
    | some guid => exact fun s₃ _ => ⟨trivial, hconf.cons nofun⟩
  | some guid =>
    refine registers_perform fun s₂ => ⟨⟨rk, a, r, hj, rfl, hheld, hwrote⟩, ?_⟩
    have hconf : Confirmed (⟨.dbUpdatePk guid rk.id rk.pk (X.infoToJson ip), s₂⟩ ::
        ⟨.writePk r addr rk.uuid rk.pk ip, s₁⟩ :: past) rk a :=
      .inr (.inr ⟨guid, _, _, s₂, _, .here⟩)
    cases (Op.sem X (.dbUpdatePk guid rk.id rk.pk (X.infoToJson ip)) s₂).1 <;> exact hconf

theorem registers_registerPkCore (hj : j = .registerPk rk addr) :
    Registers X j (registerPkCore X rk addr) past fun past' res =>
      res = some .ok → Confirmed past' rk addr := by
  unfold registerPkCore
  split
  · exact nofun
  refine (registers_isPeerBlocked hj).bind fun h₁ blocked _ _ => ?_
  split
  · refine registers_perform fun s₁ => ⟨trivial, ?_⟩
    exact registers_perform fun s₂ => ⟨trivial, nofun⟩
  split
  · exact nofun
  refine registers_perform fun s₂ => ⟨trivial, ?_⟩
  split
  · exact nofun
  refine (registers_getOr rk.id).bind fun h₃ r hs ⟨hsuf, hheld⟩ => ?_
  have hgate : ⟨.checkIpBlocker addr.ip.toText rk.id, s₂⟩ ∈ h₃ := hsuf.subset List.mem_cons_self
  refine registers_perform fun s₄ => ⟨fun rk' addr' heq => ?_, ?_⟩
  · obtain ⟨rfl, -⟩ := PeerTask.registerPk.inj (hj.symm.trans heq)
    exact hheld
  split
  · exact nofun
  next changed hchange =>
  refine registers_perform fun s₅ => ⟨trivial, ?_⟩
  refine registers_perform fun s₆ => ⟨trivial, ?_⟩
  split
  · exact nofun
  next regPk _ =>
  refine registers_perform fun s₇ => ⟨trivial, ?_⟩
  cases changed with
  | true =>
    have hheld' : HeldSince (⟨.writeRegPk r regPk, s₇⟩ :: ⟨.instantNow, s₆⟩ :: ⟨.readRegPk r, s₅⟩ ::
        ⟨.readPeer r, s₄⟩ :: h₃) rk.id r :=
      (((hheld.cons (by nofun)).cons (by nofun)).cons (by nofun)).cons (by nofun)
    refine (registers_updatePk addr.ip.toText hj hheld').bind fun h₈ _ _ hconf => ?_
    exact registers_perform fun s₉ => ⟨trivial, fun _ => hconf.cons nofun⟩
  | false =>
    have hread : Confirmed (⟨.readPeer r, s₄⟩ :: h₃) rk addr :=
      .inl ⟨r, s₄, h₃, .here, ⟨s₂, hgate⟩, hchange⟩
    refine registers_perform fun s₉ => ⟨trivial, fun _ => ?_⟩
    exact (((hread.cons (by nofun)).cons (by nofun)).cons (by nofun)).cons (by nofun)

theorem registers_code (X : Setup) (j : PeerTask) :
    Registers X j (j.code X) [] fun _ _ => True := by
  cases j with
  | get id =>
    have huses := uses_bind (get_uses id) fun _ => uses_pure ()
    exact registers_other huses nofun (by decide) (by decide)
  | getOr id =>
    have huses := uses_bind (getOr_uses id) fun _ => uses_pure ()
    exact registers_other huses nofun (by decide) (by decide)
  | isPeerBlocked id =>
    have huses := uses_bind (isPeerBlocked_uses id) fun _ => uses_pure ()
    exact registers_other huses nofun (by decide) (by decide)
  | setPeerStatus id status note =>
    exact registers_other (setPeerStatus_uses id status note) nofun (by decide) (by decide)
  | deleteRegistered id =>
    exact registers_other (deleteRegistered_uses id) nofun (by decide) (by decide)
  | registerPk rk addr =>
    refine (registers_registerPkCore rfl).bind fun h₁ res _ hconf => ?_
    cases res with
    | none => trivial
    | some res =>
      refine fun s _ => ⟨?_, trivial⟩
      cases res with
      | ok => exact ⟨rk, addr, rfl, hconf rfl⟩
      | _ => trivial

theorem peerTasks_registering (X : Setup) : (peerTasks X).Verified Server.Booted (fun _ => True)
    fun j past o _ => RegistrationRule j past o where
  init _ _ := trivial
  code := registers_code X
  call _ _ _ _ _ _ := trivial
  start _ _ _ _ _ := trivial
  env _ _ _ _ _ := trivial
  reboot _ _ := trivial

end NemoServer
