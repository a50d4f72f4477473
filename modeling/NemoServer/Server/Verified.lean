import NemoServer.Server.Discipline
import NemoServer.Server.Frame

/-!
# Every task keeps to the rule

The handlers, one after the other, are executed symbolically against `Rule`: each lemma says that
a handler keeps to the rule from any history of the kinds `ks`, and what its result tells about
the history it leaves.
-/

set_option autoImplicit false

namespace NemoServer

open Prog Management Rendezvous

variable {X : Setup} {j : Job} {ks : List Kind} {past : Past}

/-- The handler `p` keeps to the rule from the history `past`, and ends with `Q`. -/
abbrev Keeps (X : Setup) (j : Job) {α : Type} (p : Handler α) (past : Past)
    (Q : Past → α → Prop) : Prop :=
  p.Sat (Op.sem X) WellFormed (Rule X j) Q past

theorem keeps_perform {α : Type} {o : Op} {f : o.Res → Handler α} {Q : Past → α → Prop} :
    Keeps X j (perform o >>= f) past Q ↔ ∀ s, WellFormed s → Rule X j past o s ∧
      Keeps X j (f (Op.sem X o s).1) (⟨o, s⟩ :: past) Q := Iff.rfl

theorem keeps_op {o : Op} {Q : Past → o.Res → Prop}
    (h : ∀ s, WellFormed s → Rule X j past o s ∧ Q (⟨o, s⟩ :: past) (Op.sem X o s).1) :
    Keeps X j (perform o) past Q := h

theorem keeps_pure {α : Type} {a : α} {Q : Past → α → Prop} (h : Q past a) :
    Keeps X j (pure a) past Q := h

theorem keeps_ite {α : Type} {c : Prop} [Decidable c] {p q : Handler α} {Q : Past → α → Prop}
    (hp : c → Keeps X j p past Q) (hq : ¬c → Keeps X j q past Q) :
    Keeps X j (if c then p else q) past Q := by
  by_cases h : c
  · rw [if_pos h]
    exact hp h
  · rw [if_neg h]
    exact hq h

/-- A step the rule asks nothing of. -/
theorem rule_of_look {o : Op} {s : Server} (hw : Within ks past) (hf : .final ∉ ks)
    (ho : Only [.look] o) : Rule X j past o s :=
  ⟨hw.lacks hf, opRule_of_look ho⟩

/-- A helper of which the rule asks nothing is used by its executions. -/
theorem keeps_free {α : Type} {p : Handler α} {free : List Kind} (hp : p.Uses (Only free))
    (hfree : ∀ past' o, Only free o → OpRule X j past' o) (hw : Within ks past)
    (hk : free ⊆ ks) (hf : .final ∉ ks) :
    Keeps X j p past fun past' a => p.Exec (Op.sem X) past past' a ∧ Within ks past' := by
  have hgrow : ∀ h' : Past, (∀ x ∈ h', Only free x.op ∨ x ∈ past) → Within ks h' :=
    fun h' hx x hmem => (hx x hmem).elim (fun h => hk (only_iff.1 h)) (hw x)
  refine (hp.sat (G := Rule X j) fun h' o s _ hx ho => ?_).mono fun h' a _ he => ?_
  · exact ⟨(hgrow h' hx).lacks hf, hfree h' o ho⟩
  · exact ⟨he.1, hgrow h' he.2⟩

/-- A helper that only looks is used by its executions. -/
theorem keeps_look {α : Type} {p : Handler α} (hp : p.Uses (Only [.look]))
    (hw : Within ks past) (hk : .look ∈ ks) (hf : .final ∉ ks) :
    Keeps X j p past fun past' a => p.Exec (Op.sem X) past past' a ∧ Within ks past' :=
  keeps_free hp (fun _ _ => opRule_of_look) hw (by simpa using hk) hf

/-! ## The peer map -/

theorem dbGetPeer_some {id : String} {s : Server} {row : Row}
    (h : (Op.sem X (.dbGetPeer id) s).1 = some (some row)) : row ∈ s.db ∧ row.id = id := by
  simp only [Op.sem, Server.query] at h
  split at h
  · simp only [Option.some.injEq] at h
    unfold Database.getPeer at h
    have hid := List.find?_some h
    exact ⟨List.mem_of_find?_eq_some h, by simpa using hid⟩
  · cases h

theorem keeps_get (id : String) (hw : Within ks past) (hk : [.look, .load] ⊆ ks)
    (hf : .final ∉ ks) : Keeps X j (PeerMap.get id) past fun past' r =>
      Within ks past' ∧ ∀ c, r = some c → Held past' id c := by
  have hlook : Kind.look ∈ ks := hk (by simp)
  have hload : Kind.load ∈ ks := hk (by simp)
  unfold PeerMap.get
  refine keeps_perform.2 fun s₁ _ => ⟨rule_of_look hw hf rfl, ?_⟩
  have hw₁ : Within ks (⟨.mapGet id, s₁⟩ :: past) := hw.cons hlook
  cases hmap : (Op.sem X (.mapGet id) s₁).1 with
  | some r =>
    refine keeps_pure ⟨hw₁, fun c hc => .inl ⟨s₁, List.mem_cons_self, ?_⟩⟩
    exact (show s₁.map id = some r from hmap).trans hc
  | none =>
    refine keeps_perform.2 fun s₂ hwf => ⟨rule_of_look hw₁ hf rfl, ?_⟩
    have hw₂ : Within ks (⟨.dbGetPeer id, s₂⟩ :: ⟨.mapGet id, s₁⟩ :: past) := hw₁.cons hlook
    match hrow : (Op.sem X (.dbGetPeer id) s₂).1 with
    | some (some row) =>
      obtain ⟨hmem, hid⟩ := dbGetPeer_some hrow
      refine keeps_perform.2 fun s₃ _ => ⟨⟨hw₂.lacks hf, hid, ?_, hwf.row_uuid row hmem,
        s₂, _, rfl, hmem⟩, ?_⟩
      · exact hid ▸ hwf.row_len row hmem
      · refine keeps_pure ⟨hw₂.cons hload, fun c hc => .inr (.inl ⟨row, s₃, List.mem_cons_self, ?_⟩)⟩
        exact Option.some.inj hc
    | some none => exact keeps_pure ⟨hw₂, fun c hc => by cases hc⟩
    | none => exact keeps_pure ⟨hw₂, fun c hc => by cases hc⟩

theorem keeps_getOr {rk : RegisterPk} (hreg : j.registers = some rk)
    (hlen : 6 ≤ rk.id.utf8ByteSize) (hw : Within ks past) (hk : [.look, .load] ⊆ ks)
    (hf : .final ∉ ks) : Keeps X j (PeerMap.getOr rk.id) past fun past' r =>
      Within ks past' ∧ Held past' rk.id r := by
  have hload : Kind.load ∈ ks := hk (by simp)
  unfold PeerMap.getOr
  refine (keeps_get rk.id hw hk hf).bind fun h₁ r _ ⟨hw₁, hheld⟩ => ?_
  cases r with
  | some r => exact keeps_pure ⟨hw₁, hheld r rfl⟩
  | none =>
    refine keeps_op fun s _ => ⟨⟨hw₁.lacks hf, hlen, rk, hreg, rfl⟩, hw₁.cons hload, ?_⟩
    exact .inr (.inr ⟨s, List.mem_cons_self, rfl⟩)

/-! ## Registration -/

theorem keeps_updatePk {rk : RegisterPk} {r : PeerRef} (addr : SocketAddr) (ip : String)
    (hreg : j.registers = some rk) (hlen : 6 ≤ rk.id.utf8ByteSize) (huuid : rk.uuid ≠ [])
    (hheld : Held past rk.id r) (hw : Within ks past) (hk : .register ∈ ks) (hf : .final ∉ ks) :
    Keeps X j (PeerMap.updatePk X rk.id r addr rk.uuid rk.pk ip) past fun past' _ =>
      Within ks past' ∧ Anchored past' rk := by
  unfold PeerMap.updatePk
  refine keeps_perform.2 fun s₁ _ => ⟨⟨hw.lacks hf, rk, hreg, rfl, rfl, huuid, hheld⟩, ?_⟩
  have hw₁ := hw.cons (s := s₁) (o := .writePk r addr rk.uuid rk.pk ip) hk
  have hheld₁ := hheld.mono (List.suffix_cons ⟨.writePk r addr rk.uuid rk.pk ip, s₁⟩ past)
  cases hguid : (Op.sem X (.writePk r addr rk.uuid rk.pk ip) s₁).1 with
  | none =>
    have hwrote : Wrote (⟨.writePk r addr rk.uuid rk.pk ip, s₁⟩ :: past) rk r none :=
      ⟨addr, ip, s₁, List.mem_cons_self, hguid⟩
    refine keeps_perform.2 fun s₂ _ => ⟨⟨hw₁.lacks hf, hlen, huuid, rk, r, hreg, rfl, rfl, rfl,
      hheld₁, hwrote⟩, ?_⟩
    have hw₂ := hw₁.cons (s := s₂) (o := .dbInsertPeer rk.id rk.uuid rk.pk (X.infoToJson ip)) hk
    cases hins : (Op.sem X (.dbInsertPeer rk.id rk.uuid rk.pk (X.infoToJson ip)) s₂).1 with
    | none => exact keeps_pure ⟨hw₂, .inr (.inl ⟨_, s₂, List.mem_cons_self⟩)⟩
    | some guid =>
      refine keeps_perform.2 fun s₃ _ => ⟨⟨hw₂.lacks hf, rk, X.infoToJson ip, s₂, hreg,
        hheld₁.mono (List.suffix_cons _ _), ?_, List.mem_cons_self, hins⟩, ?_⟩
      · exact ⟨addr, ip, s₁, List.mem_cons_of_mem _ List.mem_cons_self, hguid⟩
      · exact keeps_pure ⟨hw₂.cons hk,
          .inr (.inl ⟨_, s₂, List.mem_cons_of_mem _ List.mem_cons_self⟩)⟩
  | some guid =>
    have hwrote : Wrote (⟨.writePk r addr rk.uuid rk.pk ip, s₁⟩ :: past) rk r (some guid) :=
      ⟨addr, ip, s₁, List.mem_cons_self, hguid⟩
    refine keeps_perform.2 fun s₂ _ => ⟨⟨hw₁.lacks hf, hlen, rk, r, hreg, rfl, rfl, hheld₁,
      hwrote⟩, ?_⟩
    have hw₂ := hw₁.cons (s := s₂) (o := .dbUpdatePk guid rk.id rk.pk (X.infoToJson ip)) hk
    have hanch : Anchored (⟨.dbUpdatePk guid rk.id rk.pk (X.infoToJson ip), s₂⟩ ::
        ⟨.writePk r addr rk.uuid rk.pk ip, s₁⟩ :: past) rk :=
      .inr (.inr ⟨guid, _, s₂, List.mem_cons_self⟩)
    cases (Op.sem X (.dbUpdatePk guid rk.id rk.pk (X.infoToJson ip)) s₂).1 with
    | none => exact keeps_pure ⟨hw₂, hanch⟩
    | some u => exact keeps_pure ⟨hw₂, hanch⟩

theorem Anchored.mono {rk : RegisterPk} {past' : Past} (h : Anchored past rk)
    (hs : past <:+ past') : Anchored past' rk := by
  obtain ⟨r, s, h', hsuf, hrest⟩ | ⟨info, s, hm⟩ | ⟨guid, info, s, hm⟩ := h
  · exact .inl ⟨r, s, h', hsuf.trans hs, hrest⟩
  · exact .inr (.inl ⟨info, s, hs.subset hm⟩)
  · exact .inr (.inr ⟨guid, info, s, hs.subset hm⟩)

theorem registerPkChange_false {peer : Peer} {rk : RegisterPk} {ip : String}
    (h : registerPkChange peer rk ip = some false) : peer.uuid = rk.uuid := by
  unfold registerPkChange at h
  split at h
  · cases h
  · split at h
    · assumption
    · cases h

theorem keeps_registerPkCore {rk : RegisterPk} (addr : SocketAddr)
    (hreg : j.registers = some rk) (hw : Within ks past)
    (hk : [.look, .load, .register] ⊆ ks) (hf : .final ∉ ks) :
    Keeps X j (registerPkCore X rk addr) past fun past' res =>
      Within ks past' ∧ (res = some .ok → rk.uuid ≠ [] ∧ Anchored past' rk) := by
  have hlook : Kind.look ∈ ks := hk (by simp)
  have hregk : Kind.register ∈ ks := hk (by simp)
  unfold registerPkCore
  refine keeps_ite (fun _ => keeps_pure ⟨hw, by simp⟩) fun hne => ?_
  have huuid : rk.uuid ≠ [] := fun h => hne (.inl h)
  refine (keeps_look (PeerMap.isPeerBlocked_uses rk.id) hw hlook hf).bind
    fun h₁ blocked _ ⟨_, hw₁⟩ => ?_
  refine keeps_ite (fun _ => ?_) fun _ => ?_
  · refine keeps_perform.2 fun s₁ _ => ⟨rule_of_look hw₁ hf rfl, ?_⟩
    have hw₂ := hw₁.cons (s := s₁) (o := .record (.registerPk rk.id addr false)) hlook
    refine keeps_perform.2 fun s₂ _ => ⟨rule_of_look hw₂ hf rfl, ?_⟩
    exact keeps_pure ⟨hw₂.cons hlook, by simp⟩
  refine keeps_ite (fun _ => keeps_pure ⟨hw₁, by simp⟩) fun hlen => ?_
  have hlen : 6 ≤ rk.id.utf8ByteSize := Nat.le_of_not_lt hlen
  refine keeps_perform.2 fun s₂ _ => ⟨rule_of_look hw₁ hf rfl, ?_⟩
  have hw₂ := hw₁.cons (s := s₂) (o := .checkIpBlocker addr.ip.toText rk.id) hlook
  refine keeps_ite (fun _ => keeps_pure ⟨hw₂, by simp⟩) fun _ => ?_
  refine (keeps_getOr hreg hlen hw₂ (fun k hk' => hk (by
    simp only [List.mem_cons, List.not_mem_nil, or_false] at hk' ⊢
    exact hk'.elim .inl fun h => .inr (.inl h))) hf).bind fun h₃ r hs₃ ⟨hw₃, hheld⟩ => ?_
  refine keeps_perform.2 fun s₄ _ => ⟨rule_of_look hw₃ hf rfl, ?_⟩
  have hw₄ := hw₃.cons (s := s₄) (o := .readPeer r) hlook
  split
  · exact keeps_pure ⟨hw₄, by simp⟩
  · next changed hchange =>
    refine keeps_perform.2 fun s₅ _ => ⟨rule_of_look hw₄ hf rfl, ?_⟩
    refine keeps_perform.2 fun s₆ _ => ⟨rule_of_look (hw₄.cons hlook) hf rfl, ?_⟩
    have hw₆ := (hw₄.cons (s := s₅) (o := .readRegPk r) hlook).cons (s := s₆) (o := .instantNow)
      hlook
    split
    · exact keeps_pure ⟨hw₆, by simp⟩
    · next regPk _ =>
      refine keeps_perform.2 fun s₇ _ => ⟨⟨hw₆.lacks hf, trivial⟩, ?_⟩
      have hw₇ := hw₆.cons (s := s₇) (o := .writeRegPk r regPk) hregk
      have hsuf : h₃ <:+ (⟨.writeRegPk r regPk, s₇⟩ :: ⟨.instantNow, s₆⟩ :: ⟨.readRegPk r, s₅⟩ ::
          ⟨.readPeer r, s₄⟩ :: h₃ : Past) := ⟨[_, _, _, _], rfl⟩
      refine keeps_ite (fun _ => ?_) fun hsame => ?_
      · refine (keeps_updatePk addr addr.ip.toText hreg hlen huuid (hheld.mono hsuf) hw₇ hregk
          hf).bind fun h₈ _ _ ⟨hw₈, hanch⟩ => ?_
        refine keeps_perform.2 fun s₉ _ => ⟨rule_of_look hw₈ hf rfl, ?_⟩
        exact keeps_pure ⟨hw₈.cons hlook, fun _ => ⟨huuid, hanch.mono (List.suffix_cons _ _)⟩⟩
      · refine keeps_perform.2 fun s₉ _ => ⟨rule_of_look hw₇ hf rfl, ?_⟩
        refine keeps_pure ⟨hw₇.cons hlook, fun _ => ⟨huuid, .inl ⟨r, s₄, h₃, ?_, ?_, hheld, ?_⟩⟩⟩
        · exact ⟨[_, _, _, _], rfl⟩
        · exact ⟨_, hs₃.subset List.mem_cons_self, _, _, rfl⟩
        · have hfalse : changed = false := by simpa using hsame
          subst hfalse
          exact registerPkChange_false hchange

/-! ## Brokering -/

/-- The kinds of operations before a request is decided. -/
def early : List Kind := [.look, .load, .register, .claim, .route, .gate, .reply, .park]

theorem keeps_brokerPunch {h : Handling} {ph : PunchHoleRequest} (ws : Bool)
    (peerAddr : SocketAddr) (hj : j.handling = some h) (hm : h.msg = .punchHoleRequest ph)
    (hc : Cleared X h.authed ⟨ph.id, ph.nemoSource, ph.version⟩ past) (hw : Within early past) :
    Keeps X j (brokerPunch X h.self ph ws h.authed peerAddr) past fun past' msg =>
      Within (.deposit :: early) past' ∧ PushMsg X ph.id h.self.addr past' msg := by
  have hlook : Kind.look ∈ early := by decide
  have hf : Kind.final ∉ early := by decide
  unfold brokerPunch
  refine keeps_perform.2 fun s₁ _ => ⟨rule_of_look hw hf rfl, ?_⟩
  have hw₁ := hw.cons (s := s₁) (o := .auditPunch (X.tryIntoV4 h.self.addr).ip.toText
    (X.tryIntoV4 peerAddr).ip.toText ph.id) hlook
  refine keeps_perform.2 fun s₂ _ => ⟨rule_of_look hw₁ hf rfl, ?_⟩
  have hw₂ := hw₁.cons (s := s₂) (o := .getRelayServer h.self.relayServers) hlook
  refine keeps_perform.2 fun s₃ _ => ⟨rule_of_look hw₂ hf rfl, ?_⟩
  have hw₃ := hw₂.cons (s := s₃) (o := .alwaysUseRelay) hlook
  refine (keeps_look (controlPermissionsFor_uses X _ _) hw₃ hlook hf).bind
    fun h₄ permissions hs₄ ⟨_, hw₄⟩ => ?_
  refine keeps_perform.2 fun s₅ _ => ⟨rule_of_look hw₄ hf rfl, ?_⟩
  refine keeps_ite (fun _ => ?_) fun _ => ?_
  · refine keeps_pure ⟨(hw₄.record hlook).mono (List.subset_cons_self _ _), rfl, ?_⟩
    exact (hw₄.record hlook).lacks (by decide)
  · have hpast : past <:+ h₄ := List.IsSuffix.trans ⟨[_, _, _], rfl⟩ hs₄
    refine keeps_perform.2 fun s₆ _ => ⟨⟨(hw₄.record hlook).lacks hf,
      (hw₄.record hlook).lacks (by decide), ?_⟩, ?_⟩
    · exact ⟨h, _, hj, by rw [hm]; rfl, rfl, rfl, hc.mono (hpast.trans (List.suffix_cons _ _))⟩
    · exact keeps_pure ⟨((hw₄.record hlook).mono (List.subset_cons_self _ _)).cons
        (by simp [Op.kind]), rfl, _, s₆, List.mem_cons_self⟩

theorem keeps_punchTarget {h : Handling} {ph : PunchHoleRequest} (ws : Bool)
    (hj : j.handling = some h) (hm : h.msg = .punchHoleRequest ph)
    (hallow : Ran (Op.sem X) past (isPeerAllowed ph.id) true)
    (hctrl : Ran (Op.sem X) past (controllerPolicyRejectionFromField X ph.nemoSource ph.version
      ph.id (h.authed.map (·.peerId))) none)
    (huser : Ran (Op.sem X) past (nemoUserRejectionFromField X ph.nemoSource ph.version ph.id
      (h.authed.map (·.devicePubB64))) none) (hw : Within early past) :
    Keeps X j (punchTarget X h.self ph ws h.authed) past fun past' res =>
      Within (.deposit :: early) past' ∧ ∀ id addr, res.2 = some (id, addr) →
        Brokers X j past' id h.self.addr ∧ PushMsg X id h.self.addr past' res.1 := by
  have hlook : Kind.look ∈ early := by decide
  have hf : Kind.final ∉ early := by decide
  unfold punchTarget
  refine (keeps_get ph.id hw (by decide) hf).bind fun h₁ r hs₁ ⟨hw₁, hheld⟩ => ?_
  cases r with
  | none => exact keeps_pure ⟨hw₁.mono (List.subset_cons_self _ _), by simp⟩
  | some r =>
    refine keeps_perform.2 fun s₂ _ => ⟨rule_of_look hw₁ hf rfl, ?_⟩
    have hw₂ := hw₁.cons (s := s₂) (o := .readPeer r) hlook
    refine keeps_perform.2 fun s₃ _ => ⟨rule_of_look hw₂ hf rfl, ?_⟩
    have hw₃ := hw₂.cons (s := s₃) (o := .instantNow) hlook
    have hs₃ : h₁ <:+ (⟨.instantNow, s₃⟩ :: ⟨.readPeer r, s₂⟩ :: h₁ : Past) := ⟨[_, _], rfl⟩
    refine keeps_ite (fun _ => keeps_pure ⟨hw₃.mono (List.subset_cons_self _ _), by simp⟩)
      fun _ => ?_
    have hcl : Cleared X h.authed ⟨ph.id, ph.nemoSource, ph.version⟩
        (⟨.instantNow, s₃⟩ :: ⟨.readPeer r, s₂⟩ :: h₁) :=
      { target := fun _ => hallow.mono (hs₁.trans hs₃)
        controller := hctrl.mono (hs₁.trans hs₃)
        user := huser.mono (hs₁.trans hs₃)
        found := ⟨r, (hheld r rfl).mono hs₃⟩ }
    refine (keeps_brokerPunch ws _ hj hm hcl hw₃).bind fun h₄ msg hs₄ ⟨hw₄, hmsg⟩ => ?_
    refine keeps_pure ⟨hw₄, fun id addr hres => ?_⟩
    obtain ⟨rfl, rfl⟩ := Prod.mk.inj (Option.some.inj hres)
    exact ⟨⟨h, _, hj, by rw [hm]; rfl, rfl, rfl, hcl.mono hs₄⟩, hmsg⟩

theorem keeps_handlePunchHoleRequest {h : Handling} {ph : PunchHoleRequest} (ws : Bool)
    (hj : j.handling = some h) (hm : h.msg = .punchHoleRequest ph) (hw : Within early past) :
    Keeps X j (handlePunchHoleRequest X h.self ph ws h.authed) past fun past' res =>
      Within (.deposit :: early) past' ∧ ∀ id addr, res.2 = some (id, addr) →
        Brokers X j past' id h.self.addr ∧ PushMsg X id h.self.addr past' res.1 := by
  have hlook : Kind.look ∈ early := by decide
  have hf : Kind.final ∉ early := by decide
  have hgrow : early ⊆ .deposit :: early := List.subset_cons_self _ _
  unfold handlePunchHoleRequest
  refine keeps_ite (fun _ => ?_) fun _ => ?_
  · refine keeps_perform.2 fun s _ => ⟨rule_of_look hw hf rfl, keeps_pure ⟨?_, by simp⟩⟩
    exact (hw.record hlook).mono hgrow
  refine (keeps_look (isPeerAllowed_uses ph.id) hw hlook hf).bind
    fun h₁ allowed hs₁ ⟨hex₁, hw₁⟩ => ?_
  cases allowed with
  | false =>
    refine keeps_perform.2 fun s _ => ⟨rule_of_look hw₁ hf rfl, keeps_pure ⟨?_, by simp⟩⟩
    exact (hw₁.record hlook).mono hgrow
  | true =>
    refine (keeps_look (controllerPolicyRejectionFromField_uses X _ _ _ _) hw₁ hlook hf).bind
      fun h₂ rej hs₂ ⟨hex₂, hw₂⟩ => ?_
    cases rej with
    | some rej =>
      refine keeps_perform.2 fun s _ => ⟨rule_of_look hw₂ hf rfl, keeps_pure ⟨?_, by simp⟩⟩
      exact (hw₂.record hlook).mono hgrow
    | none =>
      refine (keeps_look (nemoUserRejectionFromField_uses X _ _ _ _) hw₂ hlook hf).bind
        fun h₃ rej hs₃ ⟨hex₃, hw₃⟩ => ?_
      cases rej with
      | some rej =>
        refine keeps_perform.2 fun s _ => ⟨rule_of_look hw₃ hf rfl, keeps_pure ⟨?_, by simp⟩⟩
        exact (hw₃.record hlook).mono hgrow
      | none =>
        exact keeps_punchTarget ws hj hm (hex₁.ran.mono (hs₂.trans hs₃)) (hex₂.ran.mono hs₃)
          hex₃.ran hw₃

/-- All kinds but the end of a round and the operations of the dashboard. -/
def late : List Kind := .push :: .deposit :: .redeem :: .deliver :: early

theorem early_subset : early ⊆ late := by decide

theorem keeps_handleTcpPunchHoleRequest {h : Handling} {ph : PunchHoleRequest} (ws : Bool)
    (hj : j.handling = some h) (hm : h.msg = .punchHoleRequest ph) (hw : Within early past) :
    Keeps X j (handleTcpPunchHoleRequest X h.self ph ws h.authed) past fun past' _ =>
      Within late past' ∧ Lacks .redeem past' := by
  unfold handleTcpPunchHoleRequest
  refine (keeps_handlePunchHoleRequest ws hj hm hw).bind fun h₁ res _ ⟨hw₁, hres⟩ => ?_
  have hf : Lacks .final h₁ := hw₁.lacks (by decide)
  have hsub : .deposit :: early ⊆ late := by decide
  obtain ⟨msg, _ | ⟨id, peerAddr⟩⟩ := res
  · refine keeps_op fun s _ => ⟨⟨hf, hw₁.lacks (by decide), h, hj, ?_⟩, ?_, ?_⟩
    · simp [Answers, hm]
    · exact (hw₁.mono hsub).cons (by simp [Op.kind, late])
    · refine List.forall_mem_cons.2 ⟨by simp [Op.kind], hw₁.lacks (by decide)⟩
  · obtain ⟨hb, hpm⟩ := hres id peerAddr rfl
    refine keeps_op fun s _ => ⟨⟨hf, hw₁.lacks (by decide), _, hb, hpm⟩, ?_, ?_⟩
    · exact (hw₁.mono hsub).cons (by simp [Op.kind, late])
    · refine List.forall_mem_cons.2 ⟨by simp [Op.kind], hw₁.lacks (by decide)⟩

theorem keeps_refuseRelay {h : Handling} {rf : RequestRelay} (controllerId reason id : String)
    (hj : j.handling = some h) (hm : h.msg = .requestRelay rf) (hw : Within early past) :
    Keeps X j (refuseRelay h.self.addr controllerId reason id) past fun past' _ =>
      Within (.deliver :: early) past' := by
  have hf : Kind.final ∉ early := by decide
  unfold refuseRelay
  refine keeps_perform.2 fun s₁ _ => ⟨rule_of_look hw hf rfl, ?_⟩
  have hw₁ := hw.record (e := .policyRejection controllerId h.self.addr reason) (s := s₁)
    (by decide)
  refine keeps_op fun s₂ _ => ⟨⟨hw₁.lacks hf, hw₁.lacks (by decide), h, hj, ?_⟩, ?_⟩
  · simp [Answers, hm]
  · exact (hw₁.mono (List.subset_cons_self _ _)).cons (by simp [Op.kind])

theorem keeps_forwardRelay {h : Handling} {rf : RequestRelay} (sourceId : String)
    (hj : j.handling = some h) (hm : h.msg = .requestRelay rf)
    (htarget : rf.id ≠ "" → Ran (Op.sem X) past (isPeerAllowed rf.id) true)
    (hctrl : Ran (Op.sem X) past (controllerPolicyRejectionFromField X rf.nemoSource
      rf.licenceKey rf.id (h.authed.map (·.peerId))) none)
    (huser : Ran (Op.sem X) past (nemoUserRejectionFromField X rf.nemoSource rf.licenceKey rf.id
      (h.authed.map (·.devicePubB64))) none) (hw : Within early past) :
    Keeps X j (forwardRelay X h.self.addr rf sourceId) past fun past' _ =>
      Within (.push :: .deposit :: early) past' := by
  have hlook : Kind.look ∈ early := by decide
  have hf : Kind.final ∉ early := by decide
  have hsub : early ⊆ .push :: .deposit :: early := by decide
  unfold forwardRelay PeerMap.getInMemory
  refine keeps_perform.2 fun s₁ _ => ⟨rule_of_look hw hf rfl, ?_⟩
  have hw₁ := hw.cons (s := s₁) (o := .mapGet rf.id) hlook
  cases hmap : (Op.sem X (.mapGet rf.id) s₁).1 with
  | none => exact keeps_pure (hw₁.mono hsub)
  | some r =>
    have hheld : Held (⟨.mapGet rf.id, s₁⟩ :: past) rf.id r :=
      .inl ⟨s₁, List.mem_cons_self, hmap⟩
    refine (keeps_look (controlPermissionsFor_uses X _ _) hw₁ hlook hf).bind
      fun h₂ permissions hs₂ ⟨_, hw₂⟩ => ?_
    refine keeps_perform.2 fun s₃ _ => ⟨rule_of_look hw₂ hf rfl, ?_⟩
    have hw₃ := hw₂.cons (s := s₃) (o := .readPeer r) hlook
    have hs₃ : past <:+ (⟨.readPeer r, s₃⟩ :: h₂ : Past) :=
      (List.suffix_cons _ _).trans (hs₂.trans (List.suffix_cons _ _))
    have hcl : Cleared X h.authed ⟨rf.id, rf.nemoSource, rf.licenceKey⟩
        (⟨.readPeer r, s₃⟩ :: h₂) :=
      { target := fun ht => (htarget ht).mono hs₃
        controller := hctrl.mono hs₃
        user := huser.mono hs₃
        found := ⟨r, hheld.mono (hs₂.trans (List.suffix_cons _ _))⟩ }
    have hb : ∀ past' : Past, (⟨.readPeer r, s₃⟩ :: h₂ : Past) <:+ past' →
        Brokers X j past' rf.id h.self.addr :=
      fun past' hs => ⟨h, _, hj, by rw [hm]; rfl, rfl, rfl, hcl.mono hs⟩
    refine keeps_perform.2 fun s₄ _ => ⟨⟨hw₃.lacks hf, hw₃.lacks (by decide), h.self.addr,
      hb _ List.suffix_rfl, rfl, hw₃.lacks (by decide)⟩, ?_⟩
    have hw₄ : ∀ msg addr, Within (.push :: early)
        (⟨.pushToPeer rf.id msg addr, s₄⟩ :: ⟨.readPeer r, s₃⟩ :: h₂) :=
      fun msg addr => (hw₃.mono (List.subset_cons_self _ _)).cons (by simp [Op.kind])
    refine keeps_perform.2 fun s₅ _ => ⟨⟨(hw₄ _ _).lacks (by decide), (hw₄ _ _).lacks (by decide),
      hb _ (List.suffix_cons _ _)⟩, ?_⟩
    exact keeps_pure (((hw₄ _ _).mono (by decide)).cons (by simp [Op.kind]))

theorem keeps_handleRequestRelay {h : Handling} {rf : RequestRelay} (hj : j.handling = some h)
    (hm : h.msg = .requestRelay rf) (hw : Within early past) :
    Keeps X j (handleRequestRelay X h.self rf h.authed) past fun past' _ =>
      Within (.deliver :: .push :: .deposit :: early) past' := by
  have hlook : Kind.look ∈ early := by decide
  have hf : Kind.final ∉ early := by decide
  have hrefuse : ∀ (past' : Past) (controllerId reason : String), Within early past' →
      Keeps X j (refuseRelay h.self.addr controllerId reason rf.id) past' fun past' _ =>
        Within (.deliver :: .push :: .deposit :: early) past' :=
    fun past' controllerId reason hw' =>
      (keeps_refuseRelay controllerId reason rf.id hj hm hw').mono
        fun _ _ _ hw'' => hw''.mono (by decide)
  unfold handleRequestRelay
  refine (keeps_look (relayTargetAllowed_uses rf.id) hw hlook hf).bind
    fun h₁ allowed hs₁ ⟨hex₁, hw₁⟩ => ?_
  cases allowed with
  | false => exact hrefuse h₁ _ _ hw₁
  | true =>
    refine (keeps_look (controllerPolicyRejectionFromField_uses X _ _ _ _) hw₁ hlook hf).bind
      fun h₂ rej hs₂ ⟨hex₂, hw₂⟩ => ?_
    cases rej with
    | some rej => exact hrefuse h₂ _ _ hw₂
    | none =>
      refine (keeps_look (nemoUserRejectionFromField_uses X _ _ _ _) hw₂ hlook hf).bind
        fun h₃ rej hs₃ ⟨hex₃, hw₃⟩ => ?_
      cases rej with
      | some rej => exact hrefuse h₃ _ _ hw₃
      | none =>
        have htarget : rf.id ≠ "" → Ran (Op.sem X) h₃ (isPeerAllowed rf.id) true := by
          intro hne
          rw [relayTargetAllowed, if_neg hne] at hex₁
          exact hex₁.ran.mono (hs₂.trans hs₃)
        refine (keeps_forwardRelay _ hj hm htarget (hex₂.ran.mono hs₃) hex₃.ran hw₃).bind
          fun h₄ forwarded _ hw₄ => ?_
        refine keeps_ite (fun _ => ?_) fun _ => keeps_pure (hw₄.mono (by decide))
        refine keeps_op fun s _ => ⟨rule_of_look hw₄ (by decide) rfl, ?_⟩
        exact (hw₄.mono (by decide)).cons (by simp [Op.kind, early])

/-! ## Answers of the target -/

theorem keeps_getPk (version id : String) (hw : Within ks past) (hk : [.look, .load] ⊆ ks)
    (hf : .final ∉ ks) : Keeps X j (getPk X version id) past fun past' _ => Within ks past' := by
  unfold getPk
  split
  · exact keeps_pure hw
  · refine (keeps_get id hw hk hf).bind fun h₁ r _ ⟨hw₁, _⟩ => ?_
    cases r with
    | none => exact keeps_pure hw₁
    | some r =>
      refine keeps_perform.2 fun s _ => ⟨rule_of_look hw₁ hf rfl, ?_⟩
      exact keeps_pure (hw₁.cons (hk (by simp [Op.kind])))

/-- A grant in a longer history without another redemption was there before. -/
theorem Granted.of_cons {past past' : Past} {a : SocketAddr} {authed : Option AuthedDevice}
    {entry : PendingRelay} {grant : String} (h : Granted X past' a authed entry grant)
    (hold : ∀ x ∈ past', x.op.kind ≠ .redeem ∨ x ∈ past) : Granted X past a authed entry grant := by
  obtain ⟨s, hm, hg⟩ := h
  rcases hold _ hm with hne | hm
  · exact absurd rfl hne
  · exact ⟨s, hm, hg⟩

/-- The grant for the entry at `a` is the only one of the history. -/
def OneGrant (X : Setup) (past : Past) (a : SocketAddr) (authed : Option AuthedDevice)
    (entry : PendingRelay) (grant : String) : Prop :=
  Granted X past a authed entry grant ∧ ∀ a' authed' entry' grant',
    Granted X past a' authed' entry' grant' → a' = a ∧ grant' = grant

theorem OneGrant.extend {past past' : Past} {a : SocketAddr} {authed : Option AuthedDevice}
    {entry : PendingRelay} {grant : String} (h : OneGrant X past a authed entry grant)
    (hs : past <:+ past') (hold : ∀ x ∈ past', x.op.kind ≠ .redeem ∨ x ∈ past) :
    OneGrant X past' a authed entry grant :=
  let ⟨⟨s, hm, hg⟩, hone⟩ := h
  ⟨⟨s, hs.subset hm, hg⟩, fun _ _ _ _ hg' => hone _ _ _ _ (hg'.of_cons hold)⟩

theorem OneGrant.cons {past : Past} {a : SocketAddr} {authed : Option AuthedDevice}
    {entry : PendingRelay} {grant : String} {o : Op} {s : Server}
    (h : OneGrant X past a authed entry grant) (ho : o.kind ≠ .redeem) :
    OneGrant X (⟨o, s⟩ :: past) a authed entry grant :=
  h.extend (List.suffix_cons _ _) (List.forall_mem_cons.2 ⟨.inl ho, fun _ hx => .inr hx⟩)

theorem OneGrant.uses {α : Type} {p : Handler α} {past past' : Past} {r : α} {a : SocketAddr}
    {authed : Option AuthedDevice} {entry : PendingRelay} {grant : String}
    (h : OneGrant X past a authed entry grant) (hp : p.Uses (Only [.look, .load]))
    (he : p.Exec (Op.sem X) past past' r) : OneGrant X past' a authed entry grant := by
  obtain ⟨new, rfl, hnew⟩ := hp.exec he
  refine h.extend he.suffix fun x hx => (List.mem_append.1 hx).imp_left fun hx => ?_
  rcases List.mem_pair.1 (only_iff.1 (hnew x hx)) with heq | heq <;> simp [heq]

theorem keeps_signResponder (rr : RelayResponse) (hw : Within ks past)
    (hk : [.look, .load] ⊆ ks) (hf : .final ∉ ks) :
    Keeps X j (signResponder X rr) past fun past' answer =>
      Within ks past' ∧ answer.uuid = rr.uuid := by
  unfold signResponder
  refine keeps_ite (fun _ => keeps_pure ⟨hw, rfl⟩) fun _ => ?_
  exact (keeps_getPk _ _ hw hk hf).bind fun h₁ pk _ hw₁ => keeps_pure ⟨hw₁, rfl⟩

theorem keeps_deliverRelayResponse {h : Handling} {rr answer : RelayResponse}
    {addrB : SocketAddr} {pending : PendingRelay} {grant : String} (hj : j.handling = some h)
    (hm : h.msg = .relayResponse rr) (haddr : X.mangleDecode rr.socketAddr = addrB)
    (hone : OneGrant X past addrB h.authed pending grant) (hans : answer.uuid = grant)
    (hw : Within (.redeem :: early) past) :
    Keeps X j (deliverRelayResponse X h.self rr.id answer addrB) past fun past' _ =>
      Within late past' ∧ Forwarded X past' := by
  have hlook : Kind.look ∈ Kind.redeem :: early := by decide
  have hf : Kind.final ∉ Kind.redeem :: early := by decide
  have hend : ∀ (past' : Past) (relayServer : String), Within (.redeem :: early) past' →
      OneGrant X past' addrB h.authed pending grant →
      Keeps X j (perform (.sendToTcp (.relayResponse { answer with relayServer := relayServer })
        addrB)) past' fun past' _ => Within late past' ∧ Forwarded X past' := by
    intro past' relayServer hw' hone'
    refine keeps_op fun s _ => ⟨⟨hw'.lacks hf, hw'.lacks (by decide), h, hj, ?_⟩, ?_, ?_⟩
    · simp only [Answers, hm]
      exact ⟨haddr.symm, pending, grant, _, hone'.1, rfl, hans⟩
    · exact (hw'.mono (by decide)).cons (by simp [Op.kind, late])
    · intro a authed entry grant' hg
      obtain ⟨rfl, rfl⟩ := hone'.2 _ _ _ _ (hg.of_cons (List.forall_mem_cons.2
        ⟨.inl (by simp [Op.kind]), fun _ hx => .inr hx⟩))
      exact ⟨_, s, List.mem_cons_self, hans⟩
  unfold deliverRelayResponse
  refine (keeps_look (fixRelayServer_uses X _ _ _) hw hlook hf).bind
    fun h₁ relayServer _ hfixed => ?_
  obtain ⟨hex, hw₁⟩ := hfixed
  have hone₁ := hone.uses ((fixRelayServer_uses X _ _ _).mono (Only.mono (by decide))) hex
  refine keeps_ite (fun _ => ?_) fun _ => hend h₁ _ hw₁ hone₁
  refine keeps_perform.2 fun s _ => ⟨rule_of_look hw₁ hf rfl, ?_⟩
  exact hend _ _ (hw₁.record hlook) (hone₁.cons (by simp [Op.kind]))

theorem keeps_forwardRelayResponse {h : Handling} {rr : RelayResponse} {addrB : SocketAddr}
    {pending : PendingRelay} {grant : String} (hj : j.handling = some h)
    (hconn : j.conn = some h.conn) (hm : h.msg = .relayResponse rr)
    (haddr : X.mangleDecode rr.socketAddr = addrB)
    (hone : OneGrant X past addrB h.authed pending grant) (hw : Within (.redeem :: early) past) :
    Keeps X j (forwardRelayResponse X h.conn h.self rr addrB pending grant) past fun past' _ =>
      Within late past' ∧ Forwarded X past' := by
  have hf : Kind.final ∉ Kind.redeem :: early := by decide
  unfold forwardRelayResponse
  refine keeps_perform.2 fun s₁ _ => ⟨rule_of_look hw hf rfl, ?_⟩
  refine keeps_perform.2 fun s₂ _ => ⟨⟨(hw.record (by decide)).lacks hf, hconn,
    fun hok => by cases hok⟩, ?_⟩
  have hw₂ : Within (.redeem :: early) (⟨.sendToSink h.conn (.relayResponse { uuid := grant }), s₂⟩
      :: ⟨.record (.relayGrant (X.relaySessionLabel grant) pending.sourceId pending.targetId), s₁⟩
      :: past) := (hw.record (by decide)).cons (by simp [Op.kind, early])
  refine (keeps_signResponder _ hw₂ (by decide) hf).exec.bind
    fun h₃ answer _ hsigned => ?_
  obtain ⟨hex, hw₃, hans⟩ := hsigned
  have hone₃ := ((hone.cons (by simp [Op.kind])).cons (by simp [Op.kind])).uses
    (signResponder_uses X _) hex
  exact keeps_deliverRelayResponse hj hm haddr hone₃ hans hw₃

theorem keeps_handleRelayResponse {h : Handling} {rr : RelayResponse} (hj : j.handling = some h)
    (hconn : j.conn = some h.conn) (hm : h.msg = .relayResponse rr) (hw : Within early past) :
    Keeps X j (handleRelayResponse X h.conn h.self rr h.authed) past fun past' _ =>
      Within late past' ∧ Forwarded X past' := by
  have hf : Kind.final ∉ early := by decide
  unfold handleRelayResponse
  refine keeps_perform.2 fun s _ => ⟨⟨hw.lacks hf, hw.lacks (by decide), h, rr, hj, hm, rfl, rfl⟩,
    ?_⟩
  have hw₁ : Within (.redeem :: early) (⟨.redeemPending (X.mangleDecode rr.socketAddr) h.authed, s⟩
      :: past) := (hw.mono (List.subset_cons_self _ _)).cons (by simp [Op.kind])
  have hnew : ∀ a authed entry grant, Granted X (⟨.redeemPending (X.mangleDecode rr.socketAddr)
      h.authed, s⟩ :: past) a authed entry grant → a = X.mangleDecode rr.socketAddr ∧
        (s.redeemPending X (X.mangleDecode rr.socketAddr) h.authed).1 = .granted entry grant := by
    rintro a authed entry grant ⟨s', hm', hg⟩
    rcases List.mem_cons.1 hm' with heq | hm'
    · obtain ⟨hop, rfl⟩ := Call.mk.inj heq
      obtain ⟨rfl, rfl⟩ := Op.redeemPending.inj hop
      exact ⟨rfl, hg⟩
    · exact absurd rfl (hw.lacks (k := .redeem) (by decide) _ hm')
  split
  · next pending grant hres =>
    refine keeps_forwardRelayResponse hj hconn hm rfl ⟨⟨s, List.mem_cons_self, hres⟩, ?_⟩ hw₁
    intro a authed entry grant' hg
    obtain ⟨ha, hg⟩ := hnew _ _ _ _ hg
    exact ⟨ha, (Redeem.granted.inj (hg.symm.trans hres)).2⟩
  · next hres =>
    refine keeps_pure ⟨hw₁.mono (by decide), fun a authed entry grant hg => ?_⟩
    exact absurd (hnew _ _ _ _ hg).2 (hres _ _)

theorem keeps_handleHoleSent {h : Handling} {phs : PunchHoleSent} (hj : j.handling = some h)
    (hm : h.msg = .punchHoleSent phs) (hw : Within early past) :
    Keeps X j (handleHoleSent X h.self phs) past fun past' _ =>
      Within (.deliver :: early) past' := by
  have hf : Kind.final ∉ early := by decide
  unfold handleHoleSent
  refine keeps_perform.2 fun s₁ _ => ⟨rule_of_look hw hf rfl, ?_⟩
  refine (keeps_getPk _ _ (hw.record (by decide)) (by decide) hf).bind fun h₂ pk _ hw₂ => ?_
  refine keeps_op fun s₃ _ => ⟨⟨hw₂.lacks hf, hw₂.lacks (by decide), h, hj, ?_⟩, ?_⟩
  · simp [Answers, hm]
  · exact (hw₂.mono (List.subset_cons_self _ _)).cons (by simp [Op.kind])

theorem keeps_handleLocalAddr {h : Handling} {la : LocalAddr} (hj : j.handling = some h)
    (hm : h.msg = .localAddr la) (hw : Within early past) :
    Keeps X j (handleLocalAddr X h.self la) past fun past' _ =>
      Within (.deliver :: early) past' := by
  have hf : Kind.final ∉ early := by decide
  unfold handleLocalAddr
  refine keeps_perform.2 fun s₁ _ => ⟨rule_of_look hw hf rfl, ?_⟩
  refine (keeps_getPk _ _ (hw.record (by decide)) (by decide) hf).bind fun h₂ pk _ hw₂ => ?_
  refine keeps_op fun s₃ _ => ⟨⟨hw₂.lacks hf, hw₂.lacks (by decide), h, hj, ?_⟩, ?_⟩
  · simp [Answers, hm]
  · exact (hw₂.mono (List.subset_cons_self _ _)).cons (by simp [Op.kind])

/-! ## Frames -/

/-- An answer that is no registration answer may go to the connection at any time. -/
theorem rule_sendToSink {c : ConnId} {msg : RendezvousMessage} {s : Server}
    (hconn : j.conn = some c) (hne : msg ≠ .registerPkResponse .ok) (hw : Within ks past)
    (hf : .final ∉ ks) : Rule X j past (.sendToSink c msg) s :=
  ⟨hw.lacks hf, hconn, fun hok => absurd hok hne⟩

theorem keeps_refuseBlocked (id : String) (addr : SocketAddr) (hw : Within early past) :
    Keeps X j (refuseBlocked id addr) past fun past' _ => Within early past' :=
  (keeps_look (refuseBlocked_uses id addr) hw (by decide) (by decide)).mono fun _ _ _ h => h.2

theorem keeps_updateAddrCore (id : String) (addr : SocketAddr) (hw : Within early past) :
    Keeps X j (updateAddrCore id addr) past fun past' _ => Within early past' := by
  have hf : Kind.final ∉ early := by decide
  unfold updateAddrCore PeerMap.getInMemory
  refine keeps_perform.2 fun s₁ _ => ⟨rule_of_look hw hf rfl, ?_⟩
  have hw₁ := hw.cons (s := s₁) (o := .mapGet id) (by simp [Op.kind, early])
  cases (Op.sem X (.mapGet id) s₁).1 with
  | none => exact keeps_pure hw₁
  | some r => exact keeps_op fun s₂ _ => ⟨⟨hw₁.lacks hf, trivial⟩, hw₁.cons (by simp [Op.kind, early])⟩

theorem keeps_handleRegisterPeer {c : ConnId} (self : Task) (rp : RegisterPeer)
    (authed : Option AuthedDevice) (hconn : j.conn = some c) (hw : Within early past) :
    Keeps X j (handleRegisterPeer c self rp authed) past fun past' _ => Within early past' := by
  have hf : Kind.final ∉ early := by decide
  unfold handleRegisterPeer
  refine keeps_ite (fun _ => keeps_pure hw) fun _ => ?_
  refine (keeps_refuseBlocked _ _ hw).bind fun h₁ blocked _ hw₁ => ?_
  refine keeps_ite (fun _ => keeps_pure hw₁) fun _ => keeps_ite (fun _ => keeps_pure hw₁) fun _ => ?_
  refine keeps_perform.2 fun s₂ _ => ⟨⟨hw₁.lacks hf, trivial⟩, ?_⟩
  have hw₂ := hw₁.cons (s := s₂) (o := .registerPeerPush rp.id c) (by simp [Op.kind, early])
  refine (keeps_updateAddrCore _ _ hw₂).bind fun h₃ requestPk _ hw₃ => ?_
  refine keeps_perform.2 fun s₄ _ => ⟨rule_sendToSink hconn (by simp) hw₃ hf, ?_⟩
  have hw₄ := hw₃.cons (s := s₄) (o := .sendToSink c (.registerPeerResponse requestPk))
    (by simp [Op.kind, early])
  refine keeps_ite (fun _ => ?_) fun _ => keeps_pure hw₄
  refine keeps_perform.2 fun s₅ _ => ⟨rule_sendToSink hconn (by simp) hw₄ hf, ?_⟩
  exact keeps_pure (hw₄.cons (by simp [Op.kind, early]))

theorem keeps_handleRegisterPk {c : ConnId} {rk : RegisterPk} (self : Task)
    (authed : Option AuthedDevice) (hconn : j.conn = some c) (hreg : j.registers = some rk)
    (hw : Within early past) :
    Keeps X j (handleRegisterPk X c self rk authed) past fun past' _ => Within early past' := by
  have hf : Kind.final ∉ early := by decide
  unfold handleRegisterPk
  refine keeps_ite (fun _ => keeps_pure hw) fun _ => ?_
  refine keeps_perform.2 fun s₁ _ => ⟨⟨hw.lacks hf, trivial⟩, ?_⟩
  have hw₁ := hw.cons (s := s₁) (o := .registerPeerPush rk.id c) (by simp [Op.kind, early])
  refine (keeps_registerPkCore self.addr hreg hw₁ (by decide) hf).bind
    fun h₂ res _ hres => ?_
  obtain ⟨hw₂, hok⟩ := hres
  cases res with
  | none => exact keeps_pure hw₂
  | some res =>
    refine keeps_perform.2 fun s₃ _ => ⟨⟨hw₂.lacks hf, hconn, fun heq => ?_⟩, ?_⟩
    · exact ⟨rk, hreg, hok (congrArg some (RendezvousMessage.registerPkResponse.inj heq))⟩
    · exact keeps_pure (hw₂.cons (by simp [Op.kind, early]))

theorem Job.registers_of_handling {h : Handling} {rk : RegisterPk} (hj : j.handling = some h)
    (hm : h.msg = .registerPk rk) : j.registers = some rk := by
  obtain ⟨c, self, authed, msg⟩ := h
  subst hm
  unfold Job.registers
  split
  · cases hj
  · rw [hj]

theorem keeps_handleTcp {h : Handling} (ws : Bool) (hj : j.handling = some h)
    (hconn : j.conn = some h.conn) (hw : Within early past) :
    Keeps X j (handleTcp X h.conn h.self ws h.authed (some h.msg)) past fun past' _ =>
      Within late past' ∧ Forwarded X past' := by
  have hf : Kind.final ∉ early := by decide
  have hpark : ∀ q : Request, h.msg.request = some q → ∀ s : Server,
      Rule X j past (.parkSink h.conn h.self.addr) s ∧
        Within early (⟨.parkSink h.conn h.self.addr, s⟩ :: past) :=
    fun q hq s => ⟨⟨hw.lacks hf, h, q, hj, hq, rfl, rfl⟩, hw.cons (by simp [Op.kind, early])⟩
  have hdone : ∀ (ks' : List Kind) (past' : Past), Within ks' past' → ks' ⊆ late →
      .redeem ∉ ks' → Within late past' ∧ Forwarded X past' :=
    fun ks' past' hw' hsub hred => ⟨hw'.mono hsub, .of_lacks (hw'.lacks hred)⟩
  unfold handleTcp
  split
  · next ph heq =>
    have hm : h.msg = .punchHoleRequest ph := Option.some.inj heq
    refine keeps_perform.2 fun s _ => ⟨(hpark _ (by rw [hm]; rfl) s).1, ?_⟩
    refine (keeps_handleTcpPunchHoleRequest ws hj hm (hpark _ (by rw [hm]; rfl) s).2).bind
      fun h₁ _ _ hw₁ => keeps_pure ⟨hw₁.1, .of_lacks hw₁.2⟩
  · next rf heq =>
    have hm : h.msg = .requestRelay rf := Option.some.inj heq
    refine keeps_perform.2 fun s _ => ⟨(hpark _ (by rw [hm]; rfl) s).1, ?_⟩
    refine (keeps_handleRequestRelay hj hm (hpark _ (by rw [hm]; rfl) s).2).bind
      fun h₁ _ _ hw₁ => keeps_pure (hdone _ _ hw₁ (by decide) (by decide))
  · next rr heq =>
    exact (keeps_handleRelayResponse hj hconn (Option.some.inj heq) hw).bind
      fun h₁ _ _ hw₁ => keeps_pure hw₁
  · next phs heq =>
    exact (keeps_handleHoleSent hj (Option.some.inj heq) hw).bind
      fun h₁ _ _ hw₁ => keeps_pure (hdone _ _ hw₁ (by decide) (by decide))
  · next la heq =>
    exact (keeps_handleLocalAddr hj (Option.some.inj heq) hw).bind
      fun h₁ _ _ hw₁ => keeps_pure (hdone _ _ hw₁ (by decide) (by decide))
  · next serial heq =>
    refine keeps_perform.2 fun s _ => ⟨rule_sendToSink hconn (by simp) hw hf, keeps_pure ?_⟩
    exact hdone early _ (hw.cons (by simp [Op.kind, early])) early_subset (by decide)
  · next rp heq =>
    exact (keeps_handleRegisterPeer _ _ _ hconn hw).mono
      fun h₁ _ _ hw₁ => hdone _ _ hw₁ early_subset (by decide)
  · next rk heq =>
    have hreg := Job.registers_of_handling hj (Option.some.inj heq)
    exact (keeps_handleRegisterPk _ _ hconn hreg hw).mono
      fun h₁ _ _ hw₁ => hdone _ _ hw₁ early_subset (by decide)
  · exact keeps_pure (hdone _ _ hw early_subset (by decide))

theorem keeps_handleTcp_none (c : ConnId) (self : Task) (ws : Bool)
    (authed : Option AuthedDevice) (hw : Within early past) :
    Keeps X j (handleTcp X c self ws authed none) past fun past' _ =>
      Within late past' ∧ Forwarded X past' :=
  keeps_pure ⟨hw.mono early_subset, .of_lacks (hw.lacks (by decide))⟩

/-- A round of the read loop, dispatched as the rule asks. -/
theorem keeps_serveFrame {c : ConnId} {self : Task} {authed : Option AuthedDevice}
    {frame : Option RendezvousMessage} (hconn : j.conn = some c)
    (hj : ∀ m, frame = some m → j.handling = some ⟨c, self, authed, m⟩)
    (hrule : OpRule X j past (.dispatch c authed frame)) (hent : Entered X j past)
    (hw : Within early past) :
    Keeps X j (serveFrame X c self authed frame) past fun _ _ => True := by
  have hf : Kind.final ∉ late := by decide
  unfold serveFrame
  refine keeps_perform.2 fun s₁ _ => ⟨⟨hw.lacks (by decide), hrule⟩, ?_⟩
  have hw₁ := hw.cons (s := s₁) (o := .dispatch c authed frame) (by simp [Op.kind, early])
  have hclose : ∀ past', Within late past' → Forwarded X past' →
      Keeps X j (perform (.close c)) past' fun _ _ => True :=
    fun past' hw' hfwd => keeps_op fun _ _ => ⟨⟨hw'.lacks hf, hconn, hfwd⟩, trivial⟩
  have hserve : Keeps X j (handleTcp X c self false authed frame)
      (⟨.dispatch c authed frame, s₁⟩ :: past) fun past' _ =>
        Within late past' ∧ Forwarded X past' := by
    cases frame with
    | none => exact keeps_handleTcp_none c self false authed hw₁
    | some m => exact keeps_handleTcp (h := ⟨c, self, authed, m⟩) false (hj m rfl) hconn hw₁
  refine keeps_ite (fun _ => ?_) fun _ => ?_
  · refine hserve.bind fun h₂ stay hs₂ hserved => ?_
    obtain ⟨hw₂, hfwd⟩ := hserved
    refine keeps_ite (fun _ => ?_) fun _ => hclose h₂ hw₂ hfwd
    have hent₂ := hent.mono ((List.suffix_cons _ _).trans hs₂)
    exact keeps_op fun _ _ => ⟨⟨hw₂.lacks hf, hconn, hfwd, hent₂⟩, trivial⟩
  · exact hclose _ (hw₁.mono early_subset) (.of_lacks (hw₁.lacks (by decide)))

/-! ## Handshakes -/

theorem opRule_of_claim {o : Op} (h : Only [.look, .claim] o) : OpRule X j past o := by
  rcases List.mem_pair.1 (only_iff.1 h) with hlook | hclaim
  · exact opRule_of_look (only_iff.2 (by simp [hlook]))
  · cases o with
    | registerPendingClaim publicKey peerId via => trivial
    | _ => cases hclaim

/-- What a handshake learns from the reply of the client. -/
def Learned (X : Setup) (sk : SecretKey) (ourPk : PublicKey) (ourSk : SecretKey)
    (frame : Option RendezvousMessage) (past : Past) : Reply → Prop
  | .refused => True
  | .secured none => True
  | .secured (some who) => ∃ auth sym, openSealedAuth X sk frame = some (some (.nemoClientAuth auth))
      ∧ Ran (Op.sem X) past (nemoClientAuthOpen X auth ourPk ourSk) (.ok (sym, who))
  | .plain frame' => frame' = frame

theorem keeps_readReply (sk : SecretKey) (ourPk : PublicKey) (ourSk : SecretKey)
    (frame : Option RendezvousMessage) (hw : Within ks past) (hk : [.look, .claim] ⊆ ks)
    (hf : .final ∉ ks) :
    Keeps X j (readReply X sk ourPk ourSk frame) past fun past' reply =>
      Within ks past' ∧ Learned X sk ourPk ourSk frame past' reply := by
  unfold readReply
  split
  · exact keeps_pure ⟨hw, trivial⟩
  · split
    · exact keeps_pure ⟨hw, trivial⟩
    · exact keeps_pure ⟨hw, trivial⟩
  · next auth hopen =>
    refine (keeps_free (nemoClientAuthOpen_uses X auth ourPk ourSk)
      (fun _ _ => opRule_of_claim) hw hk hf).bind fun h₁ res _ ⟨hex, hw₁⟩ => ?_
    cases res with
    | error e => exact keeps_pure ⟨hw₁, trivial⟩
    | ok found =>
      obtain ⟨sym, who⟩ := found
      have hlearned : Learned X sk ourPk ourSk frame h₁ (.secured (some who)) :=
        Exists.intro auth (Exists.intro sym ⟨hopen, hex.ran⟩)
      exact keeps_pure ⟨hw₁, hlearned⟩
  · exact keeps_pure ⟨hw, rfl⟩

/-- The end of a handshake that is over. -/
theorem keeps_enter_none {c : ConnId} {self : Task} {reply : Option (Option RendezvousMessage)}
    {authed : Option AuthedDevice} (secured : Bool) (hj : j = .handshake c self reply)
    (hproof : ∀ who, authed = some who → Proven X past reply who) (hw : Within early past)
    (hgate : Lacks .gate past) : Keeps X j (enter X c self authed secured none) past
      fun _ _ => True := by
  have hconn : j.conn = some c := by rw [hj]; rfl
  unfold enter
  refine keeps_perform.2 fun s₁ _ => ⟨⟨hw.lacks (by decide), hgate, self, reply, hj, hproof⟩, ?_⟩
  have hw₁ := hw.cons (s := s₁) (o := .finishHandshake c authed secured) (by simp [Op.kind, early])
  refine keeps_ite (fun hin => keeps_op fun s₂ _ => ⟨⟨hw₁.lacks (by decide), hconn, ?_, ?_⟩,
    trivial⟩) fun _ => keeps_op fun s₂ _ => ⟨⟨hw₁.lacks (by decide), hconn⟩, trivial⟩
  · exact .of_lacks (hw₁.lacks (by decide))
  · rintro c' self' reply' hj'
    obtain ⟨rfl, -, -⟩ := Job.handshake.inj (hj.symm.trans hj')
    exact .inr ⟨authed, secured, s₁, List.mem_cons_self, hin⟩

/-- A frame that came in place of the reply is served on an unproven, unsecured connection. -/
theorem keeps_enter_plain {c : ConnId} {self : Task} {frame : Option RendezvousMessage}
    (hj : j = .handshake c self (some frame)) (hw : Within early past)
    (hgate : Lacks .gate past) : Keeps X j (enter X c self none false (some frame)) past
      fun _ _ => True := by
  have hconn : j.conn = some c := by rw [hj]; rfl
  unfold enter
  refine keeps_perform.2 fun s₁ _ => ⟨⟨hw.lacks (by decide), hgate, self, _, hj, by simp⟩, ?_⟩
  have hw₁ := hw.cons (s := s₁) (o := .finishHandshake c none false) (by simp [Op.kind, early])
  refine keeps_ite (fun hin => ?_) fun _ => keeps_op fun s₂ _ =>
    ⟨⟨hw₁.lacks (by decide), hconn⟩, trivial⟩
  refine keeps_serveFrame hconn ?_ (.inr ⟨rfl, self, s₁, past, hj, rfl, hgate, hin⟩) ?_ hw₁
  · rintro m rfl
    rw [hj]
    rfl
  · rintro c' self' reply' hj'
    obtain ⟨rfl, -, -⟩ := Job.handshake.inj (hj.symm.trans hj')
    exact .inr ⟨none, false, s₁, List.mem_cons_self, hin⟩

theorem keeps_handleListenerInner {c : ConnId} {self : Task}
    {reply : Option (Option RendezvousMessage)} (hj : j = .handshake c self reply) :
    Keeps X j (handleListenerInner X c self reply) [] fun _ _ => True := by
  have hconn : j.conn = some c := by rw [hj]; rfl
  have hnil : ∀ ks, Within ks [] := by simp [Within]
  have hf : Lacks .final [] := (hnil early).lacks (by decide)
  have hresume : X.mode = .off → Keeps X j (perform (.resume c)) [] fun _ _ => True :=
    fun hoff => keeps_op fun _ _ => ⟨⟨hf, hconn, .of_lacks ((hnil early).lacks (by decide)),
      fun _ _ _ _ => .inl hoff⟩, trivial⟩
  have habandon : ∀ past', Within early past' → Keeps X j (perform (.abandon c)) past'
      fun _ _ => True :=
    fun past' hw' => keeps_op fun _ _ => ⟨⟨hw'.lacks (by decide), hconn⟩, trivial⟩
  unfold handleListenerInner
  refine keeps_ite hresume fun _ => ?_
  split
  · next hsk => exact keeps_ite (fun _ => habandon [] (hnil _)) fun _ => hresume (X.mode_off hsk)
  next sk hsk =>
  refine keeps_perform.2 fun s₁ _ => ⟨⟨hf, trivial⟩, ?_⟩
  refine keeps_perform.2 fun s₂ _ => ⟨rule_sendToSink hconn (by simp)
    ((hnil early).cons (by simp [Op.kind, early])) (by decide), ?_⟩
  have hmem : ∀ msg : RendezvousMessage, ⟨.genKeypair, s₁⟩ ∈
      (⟨.sendToSink c msg, s₂⟩ :: ⟨.genKeypair, s₁⟩ :: [] : Past) :=
    fun msg => List.mem_cons_of_mem _ List.mem_cons_self
  have hw₂ : ∀ msg, Within [.reply, .look, .claim]
      (⟨.sendToSink c msg, s₂⟩ :: ⟨.genKeypair, s₁⟩ :: []) := by
    simp [Within, Op.kind]
  split
  · exact keeps_enter_none false hj (by simp) ((hw₂ _).mono (by decide))
      ((hw₂ _).lacks (by decide))
  next frame =>
  refine (keeps_readReply sk _ _ frame (hw₂ _) (by decide) (by decide)).bind
    fun h₃ res hs₃ hread => ?_
  obtain ⟨hw₃, hlearned⟩ := hread
  have hearly : Within early h₃ := hw₃.mono (by decide)
  cases res with
  | refused => exact habandon h₃ hearly
  | secured authed =>
    cases authed with
    | none => exact keeps_enter_none true hj (by simp) hearly (hw₃.lacks (by decide))
    | some who =>
      obtain ⟨auth, sym, hopen, hran⟩ := hlearned
      refine keeps_enter_none true hj ?_ hearly (hw₃.lacks (by decide))
      intro who' heq
      obtain rfl := Option.some.inj heq
      exact ⟨sk, frame, auth, s₁, sym, hsk, rfl, hopen, hs₃.subset (hmem _), hran⟩
  | plain frame' =>
    have hframe : frame' = frame := hlearned
    subst hframe
    exact keeps_enter_plain hj hearly (hw₃.lacks (by decide))

/-! ## Datagrams and the dashboard -/

theorem keeps_handleUdp {self : Task} {msg : Option RendezvousMessage}
    (hj : j = .datagram self msg) : Keeps X j (handleUdp X self msg) [] fun _ _ => True := by
  have hw : Within early [] := by simp [Within]
  have hf : Kind.final ∉ early := by decide
  unfold handleUdp
  split
  · next rp =>
    refine keeps_ite (fun _ => ?_) fun _ => keeps_pure trivial
    refine (keeps_refuseBlocked _ _ hw).bind fun h₁ blocked _ hw₁ => ?_
    refine keeps_ite (fun _ => ?_) fun _ => keeps_pure trivial
    refine (keeps_updateAddrCore _ _ hw₁).bind fun h₂ requestPk _ hw₂ => ?_
    refine keeps_perform.2 fun s₃ _ => ⟨⟨hw₂.lacks hf, fun hok => by cases hok⟩, ?_⟩
    refine keeps_ite (fun _ => keeps_op fun s₄ _ => ⟨⟨?_, fun hok => by cases hok⟩, trivial⟩)
      fun _ => keeps_pure trivial
    exact (hw₂.cons (by simp [Op.kind, early])).lacks hf
  · next rk =>
    refine keeps_ite (fun _ => ?_) fun _ => keeps_pure trivial
    have hreg : j.registers = some rk := by rw [hj]; rfl
    refine (keeps_registerPkCore self.addr hreg hw (by decide) hf).bind
      fun h₁ res _ hres => ?_
    obtain ⟨hw₁, hok⟩ := hres
    cases res with
    | none => exact keeps_pure trivial
    | some res =>
      refine keeps_op fun s₂ _ => ⟨⟨hw₁.lacks hf, fun heq => ?_⟩, trivial⟩
      exact ⟨rk, hreg, hok (congrArg some (RendezvousMessage.registerPkResponse.inj heq))⟩
  · exact keeps_pure trivial

theorem opRule_of_admin {o : Op} (h : Only [.look, .admin] o) : OpRule X j past o := by
  cases o <;> trivial

theorem keeps_dashboard {p : Handler Unit} (hp : p.Uses (Only [.look, .admin])) :
    Keeps X j p [] fun _ _ => True := by
  have hw : Within [.look, .admin] [] := by simp [Within]
  exact (keeps_free hp (fun _ _ => opRule_of_admin) hw (List.Subset.refl _) (by simp)).mono
    fun _ _ _ _ => trivial

theorem keeps_deleteRegistered {id : String} (hj : j = .deletePeer id) :
    Keeps X j (PeerMap.deleteRegistered id) [] fun _ _ => True := by
  unfold PeerMap.deleteRegistered
  refine keeps_perform.2 fun s₁ _ => ⟨⟨by simp [Lacks], hj⟩, ?_⟩
  match (Op.sem X (.dbDeletePeer id) s₁).1 with
  | some true => exact keeps_op fun s₂ _ => ⟨⟨by simp [Lacks, Op.kind], hj⟩, trivial⟩
  | some false => exact keeps_pure trivial
  | none => exact keeps_pure trivial

/-- Every task keeps to the rule. -/
theorem keeps_code (X : Setup) (j : Job) : Keeps X j (j.code X) [] fun _ _ => True := by
  have hnil : ∀ ks, Within ks [] := by simp [Within]
  cases j with
  | handshake c self reply => exact keeps_handleListenerInner rfl
  | frame c self authed msg =>
    refine keeps_serveFrame rfl ?_ (.inl ⟨self, rfl, rfl⟩) (fun _ _ _ h => by cases h) (hnil early)
    rintro m rfl
    rfl
  | hangup c =>
    exact keeps_op fun s _ => ⟨⟨(hnil early).lacks (by decide), rfl,
      .of_lacks ((hnil early).lacks (by decide))⟩, trivial⟩
  | datagram self msg => exact keeps_handleUdp rfl
  | setPeerStatus id status note => exact keeps_dashboard (PeerMap.setPeerStatus_uses id status note)
  | setPeerManagementPolicy id policy =>
    exact keeps_dashboard (PeerMap.setPeerManagementPolicy_uses id policy)
  | deletePeer id => exact keeps_deleteRegistered rfl
  | removeDeviceKey id => exact keeps_dashboard (removeDeviceKey_uses id)

/-! ## The system -/

theorem WellFormed.of_eq {s s' : Server} (h : WellFormed s) (hmap : s'.map = s.map)
    (hdb : s'.db = s.db) : WellFormed s' :=
  ⟨hmap ▸ h.map_len, hdb ▸ h.row_len, hdb ▸ h.row_uuid⟩

/-- Only the map has changed, and its new entry has an id of a good length. -/
theorem WellFormed.of_map {s s' : Server} (h : WellFormed s)
    (hmap : ∀ id r, s'.map id = some r → s.map id = some r ∨ 6 ≤ id.utf8ByteSize)
    (hdb : s'.db = s.db) : WellFormed s' where
  map_len id r hr := (hmap id r hr).elim (h.map_len id r) fun hlen => hlen
  row_len := hdb ▸ h.row_len
  row_uuid := hdb ▸ h.row_uuid

/-- Only the rows have changed. -/
theorem WellFormed.of_db {s s' : Server} (h : WellFormed s) (hmap : s'.map = s.map)
    (hdb : ∀ row ∈ s'.db, (∃ r ∈ s.db, row.id = r.id ∧ row.uuid = r.uuid) ∨
      6 ≤ row.id.utf8ByteSize ∧ row.uuid ≠ []) : WellFormed s' where
  map_len := hmap ▸ h.map_len
  row_len row hrow := by
    obtain ⟨r, hr, hid, -⟩ | ⟨hlen, -⟩ := hdb row hrow
    · exact hid ▸ h.row_len r hr
    · exact hlen
  row_uuid row hrow := by
    obtain ⟨r, hr, -, huuid⟩ | ⟨-, hne⟩ := hdb row hrow
    · exact huuid ▸ h.row_uuid r hr
    · exact hne

theorem wellFormed_load {o : Op} {s : Server} (h : WellFormed s) (hk : o.kind = .load)
    (hr : OpRule X j past o) : WellFormed (Op.sem X o s).2 := by
  have hdb : (Op.sem X o s).2.db = s.db := sem_db (by simp [hk]) (by simp [hk]) (by simp [hk])
  have hinst : ∀ (id : String) (p : Peer), 6 ≤ id.utf8ByteSize → ∀ id' r,
      (s.install id p).2.map id' = some r → s.map id' = some r ∨ 6 ≤ id'.utf8ByteSize := by
    intro id p hlen id' r hmap
    obtain ⟨rfl, -⟩ | ⟨-, hold⟩ := Table.insert_eq_some.1 hmap
    · exact .inr hlen
    · exact .inl hold
  refine h.of_map ?_ hdb
  cases o with
  | mapInstall id row => exact hinst id _ hr.2.1
  | mapGetOrInsert id =>
    intro id' r hmap
    simp only [Op.sem, Server.getOrInsert] at hmap
    split at hmap
    · exact .inl hmap
    · exact hinst id _ hr.1 id' r hmap
  | _ => cases hk

theorem wellFormed_register {o : Op} {s : Server} (h : WellFormed s) (hk : o.kind = .register)
    (hr : OpRule X j past o) : WellFormed (Op.sem X o s).2 := by
  have hmap : (Op.sem X o s).2.map = s.map := sem_map (by simp [hk]) (by simp [hk])
  refine h.of_db hmap ?_
  cases o with
  | dbInsertPeer id uuid pk info =>
    intro row hrow
    obtain heq | ⟨-, -, heq⟩ := dbInsertPeer_db_cases (s := s) id uuid pk info
    · exact .inl ⟨row, heq ▸ hrow, rfl, rfl⟩
    · rw [Op.sem, heq, List.mem_append, List.mem_singleton] at hrow
      obtain hrow | rfl := hrow
      · exact .inl ⟨row, hrow, rfl, rfl⟩
      · exact .inr ⟨hr.1, hr.2.1⟩
  | dbUpdatePk guid id pk info =>
    intro row hrow
    obtain heq | ⟨-, heq⟩ := dbUpdatePk_db_cases (X := X) (s := s) guid id pk info
    · exact .inl ⟨row, heq ▸ hrow, rfl, rfl⟩
    · rw [heq, List.mem_map] at hrow
      obtain ⟨r, hmem, rfl⟩ := hrow
      split
      · exact .inr ⟨hr.1, h.row_uuid r hmem⟩
      · exact .inl ⟨r, hmem, rfl, rfl⟩
  | writePk r addr uuid pk ip => exact fun row hrow => .inl ⟨row, hrow, rfl, rfl⟩
  | writeGuid r guid => exact fun row hrow => .inl ⟨row, hrow, rfl, rfl⟩
  | writeRegPk r regPk => exact fun row hrow => .inl ⟨row, hrow, rfl, rfl⟩
  | writeHeartbeat r addr =>
    intro row hrow
    refine .inl ⟨row, ?_, rfl, rfl⟩
    simp only [Op.sem, Server.writeHeartbeat] at hrow
    split at hrow <;> exact hrow
  | _ => cases hk

theorem wellFormed_admin {o : Op} {s : Server} (h : WellFormed s) (hk : o.kind = .admin) :
    WellFormed (Op.sem X o s).2 := by
  have hmap : (Op.sem X o s).2.map = s.map := sem_map (by simp [hk]) (by simp [hk])
  refine h.of_db hmap fun row hrow => .inl ?_
  have hkey : (row.guid, row.id, row.uuid) ∈ s.db.map fun r => (r.guid, r.id, r.uuid) :=
    admin_db_cases hk ▸ List.mem_map_of_mem hrow
  obtain ⟨r, hr, heq⟩ := List.mem_map.1 hkey
  obtain ⟨-, heq⟩ := Prod.mk.inj heq
  obtain ⟨hid, huuid⟩ := Prod.mk.inj heq
  exact ⟨r, hr, hid.symm, huuid.symm⟩

theorem wellFormed_delete {o : Op} {s : Server} (h : WellFormed s) (hk : o.kind = .delete) :
    WellFormed (Op.sem X o s).2 := by
  cases o with
  | mapRemove id =>
    refine h.of_map (fun id' r hr => .inl ?_) rfl
    exact (Table.remove_eq_some.1 hr).2
  | dbDeletePeer id =>
    have hmap : (Op.sem X (.dbDeletePeer id) s).2.map = s.map := by
      obtain ⟨db, heq⟩ := s.query_snd fun db => some (Database.deleteRegisteredPeer db id)
      exact (congrArg Server.map heq).trans rfl
    refine h.of_db hmap fun row hrow => .inl ?_
    obtain heq | heq := dbDeletePeer_db_cases (X := X) (s := s) id
    · exact ⟨row, heq ▸ hrow, rfl, rfl⟩
    · exact ⟨row, List.mem_of_mem_filter (heq ▸ hrow), rfl, rfl⟩
  | _ => cases hk

theorem wellFormed_sem {o : Op} {s : Server} (h : WellFormed s) (hr : OpRule X j past o) :
    WellFormed (Op.sem X o s).2 := by
  by_cases hl : o.kind = .load
  · exact wellFormed_load h hl hr
  by_cases hd : o.kind = .delete
  · exact wellFormed_delete h hd
  by_cases hg : o.kind = .register
  · exact wellFormed_register h hg hr
  by_cases ha : o.kind = .admin
  · exact wellFormed_admin h ha
  exact h.of_eq (sem_map hl hd) (sem_db hg ha hd)

/-- hbbs keeps its rows and ids well formed, and every task keeps to the rule. -/
theorem hbbs_verified (X : Setup) :
    System.Verified (hbbs X) Server.Booted WellFormed (Rule X) where
  init s hs := ⟨by simp [hs.map], hs.id_len, hs.uuid_ne⟩
  code j := keeps_code X j
  call j past o s hs hr := wellFormed_sem hs hr.2
  start j s s' hs h := by
    rw [Server.beginJob_eq h]
    exact hs.of_eq rfl rfl
  env e s s' hs h := by
    rw [Server.act_eq h]
    exact hs.of_eq rfl rfl
  reboot s hs := ⟨fun id r hr => (nomatch hr : False).elim, hs.row_len, hs.row_uuid⟩

section Runs

variable {C : List Step → Pool Op Op.Res Server Job → Choice Job Env → Prop} {l : List Step}
  {p : Pool Op Op.Res Server Job}

/-- The calls of a task are items of the run. -/
theorem step_of_mem_calls {n : ℕ} {o : Op} {s : Server} {l' : List Step} (hs : l' <:+ l)
    (h : ⟨o, s⟩ ∈ System.calls n l') : ∃ j past, .step n j past o s ∈ l :=
  let ⟨j, past, hm⟩ := System.mem_calls.1 h
  ⟨j, past, hs.subset hm⟩

/-- The id of a peer a task got a cell for has at least six bytes. -/
theorem held_len (hr : (hbbs X).Run Server.Booted C l p) {n : ℕ} {l' : List Step} {id : String}
    {r : PeerRef} (hs : l' <:+ l) (h : Held (System.calls n l') id r) : 6 ≤ id.utf8ByteSize := by
  have hv := hbbs_verified X
  obtain ⟨s, hm, hmap⟩ | ⟨row, s, hm, -⟩ | ⟨s, hm, -⟩ := h <;>
    obtain ⟨j, past, hi⟩ := step_of_mem_calls hs hm
  · exact (hr.invariant_item hv _ hi).map_len id r hmap
  · exact (hr.guarantee hv _ _ _ _ _ hi).2.2.1
  · exact (hr.guarantee hv _ _ _ _ _ hi).2.1

end Runs

end NemoServer
