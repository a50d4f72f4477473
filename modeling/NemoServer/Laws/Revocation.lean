import NemoServer.Laws.Handshake

/-!
# What ends a connection

A connection is let in once, under the flags and the registry of that moment, and each frame after
that is only checked against the keys that are pinned. Two laws the handshake enforces therefore
hold for the frames as long as nothing they rest on has changed since: `require_device_key` may be
turned on over an open connection (`device_key_required_iff`), and a key may be bound to another
peer (`binding_followed_iff`). What has changed is read off the history (`System.Last`).
-/

set_option autoImplicit false

namespace NemoServer

open Prog Rendezvous

variable {X : Setup} {C : List Step → Pool Op Op.Res Server Job → Choice Job Env → Prop}
  {l : List Step} {p : Pool Op Op.Res Server Job}

/-! ## Frames and their connections -/

/-- The connection whose frame is handled carries the identity the task goes by. -/
theorem serving_of_dispatch (hr : (hbbs X).Run Server.Booted C l p) {n : ℕ} {j : Job} {past : Past}
    {c : ConnId} {authed : Option AuthedDevice} {msg : Option RendezvousMessage} {s : Server}
    {l' : List Step} (hs : (.step n j past (.dispatch c authed msg) s :: l') <:+ l) :
    Serving s c authed := by
  obtain ⟨-, hrule⟩ := hr.guarantee (hbbs_verified X) n j past _ s (hs.subset List.mem_cons_self)
  obtain ⟨p', ch, p'', hr', hc, ha, -, rfl⟩ := hr.before _ _ hs
  obtain ⟨k, hl⟩ := System.advance_step_live ha
  obtain ⟨self, rfl, -⟩ | ⟨rfl, self, s', h, rfl, rfl, hlacks, hres⟩ := hrule
  · obtain ⟨w, hw, -, hbusy, hauthed⟩ := (connected hr').serves n _ c hl rfl
    exact ⟨w, hw, .inr hbusy, hauthed⟩
  · obtain ⟨w, hw, -, ⟨hnot, -⟩ | ⟨authed, hin, hbusy, hauthed⟩⟩ :=
      (connected hr').serves n _ c hl rfl
    · exact absurd ⟨false, s', List.mem_cons_self, hres⟩ (hnot none)
    · obtain ⟨secured, s'', hm, -⟩ := hin
      rcases List.mem_cons.1 hm with heq | hm
      · obtain ⟨hop, -⟩ := Call.mk.inj heq
        obtain ⟨-, rfl, -⟩ := Op.finishHandshake.inj hop
        exact ⟨w, hw, .inr hbusy, hauthed⟩
      · exact absurd rfl (hlacks _ hm)

/-! ## The flag -/

def Server.flag (s : Server) : Bool := s.cfg.requireDeviceKey

/-- The last step of the history that changed `require_device_key` turned it on, while the
connection `c` was in service though it had proved nothing. -/
def RaisedOver (X : Setup) (l : List Step) (c : ConnId) : Prop :=
  ∃ i l', System.Last ((hbbs X).Changes Server.flag) l i l' ∧
    ((hbbs X).post i).flag = true ∧ Serving i.pre c none

theorem finishHandshake_none {s : Server} {c : ConnId} {secured : Bool}
    (h : (s.finishHandshake X c none secured).1 = true) : s.flag = false := by
  obtain ⟨hres, -⟩ | ⟨-, hflag, -⟩ := finishHandshake_conns (X := X) s c none secured
  · rw [hres] at h
    cases h
  · exact hflag rfl

/-- A connection that has proved nothing is in service under the flag only if the flag was raised
over it. -/
theorem raisedOver_of_serving (hmode : X.mode ≠ .off)
    (hr : (hbbs X).Run Server.Booted C l p) {c : ConnId} (hs : Serving p.shared c none)
    (hflag : p.shared.flag = true) : RaisedOver X l c := by
  induction hr with
  | boot h =>
    obtain ⟨w, hw, -⟩ := hs
    have hconns := congrFun h.conns c
    cases hconns.symm.trans hw
  | @next l q q' ch i hr hc ha ih =>
    have hpre : i.pre = q.shared := System.advance_pre ha
    have hpost : q'.shared = (hbbs X).post i := System.advance_post ha
    by_cases hch : (hbbs X).Changes Server.flag i
    · refine ⟨i, l, .here hch, hpost ▸ hflag, ?_⟩
      rw [hpre]
      obtain hs | ⟨n, j, past, secured, rfl, -⟩ := serving_advance (absurd · hmode) hr hc ha hs
      · exact hs
      · -- a handshake does not change the flag
        exact absurd (congrArg IntegrationConfig.requireDeviceKey
          (sem_cfg (by simp [Op.kind]) (by simp [Op.kind]))) hch
    · have hsame : q.shared.flag = true := by
        rw [← hpre, ← not_not.1 hch, ← hpost]
        exact hflag
      obtain hs | ⟨n, j, past, secured, -, hres⟩ := serving_advance (absurd · hmode) hr hc ha hs
      · obtain ⟨i', l', hl, hrest⟩ := ih hs hsame
        exact ⟨i', l', .there hch hl, hrest⟩
      · rw [finishHandshake_none hres] at hsame
        cases hsame

/-- With a key exchange, every frame that is handled while a device key is required comes from a
connection that has proved one, exactly if no frame comes on a connection over which the flag was
raised. -/
theorem device_key_required_iff (X : Setup) (hmode : X.mode ≠ .off) (l : List Step)
    (p : Pool Op Op.Res Server Job) (hr : (hbbs X).Run Server.Booted System.Free l p) :
    (∀ n j past c authed msg s, .step n j past (.dispatch c authed msg) s ∈ l →
      s.dispatch authed = true → s.cfg.requireDeviceKey = true →
        ∃ who, authed = some who ∧ Serving s c (some who)) ↔
    ∀ n j past c msg s l', (.step n j past (.dispatch c none msg) s :: l') <:+ l →
      ¬ RaisedOver X l' c := by
  constructor
  · rintro hall n j past c msg s l' hs ⟨i, l₁, hl, hon, -⟩
    obtain ⟨q, ch, q', hr', -, -, -, rfl⟩ := hr.before _ _ hs
    have hflag : q.shared.flag = true := (hr'.eq_of_last hl).trans hon
    obtain ⟨who, hwho, -⟩ := hall n j past c none msg _ (hs.subset List.mem_cons_self) rfl hflag
    cases hwho
  · intro hcond n j past c authed msg s hi hpass hflag
    obtain ⟨k, l', hs, -⟩ := Happened.of_mem hi
    have hserving := serving_of_dispatch hr hs
    cases authed with
    | none =>
      obtain ⟨q, ch, q', hr', -, -, -, rfl⟩ := hr.before _ _ hs
      exact absurd (raisedOver_of_serving hmode hr' hserving hflag) (hcond n j past c msg _ l' hs)
    | some who => exact ⟨who, rfl, hserving⟩

namespace Sample

/-- A client that proved nothing is registered, the flag is raised, and the client sends a frame. -/
def raisedRun : List (Choice Job Env) :=
  register 0 0 2 "target1" ++ [.env (.setRequireDeviceKey true)] ++
    playFor 1 1 (.frame 0 (task 2) none (some (.testNatRequest 0)))

/-- The newest item is a frame of an unproven connection while a device key is required. -/
def showsRaised : List Step → Bool
  | .step _ _ _ (.dispatch _ none _) s :: _ => s.cfg.requireDeviceKey
  | _ => false

theorem exists_raised : ∃ l p, (hbbs (setup .offer false)).Run Server.Booted System.Free l p ∧
    ∃ n j past c msg s, .step n j past (.dispatch c none msg) s ∈ l ∧
      s.cfg.requireDeviceKey = true := by
  obtain ⟨l, p, hr, ht⟩ := exists_run (setup .offer false) [] raisedRun
    (fun l _ => showsRaised l) (by decide +kernel)
  refine ⟨l, p, hr, ?_⟩
  unfold showsRaised at ht
  split at ht
  · next n j past c msg s l' => exact ⟨n, j, past, c, msg, s, List.mem_cons_self, ht⟩
  · cases ht

end Sample

/-- A run in which a connection that proved nothing is served though a device key is required. -/
theorem not_device_key_required : ¬ ∀ (X : Setup), X.mode ≠ .off → ∀ (l : List Step)
    (p : Pool Op Op.Res Server Job), (hbbs X).Run Server.Booted System.Free l p →
    ∀ n j past c authed msg s, .step n j past (.dispatch c authed msg) s ∈ l →
      s.dispatch authed = true → s.cfg.requireDeviceKey = true →
        ∃ who, authed = some who ∧ Serving s c (some who) := by
  intro hall
  obtain ⟨l, p, hr, n, j, past, c, msg, s, hi, hflag⟩ := Sample.exists_raised
  obtain ⟨who, hwho, -⟩ := hall _ (by decide) l p hr n j past c none msg s hi rfl hflag
  cases hwho

/-- In that run a frame comes on a connection over which the flag was raised. -/
theorem device_key_required_iff_raised : ∃ (l : List Step) (p : Pool Op Op.Res Server Job),
    (hbbs (Sample.setup .offer false)).Run Server.Booted System.Free l p ∧
    ¬ ∀ n j past c msg s l', (.step n j past (.dispatch c none msg) s :: l') <:+ l →
      ¬ RaisedOver (Sample.setup .offer false) l' c := by
  obtain ⟨l, p, hr, n, j, past, c, msg, s, hi, hflag⟩ := Sample.exists_raised
  refine ⟨l, p, hr, fun hcond => ?_⟩
  have hall := (device_key_required_iff _ (by decide) l p hr).2 hcond
  obtain ⟨who, hwho, -⟩ := hall n j past c none msg s hi rfl hflag
  cases hwho

/-! ## The binding -/

/-- What the registry binds a key to. -/
def Server.binding (publicKey : String) (s : Server) : Option String :=
  Integration.deviceKeyBinding s.cfg.deviceKeys publicKey

/-- A key bound to `peerId` speaks for `who`. -/
def Admits (X : Setup) (who : AuthedDevice) (peerId : String) : Prop :=
  who.peerId ≠ "" ∧ peerId = who.peerId ∨ peerId = "" ∧ X.allowUnboundDeviceKeys = true

/-- The last step of the history that changed the binding of the key of `who` left the key pinned,
but not for `who`. -/
def Rebound (X : Setup) (l : List Step) (who : AuthedDevice) : Prop :=
  ∃ i l' peerId,
    System.Last ((hbbs X).Changes (Server.binding who.devicePubB64)) l i l' ∧
      ((hbbs X).post i).binding who.devicePubB64 = some peerId ∧ ¬ Admits X who peerId

theorem vouches_iff {s : Server} {who : AuthedDevice} : Vouches X s.cfg.deviceKeys who ↔
    ∃ peerId, s.binding who.devicePubB64 = some peerId ∧ Admits X who peerId := by
  constructor
  · rintro ⟨-, ⟨hne, hbound⟩ | ⟨hbound, hallow⟩⟩
    · exact ⟨who.peerId, hbound, .inl ⟨hne, rfl⟩⟩
    · exact ⟨"", hbound, .inr ⟨rfl, hallow⟩⟩
  · rintro ⟨peerId, hbound, ⟨hne, rfl⟩ | ⟨rfl, hallow⟩⟩
    · exact ⟨Integration.pinned_of_binding hbound, .inl ⟨hne, hbound⟩⟩
    · exact ⟨Integration.pinned_of_binding hbound, .inr ⟨hbound, hallow⟩⟩

/-- The registry has vouched for every identity in service. -/
theorem vouched_of_serving (hr : (hbbs X).Run Server.Booted C l p) {c : ConnId}
    {who : AuthedDevice} (hs : Serving p.shared c (some who)) :
    ∃ i ∈ l, Vouches X i.pre.cfg.deviceKeys who := by
  induction hr with
  | boot h =>
    obtain ⟨w, hw, -⟩ := hs
    cases (congrFun h.conns c).symm.trans hw
  | @next l q q' ch i hr hc ha ih =>
    obtain hs | ⟨n, j, past, secured, rfl, -⟩ := serving_advance (by simp) hr hc ha hs
    · obtain ⟨i', hi, hv⟩ := ih hs
      exact ⟨i', List.mem_cons_of_mem _ hi, hv⟩
    · have hr' := System.Run.next hr hc ha
      obtain ⟨-, -, self, reply, -, hproven⟩ :=
        hr'.guarantee (hbbs_verified X) n j past _ _ List.mem_cons_self
      obtain ⟨s₀, auth, past', new, session, -, hsuf, hopen⟩ := opens_of_proven (hproven who rfl)
      obtain ⟨⟨s, hlook, hv⟩, -⟩ := opens_ok hopen
      -- the key was looked up earlier in the same handshake
      have hmem : ⟨.deviceKeyBinding who.devicePubB64, s⟩ ∈ past :=
        hsuf.subset (List.mem_append_left _ hlook)
      rw [hr'.past n j past _ _ l List.suffix_rfl] at hmem
      obtain ⟨j', past'', hi⟩ := System.mem_calls.1 hmem
      exact ⟨_, List.mem_cons_of_mem _ hi, hv⟩

/-- A key that is pinned, but not for the identity in service, was bound to another peer since. -/
theorem rebound_of_serving (hr : (hbbs X).Run Server.Booted C l p) {c : ConnId}
    {who : AuthedDevice} (hs : Serving p.shared c (some who)) {peerId : String}
    (hbound : p.shared.binding who.devicePubB64 = some peerId) (hnot : ¬ Admits X who peerId) :
    Rebound X l who := by
  obtain ⟨i, hi, hv⟩ := vouched_of_serving hr hs
  obtain ⟨peerId', hbound', hadmits⟩ := vouches_iff.1 hv
  have hne : i.pre.binding who.devicePubB64 ≠ p.shared.binding who.devicePubB64 := by
    rw [hbound', hbound]
    intro heq
    exact hnot (Option.some.inj heq ▸ hadmits)
  obtain ⟨i', l', hl⟩ := hr.exists_last hi hne
  exact ⟨i', l', peerId, hl, (hr.eq_of_last hl).symm.trans hbound, hnot⟩

/-- Every frame of a connection that proved an identity is handled while the registry vouches for
it, exactly if no frame comes after the key was bound to another peer. -/
theorem binding_followed_iff (X : Setup) (l : List Step) (p : Pool Op Op.Res Server Job)
    (hr : (hbbs X).Run Server.Booted System.Free l p) :
    (∀ n j past c who msg s, .step n j past (.dispatch c (some who) msg) s ∈ l →
      s.dispatch (some who) = true → Vouches X s.cfg.deviceKeys who) ↔
    ∀ n j past c who msg s l', (.step n j past (.dispatch c (some who) msg) s :: l') <:+ l →
      ¬ Rebound X l' who := by
  constructor
  · rintro hall n j past c who msg s l' hs ⟨i, l₁, peerId, hl, hbound, hnot⟩
    obtain ⟨q, ch, q', hr', -, -, -, rfl⟩ := hr.before _ _ hs
    have hbinding := (hr'.eq_of_last hl).trans hbound
    have hpass := Integration.pinned_of_binding hbinding
    obtain ⟨peerId', hbound', hadmits⟩ := vouches_iff.1
      (hall n j past c who msg _ (hs.subset List.mem_cons_self) hpass)
    exact hnot (Option.some.inj (hbinding.symm.trans hbound') ▸ hadmits)
  · intro hcond n j past c who msg s hi hpass
    obtain ⟨k, l', hs, -⟩ := Happened.of_mem hi
    have hserving := serving_of_dispatch hr hs
    obtain ⟨q, ch, q', hr', -, -, -, rfl⟩ := hr.before _ _ hs
    obtain ⟨peerId, hbound⟩ := Integration.binding_of_pinned hpass
    by_contra hnot
    refine hcond n j past c who msg _ l' hs (rebound_of_serving hr' hserving hbound ?_)
    exact fun hadmits => hnot (vouches_iff.2 ⟨peerId, hbound, hadmits⟩)

namespace Sample

/-- A client proves its key, the operator binds the key to another machine, and the client sends a
frame. -/
def reboundRun : List (Choice Job Env) :=
  connect 0 0 2 0 "target1" ++ [.env (.setDeviceKeyPeerId "key" "other1")] ++
    playFor 1 1 (.frame 0 (task 2) (some ⟨"A", "target1"⟩) (some (.testNatRequest 0)))

/-- The newest item serves a frame whose sender no key vouches for any more. -/
def showsRebound : List Step → Bool
  | .step _ _ _ (.dispatch _ (some who) _) s :: _ => s.dispatch (some who) &&
      !decide (Vouches (setup .offer false) s.cfg.deviceKeys who)
  | _ => false

theorem exists_rebound : ∃ l p, (hbbs (setup .offer false)).Run Server.Booted System.Free l p ∧
    ∃ n j past c who msg s, .step n j past (.dispatch c (some who) msg) s ∈ l ∧
      s.dispatch (some who) = true ∧ ¬ Vouches (setup .offer false) s.cfg.deviceKeys who := by
  obtain ⟨l, p, hr, ht⟩ := exists_run (setup .offer false) [deviceKey "target1"] reboundRun
    (fun l _ => showsRebound l) (by decide +kernel)
  refine ⟨l, p, hr, ?_⟩
  unfold showsRebound at ht
  split at ht
  · next n j past c who msg s l' =>
    obtain ⟨hpass, hnot⟩ := Bool.and_eq_true_iff.1 ht
    exact ⟨n, j, past, c, who, msg, s, List.mem_cons_self, hpass, by simpa using hnot⟩
  · cases ht

end Sample

/-- A run in which the machine a key was bound to before is still served. -/
theorem not_binding_followed : ¬ ∀ (X : Setup) (l : List Step) (p : Pool Op Op.Res Server Job),
    (hbbs X).Run Server.Booted System.Free l p →
    ∀ n j past c who msg s, .step n j past (.dispatch c (some who) msg) s ∈ l →
      s.dispatch (some who) = true → Vouches X s.cfg.deviceKeys who := by
  intro hall
  obtain ⟨l, p, hr, n, j, past, c, who, msg, s, hi, hpass, hnot⟩ := Sample.exists_rebound
  exact hnot (hall _ l p hr n j past c who msg s hi hpass)

/-- In that run a frame comes after the key was bound to another peer. -/
theorem binding_followed_iff_rebound : ∃ (l : List Step) (p : Pool Op Op.Res Server Job),
    (hbbs (Sample.setup .offer false)).Run Server.Booted System.Free l p ∧
    ¬ ∀ n j past c who msg s l', (.step n j past (.dispatch c (some who) msg) s :: l') <:+ l →
      ¬ Rebound (Sample.setup .offer false) l' who := by
  obtain ⟨l, p, hr, n, j, past, c, who, msg, s, hi, hpass, hnot⟩ := Sample.exists_rebound
  refine ⟨l, p, hr, fun hcond => hnot ?_⟩
  exact (binding_followed_iff _ l p hr).2 hcond n j past c who msg s hi hpass

end NemoServer
