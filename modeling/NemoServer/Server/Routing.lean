import NemoServer.Server.Verified

/-!
# Which route a task registers

A task registers a route to a peer only when it handles a registration of that peer: the route is
its own connection, and the connection has not proved that it is another peer.

* `registerPeerPush_of_run`: the registrations of routes in a run.
-/

set_option autoImplicit false

namespace NemoServer

open Prog Rendezvous

/-- The id a registration is for. -/
def RendezvousMessage.enrols : RendezvousMessage → Option String
  | .registerPeer rp => some rp.id
  | .registerPk rk => some rk.id
  | _ => none

/-- The operation registers the route that the frame of the task asks for, if any at all. -/
def RouteRule (j : Job) (o : Op) : Prop :=
  ∀ id c, o = .registerPeerPush id c → ∃ h, j.handling = some h ∧ h.conn = c ∧
    h.msg.enrols = some id ∧ ∀ who, h.authed = some who → who.peerId = id

variable {X : Setup} {j : Job} {ks : List Kind} {h : Handling}

theorem routeRule_of_kind {o : Op} (h : o.kind ≠ .route) : RouteRule j o := by
  rintro id c rfl
  exact absurd rfl h

theorem routeRule_of_only (hks : Kind.route ∉ ks) (o : Op) (h : Only ks o) : RouteRule j o :=
  routeRule_of_kind fun hk => hks (hk ▸ only_iff.1 h)

theorem routeRule_push {id : String} (hj : j.handling = some h) (hid : h.msg.enrols = some id)
    (hauthed : ¬ (h.authed.any fun who => who.peerId != id) = true) :
    RouteRule j (.registerPeerPush id h.conn) := by
  intro id' c heq
  obtain ⟨rfl, rfl⟩ := Op.registerPeerPush.inj heq
  refine ⟨h, hj, rfl, hid, fun who hwho => ?_⟩
  rw [hwho] at hauthed
  simpa using hauthed

theorem handleRegisterPeer_routes {rp : RegisterPeer} (hj : j.handling = some h)
    (hmsg : h.msg = .registerPeer rp) :
    (handleRegisterPeer h.conn h.self rp h.authed).Uses (RouteRule j) := by
  unfold handleRegisterPeer
  refine uses_ite (fun _ => uses_pure _) fun _ => ?_
  refine uses_bind ((refuseBlocked_uses _ _).mono (routeRule_of_only (by decide)))
    fun blocked => ?_
  refine uses_ite (fun _ => uses_pure _) fun _ => uses_ite (fun _ => uses_pure _) fun hauthed => ?_
  refine uses_perform.2 ⟨routeRule_push hj (by rw [hmsg]; rfl) hauthed, fun _ => ?_⟩
  refine uses_bind ((updateAddrCore_uses _ _).mono (routeRule_of_only (by decide)))
    fun requestPk => ?_
  refine uses_perform.2 ⟨routeRule_of_kind (by simp [Op.kind]), fun _ => ?_⟩
  refine uses_ite (fun _ => ?_) fun _ => uses_pure _
  exact uses_perform.2 ⟨routeRule_of_kind (by simp [Op.kind]), fun _ => uses_pure _⟩

theorem handleRegisterPk_routes {rk : RegisterPk} (hj : j.handling = some h)
    (hmsg : h.msg = .registerPk rk) :
    (handleRegisterPk X h.conn h.self rk h.authed).Uses (RouteRule j) := by
  unfold handleRegisterPk
  refine uses_ite (fun _ => uses_pure _) fun hauthed => ?_
  refine uses_perform.2 ⟨routeRule_push hj (by rw [hmsg]; rfl) hauthed, fun _ => ?_⟩
  refine uses_bind ((registerPkCore_uses X _ _).mono (routeRule_of_only (by decide)))
    fun res => ?_
  cases res with
  | none => exact uses_pure _
  | some res =>
    exact uses_perform.2 ⟨routeRule_of_kind (by simp [Op.kind]), fun _ => uses_pure _⟩

theorem handleTcp_routes (ws : Bool) (hj : j.handling = some h) :
    (handleTcp X h.conn h.self ws h.authed (some h.msg)).Uses (RouteRule j) := by
  have hother : ∀ {α : Type} {p : Handler α} {ks : List Kind}, p.Uses (Only ks) →
      Kind.route ∉ ks → p.Uses (RouteRule j) := fun hp hks => hp.mono (routeRule_of_only hks)
  unfold handleTcp
  split
  · refine uses_perform.2 ⟨routeRule_of_kind (by simp [Op.kind]), fun _ => ?_⟩
    exact uses_bind (hother (handleTcpPunchHoleRequest_uses X _ _ _ _) (by decide))
      fun _ => uses_pure _
  · refine uses_perform.2 ⟨routeRule_of_kind (by simp [Op.kind]), fun _ => ?_⟩
    exact uses_bind (hother (handleRequestRelay_uses X _ _ _) (by decide)) fun _ => uses_pure _
  · exact uses_bind (hother (handleRelayResponse_uses X _ _ _ _) (by decide)) fun _ => uses_pure _
  · exact uses_bind (hother (handleHoleSent_uses X _ _) (by decide)) fun _ => uses_pure _
  · exact uses_bind (hother (handleLocalAddr_uses X _ _) (by decide)) fun _ => uses_pure _
  · exact uses_bind (uses_op (routeRule_of_kind (by simp [Op.kind]))) fun _ => uses_pure _
  · next heq => exact handleRegisterPeer_routes hj (Option.some.inj heq)
  · next heq => exact handleRegisterPk_routes hj (Option.some.inj heq)
  · exact uses_pure _

/-- A round of the read loop registers what its frame asks for. -/
theorem serveFrame_routes {c : ConnId} {self : Task} {authed : Option AuthedDevice}
    {frame : Option RendezvousMessage}
    (hj : ∀ m, frame = some m → j.handling = some ⟨c, self, authed, m⟩) :
    (serveFrame X c self authed frame).Uses (RouteRule j) := by
  have hfinal : ∀ o : Op, o.kind = .final → RouteRule j o :=
    fun o hk => routeRule_of_kind (by simp [hk])
  have hserve : (handleTcp X c self false authed frame).Uses (RouteRule j) := by
    cases frame with
    | none => exact uses_pure _
    | some m => exact handleTcp_routes (h := ⟨c, self, authed, m⟩) false (hj m rfl)
  unfold serveFrame
  refine uses_perform.2 ⟨routeRule_of_kind (by simp [Op.kind]), fun pass => ?_⟩
  refine uses_ite (fun _ => ?_) fun _ => uses_op (hfinal _ rfl)
  refine uses_bind hserve fun stays => ?_
  exact uses_ite (fun _ => uses_op (hfinal _ rfl)) fun _ => uses_op (hfinal _ rfl)

theorem enter_routes {c : ConnId} {self : Task} {authed : Option AuthedDevice} {secured : Bool}
    {pending : Option (Option RendezvousMessage)}
    (hj : ∀ m, pending = some (some m) → j.handling = some ⟨c, self, authed, m⟩) :
    (enter X c self authed secured pending).Uses (RouteRule j) := by
  have hfinal : ∀ o : Op, o.kind = .final → RouteRule j o :=
    fun o hk => routeRule_of_kind (by simp [hk])
  unfold enter
  refine uses_perform.2 ⟨routeRule_of_kind (by simp [Op.kind]), fun entered => ?_⟩
  refine uses_ite (fun _ => ?_) fun _ => uses_op (hfinal _ rfl)
  cases pending with
  | none => exact uses_op (hfinal _ rfl)
  | some frame => exact serveFrame_routes fun m hm => hj m (congrArg some hm)

/-! ## Whole tasks -/

/-- The program keeps to the rule about routes, and ends with `Q`. -/
abbrev Routes (X : Setup) (j : Job) {α : Type} (p : Handler α) (past : Past)
    (Q : α → Prop) : Prop :=
  p.Sat (Op.sem X) (fun _ => True) (fun _ o _ => RouteRule j o) (fun _ a => Q a) past

theorem routes_of_uses {α : Type} {p : Handler α} {past : Past} (hp : p.Uses (RouteRule j)) :
    Routes X j p past fun _ => True :=
  (hp.sat fun _ _ _ _ _ ho => ho).mono fun _ _ _ _ => trivial

/-- A frame that is no answer to the handshake is passed on as it came. -/
theorem readReply_routes (sk : SecretKey) (ourPk : PublicKey) (ourSk : SecretKey)
    (frame : Option RendezvousMessage) (past : Past) :
    Routes X j (readReply X sk ourPk ourSk frame) past
      fun reply => ∀ frame', reply = .plain frame' → frame' = frame := by
  unfold readReply
  split
  · exact sat_ret.2 fun _ heq => nomatch heq
  · split
    · exact sat_ret.2 fun _ heq => nomatch heq
    · exact sat_ret.2 fun _ heq => nomatch heq
  · next auth hopen =>
    have hauth := (nemoClientAuthOpen_uses X auth ourPk ourSk).mono
      (routeRule_of_only (j := j) (by decide))
    refine (routes_of_uses hauth).bind fun h₁ res _ _ => ?_
    match res with
    | .ok (sym, who) => exact sat_ret.2 fun _ heq => nomatch heq
    | .error e => exact sat_ret.2 fun _ heq => nomatch heq
  · refine sat_ret.2 fun frame' heq => ?_
    exact (Reply.plain.inj heq).symm

theorem handleListenerInner_routes (c : ConnId) (self : Task)
    (reply : Option (Option RendezvousMessage)) (hj : j = .handshake c self reply) :
    Routes X j (handleListenerInner X c self reply) [] fun _ => True := by
  have hop : ∀ (o : Op) (past : Past), o.kind ≠ .route →
      Routes X j (perform o) past fun _ => True :=
    fun o past hk s _ => ⟨routeRule_of_kind hk, trivial⟩
  unfold handleListenerInner
  by_cases hoff : X.mode = .off
  · rw [if_pos hoff]
    exact hop _ _ (by simp [Op.kind])
  · rw [if_neg hoff]
    cases hsk : X.sk with
    | none =>
      dsimp only
      by_cases hrequire : X.mode = .require
      · rw [if_pos hrequire]
        exact hop _ _ (by simp [Op.kind])
      · rw [if_neg hrequire]
        exact hop _ _ (by simp [Op.kind])
    | some sk =>
      intro s₁ _
      refine ⟨routeRule_of_kind (by simp [Op.kind]), fun s₂ _ => ?_⟩
      refine ⟨routeRule_of_kind (by simp [Op.kind]), ?_⟩
      cases reply with
      | none =>
        have henter : (enter X c self none false none).Uses (RouteRule j) :=
          enter_routes fun _ hm => by cases hm
        exact routes_of_uses henter
      | some frame =>
        refine (readReply_routes sk _ _ frame _).bind fun h₃ res _ hres => ?_
        cases res with
        | refused => exact hop _ _ (by simp [Op.kind])
        | secured authed => exact routes_of_uses (enter_routes fun m hm => by cases hm)
        | plain frame' =>
          obtain rfl := hres frame' rfl
          refine routes_of_uses (enter_routes fun m hm => ?_)
          rw [hj, Option.some.inj hm]
          rfl

theorem code_routes (X : Setup) (j : Job) : Routes X j (j.code X) [] fun _ => True := by
  have hother : ∀ {p : Handler Unit} {ks : List Kind}, p.Uses (Only ks) → Kind.route ∉ ks →
      Routes X j p [] fun _ => True :=
    fun hp hks => routes_of_uses (hp.mono (routeRule_of_only hks))
  cases j with
  | handshake c self reply => exact handleListenerInner_routes c self reply rfl
  | frame c self authed msg =>
    refine routes_of_uses (serveFrame_routes fun m hm => ?_)
    rw [hm]
    rfl
  | hangup c => exact fun s _ => ⟨routeRule_of_kind (by simp [Op.kind]), trivial⟩
  | datagram self msg => exact hother (handleUdp_uses X self msg) (by decide)
  | setPeerStatus id status note =>
    exact hother (PeerMap.setPeerStatus_uses id status note) (by decide)
  | setPeerManagementPolicy id policy =>
    exact hother (PeerMap.setPeerManagementPolicy_uses id policy) (by decide)
  | deletePeer id => exact hother (PeerMap.deleteRegistered_uses id) (by decide)
  | removeDeviceKey id => exact hother (removeDeviceKey_uses id) (by decide)

/-- In a run, a task registers only the route that its frame asks for. -/
theorem registerPeerPush_of_run {init : Server → Prop}
    {C : List Step → Pool Op Op.Res Server Job → Choice Job Env → Prop} {l : List Step}
    {p : Pool Op Op.Res Server Job} (hr : (hbbs X).Run init C l p) {n : ℕ} {past : Past}
    {o : Op} {s : Server} (hi : .step n j past o s ∈ l) : RouteRule j o := by
  have hv : System.Verified (hbbs X) init (fun _ => True) fun j _ o _ => RouteRule j o :=
    { init := fun _ _ => trivial
      code := code_routes X
      call := fun _ _ _ _ _ _ => trivial
      start := fun _ _ _ _ _ => trivial
      env := fun _ _ _ _ _ => trivial
      reboot := fun _ _ => trivial }
  exact hr.guarantee hv n j past o s hi

end NemoServer
