import NemoServer.Server.Sample

/-!
# Complete mediation of brokering

Nothing is pushed to a peer before every gate has let the request pass. The history of the task
that pushes is inverted, gate by gate, into what the gates saw: `ControllerCleared` for the
controller and its policy, `UserCleared` for the user. Both request paths run the same gates
(`gates`), so that they cannot disagree.
-/

set_option autoImplicit false

namespace NemoServer

open Prog Management Rendezvous

variable {X : Setup}

/-! ## What the gates see -/

/-- The controller `id` is established for a request of a connection that proved `authed`: it is
the proven id, which the source in force then names too, or else the id the source names. -/
def Established (X : Setup) (authed : Option AuthedDevice) (q : Request) (id : String) : Prop :=
  match authed with
  | some who => id = who.peerId ∧
      ∀ src, controllerSourceAny X q.source q.field = some src → src.1 = id
  | none => ∃ src, controllerSourceAny X q.source q.field = some src ∧ src.1 = id

/-- The controller `id` of the request was looked up in the state `s`, and its row `row` lets it
out to the target. -/
structure ControllerCleared (X : Setup) (past : Past) (authed : Option AuthedDevice) (q : Request)
    (id : String) (row : Row) (s : Server) : Prop where
  established : Established X authed q id
  asked : ⟨.dbGetRegisteredPeer (Str.trim id), s⟩ ∈ past
  registered : s.dbUp = true ∧ row ∈ s.db ∧ row.id = Str.trim id
  uuid : ∀ src, controllerSourceAny X q.source q.field = some src → row.uuid = src.2.1
  notBlocked : row.status ≠ some 0
  outbound : (managementPolicyFromPeer X (row.managementPolicy <|> X.nullText)).options.lookup
    optionNemoOutboundEnabled ≠ some "N"
  target : targetAllowedByControllerPolicy ((managementPolicyFromPeer X
    (row.managementPolicy <|> X.nullText)).options.lookup optionNemoOutboundTargets) q.target = true

/-- The token the request asserts. -/
def Request.token (X : Setup) (q : Request) : Option String :=
  (controllerSourceAny X q.source q.field).bind fun src => src.2.2

/-- The token resolved to a live session. -/
def Resolved (past : Past) (token : String) (session : Session) : Prop :=
  ∃ s, ⟨.sessionForToken token, s⟩ ∈ past ∧ s.sessions (Str.trim token) = some session ∧
    s.clock < session.expiresAt

/-- The user was found to be enabled, or not to be. -/
def SawEnabled (X : Setup) (past : Past) (username : String) (enabled : Bool) : Prop :=
  ∃ s, ⟨.userIsEnabled username, s⟩ ∈ past ∧
    Integration.userIsEnabled X s.cfg username = enabled

/-- The token resolved to no live session, or to one of a user who is not enabled. -/
def NoSession (X : Setup) (past : Past) (token : String) : Prop :=
  (∃ s, ⟨.sessionForToken token, s⟩ ∈ past ∧
      (Integration.sessionForToken token s.clock s.sessions).1 = none) ∨
    ∃ session, Resolved past token session ∧ SawEnabled X past session.username false

/-- The user gate accepted the request. -/
def UserCleared (X : Setup) (past : Past) (authed : Option AuthedDevice) (q : Request) : Prop :=
  (∃ token session, q.token X = some token ∧ Resolved past token session ∧
      SawEnabled X past session.username true ∧
      (session.deviceKeyPub = "" ∨ authed.map (·.devicePubB64) = some session.deviceKeyPub) ∧
      ∃ s, ⟨.effectivePermission session.username, s⟩ ∈ past ∧
        Integration.userAllowedTarget (Integration.effectivePermission X s.cfg session.username).1
          (Integration.effectivePermission X s.cfg session.username).2 q.target = true) ∨
    (∀ token, q.token X = some token → NoSession X past token) ∧
      ∃ s, ⟨.requireLogin, s⟩ ∈ past ∧ s.cfg.requireLogin = false

/-! ## Inverting the gates -/

theorem resolve_ok {q : Request} {id : String} {uuid : Option Bytes}
    {authed : Option AuthedDevice}
    (h : resolveControllerIdentity X q.source q.field (authed.map (·.peerId)) = .ok (id, uuid)) :
    uuid = (controllerSourceAny X q.source q.field).map (fun src => src.2.1) ∧
      Established X authed q id := by
  unfold resolveControllerIdentity at h
  unfold Established
  rcases authed with _ | who <;> rcases hsrc : controllerSourceAny X q.source q.field with _ | src <;>
    rw [hsrc] at h
  · cases h
  · obtain ⟨rfl, rfl⟩ := Prod.mk.inj (Except.ok.inj h)
    exact ⟨rfl, src, rfl, rfl⟩
  · obtain ⟨rfl, rfl⟩ := Prod.mk.inj (Except.ok.inj h)
    exact ⟨rfl, rfl, fun src hsrc => by cases hsrc⟩
  · simp only [Option.map_some] at h
    split at h
    · cases h
    · next hne =>
      obtain ⟨rfl, rfl⟩ := Prod.mk.inj (Except.ok.inj h)
      refine ⟨rfl, rfl, fun src' heq => ?_⟩
      obtain rfl := Option.some.inj heq
      exact not_not.1 hne

theorem registeredRejection_none {source : RegisteredPeer} {uuid : Option Bytes} {target : String}
    (h : registeredRejection X source uuid target = none) :
    (∀ u, uuid = some u → source.uuid = u) ∧ source.status ≠ some 0 ∧
      (managementPolicyFromPeer X source.managementPolicy).options.lookup
        optionNemoOutboundEnabled ≠ some "N" ∧
      targetAllowedByControllerPolicy ((managementPolicyFromPeer X
        source.managementPolicy).options.lookup optionNemoOutboundTargets) target = true := by
  unfold registeredRejection at h
  split at h
  · cases h
  next huuid =>
  split at h
  · cases h
  next hstatus =>
  simp only at h
  split at h
  · cases h
  next hout =>
  split at h
  · cases h
  next htarget =>
  refine ⟨?_, hstatus, ?_, by simpa using htarget⟩
  · rintro u rfl
    simp only [Option.any_some, Bool.or_eq_true, bne_iff_ne, ne_eq, not_or, not_not] at huuid
    exact huuid.2
  · intro heq
    rw [heq] at hout
    exact hout rfl

theorem getRegisteredPeer_some {id : String} {s : Server} {source : RegisteredPeer}
    (h : (Op.sem X (.dbGetRegisteredPeer id) s).1 = some (some source)) :
    s.dbUp = true ∧ ∃ row ∈ s.db, row.id = id ∧ source = Database.registeredPeerFromRow X row := by
  simp only [Op.sem, Server.query] at h
  split at h
  · next hup =>
    simp only [Option.some.injEq, Database.getRegisteredPeer, Option.map_eq_some_iff] at h
    obtain ⟨row, hfind, rfl⟩ := h
    unfold Database.getPeer at hfind
    have hid := List.find?_some hfind
    exact ⟨hup, row, List.mem_of_find?_eq_some hfind, by simpa using hid, rfl⟩
  · cases h

/-- The controller gates, passed. -/
theorem controllerPolicyRejection_none {sourceId target : String} {uuid : Option Bytes}
    {h h' : Past} (he : (controllerPolicyRejection X sourceId uuid target).Exec (Op.sem X) h h' none) :
    ∃ source s, ⟨.dbGetRegisteredPeer (Str.trim sourceId), s⟩ ∈ h' ∧
      (Op.sem X (.dbGetRegisteredPeer (Str.trim sourceId)) s).1 = some (some source) ∧
      registeredRejection X source uuid target = none := by
  unfold controllerPolicyRejection at he
  simp only at he
  split at he
  · cases he.2
  · obtain ⟨s, he⟩ := he
    match hrow : (Op.sem X (.dbGetRegisteredPeer (Str.trim sourceId)) s).1 with
    | some (some source) =>
      rw [hrow] at he
      obtain ⟨rfl, hnone⟩ := he
      exact ⟨source, s, List.mem_cons_self, hrow, hnone.symm⟩
    | some none => rw [hrow] at he; cases he.2
    | none => rw [hrow] at he; cases he.2

theorem controllerCleared_of_ran {past : Past} {authed : Option AuthedDevice} {q : Request}
    (h : Ran (Op.sem X) past (controllerPolicyRejectionFromField X q.source q.field q.target
      (authed.map (·.peerId))) none) : ∃ id row s, ControllerCleared X past authed q id row s := by
  obtain ⟨h₀, h₁, he, hs⟩ := h
  unfold controllerPolicyRejectionFromField at he
  split at he
  · cases he.2
  · next id uuid hres =>
    obtain ⟨huuid, hest⟩ := resolve_ok hres
    rw [exec_bind] at he
    obtain ⟨h₂, reason, hgate, rfl, hreason⟩ := he
    obtain rfl : reason = none := by simpa using hreason.symm
    obtain ⟨source, s, hasked, hrow, hrej⟩ := controllerPolicyRejection_none hgate
    obtain ⟨hup, row, hmem, hid, rfl⟩ := getRegisteredPeer_some hrow
    obtain ⟨hu, hst, hout, htar⟩ := registeredRejection_none hrej
    refine ⟨id, row, s, hest, hs.subset hasked, ⟨hup, hmem, hid⟩, ?_, ?_, hout, htar⟩
    · intro src hsrc
      exact hu _ (by rw [huuid, hsrc]; rfl)
    · intro hblocked
      exact hst (by simp [Database.registeredPeerFromRow, hblocked])

theorem sem_sessionForToken (token : String) (s : Server) :
    (Op.sem X (.sessionForToken token) s).1 =
      (Integration.sessionForToken token s.clock s.sessions).1 := by
  rw [sem_sessionForToken_eq]

/-- What resolving a token and looking up its user found. -/
theorem enabledSession_exec {token : Option String} {h h' : Past} {res : Option Session}
    (he : (enabledSession token).Exec (Op.sem X) h h' res) :
    match res with
    | some session => ∃ t, token = some t ∧ Resolved h' t session ∧
        SawEnabled X h' session.username true
    | none => ∀ t, token = some t → NoSession X h' t := by
  unfold enabledSession at he
  cases token with
  | none =>
    obtain ⟨-, rfl⟩ := he
    exact fun t ht => by cases ht
  | some t =>
    obtain ⟨s, he⟩ := he
    cases hses : (Op.sem X (.sessionForToken t) s).1 with
    | none =>
      simp only [hses] at he
      obtain ⟨rfl, rfl⟩ := he
      rw [sem_sessionForToken] at hses
      intro t' ht
      obtain rfl := Option.some.inj ht
      exact .inl ⟨s, List.mem_cons_self, hses⟩
    | some session =>
      simp only [hses] at he
      obtain ⟨s', rfl, hres⟩ := he
      rw [sem_sessionForToken] at hses
      have hresolved : Resolved (⟨.userIsEnabled session.username, s'⟩ ::
          ⟨.sessionForToken t, s⟩ :: h) t session :=
        ⟨s, List.mem_cons_of_mem _ List.mem_cons_self, Integration.sessionForToken_some hses⟩
      cases hen : (Op.sem X (.userIsEnabled session.username) s').1 with
      | true =>
        simp only [hen, if_true] at hres
        subst hres
        exact ⟨t, rfl, hresolved, s', List.mem_cons_self, hen⟩
      | false =>
        simp only [hen, Bool.false_eq_true, if_false] at hres
        subst hres
        intro t' ht
        obtain rfl := Option.some.inj ht
        exact .inr ⟨session, hresolved, s', List.mem_cons_self, hen⟩

theorem Resolved.mono {past past' : Past} {token : String} {session : Session}
    (h : Resolved past token session) (hs : past <:+ past') : Resolved past' token session :=
  let ⟨s, hm, hr⟩ := h
  ⟨s, hs.subset hm, hr⟩

theorem SawEnabled.mono {past past' : Past} {username : String} {enabled : Bool}
    (h : SawEnabled X past username enabled) (hs : past <:+ past') :
    SawEnabled X past' username enabled :=
  let ⟨s, hm, he⟩ := h
  ⟨s, hs.subset hm, he⟩

theorem NoSession.mono {past past' : Past} {token : String} (h : NoSession X past token)
    (hs : past <:+ past') : NoSession X past' token := by
  obtain ⟨s, hm, hn⟩ | ⟨session, hr, he⟩ := h
  · exact .inl ⟨s, hs.subset hm, hn⟩
  · exact .inr ⟨session, hr.mono hs, he.mono hs⟩

theorem userCleared_of_ran {past : Past} {authed : Option AuthedDevice} {q : Request}
    (h : Ran (Op.sem X) past (nemoUserRejectionFromField X q.source q.field q.target
      (authed.map (·.devicePubB64))) none) : UserCleared X past authed q := by
  obtain ⟨h₀, h₁, he, hs⟩ := h
  unfold nemoUserRejectionFromField at he
  obtain ⟨h₂, reason, he, rfl, hreason⟩ := exec_bind.1 he
  obtain rfl : reason = none := by simpa using hreason.symm
  unfold nemoUserConnectionRejection at he
  obtain ⟨h₃, session, hses, he⟩ := exec_bind.1 he
  have hsession := enabledSession_exec hses
  cases session with
  | none =>
    obtain ⟨s, rfl, hreq⟩ := he
    refine .inr ⟨fun token ht => (hsession token ht).mono ((List.suffix_cons _ _).trans hs),
      s, hs.subset List.mem_cons_self, ?_⟩
    by_contra hne
    have htrue : s.cfg.requireLogin = true := by simpa using hne
    rw [if_pos (show (Op.sem X .requireLogin s).1 = true from htrue)] at hreq
    cases hreq
  | some session =>
    simp only at he hsession
    obtain ⟨token, htoken, hres, hen⟩ := hsession
    split at he
    · cases he.2
    · next hkey =>
      obtain ⟨s, rfl, hallow⟩ := he
      have hsuf := (List.suffix_cons (⟨.effectivePermission session.username, s⟩ : Call Op Server)
        h₃).trans hs
      refine .inl ⟨token, session, htoken, hres.mono hsuf, hen.mono hsuf, ?_, s,
        hs.subset List.mem_cons_self, ?_⟩
      · simpa only [not_and_or, not_not] using hkey
      · by_contra hne
        have hfalse : Integration.userAllowedTarget
            (Integration.effectivePermission X s.cfg session.username).1
            (Integration.effectivePermission X s.cfg session.username).2 q.target = false := by
          simpa using hne
        simp [Op.sem, hfalse] at hallow

/-! ## One gate sequence for both paths -/

inductive GateVerdict
  | targetNotAllowed
  | refused (controllerId reason : String)
  | passed

/-- The gates on a request, in their order. -/
def gates (X : Setup) (q : Request) (authed : Option AuthedDevice) : Handler GateVerdict := do
  if !(← isPeerAllowed q.target) then pure .targetNotAllowed
  else
    match ← controllerPolicyRejectionFromField X q.source q.field q.target
      (authed.map (·.peerId)) with
    | some (controllerId, reason) => pure (.refused controllerId reason)
    | none =>
      match ← nemoUserRejectionFromField X q.source q.field q.target
        (authed.map (·.devicePubB64)) with
      | some (controllerId, reason) => pure (.refused controllerId reason)
      | none => pure .passed

/-- What the punch hole path does with a verdict. -/
def punchVerdict (X : Setup) (self : Task) (ph : PunchHoleRequest) (ws : Bool)
    (authed : Option AuthedDevice) :
    GateVerdict → Handler (RendezvousMessage × Option (String × SocketAddr))
  | .targetNotAllowed => do
    perform (.record (.policyRejection ph.id self.addr "target peer is not allowed by TBF policy"))
    pure (punchRefusal .offline "target peer is not allowed by TBF policy", none)
  | .refused controllerId reason => do
    perform (.record (.policyRejection controllerId self.addr reason))
    pure (punchRefusal .offline reason, none)
  | .passed => punchTarget X self ph ws authed

/-- What the relay path does with a verdict. -/
def relayVerdict (X : Setup) (self : Task) (rf : RequestRelay) (authed : Option AuthedDevice) :
    GateVerdict → Handler Unit
  | .targetNotAllowed =>
    refuseRelay self.addr rf.id "relay target is not allowed by TBF policy" rf.id
  | .refused controllerId reason => refuseRelay self.addr controllerId reason rf.id
  | .passed => do
    let forwarded ← forwardRelay X self.addr rf (relaySourceId X rf authed)
    if rf.id ≠ "" then perform (.record (.relayRequest rf.id self.addr forwarded))

theorem handlePunchHoleRequest_eq (self : Task) {ph : PunchHoleRequest} (ws : Bool)
    (authed : Option AuthedDevice) (hkey : X.key = "" ∨ ph.licenceKey = X.key) :
    handlePunchHoleRequest X self ph ws authed =
      gates X ⟨ph.id, ph.nemoSource, ph.version⟩ authed >>= punchVerdict X self ph ws authed := by
  unfold handlePunchHoleRequest gates
  rw [if_neg (by rintro ⟨hne, hne'⟩; exact hkey.elim hne hne'), bind_assoc]
  refine congrArg (isPeerAllowed ph.id >>= ·) (funext fun allowed => ?_)
  cases allowed with
  | false => rfl
  | true =>
    simp only [Bool.not_true, Bool.false_eq_true, if_false, bind_assoc]
    congr 1
    funext rej
    cases rej with
    | some rej => rfl
    | none =>
      simp only [bind_assoc]
      congr 1
      funext rej
      cases rej <;> rfl

theorem handleRequestRelay_eq (self : Task) {rf : RequestRelay} (authed : Option AuthedDevice)
    (hid : rf.id ≠ "") : handleRequestRelay X self rf authed =
      gates X ⟨rf.id, rf.nemoSource, rf.licenceKey⟩ authed >>= relayVerdict X self rf authed := by
  unfold handleRequestRelay gates relayTargetAllowed
  simp only [if_neg hid, bind_assoc]
  refine congrArg (isPeerAllowed rf.id >>= ·) (funext fun allowed => ?_)
  cases allowed with
  | false => rfl
  | true =>
    simp only [Bool.not_true, Bool.false_eq_true, if_false, bind_assoc]
    congr 1
    funext rej
    cases rej with
    | some rej => rfl
    | none =>
      simp only [bind_assoc]
      congr 1
      funext rej
      cases rej <;> rfl

/-! ## The law -/

/-- Every gate has let the request pass that a push answers. -/
structure Mediated (X : Setup) (past : Past) (authed : Option AuthedDevice) (q : Request) :
    Prop where
  target : Ran (Op.sem X) past (isPeerAllowed q.target) true
  controller : ∃ id row s, ControllerCleared X past authed q id row s
  user : UserCleared X past authed q

theorem Cleared.mediated {past : Past} {authed : Option AuthedDevice} {q : Request}
    (h : Cleared X authed q past) (hne : q.target ≠ "") : Mediated X past authed q where
  target := h.target hne
  controller := controllerCleared_of_ran h.controller
  user := userCleared_of_ran h.user

namespace Sample

/-- The identity of the client that connects with the device key of `ctrl001`. -/
def ctrl : AuthedDevice := ⟨textOfBytes [65], "ctrl001"⟩

/-- The proven controller `ctrl001` asks for a relay to `target1`, naming itself in the typed
field; its marker names another peer. -/
def markedRelay : Job :=
  .frame 2 (task 1) (some ctrl) (some (.requestRelay ⟨"target1", [],
    "nemo-source-v1:other01:AQ==", none, some ⟨"ctrl001", [1], ""⟩, []⟩))

/-- Target and controller register, the controller connects with its key, and its request runs up
to the push. -/
def markedRelayRun : List (Choice Job Env) :=
  register 0 0 2 "target1" ++ register 1 1 1 "ctrl001" ++ connect 2 2 1 2 "ctrl001" ++
    playFor 10 3 markedRelay

/-- The newest item is a push for the marked request. -/
def showsMarkedRelay : List Step → Bool
  | .step _ j _ (.pushToPeer _ _ _) _ :: _ => decide (j = markedRelay)
  | _ => false

theorem exists_markedRelay : ∃ l p, (hbbs (setup .offer false)).Run Server.Booted System.Free l p ∧
    ∃ n past t msg a s l', l = .step n markedRelay past (.pushToPeer t msg a) s :: l' := by
  obtain ⟨l, p, hr, ht⟩ := exists_run (setup .offer false) [deviceKey "ctrl001"] markedRelayRun
    (fun l _ => showsMarkedRelay l) (by decide +kernel)
  refine ⟨l, p, hr, ?_⟩
  unfold showsMarkedRelay at ht
  split at ht
  · next n j past t msg a s l' =>
    obtain rfl := of_decide_eq_true ht
    exact ⟨n, past, t, msg, a, s, l', rfl⟩
  · cases ht

end Sample

end NemoServer
