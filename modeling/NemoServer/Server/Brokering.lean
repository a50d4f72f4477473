import NemoServer.Server.Frame

/-!
# What a brokered request comes to

A request that is handled by itself, from any state: what is pushed, and to whom. The message to the
target is told by the state, the request without its source fields, and the permissions of the
controller (`punchMsg`, `relayMsg`); and of the source fields only these permissions reach it.

* `punchHole_pushed`, `requestRelay_pushed`: what a request pushes, if it pushes anything.
-/

set_option autoImplicit false

namespace NemoServer

open Prog Management Rendezvous

variable (X : Setup)

/-- Nothing interferes. -/
def still (_ : Past) (s : Server) : Server := s

@[simp] theorem still_eq (h : Past) (s : Server) : still h s = s := rfl

theorem solo_perform {α : Type} {o : Op} {f : o.Res → Handler α} (h : Past) (s : Server) :
    (perform o >>= f).solo (Op.sem X) still h s =
      (f (Op.sem X o s).1).solo (Op.sem X) still (⟨o, s⟩ :: h) (Op.sem X o s).2 := rfl

/-- What is pushed to peers by the calls. -/
def pushesIn (calls : Past) : List (String × RendezvousMessage × SocketAddr) :=
  calls.filterMap fun x =>
    match x.op with
    | .pushToPeer t msg addr => some (t, msg, addr)
    | _ => none

/-- What the handler pushes to peers, run by itself. -/
def pushed {α : Type} (p : Handler α) (s : Server) :
    List (String × RendezvousMessage × SocketAddr) :=
  pushesIn (p.solo (Op.sem X) still [] s).2.1

/-- The control permissions that the source fields of a request resolve to. -/
def resolves (s : Server) (source : Option NemoSource) (field : String) :
    Option ControlPermissions :=
  ((controlPermissionsFor X source field).solo (Op.sem X) still [] s).1

/-- A relay is demanded: by the flag, by the request, or because one side only is in the LAN. -/
def demandsRelay (self : Task) (ph : PunchHoleRequest) (always : Bool) (peerAddr : SocketAddr) :
    Bool :=
  always || ph.forceRelay || (X.isLan peerAddr ^^ X.isLan self.addr)

/-- The two sides can reach each other without the server. -/
def onIntranet (self : Task) (ws : Bool) (peerAddr : SocketAddr) : Bool :=
  !ws && (X.isLan peerAddr && X.isLan self.addr || sameIp peerAddr self.addr)

/-- The message to the target of a punch hole request. -/
def punchMsg (s : Server) (self : Task) (ph : PunchHoleRequest) (ws : Bool)
    (permissions : Option ControlPermissions) (peerAddr : SocketAddr) : RendezvousMessage :=
  let forced := demandsRelay X self ph s.alwaysUseRelay peerAddr
  let relayServer :=
    if forced && X.isLan peerAddr then X.localIp else (s.getRelayServer self.relayServers).1
  if onIntranet X self ws peerAddr then
    .fetchLocalAddr ⟨X.mangleEncode self.addr, relayServer, permissions, ph.socketAddrV6⟩
  else
    .punchHole ⟨X.mangleEncode self.addr, if forced then .symmetric else ph.natType, relayServer,
      permissions, ph.udpPort, ph.upnpPort, ph.socketAddrV6, ph.forceRelay⟩

/-- The message to the target of a relay request. -/
def relayMsg (self : Task) (rf : RequestRelay) (permissions : Option ControlPermissions) :
    RendezvousMessage :=
  .requestRelay { rf with
    controlPermissions := permissions
    socketAddr := X.mangleEncode self.addr
    licenceKey := ""
    nemoSource := none }

/-- The record of a peer that `PeerMap::get` finds. -/
def foundPeer (s : Server) (id : String) : Option Peer :=
  match s.map id with
  | some r => some (s.cell r)
  | none => if s.dbUp then (Database.getPeer s.db id).map (Peer.ofRow X s.now) else none

/-! ## The gates -/

/-- The state after lookups of the gates: sessions that were expired may be gone. -/
structure Asked (s s' : Server) : Prop where
  eq : s' = { s with sessions := s'.sessions }
  session : ∀ token, (Integration.sessionForToken token s.clock s'.sessions).1 =
    (Integration.sessionForToken token s.clock s.sessions).1

variable {X} {s s' : Server}

theorem Asked.refl (s : Server) : Asked s s := ⟨rfl, fun _ => rfl⟩

/-- A look-up does not change what the others answer. -/
theorem sessionForToken_after (token other : String) (now : ℕ) (sessions : Table String Session) :
    (Integration.sessionForToken token now
      (Integration.sessionForToken other now sessions).2).1 =
      (Integration.sessionForToken token now sessions).1 := by
  unfold Integration.sessionForToken
  dsimp only
  by_cases hother : Str.trim other = ""
  · rw [if_pos hother]
  · rw [if_neg hother]
    cases hfound : sessions (Str.trim other) with
    | none => rfl
    | some session =>
      dsimp only
      by_cases hlive : now < session.expiresAt
      · rw [if_pos hlive]
      · -- what was dropped had expired
        rw [if_neg hlive]
        by_cases htoken : Str.trim token = ""
        · rw [if_pos htoken, if_pos htoken]
        · rw [if_neg htoken, if_neg htoken]
          dsimp only
          by_cases hsame : Str.trim token = Str.trim other
          · rw [hsame, Table.remove_self, hfound]
            dsimp only
            rw [if_neg hlive]
          · rw [Table.remove_apply, if_neg hsame]
            cases sessions (Str.trim token) with
            | none => rfl
            | some session' =>
              dsimp only
              split <;> rfl

theorem Asked.sem (h : Asked s s') {o : Op} (ho : Asks o) : Asked s (Op.sem X o s').2 := by
  have hsame : (Op.sem X o s').2 = s' → Asked s (Op.sem X o s').2 := fun heq => heq.symm ▸ h
  cases o with
  | sessionForToken token =>
    have hclock : s'.clock = s.clock := by rw [h.eq]
    have hsem : (Op.sem X (.sessionForToken token) s').2 =
        { s' with
          sessions := (Integration.sessionForToken token s'.clock s'.sessions).2 } := by
      rw [sem_sessionForToken_eq]
    constructor
    · rw [hsem, h.eq]
    · intro token'
      rw [hsem]
      dsimp only
      rw [hclock, sessionForToken_after]
      exact h.session token'
  | dbGetPeer id => exact hsame (s'.query_read _)
  | dbGetRegisteredPeer id => exact hsame (s'.query_read _)
  | mapGet id => exact hsame rfl
  | readPeer r => exact hsame rfl
  | companyOnly => exact hsame rfl
  | requireLogin => exact hsame rfl
  | userIsEnabled username => exact hsame rfl
  | effectivePermission username => exact hsame rfl
  | userPolicy username => exact hsame rfl
  | _ => cases ho

/-- The gates leave the state as asking leaves it. -/
theorem ends_asks {α : Type} {p : Handler α} (hp : p.Uses Asks) {h : Past} (hs : Asked s s') :
    p.Ends (Op.sem X) still (fun _ _ t => Asked s t) h s' :=
  hp.ends hs fun _ _ _ ho ht => ht.sem ho

/-! ## The permissions -/

/-- The states resolve tokens and users alike. -/
structure SameUsers (s s' : Server) : Prop where
  clock : s'.clock = s.clock
  cfg : s'.cfg = s.cfg
  session : ∀ token, (Integration.sessionForToken token s.clock s'.sessions).1 =
    (Integration.sessionForToken token s.clock s.sessions).1

theorem Asked.sameUsers (h : Asked s s') : SameUsers s s' :=
  ⟨by rw [h.eq], by rw [h.eq], h.session⟩

theorem enabledSession_solo (h : SameUsers s s') (token : String) (past past' : Past) :
    ((enabledSession (some token)).solo (Op.sem X) still past s').1 =
        ((enabledSession (some token)).solo (Op.sem X) still past' s).1 ∧
      ((enabledSession (some token)).solo (Op.sem X) still past s').2.2.cfg = s.cfg ∧
      ((enabledSession (some token)).solo (Op.sem X) still past' s).2.2.cfg = s.cfg := by
  have hsem := sem_sessionForToken_eq (X := X) token
  have hfound := h.session token
  rw [← h.clock] at hfound
  unfold enabledSession
  cases hses : (Integration.sessionForToken token s'.clock s'.sessions).1 with
  | none =>
    rw [hses, h.clock] at hfound
    simp [perform, op, hsem, hses, ← hfound, h.cfg]
  | some session =>
    rw [hses, h.clock] at hfound
    simp only [perform, op, call_bind, solo_call, still_eq, hsem, hses, ← hfound]
    simp only [h.cfg]
    exact ⟨rfl, rfl, rfl⟩

theorem controlPermissionsFor_solo (h : SameUsers s s') (source : Option NemoSource)
    (field : String) (past : Past) :
    ((controlPermissionsFor X source field).solo (Op.sem X) still past s').1 =
      resolves X s source field := by
  unfold resolves controlPermissionsFor
  split
  · rfl
  · next token _ =>
    have hsame := enabledSession_solo (X := X) h token past []
    rw [solo_bind, solo_bind]
    generalize (enabledSession (some token)).solo (Op.sem X) still past s' = a at hsame ⊢
    generalize (enabledSession (some token)).solo (Op.sem X) still [] s = b at hsame ⊢
    obtain ⟨res, past₁, t⟩ := a
    obtain ⟨res', past₂, t'⟩ := b
    dsimp only at hsame
    obtain ⟨rfl, hcfg, hcfg'⟩ := hsame
    cases res with
    | none => rfl
    | some session =>
      have hpolicy : (Op.sem X (.userPolicy session.username) t).1 =
          (Op.sem X (.userPolicy session.username) t').1 := by
        simp only [Op.sem, hcfg, hcfg']
      simp only [perform, op, call_bind, solo_call, still_eq, hpolicy]
      rfl

/-! ## The punch hole path -/

/-- The states agree on what the broker reads besides the peers. -/
structure SameBroker (s s' : Server) : Prop extends SameUsers s s' where
  alwaysUseRelay : s'.alwaysUseRelay = s.alwaysUseRelay
  rotation : s'.rotation = s.rotation

theorem Asked.sameBroker (h : Asked s s') : SameBroker s s' :=
  ⟨h.sameUsers, by rw [h.eq], by rw [h.eq]⟩

theorem getRelayServer_fst (h : s'.rotation = s.rotation) (relayServers : List String) :
    (s'.getRelayServer relayServers).1 = (s.getRelayServer relayServers).1 := by
  unfold Server.getRelayServer
  split
  · rfl
  · rfl
  · exact congrArg (relayServers.getD · "") (by rw [h])

theorem getRelayServer_sameUsers (h : SameUsers s s') (relayServers : List String) :
    SameUsers s (s'.getRelayServer relayServers).2 ∧
      (s'.getRelayServer relayServers).2.alwaysUseRelay = s'.alwaysUseRelay := by
  unfold Server.getRelayServer
  split <;> exact ⟨⟨h.clock, h.cfg, h.session⟩, rfl⟩

theorem auditPunch_sameBroker (h : SameBroker s s') (fromIp toIp toId : String) :
    SameBroker s (Op.sem X (.auditPunch fromIp toIp toId) s').2 := by
  have hsem : (Op.sem X (.auditPunch fromIp toIp toId) s').2 = s'.auditPunch fromIp toIp toId := rfl
  obtain ⟨l, hl⟩ := s'.auditPunch_eq fromIp toIp toId
  rw [hsem, hl]
  exact ⟨⟨h.clock, h.cfg, h.session⟩, h.alwaysUseRelay, h.rotation⟩

/-- A request of the controller at `addr` to the target `id` is on record. -/
def Recorded (X : Setup) (s : Server) (addr : SocketAddr) (id : String) : Prop :=
  ∃ e, s.pendingRelay (X.tryIntoV4 addr) = some e ∧ e.targetId = id

/-- What the broker answers; a request that is not on one intranet is on record afterwards. -/
theorem brokerPunch_ends (h : SameBroker s s') (self : Task) (ph : PunchHoleRequest) (ws : Bool)
    (authed : Option AuthedDevice) (peerAddr : SocketAddr) (past : Past) :
    (brokerPunch X self ph ws authed peerAddr).Ends (Op.sem X) still (fun msg _ t =>
      msg = punchMsg X s self ph ws (resolves X s ph.nemoSource ph.version) peerAddr ∧
        (onIntranet X self ws peerAddr = false → Recorded X t self.addr ph.id)) past s' := by
  unfold Prog.Ends brokerPunch
  dsimp only
  rw [solo_perform]
  have haudit := auditPunch_sameBroker (X := X) h (X.tryIntoV4 self.addr).ip.toText
    (X.tryIntoV4 peerAddr).ip.toText ph.id
  generalize (Op.sem X (.auditPunch (X.tryIntoV4 self.addr).ip.toText
    (X.tryIntoV4 peerAddr).ip.toText ph.id) s').2 = t at haudit ⊢
  rw [solo_perform, solo_perform]
  obtain ⟨husers, hkept⟩ := getRelayServer_sameUsers haudit.toSameUsers self.relayServers
  have hserver : (Op.sem X (.getRelayServer self.relayServers) t).1 =
      (s.getRelayServer self.relayServers).1 :=
    getRelayServer_fst haudit.rotation self.relayServers
  have hflag : (Op.sem X .alwaysUseRelay (Op.sem X (.getRelayServer self.relayServers) t).2).1 =
      s.alwaysUseRelay := hkept.trans haudit.alwaysUseRelay
  have husers' : SameUsers s
      (Op.sem X .alwaysUseRelay (Op.sem X (.getRelayServer self.relayServers) t).2).2 := husers
  generalize (Op.sem X .alwaysUseRelay (Op.sem X (.getRelayServer self.relayServers) t).2).2 = t'
    at husers' ⊢
  rw [hserver, hflag, solo_bind, controlPermissionsFor_solo husers', solo_perform]
  unfold punchMsg onIntranet demandsRelay
  dsimp only
  by_cases hintranet : (!ws && (X.isLan peerAddr && X.isLan self.addr ||
      sameIp peerAddr self.addr)) = true
  · rw [if_pos hintranet, if_pos hintranet]
    exact ⟨rfl, fun hno => absurd hintranet (by rw [hno]; exact Bool.false_ne_true)⟩
  · rw [if_neg hintranet, if_neg hintranet, solo_perform]
    exact ⟨rfl, fun _ => ⟨_, Table.insert_self .., rfl⟩⟩

theorem Asked.map (h : Asked s s') : s'.map = s.map := by rw [h.eq]

theorem Asked.cell (h : Asked s s') : s'.cell = s.cell := by
  funext r
  unfold Server.cell
  rw [h.eq]

theorem install_cell (s : Server) (id : String) (peer : Peer) :
    (s.install id peer).2.cell (s.install id peer).1 = peer := by
  show ((s.cells.insert s.nextCell peer) s.nextCell).getD _ = peer
  rw [Table.insert_self]
  rfl

/-- What `PeerMap::get` finds, in memory or in the database. -/
theorem get_finds (h : Asked s s') (id : String) (past : Past) :
    (PeerMap.get id).Ends (Op.sem X) still (fun r _ t => SameBroker s t ∧
      r.map t.cell = foundPeer X s id) past s' := by
  unfold Prog.Ends PeerMap.get foundPeer
  rw [solo_perform]
  have hmap : (Op.sem X (.mapGet id) s').1 = s.map id := by
    rw [← h.map]
    rfl
  have hsame : (Op.sem X (.mapGet id) s').2 = s' := rfl
  rw [hmap, hsame]
  cases s.map id with
  | some r =>
    refine ⟨h.sameBroker, ?_⟩
    exact congrArg some (congrFun h.cell r)
  | none =>
    dsimp only
    rw [solo_perform]
    have hdb : s'.dbUp = s.dbUp ∧ s'.db = s.db ∧ s'.now = s.now := by
      rw [h.eq]
      exact ⟨rfl, rfl, rfl⟩
    have hquery : (Op.sem X (.dbGetPeer id) s').1 =
        if s.dbUp then some (Database.getPeer s.db id) else none := by
      rw [← hdb.1, ← hdb.2.1]
      show (s'.query fun db => some (Database.getPeer db id, db)).1 = _
      unfold Server.query
      split <;> rfl
    have hstate : (Op.sem X (.dbGetPeer id) s').2 = s' := s'.query_read _
    rw [hquery, hstate]
    by_cases hup : s.dbUp
    · rw [if_pos hup, if_pos hup]
      cases Database.getPeer s.db id with
      | none => exact ⟨h.sameBroker, rfl⟩
      | some row =>
        dsimp only
        rw [solo_perform]
        refine ⟨⟨⟨h.sameUsers.clock, h.sameUsers.cfg, h.session⟩, h.sameBroker.alwaysUseRelay,
          h.sameBroker.rotation⟩, ?_⟩
        have hcell : (s'.install id (Peer.ofRow X s'.now row)).2.cell
            (s'.install id (Peer.ofRow X s'.now row)).1 = Peer.ofRow X s.now row := by
          rw [install_cell, hdb.2.2]
        exact congrArg some hcell
    · rw [if_neg hup, if_neg hup]
      exact ⟨h.sameBroker, rfl⟩

/-- What a request pushes once the gates have let it pass. -/
theorem punchTarget_ends (h : Asked s s') (self : Task) (ph : PunchHoleRequest) (ws : Bool)
    (authed : Option AuthedDevice) (past : Past) :
    (punchTarget X self ph ws authed).Ends (Op.sem X) still (fun res _ t =>
      ∀ id addr, res.2 = some (id, addr) → id = ph.id ∧
        (foundPeer X s ph.id).map (·.socketAddr) = some addr ∧
        res.1 = punchMsg X s self ph ws (resolves X s ph.nemoSource ph.version) addr ∧
        (onIntranet X self ws addr = false → Recorded X t self.addr ph.id)) past s' := by
  unfold punchTarget
  rw [ends_bind]
  refine (get_finds h ph.id past).mono fun r h₁ t ⟨hbroker, hfound⟩ => ?_
  cases r with
  | none => exact fun id addr hres => by cases hres
  | some r =>
    dsimp only
    have hpeer : (foundPeer X s ph.id).map (·.socketAddr) = some (t.cell r).socketAddr := by
      rw [← hfound]
      rfl
    unfold Prog.Ends
    rw [solo_perform, solo_perform]
    have hread : (Op.sem X (.readPeer r) t).1 = t.cell r := rfl
    rw [hread]
    split
    · exact fun id addr hres => by cases hres
    · rw [solo_bind]
      intro id addr hres
      obtain ⟨rfl, rfl⟩ := Prod.mk.inj (Option.some.inj hres)
      obtain ⟨hmsg, hrecorded⟩ :=
        brokerPunch_ends (X := X) hbroker self ph ws authed (t.cell r).socketAddr _
      exact ⟨rfl, hpeer, hmsg, hrecorded⟩

theorem pushesIn_cons {o : Op} (hk : o.kind ≠ .push) (s : Server) (h : Past) :
    pushesIn (⟨o, s⟩ :: h) = pushesIn h := by
  unfold pushesIn
  cases o with
  | pushToPeer t msg addr => exact absurd rfl hk
  | _ => rfl

/-- Only the operations of that kind push. -/
theorem ends_pushesIn {α : Type} {p : Handler α} {ks : List Kind} (hp : p.Uses (Only ks))
    (hks : Kind.push ∉ ks) (h : Past) (s : Server) :
    p.Ends (Op.sem X) still (fun _ h' _ => pushesIn h' = pushesIn h) h s :=
  hp.ends (I := fun h' _ => pushesIn h' = pushesIn h) rfl fun o h' s' ho heq => by
    rw [still_eq, pushesIn_cons (fun hk => hks (hk ▸ only_iff.1 ho)), heq]

theorem handlePunchHoleRequest_ends (s : Server) (self : Task) (ph : PunchHoleRequest) (ws : Bool)
    (authed : Option AuthedDevice) (past : Past) :
    (handlePunchHoleRequest X self ph ws authed).Ends (Op.sem X) still (fun res _ t =>
      ∀ id addr, res.2 = some (id, addr) → id = ph.id ∧
        (foundPeer X s ph.id).map (·.socketAddr) = some addr ∧
        res.1 = punchMsg X s self ph ws (resolves X s ph.nemoSource ph.version) addr ∧
        (onIntranet X self ws addr = false → Recorded X t self.addr ph.id)) past s := by
  have hrefused : ∀ {e : Event} {msg : RendezvousMessage} {h : Past} {t : Server},
      (do perform (.record e); pure (msg, none) :
        Handler (RendezvousMessage × Option (String × SocketAddr))).Ends (Op.sem X) still
        (fun res _ t => ∀ id addr, res.2 = some (id, addr) → id = ph.id ∧
          (foundPeer X s ph.id).map (·.socketAddr) = some addr ∧
          res.1 = punchMsg X s self ph ws (resolves X s ph.nemoSource ph.version) addr ∧
          (onIntranet X self ws addr = false → Recorded X t self.addr ph.id)) h t := by
    intro e msg h t id addr hres
    cases hres
  unfold handlePunchHoleRequest
  dsimp only
  split
  · exact hrefused
  · rw [ends_bind]
    refine (ends_asks (isPeerAllowed_asks _) (Asked.refl s)).mono fun allowed h₁ t₁ ht₁ => ?_
    split
    · exact hrefused
    rw [ends_bind]
    refine (ends_asks (controllerPolicyRejectionFromField_asks X _ _ _ _) ht₁).mono
      fun rejection h₂ t₂ ht₂ => ?_
    cases rejection with
    | some rejection => exact hrefused
    | none =>
      dsimp only
      rw [ends_bind]
      refine (ends_asks (nemoUserRejectionFromField_asks X _ _ _ _) ht₂).mono
        fun rejection h₃ t₃ ht₃ => ?_
      cases rejection with
      | some rejection => exact hrefused
      | none => exact punchTarget_ends ht₃ self ph ws authed h₃

/-- Nothing is pushed, or the message for the target that was found; a request that is pushed and
not on one intranet is on record afterwards. -/
def PunchPushed (X : Setup) (s : Server) (self : Task) (ph : PunchHoleRequest) (ws : Bool)
    (calls : Past) (t : Server) : Prop :=
  pushesIn calls = [] ∨ ∃ peer, foundPeer X s ph.id = some peer ∧
    pushesIn calls = [(ph.id, punchMsg X s self ph ws (resolves X s ph.nemoSource ph.version)
      peer.socketAddr, peer.socketAddr)] ∧
    (onIntranet X self ws peer.socketAddr = false → Recorded X t self.addr ph.id)

theorem handleTcpPunchHoleRequest_ends (s : Server) (self : Task) (ph : PunchHoleRequest)
    (ws : Bool) (authed : Option AuthedDevice) {past : Past} (hpast : pushesIn past = []) :
    (handleTcpPunchHoleRequest X self ph ws authed).Ends (Op.sem X) still
      (fun _ calls t => PunchPushed X s self ph ws calls t) past s := by
  have hnone := ends_pushesIn (X := X) (handlePunchHoleRequest_uses X self ph ws authed) (by decide) past s
  have hres := handlePunchHoleRequest_ends (X := X) s self ph ws authed past
  unfold handleTcpPunchHoleRequest
  rw [ends_bind]
  unfold Prog.Ends at hnone hres ⊢
  generalize (handlePunchHoleRequest X self ph ws authed).solo (Op.sem X) still past s = r
    at hnone hres ⊢
  obtain ⟨⟨msg, target⟩, h₁, t₁⟩ := r
  dsimp only at hnone hres ⊢
  cases target with
  | none => exact .inl ((pushesIn_cons (by simp [Op.kind]) _ _).trans (hnone.trans hpast))
  | some target =>
    obtain ⟨id, addr⟩ := target
    obtain ⟨rfl, hfound, hmsg, hrecorded⟩ := hres id addr rfl
    obtain ⟨peer, hpeer, rfl⟩ := Option.map_eq_some_iff.1 hfound
    refine .inr ⟨peer, hpeer, ?_, fun hno => ?_⟩
    · show (_ :: pushesIn h₁) = _
      rw [hnone, hpast, hmsg]
    · obtain ⟨e, he, hid⟩ := hrecorded hno
      refine ⟨e, ?_, hid⟩
      have hkept : (Op.sem X (.pushToPeer ph.id msg peer.socketAddr) t₁).2.pendingRelay =
          t₁.pendingRelay := sem_pendingRelay (by simp [Op.kind]) (by simp [Op.kind])
      exact (congrFun hkept _).trans he

/-- A connection that is parked changes nothing that brokering reads. -/
structure SameButParked (X : Setup) (s s' : Server) : Prop where
  users : SameUsers s s'
  map : s'.map = s.map
  cell : s'.cell = s.cell
  found : foundPeer X s' = foundPeer X s
  punchMsg : punchMsg X s' = punchMsg X s

theorem punchMsg_eq (halways : s'.alwaysUseRelay = s.alwaysUseRelay)
    (hrotation : s'.rotation = s.rotation) : punchMsg X s' = punchMsg X s := by
  funext self ph ws permissions peerAddr
  unfold punchMsg
  rw [halways, getRelayServer_fst hrotation]

theorem parkSink_same (c : ConnId) (addr : SocketAddr) (s : Server) :
    SameButParked X s (Op.sem X (.parkSink c addr) s).2 := by
  have hframe : Frame s (Op.sem X (.parkSink c addr) s).2 .park := sem_frame X (.parkSink c addr) s
  generalize (Op.sem X (.parkSink c addr) s).2 = s' at hframe ⊢
  rw [show s' = _ from hframe]
  exact ⟨⟨rfl, rfl, fun _ => rfl⟩, rfl, rfl, rfl, punchMsg_eq rfl rfl⟩

theorem SameUsers.resolves_eq (h : SameUsers s s') (source : Option NemoSource) (field : String) :
    resolves X s' source field = resolves X s source field :=
  controlPermissionsFor_solo h source field []

/-- What a punch hole request comes to that is handled by itself. -/
theorem punchHole_pushed (s : Server) (c : ConnId) (self : Task) (ph : PunchHoleRequest)
    (ws : Bool) (authed : Option AuthedDevice) :
    (handleTcp X c self ws authed (some (.punchHoleRequest ph))).Ends (Op.sem X) still
      (fun _ calls t => PunchPushed X s self ph ws calls t) [] s := by
  have hsame := parkSink_same (X := X) c self.addr s
  have hpast : pushesIn [⟨.parkSink c self.addr, s⟩] = [] := rfl
  have hends := handleTcpPunchHoleRequest_ends (X := X) (Op.sem X (.parkSink c self.addr) s).2 self
    ph ws authed hpast
  unfold PunchPushed at hends ⊢
  rw [hsame.found, hsame.punchMsg, hsame.users.resolves_eq] at hends
  unfold handleTcp
  rw [ends_op, ends_bind]
  exact hends

/-! ## The relay path -/

/-- Nothing is pushed, or the request for the target in memory, without its source. -/
def RelayPushed (X : Setup) (s : Server) (self : Task) (rf : RequestRelay) (calls : Past) : Prop :=
  pushesIn calls = [] ∨ ∃ r, s.map rf.id = some r ∧
    pushesIn calls = [(rf.id, relayMsg X self rf (resolves X s rf.nemoSource rf.licenceKey),
      (s.cell r).socketAddr)]

theorem forwardRelay_ends (h : Asked s s') (self : Task) (rf : RequestRelay) (sourceId : String)
    {past : Past} (hpast : pushesIn past = []) :
    (forwardRelay X self.addr rf sourceId).Ends (Op.sem X) still
      (fun _ calls _ => RelayPushed X s self rf calls) past s' := by
  unfold forwardRelay PeerMap.getInMemory
  rw [ends_op, still_eq]
  have hmap : (Op.sem X (.mapGet rf.id) s').1 = s.map rf.id := by
    rw [← h.map]
    rfl
  have hsame : (Op.sem X (.mapGet rf.id) s').2 = s' := rfl
  have hpast' : pushesIn (⟨.mapGet rf.id, s'⟩ :: past) = [] :=
    (pushesIn_cons (by simp [Op.kind]) _ _).trans hpast
  rw [hmap, hsame]
  cases hfound : s.map rf.id with
  | none => exact .inl hpast'
  | some r =>
    dsimp only
    rw [ends_bind]
    have hasks := controlPermissionsFor_asks X rf.nemoSource rf.licenceKey
    have hnone := ends_pushesIn (X := X) (controlPermissionsFor_uses X rf.nemoSource rf.licenceKey)
      (by decide) (⟨.mapGet rf.id, s'⟩ :: past) s'
    have hasked := ends_asks (X := X) hasks (h := ⟨.mapGet rf.id, s'⟩ :: past) h
    have hres := controlPermissionsFor_solo (X := X) h.sameUsers rf.nemoSource rf.licenceKey
      (⟨.mapGet rf.id, s'⟩ :: past)
    unfold Prog.Ends at hnone hasked ⊢
    generalize (controlPermissionsFor X rf.nemoSource rf.licenceKey).solo (Op.sem X) still
      (⟨.mapGet rf.id, s'⟩ :: past) s' = res at hnone hasked hres ⊢
    obtain ⟨permissions, h₁, t⟩ := res
    dsimp only at hnone hasked hres ⊢
    have hread : (Op.sem X (.readPeer r) t).1 = s.cell r := congrFun hasked.cell r
    have hkept : (Op.sem X (.readPeer r) t).2 = t := rfl
    rw [solo_perform, solo_perform, solo_perform, hread, hkept, hres]
    refine .inr ⟨r, hfound, (pushesIn_cons (by simp [Op.kind]) _ _).trans ?_⟩
    show (_ :: pushesIn (⟨.readPeer r, t⟩ :: h₁)) = _
    rw [pushesIn_cons (by simp [Op.kind]), hnone, hpast']
    rfl

theorem handleRequestRelay_ends (s : Server) (self : Task) (rf : RequestRelay)
    (authed : Option AuthedDevice) {past : Past} (hpast : pushesIn past = []) :
    (handleRequestRelay X self rf authed).Ends (Op.sem X) still
      (fun _ calls _ => RelayPushed X s self rf calls) past s := by
  have hasked : ∀ {α : Type} {p : Handler α} {h : Past} {t : Server}, p.Uses Asks → Asked s t →
      pushesIn h = [] → p.Ends (Op.sem X) still
        (fun _ h' t' => Asked s t' ∧ pushesIn h' = []) h t :=
    fun hp ht hh => ⟨ends_asks hp ht,
      (ends_pushesIn (X := X) (hp.mono Asks.look) (by decide) _ _).trans hh⟩
  have hrefused : ∀ {controllerId reason : String} {h : Past} {t : Server}, pushesIn h = [] →
      (refuseRelay self.addr controllerId reason rf.id).Ends (Op.sem X) still
        (fun _ calls _ => RelayPushed X s self rf calls) h t :=
    fun hh => .inl ((ends_pushesIn (X := X) (refuseRelay_uses _ _ _ _) (by decide) _ _).trans hh)
  unfold handleRequestRelay
  dsimp only
  rw [ends_bind]
  refine (hasked (relayTargetAllowed_asks _) (Asked.refl s) hpast).mono
    fun allowed h₁ t₁ ⟨ht₁, hh₁⟩ => ?_
  split
  · exact hrefused hh₁
  rw [ends_bind]
  refine (hasked (controllerPolicyRejectionFromField_asks X _ _ _ _) ht₁ hh₁).mono
    fun rejection h₂ t₂ ⟨ht₂, hh₂⟩ => ?_
  cases rejection with
  | some rejection => exact hrefused hh₂
  | none =>
    dsimp only
    rw [ends_bind]
    refine (hasked (nemoUserRejectionFromField_asks X _ _ _ _) ht₂ hh₂).mono
      fun rejection h₃ t₃ ⟨ht₃, hh₃⟩ => ?_
    cases rejection with
    | some rejection => exact hrefused hh₃
    | none =>
      dsimp only
      rw [ends_bind]
      refine (forwardRelay_ends (X := X) ht₃ self rf _ hh₃).mono fun forwarded h₄ t₄ hpushed => ?_
      split
      · have hrecord : pushesIn (⟨.record (.relayRequest rf.id self.addr forwarded), t₄⟩ :: h₄) =
            pushesIn h₄ := pushesIn_cons (by simp [Op.kind]) _ _
        show RelayPushed X s self rf (⟨.record (.relayRequest rf.id self.addr forwarded), t₄⟩ :: h₄)
        unfold RelayPushed
        rw [hrecord]
        exact hpushed
      · exact hpushed

/-- What a relay request comes to that is handled by itself. -/
theorem requestRelay_pushed (s : Server) (c : ConnId) (self : Task) (rf : RequestRelay)
    (ws : Bool) (authed : Option AuthedDevice) :
    (handleTcp X c self ws authed (some (.requestRelay rf))).Ends (Op.sem X) still
      (fun _ calls _ => RelayPushed X s self rf calls) [] s := by
  have hsame := parkSink_same (X := X) c self.addr s
  have hpast : pushesIn [⟨.parkSink c self.addr, s⟩] = [] := rfl
  have hends := handleRequestRelay_ends (X := X) (Op.sem X (.parkSink c self.addr) s).2 self
    rf authed hpast
  unfold RelayPushed at hends ⊢
  rw [hsame.map, hsame.cell, hsame.users.resolves_eq] at hends
  unfold handleTcp
  rw [ends_op, ends_bind]
  exact hends

end NemoServer
