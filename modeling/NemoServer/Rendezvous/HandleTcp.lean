import NemoServer.Rendezvous.PunchHole
import NemoServer.Rendezvous.Registration

/-!
# Frames of a rendezvous connection

`handle_tcp`: one frame of the connection `c`, whose task is `self` and which proved `authed`. The
result says whether the connection stays open.
-/

set_option autoImplicit false

namespace NemoServer

namespace Rendezvous

open Management

variable (X : Setup)

/-! ## Relay requests -/

def relayRefusal (reason id : String) : RendezvousMessage :=
  .relayResponse { refuseReason := reason, union := some (.id id) }

/-- Refuse a relay request, by way of the parked connection of the controller. -/
def refuseRelay (addr : SocketAddr) (controllerId reason id : String) : Handler Unit := do
  perform (.record (.policyRejection controllerId addr reason))
  perform (.sendToTcp (relayRefusal reason id) addr)

/-- The first gate of the relay path, which an empty id passes unasked. -/
def relayTargetAllowed (id : String) : Handler Bool :=
  if id = "" then pure true else isPeerAllowed id

/-- Forward the request to a target in memory, then record it; the result says whether it was
forwarded. The fields that carry the session token of the user are wiped. -/
def forwardRelay (addr : SocketAddr) (rf : RequestRelay) (sourceId : String) : Handler Bool := do
  match ← PeerMap.getInMemory rf.id with
  | none => pure false
  | some peer =>
    let controlPermissions ← controlPermissionsFor X rf.nemoSource rf.licenceKey
    let msg := RendezvousMessage.requestRelay { rf with
      controlPermissions := controlPermissions
      socketAddr := X.mangleEncode addr
      licenceKey := ""
      nemoSource := none }
    let r ← perform (.readPeer peer)
    perform (.pushToPeer rf.id msg r.socketAddr)
    perform (.insertPending addr rf.id sourceId)
    pure true

/-- The controller a relayed session is attributed to. -/
def relaySourceId (rf : RequestRelay) (authed : Option AuthedDevice) : String :=
  match (authed.map (·.peerId)).filter (· != "") with
  | some id => id
  | none => controllerSourceId X rf.nemoSource rf.licenceKey

def handleRequestRelay (self : Task) (rf : RequestRelay) (authed : Option AuthedDevice) :
    Handler Unit := do
  let addr := self.addr
  let id := rf.id
  if !(← relayTargetAllowed id) then
    refuseRelay addr id "relay target is not allowed by TBF policy" id
  else
    let peerId := authed.map (·.peerId)
    match ← controllerPolicyRejectionFromField X rf.nemoSource rf.licenceKey id peerId with
    | some (controllerId, reason) => refuseRelay addr controllerId reason id
    | none =>
      let devicePub := authed.map (·.devicePubB64)
      match ← nemoUserRejectionFromField X rf.nemoSource rf.licenceKey id devicePub with
      | some (controllerId, reason) => refuseRelay addr controllerId reason id
      | none =>
        let forwarded ← forwardRelay X addr rf (relaySourceId X rf authed)
        if id ≠ "" then perform (.record (.relayRequest id addr forwarded))

/-! ## Answers of the target -/

/-- The signed record of a peer's public key. -/
def getPk (version id : String) : Handler Bytes := do
  match if version = "" then none else X.sk with
  | none => pure []
  | some sk =>
    match ← PeerMap.get id with
    | none => pure []
    | some r =>
      let peer ← perform (.readPeer r)
      pure (X.sign (X.idPkToBytes id peer.pk) sk)

/-- The relay server a response names, as seen from the controller at `addrB`. -/
def fixRelayServer (self : Task) (relayServer : String) (addrB : SocketAddr) :
    Handler String := do
  if relayServer = "" then pure relayServer
  else if X.isLan addrB then pure X.localIp
  else if relayServer = X.localIp then perform (.getRelayServer self.relayServers)
  else pure relayServer

/-- A response that names an id carries the public key of that id from here on. -/
def signResponder (rr : RelayResponse) : Handler RelayResponse := do
  if rr.id = "" then pure rr
  else
    let pk ← getPk X rr.version rr.id
    pure { rr with union := some (.pk pk) }

/-- The end of the `RelayResponse` arm: the response goes to the controller at `addrB`; `id` is
the id it came with. -/
def deliverRelayResponse (self : Task) (id : String) (rr : RelayResponse) (addrB : SocketAddr) :
    Handler Unit := do
  let relayServer ← fixRelayServer X self rr.relayServer addrB
  if id ≠ "" then perform (.record (.relayResponse id self.addr relayServer))
  perform (.sendToTcp (.relayResponse { rr with relayServer := relayServer }) addrB)

/-- The rest of the `RelayResponse` arm, once a grant is minted. -/
def forwardRelayResponse (c : ConnId) (self : Task) (rr : RelayResponse) (addrB : SocketAddr)
    (pending : PendingRelay) (grant : String) : Handler Unit := do
  perform (.record (.relayGrant (X.relaySessionLabel grant) pending.sourceId pending.targetId))
  perform (.sendToSink c (.relayResponse { uuid := grant }))
  let answer ← signResponder X { rr with socketAddr := [], uuid := grant }
  deliverRelayResponse X self rr.id answer addrB

def handleRelayResponse (c : ConnId) (self : Task) (rr : RelayResponse)
    (authed : Option AuthedDevice) : Handler Unit := do
  let addrB := X.mangleDecode rr.socketAddr
  match ← perform (.redeemPending addrB authed) with
  | .granted pending grant => forwardRelayResponse X c self rr addrB pending grant
  | _ => pure ()

def handleHoleSent (self : Task) (phs : PunchHoleSent) : Handler Unit := do
  let addrA := X.mangleDecode phs.socketAddr
  perform (.record (.punchResponse phs.id self.addr phs.relayServer phs.natType))
  let pk ← getPk X phs.version phs.id
  let natType := match phs.natType with
    | .unrecognized _ => none
    | t => some t
  perform (.sendToTcp (.punchHoleResponse {
    socketAddr := X.mangleEncode self.addr, pk, relayServer := phs.relayServer, natType,
    socketAddrV6 := phs.socketAddrV6, upnpPort := phs.upnpPort }) addrA)

def handleLocalAddr (self : Task) (la : LocalAddr) : Handler Unit := do
  let addrA := X.mangleDecode la.socketAddr
  perform (.record (.localAddrResponse la.id self.addr la.relayServer))
  let pk ← getPk X la.version la.id
  perform (.sendToTcp (.punchHoleResponse {
    socketAddr := la.localAddr, pk, relayServer := la.relayServer, isLocal := true,
    socketAddrV6 := la.socketAddrV6 }) addrA)

/-! ## Registration -/

def configUpdate (self : Task) : ConfigUpdate := ⟨self.serial, self.rendezvousServers⟩

/-- A peer that is blocked is refused after it has been counted as seen. -/
def refuseBlocked (id : String) (addr : SocketAddr) : Handler Bool := do
  perform (.record (.peerSeen id addr))
  if ← PeerMap.isPeerBlocked id then
    perform (.record (.policyRejection id addr "peer is blocked"))
    pure true
  else pure false

def handleRegisterPeer (c : ConnId) (self : Task) (rp : RegisterPeer)
    (authed : Option AuthedDevice) : Handler Bool := do
  if rp.id = "" then pure true
  else if ← refuseBlocked rp.id self.addr then pure false
  else if authed.any fun who => who.peerId != rp.id then pure false
  else
    perform (.registerPeerPush rp.id c)
    let requestPk ← updateAddrCore rp.id self.addr
    perform (.sendToSink c (.registerPeerResponse requestPk))
    if rp.serial < self.serial then
      perform (.sendToSink c (.configureUpdate (configUpdate self)))
    pure true

def handleRegisterPk (c : ConnId) (self : Task) (rk : RegisterPk)
    (authed : Option AuthedDevice) : Handler Bool := do
  if authed.any fun who => who.peerId != rk.id then pure false
  else
    perform (.registerPeerPush rk.id c)
    match ← registerPkCore X rk self.addr with
    | some res => perform (.sendToSink c (.registerPkResponse res))
    | none => pure ()
    pure true

/-! ## The dispatcher -/

def handleTestNat (c : ConnId) (self : Task) (serial : ℤ) : Handler Unit :=
  let cu := if serial < self.serial then some (configUpdate self) else none
  perform (.sendToSink c (.testNatResponse self.addr.port cu))

def handleTcp (c : ConnId) (self : Task) (ws : Bool) (authed : Option AuthedDevice) :
    Option RendezvousMessage → Handler Bool
  | some (.punchHoleRequest ph) => do
    perform (.parkSink c self.addr)
    handleTcpPunchHoleRequest X self ph ws authed
    pure true
  | some (.requestRelay rf) => do
    perform (.parkSink c self.addr)
    handleRequestRelay X self rf authed
    pure true
  | some (.relayResponse rr) => do
    handleRelayResponse X c self rr authed
    pure false
  | some (.punchHoleSent phs) => do
    handleHoleSent X self phs
    pure false
  | some (.localAddr la) => do
    handleLocalAddr X self la
    pure false
  | some (.testNatRequest serial) => do
    handleTestNat c self serial
    pure false
  | some (.registerPeer rp) => handleRegisterPeer c self rp authed
  | some (.registerPk rk) => handleRegisterPk X c self rk authed
  | _ => pure false

end Rendezvous

end NemoServer
