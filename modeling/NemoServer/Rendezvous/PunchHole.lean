import NemoServer.Management.Gates

/-!
# Brokering a punch hole request

`handle_punch_hole_request`: the gates, the lookup of the target, the choice between a direct and
a relayed connection, and the message to push to the target.
-/

set_option autoImplicit false

namespace NemoServer

namespace Rendezvous

open Management

variable (X : Setup)

/-- `REG_TIMEOUT`, in milliseconds. -/
def regTimeout : ℕ := 30000

/-- The addresses are of one family and equal. -/
def sameIp : SocketAddr → SocketAddr → Bool
  | .v4 a _, .v4 b _ => a == b
  | .v6 a _ _ _, .v6 b _ _ _ => a == b
  | _, _ => false

/-- An answer that refuses the request. -/
def punchRefusal (failure : PunchFailure) (otherFailure : String) : RendezvousMessage :=
  .punchHoleResponse { failure := some failure, otherFailure := otherFailure }

/-- The message for a target that was found and is online, and the record that its relay
response will be checked against. -/
def brokerPunch (self : Task) (ph : PunchHoleRequest) (ws : Bool) (authed : Option AuthedDevice)
    (peerAddr : SocketAddr) : Handler RendezvousMessage := do
  let addr := self.addr
  perform (.auditPunch (X.tryIntoV4 addr).ip.toText (X.tryIntoV4 peerAddr).ip.toText ph.id)
  let peerIsLan := X.isLan peerAddr
  let isLan := X.isLan addr
  let relayServer ← perform (.getRelayServer self.relayServers)
  let alwaysUseRelay ← perform .alwaysUseRelay
  let forcedRelay := alwaysUseRelay || ph.forceRelay || (peerIsLan ^^ isLan)
  let relayServer := if forcedRelay && peerIsLan then X.localIp else relayServer
  let natType := if forcedRelay then .symmetric else ph.natType
  let sameIntranet := !ws && (peerIsLan && isLan || sameIp peerAddr addr)
  let socketAddr := X.mangleEncode addr
  let controlPermissions ← controlPermissionsFor X ph.nemoSource ph.version
  perform (.record (.connectionNegotiation ph.id ph.nemoSource ph.version addr peerAddr ph.natType
    forcedRelay sameIntranet relayServer))
  if sameIntranet then
    pure (.fetchLocalAddr ⟨socketAddr, relayServer, controlPermissions, ph.socketAddrV6⟩)
  else
    -- the target may answer a punch hole with a relay response of its own accord
    perform (.insertPending addr ph.id ((authed.map (·.peerId)).getD ""))
    pure (.punchHole ⟨socketAddr, natType, relayServer, controlPermissions, ph.udpPort,
      ph.upnpPort, ph.socketAddrV6, ph.forceRelay⟩)

/-- The rest of `handle_punch_hole_request` after the gates: the target must be registered and
online. -/
def punchTarget (self : Task) (ph : PunchHoleRequest) (ws : Bool) (authed : Option AuthedDevice) :
    Handler (RendezvousMessage × Option (String × SocketAddr)) := do
  match ← PeerMap.get ph.id with
  | none => pure (punchRefusal .idNotExist "", none)
  | some peer =>
    let r ← perform (.readPeer peer)
    let now ← perform .instantNow
    if regTimeout ≤ asMillis (now - r.lastRegTime) then pure (punchRefusal .offline "", none)
    else
      let msg ← brokerPunch X self ph ws authed r.socketAddr
      pure (msg, some (ph.id, r.socketAddr))

/-- The message to send, and the peer to push it to; without a peer it is the answer. -/
def handlePunchHoleRequest (self : Task) (ph : PunchHoleRequest) (ws : Bool)
    (authed : Option AuthedDevice) :
    Handler (RendezvousMessage × Option (String × SocketAddr)) := do
  let addr := self.addr
  if X.key ≠ "" ∧ ph.licenceKey ≠ X.key then
    perform (.record (.policyRejection ph.id addr "invalid server key"))
    pure (punchRefusal .licenseMismatch "", none)
  else
    let id := ph.id
    if !(← isPeerAllowed id) then
      perform (.record (.policyRejection id addr "target peer is not allowed by TBF policy"))
      pure (punchRefusal .offline "target peer is not allowed by TBF policy", none)
    else
      let peerId := authed.map (·.peerId)
      match ← controllerPolicyRejectionFromField X ph.nemoSource ph.version id peerId with
      | some (controllerId, reason) =>
        perform (.record (.policyRejection controllerId addr reason))
        pure (punchRefusal .offline reason, none)
      | none =>
        let devicePub := authed.map (·.devicePubB64)
        match ← nemoUserRejectionFromField X ph.nemoSource ph.version id devicePub with
        | some (controllerId, reason) =>
          perform (.record (.policyRejection controllerId addr reason))
          pure (punchRefusal .offline reason, none)
        | none => punchTarget X self ph ws authed

/-- The answer of a refusal goes to the connection parked under the address of the controller. -/
def handleTcpPunchHoleRequest (self : Task) (ph : PunchHoleRequest) (ws : Bool)
    (authed : Option AuthedDevice) : Handler Unit := do
  match ← handlePunchHoleRequest X self ph ws authed with
  | (msg, some (id, peerAddr)) => perform (.pushToPeer id msg peerAddr)
  | (msg, none) => perform (.sendToTcp msg self.addr)

end Rendezvous

end NemoServer
