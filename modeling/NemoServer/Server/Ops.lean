import NemoServer.Foundations.Prog
import NemoServer.Server.State

/-!
# The atomic operations of hbbs

What a handler does between two points where another task may run: each lock is taken and
released within one operation, each query is one operation, and code that awaits nothing between
two accesses is one operation. `Op.sem` gives their meaning on the state.
-/

set_option autoImplicit false

namespace NemoServer

/-- An entry of the statistics, which no gate reads. -/
inductive Event
  | policyRejection (id : String) (addr : SocketAddr) (reason : String)
  | peerSeen (id : String) (addr : SocketAddr)
  | registerPk (id : String) (addr : SocketAddr) (accepted : Bool)
  | connectionNegotiation (id : String) (source : Option NemoSource) (sourceField : String)
      (addr peerAddr : SocketAddr) (natType : NatType) (forcedRelay sameIntranet : Bool)
      (relayServer : String)
  | relayRequest (id : String) (addr : SocketAddr) (forwarded : Bool)
  | relayGrant (label sourceId targetId : String)
  | relayResponse (id : String) (addr : SocketAddr) (relayServer : String)
  | punchResponse (id : String) (addr : SocketAddr) (relayServer : String) (natType : NatType)
  | localAddrResponse (id : String) (addr : SocketAddr) (relayServer : String)
  deriving DecidableEq

/-- What comes of taking out the entry a `RelayResponse` names. -/
inductive Redeem
  | unsolicited
  | wrongPeer
  | noKey
  | granted (entry : PendingRelay) (grant : String)
  deriving DecidableEq

inductive Op
  -- the peer map and its cells
  | mapGet (id : String)
  | mapInstall (id : String) (row : Row)
  | mapGetOrInsert (id : String)
  | mapRemove (id : String)
  | readPeer (r : PeerRef)
  | readRegPk (r : PeerRef)
  | writePk (r : PeerRef) (addr : SocketAddr) (uuid pk : Bytes) (ip : String)
  | writeGuid (r : PeerRef) (guid : ℕ)
  | writeRegPk (r : PeerRef) (regPk : ℕ × ℕ)
  | writeStatus (r : PeerRef) (status : Option ℤ)
  | writeHeartbeat (r : PeerRef) (addr : SocketAddr)
  -- the database
  | dbGetPeer (id : String)
  | dbGetRegisteredPeer (id : String)
  | dbListRegistered (limit offset : ℕ)
  | dbInsertPeer (id : String) (uuid pk : Bytes) (info : String)
  | dbUpdatePk (guid : ℕ) (id : String) (pk : Bytes) (info : String)
  | dbSetPeerStatus (id : String) (status : Option ℤ) (note : Option String)
  | dbSetManagementPolicy (id : String) (policy : Option String)
  | dbDeletePeer (id : String)
  -- the configuration and the sessions
  | companyOnly
  | alwaysUseRelay
  | requireLogin
  | sessionForToken (token : String)
  | userIsEnabled (username : String)
  | effectivePermission (username : String)
  | userPolicy (username : String)
  | isDeviceKeyPinned (publicKey : String)
  | deviceKeyBinding (publicKey : String)
  | claimUnboundDeviceKeys
  | requireDeviceKey
  | stripUnsealedSecrets
  | devicePolicy (peerId : String)
  | registerPendingClaim (publicKey peerId via : String)
  | removeDeviceKey (id : String)
  | dropSessionsOf (publicKey : String)
  -- the management API
  | globalPolicy
  | certInfo
  | peerEndpoints
  | peerTerminateBefore (id : String)
  | abVersion
  -- the rest of the process
  | instantNow
  | wallClock
  | genKeypair
  | getRelayServer (relayServers : List String)
  | checkIpBlocker (ip id : String)
  | auditPunch (fromIp toIp toId : String)
  | record (e : Event)
  -- reaching clients
  | parkSink (c : ConnId) (addr : SocketAddr)
  | sendToSink (c : ConnId) (msg : RendezvousMessage)
  | sendToTcp (msg : RendezvousMessage) (addr : SocketAddr)
  | pushToPeer (id : String) (msg : RendezvousMessage) (addr : SocketAddr)
  | registerPeerPush (id : String) (c : ConnId)
  | insertPending (addr : SocketAddr) (targetId sourceId : String)
  | redeemPending (addr : SocketAddr) (authed : Option AuthedDevice)
  | udpSend (msg : RendezvousMessage) (addr : SocketAddr)
  -- the connection task
  | finishHandshake (c : ConnId) (authed : Option AuthedDevice) (secured : Bool)
  | dispatch (c : ConnId) (authed : Option AuthedDevice) (frame : Option RendezvousMessage)
  | resume (c : ConnId)
  | close (c : ConnId)
  | abandon (c : ConnId)

/-- The answers; `none` from the database is an error. -/
@[reducible] def Op.Res : Op → Type
  | .mapGet _ => Option PeerRef
  | .mapInstall _ _ => PeerRef
  | .mapGetOrInsert _ => PeerRef
  | .readPeer _ => Peer
  | .readRegPk _ => ℕ × ℕ
  | .writePk _ _ _ _ _ => Option ℕ
  | .writeHeartbeat _ _ => Bool
  | .dbGetPeer _ => Option (Option Row)
  | .dbGetRegisteredPeer _ => Option (Option RegisteredPeer)
  | .dbListRegistered _ _ => Option (List RegisteredPeer)
  | .dbInsertPeer _ _ _ _ => Option ℕ
  | .dbUpdatePk _ _ _ _ => Option Unit
  | .dbSetPeerStatus _ _ _ => Option Bool
  | .dbSetManagementPolicy _ _ => Option Bool
  | .dbDeletePeer _ => Option Bool
  | .companyOnly => Bool
  | .alwaysUseRelay => Bool
  | .requireLogin => Bool
  | .sessionForToken _ => Option Session
  | .userIsEnabled _ => Bool
  | .effectivePermission _ => Bool × List String
  | .userPolicy _ => UserManagedPolicy
  | .isDeviceKeyPinned _ => Bool
  | .deviceKeyBinding _ => Option String
  | .claimUnboundDeviceKeys => Bool
  | .requireDeviceKey => Bool
  | .stripUnsealedSecrets => Bool
  | .devicePolicy _ => Option UserManagedPolicy
  | .registerPendingClaim _ _ _ => PendingOutcome
  | .removeDeviceKey _ => Option String
  | .globalPolicy => ManagementPolicy
  | .certInfo => Option TlsCertInfo
  | .peerEndpoints => List (String × String)
  | .peerTerminateBefore _ => ℕ
  | .abVersion => ℕ
  | .instantNow => ℕ
  | .wallClock => ℕ
  | .genKeypair => PublicKey × SecretKey
  | .getRelayServer _ => String
  | .checkIpBlocker _ _ => Bool
  | .redeemPending _ _ => Redeem
  | .finishHandshake _ _ _ => Bool
  | .dispatch _ _ _ => Bool
  | _ => Unit

abbrev Handler := Prog Op Op.Res

/-- Perform one operation. -/
abbrev perform (o : Op) : Handler o.Res := Prog.op o

end NemoServer
