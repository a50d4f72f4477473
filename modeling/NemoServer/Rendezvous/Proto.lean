import Mathlib.Data.Int.Notation
import NemoServer.Std.Net

/-!
# Rendezvous messages

The messages of `rendezvous_proto` with the fields hbbs reads or writes. Fields that it forwards
unread are kept together in `rest`; messages and fields it never looks at are left out.
-/

namespace NemoServer

inductive NatType
  | unknownNat
  | asymmetric
  | symmetric
  /-- A value the enumeration does not name. -/
  | unrecognized (value : ℤ)
  deriving DecidableEq

/-- The bits of `ControlPermissions`. -/
inductive Permission
  | keyboard
  | remotePrinter
  | clipboard
  | file
  | audio
  | camera
  | terminal
  | tunnel
  | restart
  | recording
  | blockInput
  | privacyMode
  | remoteModify
  deriving DecidableEq

/-- `ControlPermissions`: two bits for each permission. -/
structure ControlPermissions where
  permissions : UInt64
  deriving DecidableEq

/-- What a controller says it is, and the session token of its user. -/
structure NemoSource where
  id : String
  uuid : Bytes
  token : String
  deriving DecidableEq

structure RegisterPeer where
  id : String
  serial : ℤ
  deriving DecidableEq

structure RegisterPk where
  id : String
  uuid : Bytes
  pk : Bytes
  deriving DecidableEq

/-- `register_pk_response::Result`. -/
inductive RegisterPkResult
  | ok
  | uuidMismatch
  | tooFrequent
  | serverError
  deriving DecidableEq

structure PunchHoleRequest where
  id : String
  natType : NatType
  licenceKey : String
  version : String
  udpPort : ℤ
  forceRelay : Bool
  upnpPort : ℤ
  socketAddrV6 : Bytes
  nemoSource : Option NemoSource
  deriving DecidableEq

structure PunchHole where
  socketAddr : Bytes
  natType : NatType
  relayServer : String
  controlPermissions : Option ControlPermissions
  udpPort : ℤ
  upnpPort : ℤ
  socketAddrV6 : Bytes
  forceRelay : Bool
  deriving DecidableEq

structure FetchLocalAddr where
  socketAddr : Bytes
  relayServer : String
  controlPermissions : Option ControlPermissions
  socketAddrV6 : Bytes
  deriving DecidableEq

structure PunchHoleSent where
  socketAddr : Bytes
  id : String
  relayServer : String
  natType : NatType
  version : String
  socketAddrV6 : Bytes
  upnpPort : ℤ
  deriving DecidableEq

structure LocalAddr where
  socketAddr : Bytes
  localAddr : Bytes
  relayServer : String
  id : String
  version : String
  socketAddrV6 : Bytes
  deriving DecidableEq

/-- `punch_hole_response::Failure`. -/
inductive PunchFailure
  | idNotExist
  | offline
  | licenseMismatch
  deriving DecidableEq

structure PunchHoleResponse where
  socketAddr : Bytes := []
  pk : Bytes := []
  /-- Unset in an answer that is no failure. -/
  failure : Option PunchFailure := none
  relayServer : String := ""
  natType : Option NatType := none
  isLocal : Bool := false
  otherFailure : String := ""
  socketAddrV6 : Bytes := []
  upnpPort : ℤ := 0
  deriving DecidableEq

structure RequestRelay where
  id : String
  socketAddr : Bytes
  licenceKey : String
  controlPermissions : Option ControlPermissions
  nemoSource : Option NemoSource
  rest : Bytes
  deriving DecidableEq

/-- The `union` of a `RelayResponse`. -/
inductive RelayUnion
  | id (id : String)
  | pk (pk : Bytes)
  deriving DecidableEq

structure RelayResponse where
  socketAddr : Bytes := []
  uuid : String := ""
  relayServer : String := ""
  union : Option RelayUnion := none
  refuseReason : String := ""
  version : String := ""
  rest : Bytes := []
  deriving DecidableEq

/-- The accessor `id()`: empty when the union holds something else. -/
def RelayResponse.id (rr : RelayResponse) : String :=
  match rr.union with
  | some (.id id) => id
  | _ => ""

structure ConfigUpdate where
  serial : ℤ
  rendezvousServers : List String
  deriving DecidableEq

/-- The plain reply to the key exchange offer. -/
structure KeyExchange where
  keys : List Bytes
  deriving DecidableEq

/-- The reply that carries a device-key proof. -/
structure NemoClientAuth where
  devicePub : Bytes
  clientBoxPk : Bytes
  sealedKey : Bytes
  peerId : String
  sig : Bytes
  deriving DecidableEq

/-- `rendezvous_message::Union`. -/
inductive RendezvousMessage
  | registerPeer (rp : RegisterPeer)
  | registerPeerResponse (requestPk : Bool)
  | registerPk (rk : RegisterPk)
  | registerPkResponse (result : RegisterPkResult)
  | punchHoleRequest (ph : PunchHoleRequest)
  | punchHole (ph : PunchHole)
  | punchHoleSent (phs : PunchHoleSent)
  | punchHoleResponse (phr : PunchHoleResponse)
  | fetchLocalAddr (fla : FetchLocalAddr)
  | localAddr (la : LocalAddr)
  | requestRelay (rf : RequestRelay)
  | relayResponse (rr : RelayResponse)
  | testNatRequest (serial : ℤ)
  | testNatResponse (port : UInt16) (cu : Option ConfigUpdate)
  | configureUpdate (cu : ConfigUpdate)
  | keyExchange (ex : KeyExchange)
  | nemoClientAuth (auth : NemoClientAuth)
  | nemoSealedAuth (sealed : Bytes)
  /-- A message of another kind. -/
  | other
  deriving DecidableEq

end NemoServer
