import NemoServer.Foundations.Table
import NemoServer.Integration.Users
import NemoServer.Server.Database

/-!
# The state of hbbs

Everything behind a lock or an atomic that the handlers share: the tables of
`RendezvousServer`, the peer map with its cells, the database, the live configuration, and for
each connection what its task holds. Instants are in nanoseconds, the wall clock in seconds.
-/

set_option autoImplicit false

namespace NemoServer

/-- A rendezvous connection; its sink and its push channel go by the same number. -/
abbrev ConnId := ℕ
/-- A cell of the peer map (`LockPeer`). -/
abbrev PeerRef := ℕ

/-- A request hbbs forwarded, which a `RelayResponse` may answer. -/
structure PendingRelay where
  targetId : String
  sourceId : String
  expires : ℕ
  deriving DecidableEq

/-- An entry of the peer map. -/
structure Peer where
  socketAddr : SocketAddr
  lastRegTime : ℕ
  /-- `none` is the empty guid of a peer that is not in the database. -/
  guid : Option ℕ
  uuid : Bytes
  pk : Bytes
  ip : String
  status : Option ℤ
  regPk : ℕ × ℕ
  deriving DecidableEq

/-- Who a connection proved to be with its device key. -/
structure AuthedDevice where
  devicePubB64 : String
  peerId : String
  deriving DecidableEq

/-- What a connection task took when it started: the address of the client and copies of the
fields of the server that are replaced, not changed. -/
structure Task where
  addr : SocketAddr
  serial : ℤ
  rendezvousServers : List String
  relayServers : List String
  deriving DecidableEq

/-- Where a connection task is. -/
inductive Phase
  | handshaking
  /-- Waiting for a frame. -/
  | idle
  /-- Handling a frame. -/
  | busy
  | closed
  deriving DecidableEq

structure Conn where
  task : Task
  authed : Option AuthedDevice
  /-- The task still holds the sink. -/
  sink : Bool
  phase : Phase
  deriving DecidableEq

/-- Counters of an IP address: registrations in a row, and the ids seen in a day. -/
structure IpBlock where
  count : ℕ
  countTime : ℕ
  ids : List String
  idsTime : ℕ
  deriving DecidableEq

structure PunchReqEntry where
  tm : ℕ
  fromIp : String
  toIp : String
  toId : String
  deriving DecidableEq

/-- What the served certificate is, if the API is served over TLS. -/
structure TlsCertInfo where
  mode : String
  fingerprint : String
  deriving DecidableEq

/-- What the management API keeps beside the configuration. -/
structure ApiState where
  globalPolicy : ManagementPolicy
  /-- `API_CERT_INFO`. -/
  certInfo : Option TlsCertInfo
  /-- `PEER_ENDPOINTS`: the direct address of a peer. -/
  peerEndpoints : List (String × String)
  /-- `PEER_TERMINATE`. -/
  peerTerminate : Table String ℕ
  abVersion : ℕ
  /-- When the row with a guid was inserted. -/
  createdAt : ℕ → String

structure Server where
  now : ℕ
  clock : ℕ
  tcpPunch : Table SocketAddr ConnId
  pendingRelay : Table SocketAddr PendingRelay
  tcpPeers : Table String ConnId
  map : Table String PeerRef
  cells : Table PeerRef Peer
  /-- Cells from here on are unused. -/
  nextCell : ℕ
  db : List Row
  /-- Whether a query would succeed now. -/
  dbUp : Bool
  /-- Uuids made so far. -/
  uuids : ℕ
  /-- X25519 key pairs made so far. -/
  keypairs : ℕ
  cfg : IntegrationConfig
  sessions : Table String Session
  companyOnly : Bool
  alwaysUseRelay : Bool
  serial : ℤ
  rendezvousServers : List String
  relayServers : List String
  /-- `ROTATION_RELAY_SERVER`. -/
  rotation : ℕ
  ipBlocker : Table String IpBlock
  punchReqs : List PunchReqEntry
  conns : Table ConnId Conn
  nextConn : ℕ
  api : ApiState

/-! ## Instants -/

def secsToNanos (n : ℕ) : ℕ := n * 1000000000
def asSecs (n : ℕ) : ℕ := n / 1000000000
def asMillis (n : ℕ) : ℕ := n / 1000000

/-- `get_expired_time`: an hour ago. -/
def getExpiredTime (now : ℕ) : ℕ := if secsToNanos 3600 ≤ now then now - secsToNanos 3600 else now

/-- `PENDING_RELAY_TTL`. -/
def pendingRelayTtl : ℕ := secsToNanos Setup.relayGrantTtlSecs

/-- `Peer::default`. -/
def Peer.fresh (now : ℕ) : Peer :=
  ⟨.unspecified, getExpiredTime now, none, [], [], "", none, (0, getExpiredTime now)⟩

/-- The entry `PeerMap::get` makes of a row. -/
def Peer.ofRow (X : Setup) (now : ℕ) (r : Row) : Peer :=
  { Peer.fresh now with
    guid := some r.guid
    uuid := r.uuid
    pk := r.pk
    ip := (X.infoOfJson r.info).getD ""
    status := r.status }

namespace Server

variable (s : Server)

/-- The connection task is still there to take a push. -/
def isOpen (c : ConnId) : Bool :=
  match s.conns c with
  | some w => w.phase != .closed
  | none => false

/-- Change what connection `c` holds. -/
def setConn (c : ConnId) (f : Conn → Conn) : Server :=
  { s with conns := fun d => if d = c then (s.conns c).map f else s.conns d }

/-- Change the cell `r`. -/
def setCell (r : PeerRef) (f : Peer → Peer) : Server :=
  { s with cells := fun q => if q = r then (s.cells r).map f else s.cells q }

/-- A reference handed out always has its cell; the default is never used. -/
def cell (r : PeerRef) : Peer := (s.cells r).getD (Peer.fresh s.now)

end Server

end NemoServer
