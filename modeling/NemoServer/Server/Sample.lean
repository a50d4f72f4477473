import NemoServer.Server.Verified

/-!
# A small deployment

A setting in which the dependencies are small concrete functions, and a server that has just
started in it: what exists of runs is exhibited here. Keys are their own signatures' prefixes, and
base64 is the text of the bytes.
-/

set_option autoImplicit false

namespace NemoServer

namespace Sample

def mangleEncode : SocketAddr → Bytes
  | .v4 ip port => [ip.a, ip.b, ip.c, ip.d, (port >>> 8).toUInt8, port.toUInt8]
  | .v6 _ _ _ _ => []

def mangleDecode : Bytes → SocketAddr
  | [a, b, c, d, hi, lo] => .v4 ⟨a, b, c, d⟩ (hi.toUInt16 <<< 8 ||| lo.toUInt16)
  | _ => .unspecified

def bytesOfText (s : String) : Bytes := s.toList.map fun c => UInt8.ofNat c.toNat

def textOfBytes (b : Bytes) : String := String.ofList (b.map fun x => Char.ofNat x.toNat)

/-- The text of one part of a signed payload, with its length in front. -/
def framed (b : Bytes) : Bytes := List.replicate b.length 1 ++ 0 :: b

/-- An id, each character in unary. -/
def unary (id : List Char) : Bytes := id.flatMap fun c => List.replicate c.toNat 1 ++ [0]

/-- The server key. -/
def serverSk : SecretKey := [7]

/-- A server with the key exchange in the given mode. -/
def setup (mode : KeyExchangeMode) (allowUnbound : Bool) : Setup where
  tryIntoV4 := id
  mangleEncode := mangleEncode
  mangleDecode := mangleDecode
  base64Encode := textOfBytes
  base64Decode s := some (bytesOfText s)
  toLowercase := id
  policyOfJson _ := none
  isSettingKey _ := false
  permissionValue _ := 0
  infoToJson := id
  infoOfJson := some
  nullInt := none
  nullText := none
  isoOfSecs n := toString n
  uuidV4 n := [UInt8.ofNat n]
  genKeypair n := (List.replicate n 1, List.replicate n 1)
  sign m sk := sk ++ m
  signDetached _ sk := sk
  verify sig pk := if pk <+: sig then some (sig.drop pk.length) else none
  publicKeyOfSlice := some
  sha256 b := b
  idPkToBytes id pk := bytesOfText id ++ pk
  nemoDeviceAuthPayload eph box sealed id :=
    framed eph ++ (framed box ++ (framed sealed ++ unary id.toList))
  encryptDecode sealed _ _ := some sealed
  sealedboxOpen _ _ := none
  parseClientAuth _ := none
  dbError := "database error"
  openSealedToken := some
  payloadToJson id _ _ _ _ := bytesOfText id
  sealToDeviceKey _ b := some (textOfBytes b)
  key := ""
  sk := some serverSk
  mode := mode
  mask := none
  localIp := ""
  udpRegistration := false
  allowUnboundDeviceKeys := allowUnbound
  mode_off h := by cases h

/-- Nobody is known, and every flag is off. -/
def config (keys : List DeviceKey) : IntegrationConfig where
  deviceKeys := keys
  pendingDeviceKeyClaims := []
  claimUnboundDeviceKeys := false
  requireDeviceKey := false
  requireLogin := false
  permissionsVersion := 1
  permissions := Table.empty
  defaultTargets := []
  adminPolicy := default
  policies := Table.empty
  defaultPolicyName := none
  devicePolicies := Table.empty
  stripUnsealedSecrets := false

/-- A server that has just started, with the device keys `keys`. -/
def server (keys : List DeviceKey) : Server where
  now := secsToNanos 7200
  clock := 1000
  tcpPunch := Table.empty
  pendingRelay := Table.empty
  tcpPeers := Table.empty
  map := Table.empty
  cells := Table.empty
  nextCell := 0
  db := []
  dbUp := true
  uuids := 0
  keypairs := 0
  cfg := config keys
  sessions := Table.empty
  companyOnly := false
  alwaysUseRelay := false
  serial := 0
  rendezvousServers := []
  relayServers := ["relay"]
  rotation := 0
  ipBlocker := Table.empty
  punchReqs := []
  conns := Table.empty
  nextConn := 0
  api := ⟨default, none, [], Table.empty, 0, fun _ => ""⟩

theorem server_booted (keys : List DeviceKey) : (server keys).Booted where
  tcpPunch := rfl
  pendingRelay := rfl
  tcpPeers := rfl
  map := rfl
  cells := rfl
  conns := rfl
  ids := List.nodup_nil
  guids := List.nodup_nil
  guid_lt := by simp [server]
  id_len := by simp [server]
  uuid_ne := by simp [server]

/-- The task of a client at `10.0.0.n`. -/
def task (n : UInt8) : Task := ⟨.v4 ⟨10, 0, 0, n⟩ 1000, 0, [], ["relay"]⟩

/-- Start a task, as number `n`, and perform its first `k` operations. -/
def playFor (k n : ℕ) (j : Job) : List (Choice Job Env) := .start j :: List.replicate k (.step n)

/-- Start a task and run it to its end; no task here has more operations. -/
def play (n : ℕ) (j : Job) : List (Choice Job Env) := playFor 40 n j

/-- A client connects and offers no key; its first frame registers it. -/
def register (n : ℕ) (c : ConnId) (addr : UInt8) (id : String) : List (Choice Job Env) :=
  play n (.handshake c (task addr) (some (some (.registerPk ⟨id, [1], [1]⟩))))

/-- A device key bound to a peer, and the proof of a client that holds it, on the connection that
gets the key pair `n`. -/
def deviceKey (id : String) : DeviceKey := ⟨"key", "", textOfBytes [65], "", id, ""⟩

def proof (n : ℕ) (id : String) : NemoClientAuth :=
  ⟨[65], [3], [4], id,
    65 :: (setup .offer false).nemoDeviceAuthPayload (List.replicate n 1) [3] [4] id⟩

/-- A client connects with a device key. -/
def connect (n : ℕ) (c : ConnId) (addr : UInt8) (keypair : ℕ) (id : String) :
    List (Choice Job Env) :=
  play n (.handshake c (task addr) (some (some (.nemoClientAuth (proof keypair id)))))

/-- A schedule from the start exhibits a run, with the history and the pool it ends in. -/
theorem exists_run (X : Setup) (keys : List DeviceKey) (cs : List (Choice Job Env))
    (t : List Step → Pool Op Op.Res Server Job → Bool)
    (h : t ((hbbs X).exec cs [] (System.boot (server keys))).1
      ((hbbs X).exec cs [] (System.boot (server keys))).2 = true) :
    ∃ l p, (hbbs X).Run Server.Booted System.Free l p ∧ t l p = true :=
  System.exists_run (server_booted keys) cs t h

end Sample

end NemoServer
