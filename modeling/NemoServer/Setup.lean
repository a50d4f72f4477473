import NemoServer.Rendezvous.Proto

/-!
# The setting of a run

What is fixed for a whole run: the functions hbbs takes from its dependencies (`Deps`), of which
the model knows nothing but what a theorem assumes, and the parameters it was started with
(`Setup`).
-/

set_option autoImplicit false

namespace NemoServer

/-- Ed25519 and X25519 keys, as their bytes. -/
abbrev SecretKey := Bytes
abbrev PublicKey := Bytes
/-- The symmetric key of a secured connection. -/
abbrev SessionKey := Bytes

/-- The stored outbound policy of a peer, as decoded from its JSON text. -/
structure ManagementPolicy where
  allowUserOverride : Bool
  options : List (String × String)

instance : Inhabited ManagementPolicy := ⟨⟨false, []⟩⟩

/-- The functions of the dependencies. -/
structure Deps where
  /-- `hbb_common::try_into_v4`. -/
  tryIntoV4 : SocketAddr → SocketAddr
  /-- `AddrMangle::encode` and `AddrMangle::decode`. -/
  mangleEncode : SocketAddr → Bytes
  mangleDecode : Bytes → SocketAddr
  base64Encode : Bytes → String
  base64Decode : String → Option Bytes
  /-- `str::to_lowercase`. -/
  toLowercase : String → String
  /-- `serde_json::from_str::<ManagementPolicy>`. -/
  policyOfJson : String → Option ManagementPolicy
  /-- The key tables `KEYS_SETTINGS`, `KEYS_LOCAL_SETTINGS` and `KEYS_DISPLAY_SETTINGS`. -/
  isSettingKey : String → Bool
  /-- The number of a permission in the generated enumeration. -/
  permissionValue : Permission → ℤ
  /-- The JSON of a `PeerInfo`, whose only field is the address, and its decoding. -/
  infoToJson : String → String
  infoOfJson : String → Option String
  /-- What `try_get(..).ok()` makes of a NULL in a column read as a number, or as a text. -/
  nullInt : Option ℤ
  nullText : Option String
  /-- `now_iso()` at a time of the wall clock. -/
  isoOfSecs : ℕ → String
  /-- The 16 random bytes of the `n`-th version 4 uuid. -/
  uuidV4 : ℕ → Bytes
  /-- The `n`-th X25519 key pair. -/
  genKeypair : ℕ → PublicKey × SecretKey
  /-- `sign::sign`, `sign::sign_detached` and `sign::verify`. -/
  sign : Bytes → SecretKey → Bytes
  signDetached : Bytes → SecretKey → Bytes
  verify : Bytes → PublicKey → Option Bytes
  /-- `sign::PublicKey::from_slice`. -/
  publicKeyOfSlice : Bytes → Option PublicKey
  sha256 : Bytes → Bytes
  /-- `IdPk { id, pk }`, encoded. -/
  idPkToBytes : String → Bytes → Bytes
  nemoDeviceAuthPayload : Bytes → Bytes → Bytes → String → Bytes
  /-- `Encrypt::decode`: the session key sealed to our half of the exchange. -/
  encryptDecode : Bytes → Bytes → SecretKey → Option SessionKey
  /-- Opening an envelope sealed to the server key. -/
  sealedboxOpen : Bytes → SecretKey → Option Bytes
  /-- `NemoClientAuth::parse_from_bytes`. -/
  parseClientAuth : Bytes → Option NemoClientAuth
  /-- The text of an error of the database. -/
  dbError : String
  /-- The token of a poll, sealed to the management key: opened, and read from its JSON. -/
  openSealedToken : String → Option String
  /-- The JSON of a payload: the peer, when it was issued, from when its sessions are to end. -/
  payloadToJson : String → String → ℕ → ℕ → ManagementPolicy → Bytes
  /-- Sealing to the key of a device. -/
  sealToDeviceKey : String → Bytes → Option String

namespace Deps

/-- Two hexadecimal digits. -/
def hexByte (b : UInt8) : List Char :=
  [Nat.digitChar (b.toNat / 16), Nat.digitChar (b.toNat % 16)]

/-- The label under which a relayed session is counted. -/
def relaySessionLabel (X : Deps) (grant : String) : String :=
  String.ofList (((X.sha256 grant.toUTF8.toList).take 8).flatMap hexByte)

end Deps

inductive KeyExchangeMode
  | off
  | offer
  | require
  deriving DecidableEq

/-- The parameters of a started server. -/
structure Setup extends Deps where
  /-- The licence key clients must present, if not empty. -/
  key : String
  sk : Option SecretKey
  mode : KeyExchangeMode
  /-- `network.contains` of the LAN mask. -/
  mask : Option (Ipv4Addr → Bool)
  localIp : String
  udpRegistration : Bool
  allowUnboundDeviceKeys : Bool
  /-- `start` refuses `require` without a server key and turns `offer` without one into `off`. -/
  mode_off : sk = none → mode = .off

namespace Setup

variable (X : Setup)

/-- `RendezvousServer::is_lan`. -/
def isLan (addr : SocketAddr) : Bool :=
  match X.mask with
  | none => false
  | some contains =>
    match addr with
    | .v4 ip _ => contains ip
    | .v6 ip _ _ _ =>
      match ip.toIpv4 with
      | some ip => contains ip
      | none => false

/-! ## Relay grants -/

def relayGrantTtlSecs : ℕ := 60

/-- `"tbfdesk-relay-grant-v1"`. -/
def relayGrantDomain : Bytes := "tbfdesk-relay-grant-v1".toUTF8.toList

/-- `u64::to_be_bytes`. -/
def toBeBytes (n : ℕ) : Bytes :=
  [56, 48, 40, 32, 24, 16, 8, 0].map fun k => UInt8.ofNat (n >>> k)

/-- A grant for the `n`-th session, minted at `now` (in seconds since the epoch). -/
def relayGrantMint (sk : SecretKey) (ttl now n : ℕ) : String :=
  let nonce := X.uuidV4 n
  let exp := toBeBytes (now + ttl)
  let sig := X.signDetached (relayGrantDomain ++ nonce ++ exp) sk
  X.base64Encode (nonce ++ exp ++ sig)

end Setup

end NemoServer
