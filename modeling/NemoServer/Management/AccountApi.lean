import NemoServer.Foundations.Interleave
import NemoServer.Management.AccountServer
import NemoServer.Management.ClientPolicy
import NemoServer.Management.RelayUsage
import NemoServer.Std.Utf8

/-!
# The account API

What a client asks with the name of a user (`nemo_management.rs`): the login, its end, who the user
is, and the address book. A login is checked before the directory is asked; what a client sends may
be sealed, and is then all that counts; an address book has the machines its user may reach, and
goes to the machine the user signed in from. `accounts` is the system of these requests, whatever
else happens in the process.
-/

set_option autoImplicit false

namespace NemoServer

/-! ## What is sent -/

/-- The body of a login, but for what is only logged. -/
structure LoginRequest where
  username : String
  password : String
  sealed : Option String
  id : String

/-- A credential as it is sealed to the key of logins. -/
structure SealedLogin where
  username : String
  password : String
  ts : ℕ
  nonce : String
  replyPk : String
  deviceKeyPub : String
  deviceKeySig : String

/-- A request for an address book, with the kind of seal it asks for. -/
structure AbGetBody extends AbGetRequest where
  sealed : Option String

instance : Inhabited AbGetBody := ⟨⟨⟨"", "", ""⟩, none⟩⟩

namespace Management

open Str

/-! ## Reading -/

/-- A field without a default. -/
def requireField {α : Type} (members : List (String × Json)) (name : String)
    (read : Json → Option α) : Option α :=
  match members.filter fun m => m.1 == name with
  | [m] => read m.2
  | _ => none

/-- `Option<String>`. -/
def readOptString : Json → Option (Option String)
  | .null => some none
  | .str s => some (some s)
  | _ => none

def SealedLogin.ofJson : Json → Option SealedLogin
  | .obj members => do
    let username ← requireField members "username" readString
    let password ← requireField members "password" readString
    let ts ← readField members "ts" readU64 0
    let nonce ← readField members "nonce" readString ""
    let replyPk ← readField members "reply_pk" readString ""
    let deviceKeyPub ← readField members "device_key_pub" readString ""
    let deviceKeySig ← readField members "device_key_sig" readString ""
    some { username, password, ts, nonce, replyPk, deviceKeyPub, deviceKeySig }
  | .arr items => do
    let username ← items[0]? >>= readString
    let password ← items[1]? >>= readString
    let ts ← readItem items 2 readU64 0
    let nonce ← readItem items 3 readString ""
    let replyPk ← readItem items 4 readString ""
    let deviceKeyPub ← readItem items 5 readString ""
    let deviceKeySig ← readItem items 6 readString ""
    if items.length ≤ 7 then
      some { username, password, ts, nonce, replyPk, deviceKeyPub, deviceKeySig }
    else none
  | _ => none

/-- `Value::get`: of several members of a name the last counts. -/
def member (j : Json) (name : String) : Option Json :=
  match j with
  | .obj members => members.reverse.lookup name
  | _ => none

/-- A field of a `Value`. -/
def readMember {α : Type} (j : Json) (name : String) (read : Json → Option α) (default : α) :
    Option α :=
  match member j name with
  | none => some default
  | some v => read v

/-- `serde_json::from_value(raw).unwrap_or_default()`. -/
def AbGetBody.ofJson (raw : Json) : AbGetBody :=
  (match raw with
  | .obj _ => do
    let sealed ← readMember raw "sealed" readOptString none
    let id ← readMember raw "id" readString ""
    let deviceKeyPub ← readMember raw "device_key_pub" readString ""
    let deviceKeySig ← readMember raw "device_key_sig" readString ""
    some { sealed, id, deviceKeyPub, deviceKeySig : AbGetBody }
  | .arr items => do
    let sealed ← readItem items 0 readOptString none
    let id ← readItem items 1 readString ""
    let deviceKeyPub ← readItem items 2 readString ""
    let deviceKeySig ← readItem items 3 readString ""
    if items.length ≤ 4 then some { sealed, id, deviceKeyPub, deviceKeySig : AbGetBody } else none
  | _ => none).getD default

/-- `serde_json::from_slice`. -/
def readBytes (plain : Bytes) : Option Json := (fromUtf8 plain).bind Json.read

def bearerToken (authorization : Option String) : Option String :=
  ((authorization.bind fun v => stripPrefix "Bearer ".toList v.toList).map fun rest =>
    trim (String.ofList rest)).filter (· != "")

variable (A : AccountSetup)

/-! ## Sealed requests -/

def maxSealedRequestB64 : ℕ := 16 * 1024

/-- Open what is sealed to the management key. -/
def openSealedToMgmtKey (sealedB64 : String) : Option Bytes := do
  let sk ← A.sk
  let curveSk ← A.toCurve25519Sk sk
  let pkBytes ← A.base64Decode (trim A.serverPublicKey)
  let pk ← A.publicKeyOfSlice pkBytes
  let curvePk ← A.toCurve25519Pk pk
  let ciphertext ← A.base64Decode (trim sealedB64)
  A.openBox ciphertext curvePk curveSk

/-- Seal to the key of a device; the caller fails if that fails. -/
def sealToDeviceKey (pubB64 : String) (data : Bytes) : Option String := do
  let pkBytes ← A.base64Decode (trim pubB64)
  let pk ← A.publicKeyOfSlice pkBytes
  let curvePk ← A.toCurve25519Pk pk
  some (A.base64Encode (A.sealBox data curvePk))

/-- What is done with a body that has no envelope. -/
def unsealedRequestBody (body : Json) (requireSealed : Bool) : Except String Json :=
  if requireSealed then
    .error "this server requires an encrypted request; please update TBFDesk on this computer"
  else .ok body

/-- The body of a request: what its envelope has, if it has one. -/
def resolveRequestBody (body : Json) : AccountHandler (Except String Json) := do
  let sealed := trim (((member body "sealed_request").bind readString).getD "")
  if sealed = "" then
    let requireSealed ← account .requireSealedRequest
    pure (unsealedRequestBody body requireSealed)
  else if maxSealedRequestB64 < sealed.utf8ByteSize then
    pure (.error "sealed request envelope is too large")
  else
    match openSealedToMgmtKey A sealed with
    | none => pure (.error "sealed request could not be opened (wrong management key?)")
    | some plain =>
      match readBytes plain with
      | none => pure (.error "invalid sealed request payload")
      | some inner =>
        -- a timestamp that is missing or not a number is 0, and refused
        let ts := ((member inner "ts").bind readU64).getD 0
        let nonce := ((member inner "nonce").bind readString).getD ""
        let checked ← account (.sealedRequestGuard ts nonce)
        pure (checked.map fun () => inner)

/-! ## Logins -/

def LoginReply.err (message : String) : LoginReply := ⟨none, none, none, none, some message⟩

/-- The credential of a sealed login that is accepted, and the key the token is to be sealed to. -/
def openedLogin (s : SealedLogin) : Except String (OpenedLogin × Option PublicKey) :=
  let opened : OpenedLogin :=
    ⟨trim s.username, s.password, trim s.deviceKeyPub, trim s.deviceKeySig⟩
  if trim s.replyPk = "" then .ok (opened, none)
  else match (A.base64Decode (trim s.replyPk)).bind A.boxPublicKeyOfSlice with
    | some pk => .ok (opened, some pk)
    | none => .error "invalid reply key in sealed credential"

def decodeSealedLogin (sealedB64 : String) :
    AccountHandler (Except String (OpenedLogin × Option PublicKey)) := do
  match A.base64Decode (trim sealedB64) with
  | none => pure (.error "invalid sealed credential")
  | some ciphertext =>
    let keys ← account .loginEncKeys
    match A.openBox ciphertext keys.1 keys.2 with
    | none => pure (.error
        "sealed credential could not be opened (stale login key? re-fetch /api/login-key)")
    | some plain =>
      match (readBytes plain).bind SealedLogin.ofJson with
      | none => pure (.error "invalid sealed credential payload")
      | some s =>
        let checked ← account (.sealedLoginGuard s.ts s.nonce)
        pure (checked.bind fun () => openedLogin A s)

def sealedLoginRequired : String :=
  "This server only accepts encrypted logins. This TBFDesk client is too old to encrypt your " ++
    "password - please update it (or ask your administrator to) and sign in again."

/-- The credential of a login, sealed or plain. -/
def openLogin (req : LoginRequest) :
    AccountHandler (Except String (OpenedLogin × Option PublicKey)) := do
  match req.sealed.filter fun sealed => trim sealed != "" with
  | some sealed => decodeSealedLogin A sealed
  | none =>
    let requireSealed ← account .requireSealedLogin
    pure (if requireSealed then .error sealedLoginRequired
      else .ok (⟨trim req.username, req.password, "", ""⟩, none))

def loginDeviceKeyRequired : String :=
  "This server only accepts sign-ins from a provisioned computer. Import the device key your " ++
    "administrator issued for this computer (or ask your administrator for one) and sign in again."

/-- The key that proved a login, empty if none did; the flag is read only then. -/
def provenDeviceKey (opened : OpenedLogin) (id : String) :
    AccountHandler (Except String String) := do
  if ← onHbbs (loginDeviceKeyOk A.toSetup opened (trim id)) then pure (.ok opened.deviceKeyPub)
  else if ← account (.hbbs .requireDeviceKey) then pure (.error loginDeviceKeyRequired)
  else pure (.ok "")

/-- A failed login is counted, and answered after the backoff. -/
def loginFailed (sourceIp : Option String) (username reason : String) :
    AccountHandler LoginReply := do
  account (.noteLoginSpray sourceIp username)
  let _ ← account (.noteLoginFailure username)
  pure (LoginReply.err reason)

/-- The token goes out in the clear only if there is no key to seal it to. -/
def loginAnswer (user : LdapUser) (isAdmin : Bool) (token : String) (replyPk : Option PublicKey) :
    LoginReply :=
  { accessToken := if replyPk.isSome then none else some token
    sealedAccessToken := replyPk.map fun pk => A.base64Encode (A.sealBox token.toUTF8.toList pk)
    kind := some "access_token"
    user := some ⟨user.username, user.displayName, user.email, "", 1, isAdmin⟩
    error := none }

/-- A login the directory has confirmed. -/
def loginConfirmed (user : LdapUser) (provenKey : String) (replyPk : Option PublicKey) :
    AccountHandler LoginReply := do
  account (.clearLoginFailures user.username)
  let recorded ← account (.recordLogin user.username user.displayName user.email)
  if (← account (.hbbs .requireLogin)) && !recorded.2.1 then
    pure (LoginReply.err
      "Your account is not authorized to use TBFDesk. Contact your administrator.")
  else
    let token ← account (.createSession user.username user.displayName user.email provenKey)
    pure (loginAnswer A user recorded.2.2 token replyPk)

/-- A login that is let through to the directory. -/
def askDirectory (sourceIp : Option String) (username password provenKey : String)
    (replyPk : Option PublicKey) : AccountHandler LoginReply := do
  let cfg ← account .ldapConfig
  match ← account (.authenticateLdap cfg username password) with
  | .ok user => loginConfirmed A user provenKey replyPk
  | .error reason => loginFailed sourceIp username reason

def apiLogin (sourceIp : Option String) (req : LoginRequest) : AccountHandler LoginReply := do
  match ← openLogin A req with
  | .error e => pure (LoginReply.err e)
  | .ok (opened, replyPk) =>
    match ← provenDeviceKey A opened req.id with
    | .error e => pure (LoginReply.err e)
    | .ok provenKey =>
      if opened.username = "" ∨ opened.password = "" then
        pure (LoginReply.err "Username and password required")
      else
        match ← account (.loginSprayBlock sourceIp) with
        | some reason => pure (LoginReply.err reason)
        | none => askDirectory A sourceIp opened.username opened.password provenKey replyPk

/-! ## Sessions -/

def apiLogout (authorization : Option String) : AccountHandler Unit := do
  match bearerToken authorization with
  | some token => account (.removeSession token)
  | none => pure ()

/-- `{ "error": "Invalid token" }`. -/
def invalidToken : Json := .obj [("error", .str "Invalid token")]

def currentUserJson (session : Session) (isAdmin : Bool) : Json :=
  .obj [("name", .str session.username), ("display_name", .str session.displayName),
    ("email", .str session.email), ("note", .str ""), ("status", .number (Json.Number.nat 1)),
    ("is_admin", .bool isAdmin), ("verifier", .str "")]

def apiCurrentUser (authorization : Option String) : AccountHandler Json := do
  match bearerToken authorization with
  | none => pure invalidToken
  | some token =>
    match ← account (.hbbs (.sessionForToken token)) with
    | none => pure invalidToken
    | some session =>
      if ← account (.hbbs (.userIsEnabled session.username)) then
        let permission ← account (.hbbs (.effectivePermission session.username))
        pure (currentUserJson session permission.1)
      else pure invalidToken

/-! ## The address book -/

end Management

structure AbPeer where
  id : String
  username : String
  hostname : String
  platform : String
  /-- The field `alias`. -/
  aliasName : String
  tags : List String
  deriving DecidableEq

namespace Management

open Str

variable (A : AccountSetup)

def AbPeer.toJson (p : AbPeer) : Json :=
  .obj [("id", .str p.id), ("username", .str p.username), ("hostname", .str p.hostname),
    ("platform", .str p.platform), ("alias", .str p.aliasName), ("tags", .arr (p.tags.map .str))]

/-- The text of an `AbData`. -/
def abDataText (peers : List AbPeer) : String :=
  String.ofList (Json.write (.obj [("tags", .arr []), ("peers", .arr (peers.map AbPeer.toJson))]))

def AbResult.err (message : String) : AbResult := ⟨none, none, none, some message⟩

/-- The token of a request: the one its body has comes first. -/
def requestToken (raw : Json) (authorization : Option String) : Option String :=
  match (((member raw "access_token").bind readString).map trim).filter (· != "") with
  | some t => some t
  | none => bearerToken authorization

def abPeer (peer : RegisteredPeer) (hostname : String) : AbPeer :=
  ⟨peer.id, "", hostname, "",
    ((managementPolicyFromPeer A.toSetup peer.managementPolicy).options.lookup "nemo-alias").getD "",
    []⟩

/-- The peers the user may reach, each with the name it last reported. -/
def abPeers (isAdmin : Bool) (allowedTargets : List String) :
    List RegisteredPeer → AccountHandler (List AbPeer)
  | [] => pure []
  | peer :: peers => do
    if Integration.userAllowedTarget isAdmin allowedTargets peer.id then
      let hostname ← account (.peerHostname peer.id)
      let rest ← abPeers isAdmin allowedTargets peers
      pure (abPeer A peer hostname :: rest)
    else abPeers isAdmin allowedTargets peers

/-- Sign the book and seal it to the key of the device, or send it as it is. -/
def sendAddressBook (sealTo : Option String) (data : String) : AccountHandler AbResult := do
  match sealTo with
  | none =>
    let now ← account (.hbbs .wallClock)
    pure ⟨some now, some data, none, none⟩
  | some pub =>
    match A.sk with
    | none => pure (AbResult.err "server has no signing key; cannot seal the address book")
    | some sk =>
      match sealToDeviceKey A pub (A.sign data.toUTF8.toList sk) with
      | none => pure (AbResult.err "could not seal the address book to the device key")
      | some sealedData =>
        let now ← account (.hbbs .wallClock)
        pure ⟨some now, none, some sealedData, none⟩

/-- The address book of a session, once its token is known to be spent rightly. -/
def addressBookOf (session : Session) (sealTo : Option String) : AccountHandler AbResult := do
  match ← account (.hbbs (.dbListRegistered 1000 0)) with
  | none => pure (AbResult.err A.dbError)
  | some peers =>
    let permission ← account (.hbbs (.effectivePermission session.username))
    let listed ← abPeers A permission.1 permission.2 peers
    sendAddressBook A sealTo (abDataText listed)

/-- The gates behind the token. -/
def abGetSession (req : AbGetBody) (session : Session) : AccountHandler AbResult := do
  let deviceKeyOk ← onHbbs (abDeviceKeyOk A.toSetup req.toAbGetRequest)
  if (← account (.hbbs .requireDeviceKey)) && !deviceKeyOk then
    pure (AbResult.err "a provisioned device key is required")
  else if !sessionDeviceBindingOk session.deviceKeyPub
      (if deviceKeyOk then some req.deviceKeyPub else none) then
    pure (AbResult.err
      "this sign-in is bound to another computer; sign in again from this one")
  else if ← account (.hbbs (.userIsEnabled session.username)) then
    addressBookOf A session
      (if deviceKeyOk && req.sealed == some "v1" then some req.deviceKeyPub else none)
  else pure (AbResult.err "Invalid token")

def apiAbGet (authorization : Option String) (body : Option Json) : AccountHandler AbResult := do
  match ← resolveRequestBody A (body.getD (.obj [])) with
  | .error e => pure (AbResult.err e)
  | .ok raw =>
    match requestToken raw authorization with
    | none => pure (AbResult.err "Invalid token")
    | some token =>
      match ← account (.hbbs (.sessionForToken token)) with
      | none => pure (AbResult.err "Invalid token")
      | some session => abGetSession A (AbGetBody.ofJson raw) session

end Management

/-! ## The system -/

/-- A request; the headers are the text of `Authorization`. -/
inductive AccountRequest
  | login (sourceIp : Option String) (req : LoginRequest)
  | logout (authorization : Option String)
  | currentUser (authorization : Option String)
  | abGet (authorization : Option String) (body : Option Json)

namespace AccountRequest

variable (A : AccountSetup)

def handle : AccountRequest → AccountHandler AccountReply
  | .login sourceIp req => do pure (.login (← Management.apiLogin A sourceIp req))
  | .logout authorization => do
    Management.apiLogout authorization
    pure .logout
  | .currentUser authorization => do
    pure (.currentUser (← Management.apiCurrentUser authorization))
  | .abGet authorization body => do pure (.abGet (← Management.apiAbGet A authorization body))

/-- Handle the request and answer it. -/
def code (r : AccountRequest) : AccountHandler Unit := do
  let reply ← r.handle A
  account (.reply reply)

end AccountRequest

/-- The account API, in a process that does whatever else it does. -/
def accounts (A : AccountSetup) :
    System AccountOp AccountOp.Res AccountServer AccountRequest AccountEvent where
  sem := AccountOp.sem A
  code := AccountRequest.code A
  start _ s := some s
  env := AccountServer.act A
  reboot := AccountServer.reboot

/-- A server without sessions, in memory or on file. -/
def AccountServer.Fresh (s : AccountServer) : Prop := s.store = ⟨∅, none⟩

abbrev AccountItem := Item AccountOp AccountServer AccountRequest AccountEvent
abbrev AccountPool := Pool AccountOp AccountOp.Res AccountServer AccountRequest
abbrev AccountPast := List (Call AccountOp AccountServer)

end NemoServer
