import NemoServer.Integration.Permissions
import NemoServer.Management.ClientPolicy

/-!
# The policies an operator sees

The routes of the management API that answer with policies (`nemo_management.rs`): the peers with
their own, the global one, the named ones, and the permissions of the users with theirs. A secret
that is answered is masked where the route masks it (`maskSecretPolicy`); where a policy is saved,
a mask stands for the secret that is stored (`restoreMaskedSecretsFrom`). What a peer's answer says
of its statistics, its host name, its user and when it was created is left out.
-/

set_option autoImplicit false

namespace NemoServer

structure PeerRuntimeSnapshot where
  publicAddr : Option SocketAddr
  lastSeenMsAgo : ℕ
  online : Bool
  registeredIp : Option String
  status : Option ℤ
  deriving DecidableEq

/-! ## Operations -/

/-- What the routes ask of the peer map, the database and the configuration. -/
inductive AdminOp
  | getRegistered (id : String)
  | listRegistered (limit offset : ℕ)
  | setPeerManagementPolicy (id : String) (policy : Option String)
  | runtimeSnapshot (id : String)
  | companyOnly
  | peerEndpoint (id : String)
  | deviceKeyForPeer (peerId : String)
  | pendingClaimForPeer (peerId : String)
  | listDeviceKeys
  | globalPolicy
  | setGlobalPolicy (policy : ManagementPolicy)
  | listPolicies
  | listDevicePolicies
  | setPolicies (policies : Table String UserManagedPolicy)
  | setDevicePolicy (peerId : String) (policyName : Option String)
  | permissionsSnapshot
  | permissionsVersion
  | defaultTargets
  | requireLogin
  | defaultPolicyName
  | adminPolicy
  | updatePermissions (update : Integration.PermissionsUpdate)
  | setUserEnabled (username : String) (enabled : Bool) (displayName email : String)

/-- The answers; `none` from the database is an error. -/
@[reducible] def AdminOp.Res : AdminOp → Type
  | .getRegistered _ => Option (Option Row)
  | .listRegistered _ _ => Option (List Row)
  | .setPeerManagementPolicy _ _ => Option Bool
  | .runtimeSnapshot _ => Option PeerRuntimeSnapshot
  | .companyOnly => Bool
  | .peerEndpoint _ => String
  | .deviceKeyForPeer _ => Option DeviceKey
  | .pendingClaimForPeer _ => Option PendingDeviceKeyClaim
  | .listDeviceKeys => List DeviceKey
  | .globalPolicy => ManagementPolicy
  | .setGlobalPolicy _ => Unit
  | .listPolicies => Table String UserManagedPolicy
  | .listDevicePolicies => Table String String
  | .setPolicies _ => Unit
  | .setDevicePolicy _ _ => Unit
  | .permissionsSnapshot => Table String UserPermission
  | .permissionsVersion => ℕ
  | .defaultTargets => List String
  | .requireLogin => Bool
  | .defaultPolicyName => Option String
  | .adminPolicy => UserManagedPolicy
  | .updatePermissions _ => Except String (Table String UserPermission × ℕ)
  | .setUserEnabled _ _ _ _ => String × UserPermission × ℕ

abbrev AdminHandler := Prog AdminOp AdminOp.Res

namespace Integration

open Str

def deviceKeyForPeer (keys : List DeviceKey) (peerId : String) : Option DeviceKey :=
  if trim peerId = "" then none else keys.find? fun k => k.peerId == trim peerId

/-- A claim that waits goes before one that was denied. -/
def pendingClaimForPeer (claims : List PendingDeviceKeyClaim) (peerId : String) :
    Option PendingDeviceKeyClaim :=
  if trim peerId = "" then none
  else (claims.find? fun c => c.peerId == trim peerId && !c.denied) <|>
    claims.find? fun c => c.peerId == trim peerId

/-- Assignments of policies that are gone go with them. -/
def setPolicies (policies : Table String UserManagedPolicy) (cfg : IntegrationConfig) :
    IntegrationConfig :=
  { cfg with
    policies := policies
    devicePolicies := cfg.devicePolicies.retain fun _ name => (policies name).isSome }

/-- No name, or one that names no policy, clears the assignment. -/
def setDevicePolicy (peerId : String) (policyName : Option String) (cfg : IntegrationConfig) :
    IntegrationConfig :=
  if peerId = "" then cfg
  else match (policyName.map trim).filter fun n => n != "" && (cfg.policies n).isSome with
    | some name => { cfg with devicePolicies := cfg.devicePolicies.insert peerId name }
    | none => { cfg with devicePolicies := cfg.devicePolicies.remove peerId }

end Integration

namespace Server

/-- `PEER_ONLINE_TIMEOUT_MS`. -/
def peerOnlineTimeoutMs : ℕ := 30000

def runtimeSnapshot (s : Server) (id : String) : Option PeerRuntimeSnapshot :=
  (s.map id).map fun r =>
    let peer := s.cell r
    let elapsed := asMillis (s.now - peer.lastRegTime)
    { publicAddr := if peer.socketAddr.port = 0 then none else some peer.socketAddr
      lastSeenMsAgo := elapsed
      online := decide (elapsed < peerOnlineTimeoutMs)
      registeredIp := if peer.ip = "" then none else some peer.ip
      status := peer.status }

end Server

/-- A row as `registered_peer_from_row` has it. -/
def Database.registeredRow (X : Setup) (r : Row) : Row :=
  { r with
    status := r.status <|> X.nullInt
    note := r.note <|> X.nullText
    managementPolicy := r.managementPolicy <|> X.nullText }

open Database in
def AdminOp.sem (X : Setup) : (o : AdminOp) → Server → o.Res × Server
  | .getRegistered id, s =>
    (if s.dbUp then some ((getPeer s.db id).map (registeredRow X)) else none, s)
  | .listRegistered limit offset, s =>
    (if s.dbUp then
      some ((((s.db.mergeSort (listedBefore s.api.createdAt)).drop offset).take limit).map
        (registeredRow X))
      else none, s)
  | .setPeerManagementPolicy id policy, s =>
    s.query fun db => some (Database.setPeerManagementPolicy db id policy)
  | .runtimeSnapshot id, s => (s.runtimeSnapshot id, s)
  | .companyOnly, s => (s.companyOnly, s)
  | .peerEndpoint id, s => ((s.api.peerEndpoints.lookup id).getD "", s)
  | .deviceKeyForPeer peerId, s => (Integration.deviceKeyForPeer s.cfg.deviceKeys peerId, s)
  | .pendingClaimForPeer peerId, s =>
    (Integration.pendingClaimForPeer s.cfg.pendingDeviceKeyClaims peerId, s)
  | .listDeviceKeys, s => (s.cfg.deviceKeys, s)
  | .globalPolicy, s => (s.api.globalPolicy, s)
  | .setGlobalPolicy policy, s => ((), { s with api := { s.api with globalPolicy := policy } })
  | .listPolicies, s => (s.cfg.policies, s)
  | .listDevicePolicies, s => (s.cfg.devicePolicies, s)
  | .setPolicies policies, s => ((), { s with cfg := Integration.setPolicies policies s.cfg })
  | .setDevicePolicy peerId policyName, s =>
    ((), { s with cfg := Integration.setDevicePolicy peerId policyName s.cfg })
  | .permissionsSnapshot, s => (s.cfg.permissions, s)
  | .permissionsVersion, s => (s.cfg.permissionsVersion, s)
  | .defaultTargets, s => (s.cfg.defaultTargets, s)
  | .requireLogin, s => (s.cfg.requireLogin, s)
  | .defaultPolicyName, s => (s.cfg.defaultPolicyName, s)
  | .adminPolicy, s => (s.cfg.adminPolicy, s)
  | .updatePermissions update, s =>
    match Integration.updatePermissions X update s.cfg with
    | .ok cfg => (.ok (cfg.permissions, cfg.permissionsVersion), { s with cfg := cfg })
    | .error e => (.error e, s)
  | .setUserEnabled username enabled displayName email, s =>
    let (entry, cfg) := Integration.setUserEnabled X username enabled displayName email s.cfg
    ((entry.1, entry.2, cfg.permissionsVersion), { s with cfg := cfg })

/-- Perform one operation. -/
abbrev admin (o : AdminOp) : AdminHandler o.Res := Prog.op o

/-! ## Answers -/

structure PeerResponse where
  id : String
  guid : ℕ
  uuid : String
  publicKey : String
  note : Option String
  status : Option ℤ
  policy : String
  allowedForControl : Bool
  managementPolicy : ManagementPolicy
  registeredIp : Option String
  runtime : Option PeerRuntimeSnapshot
  deviceKey : Option DeviceKey
  pendingClaim : Option PendingDeviceKeyClaim
  /-- The label of the key that is claimed. -/
  pendingClaimKeyLabel : String
  directEndpoint : String

structure PeerBrief where
  id : String
  /-- The field `alias`. -/
  aliasName : String
  online : Bool
  deriving DecidableEq

structure PermissionsResponse where
  permissions : Table String UserPermission
  permissionsVersion : ℕ
  defaultTargets : List String
  requireLogin : Bool
  defaultPolicyName : Option String
  adminPolicy : UserManagedPolicy
  peers : List PeerBrief

structure PermissionsPutResponse where
  permissions : Table String UserPermission
  permissionsVersion : ℕ

structure SetLdapUserResponse where
  success : Bool
  username : String
  key : String
  permission : UserPermission
  permissionsVersion : ℕ

inductive PolicyResponse
  | peers (limit offset : ℕ) (companyOnly : Bool) (peers : List PeerResponse)
  | peer (peer : PeerResponse)
  | managementPolicy (id : String) (policy : ManagementPolicy)
  | globalPolicy (policy : ManagementPolicy)
  | policies (policies : Table String UserManagedPolicy) (devicePolicies : Table String String)
  | permissions (response : PermissionsResponse)
  | permissionsPut (response : PermissionsPutResponse)
  | ldapUser (response : Option SetLdapUserResponse)

namespace Management

open Str

variable (X : Setup) (policyToJson : ManagementPolicy → String)

/-! ## Masks -/

/-- `MANAGED_SECRET_MASK`. -/
def managedSecretMask : String := "<managed-secret>"

/-- Mask the value under a key, unless it is empty. -/
def maskOption (key : String) (options : List (String × String)) : List (String × String) :=
  options.map fun o => if o.1 = key ∧ o.2 ≠ "" then (o.1, managedSecretMask) else o

def maskSecretPolicy (policy : ManagementPolicy) : ManagementPolicy :=
  withOptions policy fun options => secretPolicyKeys.foldl (fun os key => maskOption key os) options

/-- A mask under a key becomes the current value. -/
def restoreOption (current : ManagementPolicy) (options : List (String × String)) (key : String) :
    List (String × String) :=
  if options.lookup key = some managedSecretMask then
    match current.options.lookup key with
    | some v => insertOption key v options
    | none => removeOption key options
  else options

def restoreMaskedSecretsFrom (policy current : ManagementPolicy) : ManagementPolicy :=
  withOptions policy fun options => secretPolicyKeys.foldl (restoreOption current) options

def restoreMaskedSecrets (policy : ManagementPolicy) (existing : Option String) :
    ManagementPolicy :=
  restoreMaskedSecretsFrom policy (managementPolicyFromPeer X existing)

/-- A policy without options is stored as none. -/
def serializeManagementPolicy (policy : ManagementPolicy) : Option String :=
  if policy.options = [] then none else some (policyToJson policy)

/-! ## A peer -/

def policyLabel (status : Option ℤ) : AdminHandler String := do
  if status = some 0 then pure "blocked"
  else if status = some 1 then pure "allowed"
  else pure (if ← admin .companyOnly then "unapproved" else "open")

def allowedForStatus (status : Option ℤ) : AdminHandler Bool := do
  if status = some 0 then pure false
  else if status = some 1 then pure true
  else pure !(← admin .companyOnly)

def peerResponse (peer : Row) : AdminHandler PeerResponse := do
  let runtime ← admin (.runtimeSnapshot peer.id)
  let info := (X.infoOfJson peer.info).getD ""
  let status := runtime.bind (·.status) <|> peer.status
  let registeredIp := runtime.bind (·.registeredIp) <|> if info = "" then none else some info
  let deviceKey ← admin (.deviceKeyForPeer peer.id)
  let pending ← admin (.pendingClaimForPeer peer.id)
  let policy ← policyLabel status
  let allowed ← allowedForStatus status
  let keys ← admin .listDeviceKeys
  let label := (pending.bind fun c => (keys.find? fun k => k.publicKey == c.publicKey).map
    (·.label)).getD ""
  let endpoint ← admin (.peerEndpoint peer.id)
  pure {
    id := peer.id
    guid := peer.guid
    uuid := X.base64Encode peer.uuid
    publicKey := X.base64Encode peer.pk
    note := peer.note
    status := status
    policy := policy
    allowedForControl := allowed
    managementPolicy := maskSecretPolicy (managementPolicyFromPeer X peer.managementPolicy)
    registeredIp := registeredIp
    runtime := runtime
    deviceKey := deviceKey
    pendingClaim := pending
    pendingClaimKeyLabel := label
    directEndpoint := endpoint }

def peerResponses : List Row → AdminHandler (List PeerResponse)
  | [] => pure []
  | peer :: peers => do
    let response ← peerResponse X peer
    let responses ← peerResponses peers
    pure (response :: responses)

def peerAlias (peer : Row) : String :=
  ((managementPolicyFromPeer X peer.managementPolicy).options.lookup "nemo-alias").getD ""

def peerBriefs : List Row → AdminHandler (List PeerBrief)
  | [] => pure []
  | peer :: peers => do
    let runtime ← admin (.runtimeSnapshot peer.id)
    let briefs ← peerBriefs peers
    pure (⟨peer.id, peerAlias X peer, (runtime.map (·.online)).getD false⟩ :: briefs)

/-! ## The routes -/

def dbFailure : ApiFailure := ⟨500, X.dbError⟩

def peerNotFound : ApiFailure := ⟨404, "peer not found"⟩

def listPeers (limit offset : Option ℕ) :
    AdminHandler (Except ApiFailure PolicyResponse) := do
  let limit := min (max (limit.getD 100) 1) 1000
  let offset := offset.getD 0
  match ← admin (.listRegistered limit offset) with
  | none => pure (.error (dbFailure X))
  | some peers =>
    let responses ← peerResponses X peers
    let companyOnly ← admin .companyOnly
    pure (.ok (.peers limit offset companyOnly responses))

def getPeer (id : String) :
    AdminHandler (Except ApiFailure PolicyResponse) := do
  match ← admin (.getRegistered id) with
  | none => pure (.error (dbFailure X))
  | some none => pure (.error peerNotFound)
  | some (some peer) =>
    let response ← peerResponse X peer
    pure (.ok (.peer response))

def getPeerManagementPolicy (id : String) : AdminHandler (Except ApiFailure PolicyResponse) := do
  match ← admin (.getRegistered id) with
  | none => pure (.error (dbFailure X))
  | some none => pure (.error peerNotFound)
  | some (some peer) =>
    pure (.ok (.managementPolicy peer.id (managementPolicyFromPeer X peer.managementPolicy)))

def updatePeerManagementPolicy (id : String) (request : ManagementPolicy) :
    AdminHandler (Except ApiFailure PolicyResponse) := do
  let policy := sanitizeManagementPolicy X request
  match ← admin (.getRegistered id) with
  | none => pure (.error (dbFailure X))
  | some existing =>
    let policy := restoreMaskedSecrets X policy (existing.bind (·.managementPolicy))
    match ← admin (.setPeerManagementPolicy id (serializeManagementPolicy policyToJson policy)) with
    | none => pure (.error (dbFailure X))
    | some false => pure (.error peerNotFound)
    | some true => pure (.ok (.managementPolicy id policy))

def getGlobalPolicy : AdminHandler (Except ApiFailure PolicyResponse) := do
  let policy ← admin .globalPolicy
  pure (.ok (.globalPolicy (maskSecretPolicy policy)))

def putGlobalPolicy (request : ManagementPolicy) :
    AdminHandler (Except ApiFailure PolicyResponse) := do
  let policy := sanitizeManagementPolicy X request
  let current ← admin .globalPolicy
  let policy := restoreMaskedSecretsFrom policy current
  admin (.setGlobalPolicy policy)
  pure (.ok (.globalPolicy (maskSecretPolicy policy)))

def policiesResponse : AdminHandler PolicyResponse := do
  let policies ← admin .listPolicies
  let devicePolicies ← admin .listDevicePolicies
  pure (.policies policies devicePolicies)

def getPolicies : AdminHandler (Except ApiFailure PolicyResponse) := do
  pure (.ok (← policiesResponse))

def putPolicies (policies : Table String UserManagedPolicy) :
    AdminHandler (Except ApiFailure PolicyResponse) := do
  admin (.setPolicies policies)
  pure (.ok (← policiesResponse))

def setDevicePolicyRoute (peerId : String) (policyName : Option String) :
    AdminHandler (Except ApiFailure PolicyResponse) := do
  admin (.setDevicePolicy (trim peerId) policyName)
  pure (.ok (← policiesResponse))

def getPermissions : AdminHandler (Except ApiFailure PolicyResponse) := do
  match ← admin (.listRegistered 1000 0) with
  | none => pure (.error (dbFailure X))
  | some peers =>
    let briefs ← peerBriefs X peers
    let permissions ← admin .permissionsSnapshot
    let version ← admin .permissionsVersion
    let targets ← admin .defaultTargets
    let login ← admin .requireLogin
    let policyName ← admin .defaultPolicyName
    let adminPolicy ← admin .adminPolicy
    pure (.ok (.permissions ⟨permissions, version, targets, login, policyName, adminPolicy, briefs⟩))

def putPermissions (update : Integration.PermissionsUpdate) :
    AdminHandler (Except ApiFailure PolicyResponse) := do
  match ← admin (.updatePermissions update) with
  | .ok (permissions, version) => pure (.ok (.permissionsPut ⟨permissions, version⟩))
  | .error e => pure (.error ⟨409, "Conflict: " ++ e⟩)

/-- Switch a directory user on or off; the answer has the user's entry. -/
def setLdapUser (username : String) (enabled : Bool) (displayName email : String) :
    AdminHandler (Except ApiFailure PolicyResponse) := do
  if trim username = "" then pure (.ok (.ldapUser none))
  else
    let (key, permission, version) ←
      admin (.setUserEnabled (trim username) enabled (trim displayName) (trim email))
    pure (.ok (.ldapUser (some ⟨true, trim username, key, permission, version⟩)))

/-- The headers of a request; the presented tokens. -/
structure AdminHeaders where
  authorization : Option String
  nemoToken : Option String

/-- The token of the API has to be presented, in one header or the other. -/
def requireAuth (headers : AdminHeaders) (token : Option String) : Except ApiFailure Unit :=
  match token with
  | none => .error ⟨401, "management API token not configured"⟩
  | some token =>
    if headers.authorization = some ("Bearer " ++ token) ∨ headers.nemoToken = some token then .ok ()
    else .error ⟨401, "unauthorized"⟩

/-- The requests that are answered with policies. -/
inductive PolicyRoute
  | listPeers (limit offset : Option ℕ)
  | getPeer (id : String)
  | getPeerManagementPolicy (id : String)
  | updatePeerManagementPolicy (id : String) (request : ManagementPolicy)
  | getGlobalPolicy
  | putGlobalPolicy (request : ManagementPolicy)
  | getPolicies
  | putPolicies (policies : Table String UserManagedPolicy)
  | setDevicePolicy (peerId : String) (policyName : Option String)
  | getPermissions
  | putPermissions (update : Integration.PermissionsUpdate)
  | setLdapUser (username : String) (enabled : Bool) (displayName email : String)

def PolicyRoute.handle :
    PolicyRoute → AdminHandler (Except ApiFailure PolicyResponse)
  | .listPeers limit offset => Management.listPeers X limit offset
  | .getPeer id => Management.getPeer X id
  | .getPeerManagementPolicy id => Management.getPeerManagementPolicy X id
  | .updatePeerManagementPolicy id request =>
    Management.updatePeerManagementPolicy X policyToJson id request
  | .getGlobalPolicy => Management.getGlobalPolicy
  | .putGlobalPolicy request => Management.putGlobalPolicy X request
  | .getPolicies => Management.getPolicies
  | .putPolicies policies => Management.putPolicies policies
  | .setDevicePolicy peerId policyName => setDevicePolicyRoute peerId policyName
  | .getPermissions => Management.getPermissions X
  | .putPermissions update => Management.putPermissions update
  | .setLdapUser username enabled displayName email =>
    Management.setLdapUser username enabled displayName email

def adminRequest (headers : AdminHeaders) (token : Option String)
    (route : PolicyRoute) : AdminHandler (Except ApiFailure PolicyResponse) :=
  match requireAuth headers token with
  | .error e => pure (.error e)
  | .ok () => route.handle X policyToJson

end Management

end NemoServer
