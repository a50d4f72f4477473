import NemoServer.Management.DeviceProof
import NemoServer.Management.Gates

/-!
# The policy of a client

What a client gets when it polls (`client_policy` of `nemo_management.rs`): the policy of its user,
or of the device where nobody is signed in, over the global defaults; with the flags every client
must learn, the blocked ids, the keys of the peers and the direct endpoints this controller may
dial. `composePolicy` is the composition, `clientPolicy` the endpoint around it.
-/

set_option autoImplicit false

namespace NemoServer

structure ApiFailure where
  status : ℕ
  message : String
  deriving DecidableEq

/-- What the policy tells about other peers. -/
structure PolicyLists where
  blocked : List String
  /-- Ids with their identity keys. -/
  peerKeys : List (String × Bytes)
  /-- Ids with their direct addresses. -/
  endpoints : List (String × String)

/-- A composed policy, with what it was composed of. -/
structure Composed where
  peer : RegisteredPeer
  lists : PolicyLists
  policy : ManagementPolicy
  /-- The answer is to be sealed to the key of the device. -/
  sealThis : Bool

structure ClientPolicyPayload where
  id : String
  issuedAt : String
  issuedTs : ℕ
  terminateSessionsBefore : ℕ
  policy : ManagementPolicy

structure ClientPolicyResponse where
  signedPayload : String
  payload : Option ClientPolicyPayload
  sealedPayload : Option String

namespace Management

open Str

variable (X : Setup)

/-! ## Options -/

/-- `HashMap::insert`. -/
def insertOption (key value : String) (options : List (String × String)) :
    List (String × String) :=
  (key, value) :: options.filter fun o => o.1 != key

/-- `HashMap::remove`. -/
def removeOption (key : String) (options : List (String × String)) : List (String × String) :=
  options.filter fun o => o.1 != key

/-- `HashMap::entry(..).or_insert(..)`. -/
def orInsertOption (key value : String) (options : List (String × String)) :
    List (String × String) :=
  if (options.lookup key).isSome then options else insertOption key value options

/-- `HashMap::extend`. -/
def extendOptions (options more : List (String × String)) : List (String × String) :=
  more.foldl (fun options o => insertOption o.1 o.2 options) options

/-- Change the options of a policy. -/
def withOptions (policy : ManagementPolicy)
    (f : List (String × String) → List (String × String)) : ManagementPolicy :=
  { policy with options := f policy.options }

def secretPolicyKeys : List String :=
  ["nemo-permanent-password", "default-connect-password", "proxy-password",
    "preset-address-book-password", "nemo-knock-key", "nemo-knock-hmac-key"]

def stripSecretOptions (policy : ManagementPolicy) : ManagementPolicy :=
  withOptions policy fun options => secretPolicyKeys.foldl (fun os key => removeOption key os) options

def applyApiTlsDefaults (options : List (String × String)) (info : Option TlsCertInfo) :
    List (String × String) :=
  match info with
  | none => options
  | some info =>
    if info.mode = "self-signed" ∧ info.fingerprint ≠ "" then
      orInsertOption "nemo-api-cert-fingerprint" info.fingerprint options
    else if info.mode = "provided" then
      orInsertOption "allow-insecure-tls-fallback" "N" options
    else options

theorem lookup_removeOption {key key' : String} (h : key' ≠ key)
    (options : List (String × String)) :
    (removeOption key options).lookup key' = options.lookup key' := by
  induction options with
  | nil => rfl
  | cons o options ih =>
    unfold removeOption at *
    by_cases ho : o.1 = key
    · rw [List.filter_cons_of_neg (by simp [ho]), ih, List.lookup_cons]
      have hne : (key' == o.1) = false := by simp [ho, h]
      simp [hne]
    · rw [List.filter_cons_of_pos (by simp [ho]), List.lookup_cons, List.lookup_cons, ih]

@[simp] theorem lookup_insertOption_self (key value : String) (options : List (String × String)) :
    (insertOption key value options).lookup key = some value := by
  simp [insertOption]

theorem lookup_insertOption {key key' : String} (h : key' ≠ key) (value : String)
    (options : List (String × String)) :
    (insertOption key value options).lookup key' = options.lookup key' := by
  have hne : (key' == key) = false := by simp [h]
  have hrest := lookup_removeOption h options
  unfold removeOption at hrest
  simp [insertOption, List.lookup_cons, hne, hrest]

theorem lookup_orInsertOption {key key' : String} (h : key' ≠ key) (value : String)
    (options : List (String × String)) :
    (orInsertOption key value options).lookup key' = options.lookup key' := by
  unfold orInsertOption
  split
  · rfl
  · exact lookup_insertOption h value options

theorem lookup_stripSecretOptions {key : String} (h : key ∉ secretPolicyKeys)
    (policy : ManagementPolicy) :
    (stripSecretOptions policy).options.lookup key = policy.options.lookup key := by
  unfold stripSecretOptions withOptions
  simp only
  generalize policy.options = options
  generalize secretPolicyKeys = keys at h
  induction keys generalizing options with
  | nil => rfl
  | cons k keys ih =>
    rw [List.foldl_cons, ih _ fun hk => h (List.mem_cons_of_mem _ hk)]
    have hne : key ≠ k := by
      rintro rfl
      exact h List.mem_cons_self
    exact lookup_removeOption hne options

/-! ## What the policy tells about other peers -/

/-- How many peers the lists of a policy may cover. -/
def registeredLimit : ℕ := 100000

/-- The status of a registered peer says that it is blocked. -/
def blockedStatus (peer : RegisteredPeer) : Bool := peer.status == some 0

/-- An error of the database is taken for an empty list. -/
def listBlockedIds : Handler (List String) := do
  match ← perform (.dbListRegistered registeredLimit 0) with
  | some peers => pure ((peers.filter blockedStatus).map (·.id))
  | none => pure []

def peerKeyMap : Handler (List (String × Bytes)) := do
  match ← perform (.dbListRegistered registeredLimit 0) with
  | some peers => pure ((peers.filter fun p => p.pk.length == 32).map fun p => (p.id, p.pk))
  | none => pure []

def endpointRow (endpoint : String × String) : String := endpoint.1 ++ "," ++ endpoint.2

/-- The endpoints a controller learns of: not those of blocked peers, and only those it may
dial. -/
def dialable (blocked : List String) (targets : Option String)
    (endpoints : List (String × String)) : List (String × String) :=
  (endpoints.filter fun e =>
    !blocked.contains e.1 && targetAllowedByControllerPolicy targets e.1).mergeSort
      fun e e' => decide (endpointRow e ≤ endpointRow e')

def directEndpointMap (blocked : List String) (targets : Option String) :
    Handler (List (String × String)) := do
  let endpoints ← perform .peerEndpoints
  pure (dialable blocked targets endpoints)

def policyLists (targets : Option String) : Handler PolicyLists := do
  let blocked ← listBlockedIds
  let peerKeys ← peerKeyMap
  let endpoints ← directEndpointMap blocked targets
  pure ⟨blocked, peerKeys, endpoints⟩

/-- Each list has its option, if there is anything in it. -/
def insertLists (lists : PolicyLists) (options : List (String × String)) :
    List (String × String) :=
  let options := if lists.blocked = [] then options
    else insertOption "nemo-blocked-ids" (",".intercalate lists.blocked) options
  let options := if lists.peerKeys = [] then options
    else insertOption "nemo-peer-keys" (";".intercalate (lists.peerKeys.map fun k =>
      k.1 ++ "," ++ X.base64Encode k.2)) options
  if lists.endpoints = [] then options
  else insertOption "nemo-direct-endpoints" (";".intercalate (lists.endpoints.map endpointRow))
    options

/-! ## The composition -/

def validateClientPolicyRequest (peer : RegisteredPeer) (request : ClientPolicyRequest) :
    Except ApiFailure Unit :=
  if trim request.id = "" then .error ⟨400, "missing peer id"⟩
  else match X.base64Decode (trim request.uuid) with
    | none => .error ⟨400, "invalid uuid"⟩
    | some uuid => if uuid ≠ peer.uuid then .error ⟨401, "uuid mismatch"⟩ else .ok ()

/-- The peer that polls. -/
def pollingPeer (request : ClientPolicyRequest) : Handler (Except ApiFailure RegisteredPeer) := do
  match ← perform (.dbGetRegisteredPeer request.id) with
  | none => pure (.error ⟨500, X.dbError⟩)
  | some none => pure (.error ⟨404, "peer not found"⟩)
  | some (some peer) =>
    pure ((validateClientPolicyRequest X peer request).map fun () => peer)

/-- The refusal of a poll without a device proof, where one is required. -/
def keyRequiredRefusal (claim : Option PendingOutcome) : String :=
  match claim with
  | some .new => "device key is awaiting operator confirmation"
  | some .again => "device key is awaiting operator confirmation"
  | some .denied => "device key claim was denied by the operator"
  | _ => "a provisioned device key is required"

def resolveAccessToken (request : ClientPolicyRequest) : Option String :=
  match request.sealedToken.filter fun t => trim t != "" with
  | some token => X.openSealedToken token
  | none => request.accessToken.filter fun t => trim t != ""

/-- A session bound to a device key is spent only with a proof of this key. -/
def sessionDeviceBindingOk (bound : String) (proven : Option String) : Bool :=
  bound == "" || proven == some bound

/-- The policy of the user, or of the device where nobody is signed in, over the defaults. -/
def identityPolicy (peer : RegisteredPeer) (user : Option Session) (policy : ManagementPolicy) :
    Handler ManagementPolicy := do
  match user with
  | some session =>
    let up ← perform (.userPolicy session.username)
    pure ⟨policy.allowUserOverride || up.allowUserOverride,
      insertOption "nemo-logged-in-user" session.username
        (extendOptions policy.options up.options)⟩
  | none =>
    let peerPolicy := managementPolicyFromPeer X peer.managementPolicy
    let policy := ⟨policy.allowUserOverride || peerPolicy.allowUserOverride,
      extendOptions policy.options peerPolicy.options⟩
    match ← perform (.devicePolicy peer.id) with
    | some dp => pure ⟨policy.allowUserOverride || dp.allowUserOverride,
        extendOptions policy.options dp.options⟩
    | none => pure policy

/-- The end of the composition: the listener of the peer, its own block, and secrets. -/
def finishPolicy (peer : RegisteredPeer) (hasEndpoint sealThis strip : Bool)
    (policy : ManagementPolicy) : ManagementPolicy :=
  let policy := if hasEndpoint then withOptions policy (orInsertOption "direct-server" "Y")
    else policy
  let policy := if blockedStatus peer then
      ⟨false, insertOption optionNemoOutboundEnabled "N" policy.options⟩
    else policy
  if !sealThis && strip then stripSecretOptions policy else policy

/-- The direct address of a peer; empty if there is none. -/
def peerEndpoint (id : String) : Handler String := do
  pure (((← perform .peerEndpoints).lookup id).getD "")

def composePolicy (request : ClientPolicyRequest) : Handler (Except ApiFailure Composed) := do
  match ← pollingPeer X request with
  | .error e => pure (.error e)
  | .ok peer =>
    let proof ← verifyDeviceKey X request
    if (← perform .requireDeviceKey) && !proof.ok then
      pure (.error ⟨403, keyRequiredRefusal proof.claim⟩)
    else
      let policy ← perform .globalPolicy
      let info ← perform .certInfo
      let policy := withOptions policy fun options => applyApiTlsDefaults options info
      let proven := if proof.ok then request.deviceKeyPub else none
      let session ← enabledSession (resolveAccessToken X request)
      let user := session.filter fun s => sessionDeviceBindingOk s.deviceKeyPub proven
      let requireLogin ← perform .requireLogin
      let policy ← identityPolicy X peer user policy
      let policy := withOptions policy
        (if requireLogin then insertOption "nemo-require-login" "Y"
          else removeOption "nemo-require-login")
      let abVersion ← perform .abVersion
      let policy := withOptions policy (insertOption "nemo-ab-version" (toString abVersion))
      let lists ← policyLists (policy.options.lookup optionNemoOutboundTargets)
      let policy := withOptions policy (insertLists X lists)
      let endpoint ← peerEndpoint peer.id
      let sealThis := proof.ok && request.sealed == some "v1"
      let strip ← perform .stripUnsealedSecrets
      pure (.ok ⟨peer, lists, finishPolicy peer (endpoint != "") sealThis strip policy, sealThis⟩)

/-- Sign the payload, and seal it for a client that can open it. -/
def respond (request : ClientPolicyRequest) (sealThis : Bool) (payload : ClientPolicyPayload) :
    Except ApiFailure ClientPolicyResponse :=
  let bytes := X.payloadToJson payload.id payload.issuedAt payload.issuedTs
    payload.terminateSessionsBefore payload.policy
  let signed := X.sk.map (X.sign bytes)
  if sealThis then
    match signed with
    | none => .error ⟨503, "server has no signing key; cannot seal the policy response"⟩
    | some signed =>
      match request.deviceKeyPub.bind fun pub => X.sealToDeviceKey pub signed with
      | none => .error ⟨500, "could not seal the policy response to the device key"⟩
      | some sealedPayload => .ok ⟨"", none, some sealedPayload⟩
  else .ok ⟨(signed.map X.base64Encode).getD "", some payload, none⟩

def clientPolicy (request : ClientPolicyRequest) :
    Handler (Except ApiFailure ClientPolicyResponse) := do
  match ← composePolicy X request with
  | .error e => pure (.error e)
  | .ok c =>
    let issuedAt ← perform .wallClock
    let now ← perform .wallClock
    let terminate ← perform (.peerTerminateBefore c.peer.id)
    pure (respond X request c.sealThis ⟨c.peer.id, X.isoOfSecs issuedAt, now, terminate,
      c.policy⟩)

/-! ## What the lists come to -/

theorem mem_dialable {blocked : List String} {targets : Option String}
    {endpoints : List (String × String)} {e : String × String}
    (h : e ∈ dialable blocked targets endpoints) : e.1 ∉ blocked := by
  unfold dialable at h
  rw [List.mem_mergeSort, List.mem_filter, Bool.and_eq_true] at h
  simpa using h.2.1

theorem lookup_finishPolicy {key : String} (hserver : key ≠ "direct-server")
    (hout : key ≠ optionNemoOutboundEnabled) (hsecret : key ∉ secretPolicyKeys)
    (peer : RegisteredPeer) (hasEndpoint sealThis strip : Bool) (policy : ManagementPolicy) :
    (finishPolicy peer hasEndpoint sealThis strip policy).options.lookup key =
      policy.options.lookup key := by
  unfold finishPolicy
  simp only
  have hstart : (if hasEndpoint then withOptions policy (orInsertOption "direct-server" "Y")
      else policy).options.lookup key = policy.options.lookup key := by
    split
    · exact lookup_orInsertOption hserver _ _
    · rfl
  rw [← hstart]
  generalize (if hasEndpoint then withOptions policy (orInsertOption "direct-server" "Y")
    else policy) = policy
  have hblock : (if blockedStatus peer then
      (⟨false, insertOption optionNemoOutboundEnabled "N" policy.options⟩ : ManagementPolicy)
      else policy).options.lookup key = policy.options.lookup key := by
    split
    · exact lookup_insertOption hout _ _
    · rfl
  split
  · rw [lookup_stripSecretOptions hsecret, hblock]
  · exact hblock

theorem lookup_insertLists_blocked {lists : PolicyLists} (h : lists.blocked ≠ [])
    (options : List (String × String)) :
    (insertLists X lists options).lookup "nemo-blocked-ids" =
      some (",".intercalate lists.blocked) := by
  unfold insertLists
  simp only [if_neg h]
  split <;> split
  · exact lookup_insertOption_self _ _ _
  · rw [lookup_insertOption (by decide)]
    exact lookup_insertOption_self _ _ _
  · rw [lookup_insertOption (by decide)]
    exact lookup_insertOption_self _ _ _
  · rw [lookup_insertOption (by decide), lookup_insertOption (by decide)]
    exact lookup_insertOption_self _ _ _

theorem lookup_insertLists_peerKeys {lists : PolicyLists} (h : lists.peerKeys ≠ [])
    (options : List (String × String)) :
    (insertLists X lists options).lookup "nemo-peer-keys" =
      some (";".intercalate (lists.peerKeys.map fun k => k.1 ++ "," ++ X.base64Encode k.2)) := by
  unfold insertLists
  simp only [if_neg h]
  split
  · exact lookup_insertOption_self _ _ _
  · rw [lookup_insertOption (by decide)]
    exact lookup_insertOption_self _ _ _

theorem lookup_insertLists_endpoints {lists : PolicyLists} (h : lists.endpoints ≠ [])
    (options : List (String × String)) :
    (insertLists X lists options).lookup "nemo-direct-endpoints" =
      some (";".intercalate (lists.endpoints.map endpointRow)) := by
  unfold insertLists
  simp only [if_neg h]
  exact lookup_insertOption_self _ _ _

end Management

end NemoServer
