import NemoServer.Management.Policy
import NemoServer.Server.PeerMap

/-!
# The gates of a connection request

What a request to reach a peer has to pass (`nemo_management.rs`): the target is allowed, the
controller is established and its own policy lets it out to this target, and the user, if anyone
is logged in, may use this machine for this target. A gate answers `none` to let a request pass,
or the id and the reason of the refusal.
-/

set_option autoImplicit false

namespace NemoServer

namespace Management

variable (X : Setup)

def isPeerAllowed (id : String) : Handler Bool := do
  let companyOnly ← perform .companyOnly
  PeerMap.isPeerAllowedForControl id companyOnly

/-! ## The controller gates -/

def controllerPolicyRejection (sourceId : String) (sourceUuid : Option Bytes)
    (targetId : String) : Handler (Option String) := do
  let sourceId := Str.trim sourceId
  if sourceId = "" then
    pure (some "controller did not identify itself")
  else
    match ← perform (.dbGetRegisteredPeer sourceId) with
    | none => pure (some "controller policy could not be verified")
    | some none => pure (some "controller is not registered by TBF policy")
    | some (some source) => pure (registeredRejection X source sourceUuid targetId)

def controllerPolicyRejectionFromField (proto : Option NemoSource) (sourceField targetId : String)
    (authedPeerId : Option String) : Handler (Option (String × String)) := do
  match resolveControllerIdentity X proto sourceField authedPeerId with
  | .error rejection => pure (some rejection)
  | .ok (sourceId, sourceUuid) =>
    let reason ← controllerPolicyRejection X sourceId sourceUuid targetId
    pure (reason.map fun reason => (sourceId, reason))

/-! ## The user gate -/

/-- The live session of a token, if its user is enabled. -/
def enabledSession (token : Option String) : Handler (Option Session) := do
  match token with
  | none => pure none
  | some token =>
    match ← perform (.sessionForToken token) with
    | none => pure none
    | some session =>
      let enabled ← perform (.userIsEnabled session.username)
      pure (if enabled then some session else none)

def nemoUserConnectionRejection (token authedDevicePub : Option String) (targetId : String) :
    Handler (Option String) := do
  match ← enabledSession token with
  | some session =>
    -- a token bound to a device key is spent only by a connection that proved this key
    if session.deviceKeyPub ≠ "" ∧ authedDevicePub ≠ some session.deviceKeyPub then
      pure (some "this sign-in is bound to another computer; sign in again from this one")
    else
      let (isAdmin, allowed) ← perform (.effectivePermission session.username)
      pure (if Integration.userAllowedTarget isAdmin allowed targetId then none
        else some "you are not permitted to connect to this computer")
  | none =>
    let requireLogin ← perform .requireLogin
    pure (if requireLogin then some "log in to TBFDesk to connect" else none)

def nemoUserRejectionFromField (proto : Option NemoSource) (sourceField targetId : String)
    (authedDevicePub : Option String) : Handler (Option (String × String)) := do
  let parsed := controllerSourceAny X proto sourceField
  let token := parsed.bind fun (_, _, token) => token
  let reason ← nemoUserConnectionRejection token authedDevicePub targetId
  pure (reason.map fun reason => (controllerSourceId X proto sourceField, reason))

/-! ## Permissions of the session -/

def controlPermissionsFor (proto : Option NemoSource) (sourceField : String) :
    Handler (Option ControlPermissions) := do
  match (controllerSourceAny X proto sourceField).bind fun (_, _, token) => token with
  | none => pure none
  | some token =>
    match ← enabledSession (some token) with
    | none => pure none
    | some session =>
      let policy ← perform (.userPolicy session.username)
      let bits := permissionBits X policy.options
      pure (if bits = 0 then none else some ⟨bits⟩)

end Management

end NemoServer
