import NemoServer.Foundations.Table
import NemoServer.Integration.DeviceKeys
import NemoServer.Setup

/-!
# Users and sessions

The live configuration (`nemo_integration.rs`): who may use the software, which peers each user
may connect to, the session policy of a user, and the login sessions with their bearer tokens.
-/

set_option autoImplicit false

namespace NemoServer

structure UserManagedPolicy where
  allowUserOverride : Bool
  options : List (String × String)

instance : Inhabited UserManagedPolicy := ⟨⟨false, []⟩⟩

structure UserPermission where
  enabled : Bool
  isAdmin : Bool
  allowedTargets : List String
  policy : UserManagedPolicy
  policyName : Option String
  displayName : String
  email : String
  lastLogin : String

structure Session where
  username : String
  displayName : String
  email : String
  /-- The device key that proved the login; empty if none did. -/
  deviceKeyPub : String
  expiresAt : ℕ
  deriving DecidableEq

/-- The configuration behind the lock `CONFIG`. -/
structure IntegrationConfig where
  deviceKeys : List DeviceKey
  pendingDeviceKeyClaims : List PendingDeviceKeyClaim
  claimUnboundDeviceKeys : Bool
  requireDeviceKey : Bool
  requireLogin : Bool
  permissionsVersion : ℕ
  permissions : Table String UserPermission
  /-- The targets of a user that is new on the list. -/
  defaultTargets : List String
  adminPolicy : UserManagedPolicy
  policies : Table String UserManagedPolicy
  defaultPolicyName : Option String
  /-- The named policy assigned to a peer. -/
  devicePolicies : Table String String
  stripUnsealedSecrets : Bool

namespace Integration

open Str

/-- Strip a `DOMAIN\` in front or an `@domain` behind. -/
def rawUsername (input : String) : String :=
  let input := (trim input).toList
  match splitOnce '\\' input with
  | some (_, rest) => String.ofList rest
  | none =>
    match splitOnce '@' input with
    | some (head, _) => String.ofList head
    | none => String.ofList input

def normalizeLookupUsername (X : Setup) (input : String) : String :=
  X.toLowercase (rawUsername input)

variable (X : Setup) (cfg : IntegrationConfig)

def userIsEnabled (username : String) : Bool :=
  match cfg.permissions (normalizeLookupUsername X username) with
  | some p => p.enabled
  | none => false

def effectivePermission (username : String) : Bool × List String :=
  match cfg.permissions (normalizeLookupUsername X username) with
  | some p => (p.isAdmin, p.allowedTargets)
  | none => (false, [])

def userAllowedTarget (isAdmin : Bool) (allowedTargets : List String) (targetId : String) : Bool :=
  isAdmin || allowedTargets.any fun t => t == "*" || t == targetId

/-- The named policy, unless the name is empty or names none. -/
def namedPolicy (name : Option String) : Option UserManagedPolicy :=
  (name.filter (· != "")).bind cfg.policies

def userPolicy (username : String) : UserManagedPolicy :=
  match cfg.permissions (normalizeLookupUsername X username) with
  | none => default
  | some p =>
    if p.isAdmin then { cfg.adminPolicy with allowUserOverride := true }
    else match namedPolicy cfg p.policyName with
      | some named => named
      | none =>
        if p.policy.options = [] then (namedPolicy cfg cfg.defaultPolicyName).getD p.policy
        else p.policy

def devicePolicy (peerId : String) : Option UserManagedPolicy :=
  (cfg.devicePolicies peerId).bind cfg.policies

/-- The live session of a token; an expired one is dropped. -/
def sessionForToken (token : String) (now : ℕ) (sessions : Table String Session) :
    Option Session × Table String Session :=
  let token := trim token
  if token = "" then (none, sessions)
  else match sessions token with
    | some s => if now < s.expiresAt then (some s, sessions) else (none, sessions.remove token)
    | none => (none, sessions)

/-- A session that is handed out is live. -/
theorem sessionForToken_some {token : String} {now : ℕ} {sessions : Table String Session}
    {session : Session} (h : (sessionForToken token now sessions).1 = some session) :
    sessions (trim token) = some session ∧ now < session.expiresAt := by
  unfold sessionForToken at h
  simp only at h
  split at h
  · cases h
  · split at h
    · next hs =>
      split at h
      · next hlive =>
        obtain rfl := Option.some.inj h
        exact ⟨hs, hlive⟩
      · cases h
    · cases h

end Integration

end NemoServer
