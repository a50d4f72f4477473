import Mathlib.Algebra.Group.Nat.Defs
import NemoServer.Integration.Sessions

/-!
# The list of users

`nemo_integration.rs`: the users' permissions behind the lock `CONFIG`, with the version a save has
to name, and the three functions that write them. A writer persists the configuration before it
releases the lock.
-/

set_option autoImplicit false

namespace NemoServer

namespace Integration

open Str

variable (X : Setup)

/-- Trimmed, no empty one, each once. -/
def normalizeTargets (targets : List String) : List String :=
  targets.foldl (fun out t =>
    if trim t = "" then out else if trim t ∈ out then out else out ++ [trim t]) []

structure PermissionsUpdate where
  version : Option ℕ
  /-- The entries in the order in which the request's map yields them. -/
  permissions : Option (List (String × UserPermission))
  defaultTargets : Option (List String)
  requireLogin : Option Bool
  defaultPolicyName : Option String
  adminPolicy : Option UserManagedPolicy

/-- A save that names a version names the current one. -/
def checkPermissionsVersion (client : Option ℕ) (server : ℕ) : Except String Unit :=
  match client with
  | some v =>
    if v = server then .ok ()
    else .error s!"version mismatch: client has version {v}, server has version {server}"
  | none => .ok ()

/-- The users of a save, under the names they are looked up by. -/
def collectPermissions (perms : List (String × UserPermission)) : Table String UserPermission :=
  perms.foldl (fun t kv => t.insert (normalizeLookupUsername X kv.1)
    { kv.2 with allowedTargets := normalizeTargets kv.2.allowedTargets }) Table.empty

/-- `u64::saturating_add(1)`. -/
def nextVersion (v : ℕ) : ℕ := min (v + 1) (2 ^ 64 - 1)

/-- `update_permissions`, under the lock `CONFIG`. The answer is the new list and version. -/
def updatePermissions (update : PermissionsUpdate) (cfg : IntegrationConfig) :
    Except String IntegrationConfig := do
  checkPermissionsVersion update.version cfg.permissionsVersion
  return { cfg with
    permissions := (update.permissions.map (collectPermissions X)).getD cfg.permissions
    defaultTargets := (update.defaultTargets.map normalizeTargets).getD cfg.defaultTargets
    requireLogin := update.requireLogin.getD cfg.requireLogin
    defaultPolicyName := match update.defaultPolicyName with
      | some dn => if trim dn = "" then none else some dn
      | none => cfg.defaultPolicyName
    adminPolicy := update.adminPolicy.getD cfg.adminPolicy
    permissionsVersion := nextVersion cfg.permissionsVersion }

/-- `UserPermission::default()`. -/
def UserPermission.default : UserPermission := ⟨false, false, [], ⟨false, []⟩, none, "", "", ""⟩

/-- A profile field of a directory user replaces the old one unless it is empty. -/
def refreshed (old new : String) : String := if new = "" then old else new

/-- `record_login`, at a time given as text: whether the user is listed, enabled, an admin. -/
def recordLogin (time username displayName email : String) (cfg : IntegrationConfig) :
    (Bool × Bool × Bool) × IntegrationConfig :=
  let key := normalizeLookupUsername X username
  match cfg.permissions key with
  | some entry => ((true, entry.enabled, entry.isAdmin), { cfg with
      permissions := cfg.permissions.insert key { entry with
        displayName := refreshed entry.displayName displayName
        email := refreshed entry.email email
        lastLogin := time } })
  | none => ((false, false, false), cfg)

/-- `set_user_enabled`, under the lock `CONFIG`: the name it is stored under, and the entry. -/
def setUserEnabled (username : String) (enabled : Bool) (displayName email : String)
    (cfg : IntegrationConfig) : (String × UserPermission) × IntegrationConfig :=
  let key := normalizeLookupUsername X username
  let entry := (cfg.permissions key).getD
    { UserPermission.default with allowedTargets := cfg.defaultTargets }
  let entry := { entry with
    enabled := enabled
    displayName := refreshed entry.displayName displayName
    email := refreshed entry.email email }
  ((key, entry), { cfg with
    permissions := cfg.permissions.insert key entry
    permissionsVersion := nextVersion cfg.permissionsVersion })

/-! ## What the writers do to the list -/

variable {X} {update : PermissionsUpdate} {cfg cfg' : IntegrationConfig}

/-- A save that succeeds named the current version or none, and raises it. -/
theorem updatePermissions_ok (h : updatePermissions X update cfg = .ok cfg') :
    (∀ v, update.version = some v → v = cfg.permissionsVersion) ∧
      cfg'.permissionsVersion = nextVersion cfg.permissionsVersion ∧
      cfg'.permissions = (update.permissions.map (collectPermissions X)).getD cfg.permissions := by
  unfold updatePermissions at h
  cases hcheck : checkPermissionsVersion update.version cfg.permissionsVersion with
  | error e =>
    rw [hcheck] at h
    cases h
  | ok u =>
    rw [hcheck] at h
    obtain rfl := Except.ok.inj h
    refine ⟨?_, rfl, rfl⟩
    rintro v hv
    rw [hv] at hcheck
    by_contra hne
    simp only [checkPermissionsVersion, if_neg hne] at hcheck
    cases hcheck

/-- A save without a version, or with the current one, succeeds. -/
theorem updatePermissions_isOk (h : ∀ v, update.version = some v → v = cfg.permissionsVersion) :
    ∃ cfg', updatePermissions X update cfg = .ok cfg' := by
  have hcheck : checkPermissionsVersion update.version cfg.permissionsVersion = .ok () := by
    cases hv : update.version with
    | none => rfl
    | some v => rw [h v hv, checkPermissionsVersion, if_pos rfl]
  unfold updatePermissions
  rw [hcheck]
  exact ⟨_, rfl⟩

/-- A login changes the profile and the time of its own user, if that user is listed. -/
theorem recordLogin_permissions {time username displayName email key : String} :
    (recordLogin X time username displayName email cfg).2.permissions key =
      if key = normalizeLookupUsername X username then
        (cfg.permissions key).map fun entry => { entry with
          displayName := refreshed entry.displayName displayName
          email := refreshed entry.email email
          lastLogin := time }
      else cfg.permissions key := by
  unfold recordLogin
  dsimp only
  by_cases hkey : key = normalizeLookupUsername X username
  · subst hkey
    cases hentry : cfg.permissions (normalizeLookupUsername X username) with
    | none => simp [hentry]
    | some entry => simp
  · rw [if_neg hkey]
    cases hentry : cfg.permissions (normalizeLookupUsername X username) with
    | none => rfl
    | some entry => simp [Table.insert_apply, hkey]

theorem recordLogin_version {time username displayName email : String} :
    (recordLogin X time username displayName email cfg).2.permissionsVersion =
      cfg.permissionsVersion := by
  unfold recordLogin
  dsimp only
  cases cfg.permissions (normalizeLookupUsername X username) with
  | none => rfl
  | some entry => rfl

end Integration

end NemoServer
