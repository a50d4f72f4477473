import NemoServer.Foundations.FinMap
import NemoServer.Integration.Users

/-!
# Login sessions and their file

`nemo_integration.rs`: the sessions behind the lock `SESSIONS`, and the file they are kept in so
that a restart signs nobody out. Each function takes the lock once and writes the file before it
releases it; a write replaces the file as a whole, so the file is modelled by the map it parses to.
-/

set_option autoImplicit false

namespace NemoServer

namespace Integration

open Str

variable (X : Setup)

def sessionTtlSecs : ℕ := 12 * 60 * 60

/-! ## Which sessions a change of permissions concerns -/

/-- Equality of two maps of options. -/
def sameOptions (a b : List (String × String)) : Bool :=
  a.all (fun kv => b.lookup kv.1 == a.lookup kv.1) &&
    b.all fun kv => a.lookup kv.1 == b.lookup kv.1

def samePolicy (p q : UserManagedPolicy) : Bool :=
  p.allowUserOverride == q.allowUserOverride && sameOptions p.options q.options

/-- The test of `evict_sessions_with_changed_permissions`. -/
def permissionsChanged (oldPerms newPerms : Table String UserPermission) (s : Session) : Bool :=
  let key := normalizeLookupUsername X s.username
  match newPerms key with
  | none => true
  | some p =>
    match oldPerms key with
    -- every field of an entry that is new differs from none
    | none => true
    | some q =>
      q.enabled && !p.enabled || q.allowedTargets != p.allowedTargets || q.isAdmin != p.isAdmin ||
        !(samePolicy q.policy p.policy && q.policyName == p.policyName)

/-! ## The store -/

/-- `SESSIONS`, and `nemo_sessions.json` as what it parses to. -/
structure SessionStore where
  sessions : FinMap String Session
  file : Option (FinMap String Session)

namespace SessionStore

variable (st : SessionStore)

def persistSessions : SessionStore := { st with file := some st.sessions }

/-- `prune_sessions`: drop what has expired. -/
def pruned (now : ℕ) (sessions : FinMap String Session) : FinMap String Session :=
  FinMap.retain sessions fun _ s => decide (now < s.expiresAt)

/-- `load_sessions`, at a restart. -/
def reload (now : ℕ) : SessionStore := { st with sessions := pruned now (st.file.getD ∅) }

/-- The token is made by the caller of the store. -/
def createSession (now : ℕ) (token username displayName email deviceKeyPub : String) :
    SessionStore :=
  let session : Session := ⟨username, displayName, email, deviceKeyPub, now + sessionTtlSecs⟩
  { st with sessions := AList.insert token session (pruned now st.sessions) }.persistSessions

/-- The live session of a token; an expired one is dropped. -/
def sessionForToken (now : ℕ) (token : String) : Option Session × SessionStore :=
  let token := trim token
  if token = "" then (none, st)
  else match st.sessions.lookup token with
    | some s =>
      if now < s.expiresAt then (some s, st)
      else (none, { st with sessions := AList.erase token st.sessions }.persistSessions)
    | none => (none, st)

def removeSession (token : String) : SessionStore :=
  match st.sessions.lookup (trim token) with
  | some _ => { st with sessions := AList.erase (trim token) st.sessions }.persistSessions
  | none => st

/-- The keys that proved the evicted logins, each once. -/
def evictedKeys (evicted : List Session) : List String :=
  evicted.foldl (fun keys s => if s.deviceKeyPub ≠ "" ∧ s.deviceKeyPub ∉ keys then
    keys ++ [s.deviceKeyPub] else keys) []

def evictSessionsWithChangedPermissions (oldPerms newPerms : Table String UserPermission) :
    List String × SessionStore :=
  let evict := fun _ s => permissionsChanged X oldPerms newPerms s
  let evicted := (FinMap.retain st.sessions evict).entries.map (·.2)
  let st' := { st with sessions := FinMap.retain st.sessions fun t s => !evict t s }
  (evictedKeys evicted,
    if evicted.length = 0 then st
    else if st'.sessions.entries = [] then { st' with file := none }
    else st'.persistSessions)

/-- The second half of `remove_device_key`. -/
def dropSessionsOf (publicKey : String) : SessionStore :=
  let st' := { st with sessions := FinMap.retain st.sessions fun _ s =>
    s.deviceKeyPub != publicKey }
  if FinMap.size st'.sessions ≠ FinMap.size st.sessions then st'.persistSessions else st

/-! ## What the functions do to the sessions -/

@[simp] theorem sessions_persistSessions : st.persistSessions.sessions = st.sessions := rfl

@[simp] theorem file_persistSessions : st.persistSessions.file = some st.sessions := rfl

theorem lookup_pruned {now : ℕ} {sessions : FinMap String Session} {token : String} {s : Session} :
    (pruned now sessions).lookup token = some s ↔
      sessions.lookup token = some s ∧ now < s.expiresAt := by
  rw [pruned, FinMap.lookup_retain_eq_some, decide_eq_true_iff]

/-- The answer to a token. -/
theorem sessionForToken_fst {now : ℕ} {token : String} {s : Session} :
    (st.sessionForToken now token).1 = some s ↔
      trim token ≠ "" ∧ st.sessions.lookup (trim token) = some s ∧ now < s.expiresAt := by
  unfold sessionForToken
  by_cases hempty : trim token = ""
  · simp [hempty]
  · simp only [if_neg hempty]
    cases hs : st.sessions.lookup (trim token) with
    | none => simp
    | some s' =>
      by_cases hlive : now < s'.expiresAt
      · simp only [if_pos hlive, Option.some.injEq]
        grind
      · simp only [if_neg hlive]
        grind

/-- The look-up in the file's sessions answers as the one the handlers run on a table. -/
theorem sessionForToken_table (now : ℕ) (token : String) : (st.sessionForToken now token).1 =
    (Integration.sessionForToken token now fun t => st.sessions.lookup t).1 := by
  unfold sessionForToken Integration.sessionForToken
  by_cases hempty : trim token = ""
  · simp only [if_pos hempty]
  · simp only [if_neg hempty]
    cases st.sessions.lookup (trim token) with
    | none => rfl
    | some s =>
      by_cases hlive : now < s.expiresAt
      · simp only [if_pos hlive]
      · simp only [if_neg hlive]

/-- Looking up a token drops it if it has expired, and nothing else. -/
theorem lookup_sessionForToken_snd {now : ℕ} {token t : String} {s : Session}
    (hlive : now < s.expiresAt) :
    (st.sessionForToken now token).2.sessions.lookup t = some s ↔
      st.sessions.lookup t = some s := by
  unfold sessionForToken
  by_cases hempty : trim token = ""
  · simp [hempty]
  · simp only [if_neg hempty]
    cases hs : st.sessions.lookup (trim token) with
    | none => rfl
    | some s' =>
      by_cases hlive' : now < s'.expiresAt
      · simp only [if_pos hlive']
      · simp only [if_neg hlive', sessions_persistSessions, FinMap.lookup_erase_eq_some]
        refine ⟨And.right, fun h => ⟨fun ht => ?_, h⟩⟩
        rw [ht, hs] at h
        rw [Option.some.inj h] at hlive'
        exact hlive' hlive

theorem lookup_removeSession {token t : String} {s : Session} :
    (st.removeSession token).sessions.lookup t = some s ↔
      t ≠ trim token ∧ st.sessions.lookup t = some s := by
  unfold removeSession
  cases hs : st.sessions.lookup (trim token) with
  | some s' => simp only [sessions_persistSessions, FinMap.lookup_erase_eq_some]
  | none =>
    refine ⟨fun h => ⟨fun ht => ?_, h⟩, And.right⟩
    rw [ht, hs] at h
    cases h

/-- A change of permissions drops the sessions it concerns, and no other. -/
theorem lookup_evict {oldPerms newPerms : Table String UserPermission} {t : String} {s : Session} :
    (st.evictSessionsWithChangedPermissions X oldPerms newPerms).2.sessions.lookup t = some s ↔
      st.sessions.lookup t = some s ∧ permissionsChanged X oldPerms newPerms s = false := by
  have hkept : (FinMap.retain st.sessions fun _ s =>
      !permissionsChanged X oldPerms newPerms s).lookup t = some s ↔
      st.sessions.lookup t = some s ∧ permissionsChanged X oldPerms newPerms s = false := by
    rw [FinMap.lookup_retain_eq_some, Bool.not_eq_true']
  simp only [evictSessionsWithChangedPermissions]
  split
  next hnone =>
    refine ⟨fun h => ⟨h, Bool.eq_false_iff.2 fun hchanged => ?_⟩, And.left⟩
    have hmem := FinMap.lookup_eq_some_iff.1 (FinMap.lookup_retain_eq_some (p := fun _ s =>
      permissionsChanged X oldPerms newPerms s) |>.2 ⟨h, hchanged⟩)
    have hnil := List.eq_nil_of_map_eq_nil (List.length_eq_zero_iff.1 hnone)
    rw [hnil] at hmem
    cases hmem
  next =>
    split
    · exact hkept
    · exact hkept

theorem lookup_dropSessionsOf {publicKey t : String} {s : Session} :
    (st.dropSessionsOf publicKey).sessions.lookup t = some s ↔
      st.sessions.lookup t = some s ∧ s.deviceKeyPub ≠ publicKey := by
  have hkept : (FinMap.retain st.sessions fun _ s => s.deviceKeyPub != publicKey).lookup t =
      some s ↔ st.sessions.lookup t = some s ∧ s.deviceKeyPub ≠ publicKey := by
    rw [FinMap.lookup_retain_eq_some, bne_iff_ne]
  simp only [dropSessionsOf]
  split
  · exact hkept
  next hsame =>
    rw [FinMap.retain_eq_self (not_not.1 hsame)] at hkept
    exact hkept

end SessionStore

end Integration

end NemoServer
