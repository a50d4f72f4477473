import NemoServer.Integration.Permissions
import NemoServer.Server.Sample

/-!
# Whom a change of permissions signs out

A save of the permissions, and the switch of one user, evict the sessions of the users they
concern. They do so, and touch no other session, unless a session belongs to a user who is on the
list neither before nor after: such a user may log in while no login is required, and is signed out
by every save.
-/

set_option autoImplicit false

namespace NemoServer

namespace Integration

open Str

variable (X : Setup)

/-- The operations of an operator that write the list. -/
inductive PermissionsChange
  | save (update : PermissionsUpdate)
  | enable (username : String) (enabled : Bool) (displayName email : String)

/-- What the operation does to the list, if it is not refused. -/
def PermissionsChange.write (cfg : IntegrationConfig) : PermissionsChange →
    Except String IntegrationConfig
  | .save update => updatePermissions X update cfg
  | .enable username enabled displayName email =>
    .ok (setUserEnabled X username enabled displayName email cfg).2

/-- The operation with its eviction, which finds the sessions of that moment: the new
configuration, the keys that proved the evicted sessions, and the sessions that are left. -/
def PermissionsChange.run (cfg : IntegrationConfig) (st : SessionStore) (c : PermissionsChange) :
    Except String (IntegrationConfig × List String × SessionStore) := do
  let cfg' ← c.write X cfg
  return (cfg', st.evictSessionsWithChangedPermissions X cfg.permissions cfg'.permissions)

/-! ## What a change is -/

/-- The entry was taken away, disabled, or had its targets, its admin flag, its policy or the name
of its policy changed. -/
inductive Affected : UserPermission → Option UserPermission → Prop
  | removed (p : UserPermission) : Affected p none
  | disabled (p q : UserPermission) (h : p.enabled = true) (h' : q.enabled = false) :
    Affected p (some q)
  | targets (p q : UserPermission) (h : p.allowedTargets ≠ q.allowedTargets) : Affected p (some q)
  | isAdmin (p q : UserPermission) (h : p.isAdmin ≠ q.isAdmin) : Affected p (some q)
  | policy (p q : UserPermission) (h : samePolicy p.policy q.policy = false) : Affected p (some q)
  | policyName (p q : UserPermission) (h : p.policyName ≠ q.policyName) : Affected p (some q)

/-- The entries are equal, the options of their policies as maps. -/
structure SameEntry (p q : UserPermission) : Prop where
  enabled : p.enabled = q.enabled
  isAdmin : p.isAdmin = q.isAdmin
  allowedTargets : p.allowedTargets = q.allowedTargets
  policy : samePolicy p.policy q.policy = true
  policyName : p.policyName = q.policyName
  displayName : p.displayName = q.displayName
  email : p.email = q.email
  lastLogin : p.lastLogin = q.lastLogin

/-- A user's entry is equal before and after, or there is none before and after. -/
def Untouched : Option UserPermission → Option UserPermission → Prop
  | some p, some q => SameEntry p q
  | none, none => True
  | _, _ => False

/-- The user of a session is on neither list. -/
def Unlisted (oldPerms newPerms : Table String UserPermission) (s : Session) : Prop :=
  oldPerms (normalizeLookupUsername X s.username) = none ∧
    newPerms (normalizeLookupUsername X s.username) = none

/-- Every session of an affected user is gone, and every session of an untouched one is kept. -/
def EvictsConcerned (cfg cfg' : IntegrationConfig) (st st' : SessionStore) : Prop :=
  ∀ token s, st.sessions.lookup token = some s →
    (∀ p, cfg.permissions (normalizeLookupUsername X s.username) = some p →
      Affected p (cfg'.permissions (normalizeLookupUsername X s.username)) →
      st'.sessions.lookup token = none) ∧
    (Untouched (cfg.permissions (normalizeLookupUsername X s.username))
        (cfg'.permissions (normalizeLookupUsername X s.username)) →
      st'.sessions.lookup token = some s)

/-! ## The test of the eviction -/

variable {X} {oldPerms newPerms : Table String UserPermission} {s : Session} {p : UserPermission}

theorem permissionsChanged_of_affected
    (hp : oldPerms (normalizeLookupUsername X s.username) = some p)
    (h : Affected p (newPerms (normalizeLookupUsername X s.username))) :
    permissionsChanged X oldPerms newPerms s = true := by
  unfold permissionsChanged
  dsimp only
  generalize newPerms (normalizeLookupUsername X s.username) = new at h
  rw [hp]
  cases h with
  | removed => rfl
  | disabled q h h' => simp [h, h']
  | targets q h => simp [h]
  | isAdmin q h => simp [h]
  | policy q h => simp [h]
  | policyName q h => simp [h]

theorem permissionsChanged_of_same {q : UserPermission}
    (hp : oldPerms (normalizeLookupUsername X s.username) = some p)
    (hq : newPerms (normalizeLookupUsername X s.username) = some q) (h : SameEntry p q) :
    permissionsChanged X oldPerms newPerms s = false := by
  unfold permissionsChanged
  simp only [hp, hq, h.enabled, h.allowedTargets, h.isAdmin, h.policy, h.policyName]
  cases q.enabled <;> simp

/-- A user on neither list is evicted all the same. -/
theorem permissionsChanged_of_unlisted (h : Unlisted X oldPerms newPerms s) :
    permissionsChanged X oldPerms newPerms s = true := by
  unfold permissionsChanged
  simp only [h.2]

variable (X)

theorem PermissionsChange.run_ok {cfg cfg' : IntegrationConfig} {st st' : SessionStore}
    {keys : List String} {c : PermissionsChange} (h : c.run X cfg st = .ok (cfg', keys, st')) :
    c.write X cfg = .ok cfg' ∧
      st' = (st.evictSessionsWithChangedPermissions X cfg.permissions cfg'.permissions).2 := by
  unfold PermissionsChange.run at h
  cases hwrite : c.write X cfg with
  | error e =>
    rw [hwrite] at h
    cases h
  | ok cfg₁ =>
    rw [hwrite] at h
    cases Except.ok.inj h
    exact ⟨rfl, rfl⟩

/-- A save that names no version is not refused. -/
theorem PermissionsChange.exists_run_save (cfg : IntegrationConfig) (st : SessionStore)
    {u : PermissionsUpdate} (h : u.version = none) :
    ∃ cfg' keys st', (PermissionsChange.save u).run X cfg st = .ok (cfg', keys, st') := by
  have hversion : ∀ v, u.version = some v → v = cfg.permissionsVersion := by
    intro v hv
    rw [h] at hv
    cases hv
  obtain ⟨cfg', hcfg⟩ := updatePermissions_isOk (X := X) hversion
  refine ⟨cfg', (st.evictSessionsWithChangedPermissions X cfg.permissions cfg'.permissions).1,
    (st.evictSessionsWithChangedPermissions X cfg.permissions cfg'.permissions).2, ?_⟩
  simp only [PermissionsChange.run, PermissionsChange.write]
  rw [hcfg]
  rfl

/-- A change of permissions evicts exactly whom it concerns if and only if no session belongs to a
user who is on the list neither before nor after. -/
theorem evicts_concerned_iff (cfg cfg' : IntegrationConfig) (st st' : SessionStore)
    (keys : List String) (c : PermissionsChange) (hrun : c.run X cfg st = .ok (cfg', keys, st')) :
    EvictsConcerned X cfg cfg' st st' ↔
      ∀ token s, st.sessions.lookup token = some s →
        ¬Unlisted X cfg.permissions cfg'.permissions s := by
  obtain ⟨-, rfl⟩ := PermissionsChange.run_ok X hrun
  unfold EvictsConcerned
  constructor
  · intro h token s hs hout
    have hkept := (h token s hs).2 (by rw [hout.1, hout.2]; trivial)
    have hchanged := permissionsChanged_of_unlisted hout
    rw [((st.lookup_evict X).1 hkept).2] at hchanged
    cases hchanged
  · intro h token s hs
    constructor
    · intro p hp haff
      have hchanged := permissionsChanged_of_affected hp haff
      rw [Option.eq_none_iff_forall_ne_some]
      intro s' hs'
      obtain ⟨hold, hsame⟩ := (st.lookup_evict X).1 hs'
      rw [hs, Option.some.injEq] at hold
      rw [← hold, hchanged] at hsame
      cases hsame
    · intro hsame
      refine (st.lookup_evict X).2 ⟨hs, ?_⟩
      cases hp : cfg.permissions (normalizeLookupUsername X s.username) with
      | none =>
        cases hq : cfg'.permissions (normalizeLookupUsername X s.username) with
        | none => exact absurd ⟨hp, hq⟩ (h token s hs)
        | some q =>
          rw [hp, hq] at hsame
          exact hsame.elim
      | some p =>
        cases hq : cfg'.permissions (normalizeLookupUsername X s.username) with
        | none =>
          rw [hp, hq] at hsame
          exact hsame.elim
        | some q =>
          rw [hp, hq] at hsame
          exact permissionsChanged_of_same hp hq hsame

namespace Sample

/-- A save of the default targets that leaves the list alone. -/
def targetsOnly : PermissionsUpdate := ⟨none, none, some ["target"], none, none, none⟩

/-- The sessions after an open login of a user who is not on the list. -/
def openLogin : SessionStore := SessionStore.createSession ⟨∅, none⟩ 1000 "token" "carol" "" "" ""

/-- The list of one user. -/
def oneUser : IntegrationConfig :=
  { NemoServer.Sample.config [] with
    permissions := Table.empty.insert "carol" ⟨true, false, ["*"], ⟨false, []⟩, none, "", "", ""⟩ }

theorem openLogin_iff {token : String} {s : Session} : openLogin.sessions.lookup token = some s ↔
    token = "token" ∧ s = ⟨"carol", "", "", "", 44200⟩ := by
  refine FinMap.lookup_insert_eq_some.trans ⟨?_, ?_⟩
  · rintro (⟨rfl, rfl⟩ | ⟨-, hs⟩)
    · exact ⟨rfl, rfl⟩
    · cases (SessionStore.lookup_pruned.1 hs).1
  · rintro ⟨rfl, rfl⟩
    exact .inl ⟨rfl, rfl⟩

end Sample

/-- A user on the list keeps the session through a save that leaves the list alone. -/
theorem evicts_concerned_listed : ∃ cfg' keys st',
    (PermissionsChange.save Sample.targetsOnly).run (NemoServer.Sample.setup .offer false)
      Sample.oneUser Sample.openLogin = .ok (cfg', keys, st') ∧
    EvictsConcerned (NemoServer.Sample.setup .offer false) Sample.oneUser cfg' Sample.openLogin
      st' := by
  obtain ⟨cfg', keys, st', hrun⟩ := PermissionsChange.exists_run_save
    (NemoServer.Sample.setup .offer false) Sample.oneUser Sample.openLogin
    (u := Sample.targetsOnly) rfl
  refine ⟨cfg', keys, st', hrun, (evicts_concerned_iff _ _ _ _ _ _ _ hrun).2 ?_⟩
  rintro token s hs ⟨hout, -⟩
  obtain ⟨-, rfl⟩ := Sample.openLogin_iff.1 hs
  have hlisted : (Sample.oneUser.permissions (normalizeLookupUsername
    (NemoServer.Sample.setup .offer false) "carol")).isSome = true := by decide +kernel
  rw [hout] at hlisted
  cases hlisted

/-- A user on no list is signed out by a save that has nothing to do with users. -/
theorem not_evicts_concerned : ¬∀ (X : Setup) (cfg cfg' : IntegrationConfig)
    (st st' : SessionStore) (keys : List String) (c : PermissionsChange),
    c.run X cfg st = .ok (cfg', keys, st') → EvictsConcerned X cfg cfg' st st' := by
  intro h
  obtain ⟨cfg', keys, st', hrun⟩ := PermissionsChange.exists_run_save
    (NemoServer.Sample.setup .offer false) (NemoServer.Sample.config []) Sample.openLogin
    (u := Sample.targetsOnly) rfl
  obtain ⟨hwrite, hst⟩ := PermissionsChange.run_ok _ hrun
  have hsame : cfg'.permissions = Table.empty := (updatePermissions_ok hwrite).2.2
  have hs := Sample.openLogin_iff.2 ⟨rfl, rfl⟩
  have hkept := (h _ _ _ _ _ _ _ hrun _ _ hs).2 (by rw [hsame]; trivial)
  rw [hst, SessionStore.lookup_evict, hsame] at hkept
  cases hkept.2

end Integration

end NemoServer
