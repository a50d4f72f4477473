import NemoServer.Foundations.Interleave
import NemoServer.Integration.Permissions
import NemoServer.Server.Sample

/-!
# Saves of the list of users

Operators load the list with its version and save it back, switch single users, and users log in,
all at the same time; each operation takes the lock `CONFIG` once. A save that names a version is
refused if the version has been raised since. The switch of a user raises it, and so does every
save; a login does not, though it writes the profile and the time of the user.

* `SavesKeep`: no save undoes a change made since its version was current.
* `saves_keep`: that holds in every run whose saves carry what the logins wrote.
-/

set_option autoImplicit false

namespace NemoServer

namespace Integration

open Str

/-- What is done to the list by operators and by users who log in. -/
inductive ListEvent
  | save (update : PermissionsUpdate)
  | enable (username : String) (enabled : Bool) (displayName email : String)
  | login (time username displayName email : String)
  /-- `permissions_snapshot()`. -/
  | snapshot
  /-- `permissions_version()`. -/
  | readVersion

def ListEvent.apply (X : Setup) (cfg : IntegrationConfig) : ListEvent → IntegrationConfig
  | .save update =>
    match updatePermissions X update cfg with
    | .ok cfg' => cfg'
    | .error _ => cfg
  | .enable username enabled displayName email =>
    (setUserEnabled X username enabled displayName email cfg).2
  | .login time username displayName email =>
    (recordLogin X time username displayName email cfg).2
  | .snapshot => cfg
  | .readVersion => cfg

/-- The list as a system. A restart reads what the last writer persisted. -/
def userList (X : Setup) : System Empty (fun _ => Unit) IntegrationConfig Empty ListEvent where
  sem o _ := nomatch o
  code j := nomatch j
  start j _ := nomatch j
  env e cfg := some (e.apply X cfg)
  reboot cfg := cfg

abbrev ListItem := Item Empty IntegrationConfig Empty ListEvent
abbrev ListPool := Pool Empty (fun _ => Unit) IntegrationConfig Empty

/-! ## Changes, and saves that keep them -/

inductive PermissionField
  | enabled | isAdmin | allowedTargets | policy | policyName | displayName | email | lastLogin

def SameField (p q : UserPermission) : PermissionField → Prop
  | .enabled => p.enabled = q.enabled
  | .isAdmin => p.isAdmin = q.isAdmin
  | .allowedTargets => p.allowedTargets = q.allowedTargets
  | .policy => p.policy = q.policy
  | .policyName => p.policyName = q.policyName
  | .displayName => p.displayName = q.displayName
  | .email => p.email = q.email
  | .lastLogin => p.lastLogin = q.lastLogin

/-- Two entries, or their absence, agree in a field. -/
def SameAt (f : PermissionField) : Option UserPermission → Option UserPermission → Prop
  | some p, some q => SameField p q f
  | none, none => True
  | _, _ => False

/-- Of what the change from `before` to `after` has written, the list `result` has the same as the
list `now`. -/
def Keeps (before after now result : Table String UserPermission) : Prop :=
  ∀ key f, ¬SameAt f (before key) (after key) → SameAt f (now key) (result key)

/-- A save that names a version and succeeds undoes no change that was made since that version was
current. -/
def SavesKeep (X : Setup) (l : List ListItem) : Prop :=
  ∀ late u s before v cfg', l = late ++ .env (.save u) s :: before → u.version = some v →
    updatePermissions X u s = .ok cfg' →
    ∀ newer e s₁ older, before = newer ++ .env e s₁ :: older →
      (∃ x ∈ .env e s₁ :: older, x.pre.permissionsVersion = v) →
      Keeps s₁.permissions (e.apply X s₁).permissions s.permissions cfg'.permissions

/-- The event raises the version, unless that is the last one. -/
def Raises (X : Setup) (e : ListEvent) (cfg : IntegrationConfig) : Prop :=
  match e with
  | .save u => ∃ cfg', updatePermissions X u cfg = .ok cfg'
  | .enable _ _ _ _ => True
  | _ => False

/-- The list that is sent has the profile and the time of the user as the server has them. -/
def CarriesLogin (sent now : Table String UserPermission) (key : String) : Prop :=
  ∀ f ∈ [PermissionField.displayName, .email, .lastLogin], SameAt f (now key) (sent key)

/-- Where a save sends a list under the current version, it carries what the logins of listed users
wrote while that version was current; and where that version is the last one, nothing has been
saved or switched under it. -/
def Careful (X : Setup) (l : List ListItem) (p : ListPool) : Choice Empty ListEvent → Prop
  | .env (.save u) => ∀ perms, u.version = some p.shared.permissionsVersion →
    u.permissions = some perms → ∀ e s, .env e s ∈ l →
      s.permissionsVersion = p.shared.permissionsVersion →
      (p.shared.permissionsVersion = 2 ^ 64 - 1 → ¬Raises X e s) ∧
      ∀ time username displayName email, e = .login time username displayName email →
        s.permissions (normalizeLookupUsername X username) ≠ none →
        CarriesLogin (collectPermissions X perms) p.shared.permissions
          (normalizeLookupUsername X username)
  | _ => True

/-- Versions are numbers of 64 bits. -/
def VersionFits (cfg : IntegrationConfig) : Prop := cfg.permissionsVersion ≤ 2 ^ 64 - 1

variable {X : Setup} {C : List ListItem → ListPool → Choice Empty ListEvent → Prop}
  {l : List ListItem} {p : ListPool} {cfg : IntegrationConfig} {e : ListEvent}

@[refl] theorem SameAt.refl (f : PermissionField) (p : Option UserPermission) : SameAt f p p := by
  cases p with
  | none => trivial
  | some p => cases f <;> rfl

/-! ## One event -/

/-- An event that raises the version raises it by one, up to the last. -/
theorem version_of_raises (h : Raises X e cfg) :
    (e.apply X cfg).permissionsVersion = nextVersion cfg.permissionsVersion := by
  cases e with
  | save u =>
    obtain ⟨cfg', hcfg⟩ := h
    simp only [ListEvent.apply, hcfg]
    exact (updatePermissions_ok hcfg).2.1
  | enable username enabled displayName email => rfl
  | login time username displayName email => exact h.elim
  | snapshot => exact h.elim
  | readVersion => exact h.elim

/-- The others leave it. -/
theorem version_of_not_raises (h : ¬Raises X e cfg) :
    (e.apply X cfg).permissionsVersion = cfg.permissionsVersion := by
  cases e with
  | save u =>
    cases hcfg : updatePermissions X u cfg with
    | ok cfg' => exact absurd ⟨cfg', hcfg⟩ h
    | error msg => simp only [ListEvent.apply, hcfg]
  | enable username enabled displayName email => exact absurd trivial h
  | login time username displayName email => exact recordLogin_version
  | snapshot => rfl
  | readVersion => rfl

/-- Without raising the version only a login writes, and only the profile and the time of its own
user, who is listed. -/
theorem changed_of_not_raises (h : ¬Raises X e cfg) {key : String} {f : PermissionField}
    (hne : ¬SameAt f (cfg.permissions key) ((e.apply X cfg).permissions key)) :
    ∃ time username displayName email, e = .login time username displayName email ∧
      key = normalizeLookupUsername X username ∧ cfg.permissions key ≠ none ∧
      f ∈ [PermissionField.displayName, .email, .lastLogin] := by
  cases e with
  | save u =>
    cases hcfg : updatePermissions X u cfg with
    | ok cfg' => exact absurd ⟨cfg', hcfg⟩ h
    | error msg =>
      simp only [ListEvent.apply, hcfg] at hne
      exact absurd (SameAt.refl f _) hne
  | enable username enabled displayName email => exact absurd trivial h
  | login time username displayName email =>
    refine ⟨time, username, displayName, email, rfl, ?_⟩
    simp only [ListEvent.apply, recordLogin_permissions] at hne
    by_cases hkey : key = normalizeLookupUsername X username
    · refine ⟨hkey, ?_⟩
      rw [if_pos hkey] at hne
      cases hentry : cfg.permissions key with
      | none =>
        rw [hentry] at hne
        exact absurd (SameAt.refl f none) hne
      | some entry =>
        rw [hentry] at hne
        refine ⟨Option.some_ne_none entry, ?_⟩
        cases f with
        | displayName => simp
        | email => simp
        | lastLogin => simp
        | enabled => exact absurd rfl hne
        | isAdmin => exact absurd rfl hne
        | allowedTargets => exact absurd rfl hne
        | policy => exact absurd rfl hne
        | policyName => exact absurd rfl hne
    · rw [if_neg hkey] at hne
      exact absurd (SameAt.refl f _) hne
  | snapshot => exact absurd (SameAt.refl f _) hne
  | readVersion => exact absurd (SameAt.refl f _) hne

/-! ## Over the runs -/

theorem VersionFits.apply (h : VersionFits cfg) : VersionFits (e.apply X cfg) := by
  unfold VersionFits at *
  by_cases hraises : Raises X e cfg
  · rw [version_of_raises hraises]
    unfold nextVersion
    omega
  · rw [version_of_not_raises hraises]
    exact h

theorem versionFits_run (hr : (userList X).Run VersionFits C l p) : VersionFits p.shared := by
  induction hr using System.Run.induct with
  | hboot s hs => exact hs
  | hstart l p j => exact j.elim
  | hstep l p n j => exact j.elim
  | henv l p e s _ _ hs ih =>
    obtain rfl := Option.some.inj hs
    exact ih.apply
  | hcrash l p _ _ ih => exact ih

/-- The version as a number that no state exceeds, so that no event lessens it. -/
def cappedVersion (cfg : IntegrationConfig) : ℕ := min cfg.permissionsVersion (2 ^ 64 - 1)

theorem cappedVersion_le {p p' : ListPool} {c : Choice Empty ListEvent} {i : ListItem}
    (h : (userList X).advance p c = some (i, p')) :
    cappedVersion p.shared ≤ cappedVersion p'.shared := by
  rw [System.advance_post h, ← System.advance_pre h]
  cases i with
  | start n j s => exact j.elim
  | step n j past o s => exact j.elim
  | crash s => exact Nat.le_refl _
  | env e s =>
    change cappedVersion s ≤ cappedVersion (e.apply X s)
    unfold cappedVersion
    by_cases hraises : Raises X e s
    · rw [version_of_raises hraises]
      unfold nextVersion
      omega
    · rw [version_of_not_raises hraises]

/-- What happened since the version of a later item was current happened while it was. -/
theorem version_between {i j x : ListItem} {newer older : List ListItem} {late : List ListItem}
    (hr : (userList X).Run VersionFits C l p) (hl : l = late ++ i :: (newer ++ j :: older))
    (hx : x ∈ j :: older) (hversion : x.pre.permissionsVersion = i.pre.permissionsVersion) :
    j.pre.permissionsVersion = i.pre.permissionsVersion := by
  have hi : (i :: (newer ++ j :: older)) <:+ l := ⟨late, hl.symm⟩
  have hj : (j :: older) <:+ l := ⟨late ++ i :: newer, by simp [hl]⟩
  have hfits : ∀ {y : ListItem} {b}, (y :: b) <:+ l → VersionFits y.pre := by
    intro y b hs
    obtain ⟨q, -, -, hq, -, -, -, hpre⟩ := hr.before y b hs
    exact hpre ▸ versionFits_run hq
  have hle : cappedVersion j.pre ≤ cappedVersion i.pre :=
    hr.pre_le (fun _ _ _ _ => cappedVersion_le) hi (by simp)
  have hge : cappedVersion x.pre ≤ cappedVersion j.pre := by
    obtain rfl | hx := List.mem_cons.1 hx
    · exact Nat.le_refl _
    · exact hr.pre_le (fun _ _ _ _ => cappedVersion_le) hj hx
  have hif := hfits hi
  have hjf := hfits hj
  unfold cappedVersion VersionFits at *
  omega

/-- An event that raised the version was not made while a later version was current. -/
theorem not_raises_between {i : ListItem} {e : ListEvent} {s : IntegrationConfig}
    {late before : List ListItem} (hr : (userList X).Run VersionFits C l p)
    (hl : l = late ++ i :: before) (hmem : .env e s ∈ before)
    (hversion : s.permissionsVersion = i.pre.permissionsVersion)
    (hlast : i.pre.permissionsVersion = 2 ^ 64 - 1 → ¬Raises X e s) : ¬Raises X e s := by
  intro hraises
  have hi : (i :: before) <:+ l := ⟨late, hl.symm⟩
  obtain ⟨q, -, -, hq, -, -, -, hpre⟩ := hr.before i before hi
  have hfits : VersionFits i.pre := hpre ▸ versionFits_run hq
  have hne : i.pre.permissionsVersion ≠ 2 ^ 64 - 1 := fun h => hlast h hraises
  have hle : cappedVersion s + 1 ≤ cappedVersion i.pre := by
    refine hr.pre_add_le (fun _ _ _ _ => cappedVersion_le) hi hmem ?_
    intro p c p' ha
    rw [System.advance_post ha]
    change cappedVersion s + 1 ≤ cappedVersion (e.apply X s)
    unfold cappedVersion VersionFits at *
    rw [version_of_raises hraises]
    unfold nextVersion
    omega
  unfold cappedVersion VersionFits at *
  omega

/-- In a run whose saves carry what the logins wrote, no save undoes a change that was made since
its version was current. -/
theorem saves_keep (X : Setup) (l : List ListItem) (p : ListPool)
    (hr : (userList X).Run VersionFits (Careful X) l p) : SavesKeep X l := by
  rintro late u s before v cfg' hl hv hok newer e s₁ older rfl ⟨x, hx, hxv⟩ key f hne
  obtain ⟨hcurrent, -, hlist⟩ := updatePermissions_ok hok
  obtain rfl := hcurrent v hv
  rw [hlist]
  cases hperms : u.permissions with
  | none => exact SameAt.refl f _
  | some perms =>
    have hmem : Item.env e s₁ ∈ newer ++ .env e s₁ :: older := by simp
    have hversion : s₁.permissionsVersion = s.permissionsVersion :=
      version_between hr hl hx hxv
    obtain ⟨q, c, q', hq, hc, ha, -, hpre⟩ := hr.before _ _ ⟨late, hl.symm⟩
    obtain rfl : c = .env (.save u) := System.advance_choice ha
    have hpre : q.shared = s := hpre
    obtain ⟨hlast, hcarries⟩ := hc perms (hpre ▸ hv) hperms e s₁ hmem (hpre ▸ hversion)
    rw [hpre] at hlast hcarries
    obtain ⟨time, username, displayName, email, rfl, rfl, hlisted, hf⟩ :=
      changed_of_not_raises (not_raises_between hr hl hmem hversion hlast) hne
    exact hcarries _ _ _ _ rfl hlisted f hf

namespace Sample

abbrev server : Setup := NemoServer.Sample.setup .offer false

def carol (enabled : Bool) (lastLogin : String) : UserPermission :=
  ⟨enabled, false, ["*"], ⟨false, []⟩, none, "", "", lastLogin⟩

/-- A list of one user, of version 1. -/
def carolListed : IntegrationConfig :=
  { NemoServer.Sample.config [] with permissions := Table.empty.insert "carol" (carol true "") }

/-- A save of that user, loaded under version 1. -/
def carolSave (p : UserPermission) : PermissionsUpdate :=
  ⟨some 1, some [("carol", p)], none, none, none, none⟩

def carolLogin : ListEvent := .login "1000" "carol" "" ""

theorem carol_name : normalizeLookupUsername server "carol" = "carol" := by decide +kernel

theorem carol_collect (p : UserPermission) (hp : p.allowedTargets = ["*"]) :
    collectPermissions server [("carol", p)] = Table.empty.insert "carol" p := by
  have htargets : normalizeTargets ["*"] = ["*"] := by decide +kernel
  simp only [collectPermissions, List.foldl_cons, List.foldl_nil, carol_name, hp, htargets]
  rw [← hp]

theorem carol_logged : (carolLogin.apply server carolListed).permissions "carol" =
    some (carol true "1000") := by
  simp only [carolLogin, ListEvent.apply, recordLogin_permissions, carol_name, if_true]
  rfl

/-- The login, as a run. -/
theorem carol_run {C : List ListItem → ListPool → Choice Empty ListEvent → Prop}
    (hC : C [] (System.boot carolListed) (.env carolLogin)) :
    (userList server).Run VersionFits C [.env carolLogin carolListed]
      ⟨carolLogin.apply server carolListed, fun _ => none, 0⟩ := by
  have hfits : VersionFits carolListed := by
    unfold VersionFits
    decide
  exact (System.Run.boot hfits).next hC rfl

end Sample

/-- The page is loaded after the login, and the save that disables the user keeps its time. -/
theorem saves_keep_reloaded : ∃ cfg', SavesKeep Sample.server
    [.env (.save (Sample.carolSave (Sample.carol false "1000"))) cfg',
      .env Sample.carolLogin Sample.carolListed] := by
  have hrun := Sample.carol_run (C := Careful Sample.server) trivial
  refine ⟨_, saves_keep _ _ _ (hrun.next (c := .env (.save _)) ?_ rfl)⟩
  rintro perms - hperms e s hmem -
  obtain rfl := Option.some.inj hperms
  obtain ⟨rfl, rfl⟩ := Item.env.inj (List.mem_singleton.1 hmem)
  refine ⟨fun _ hraises => hraises, ?_⟩
  rintro time username displayName email heq -
  cases heq
  intro f hf
  rw [Sample.carol_name, Sample.carol_logged, Sample.carol_collect _ rfl]
  simp only [List.mem_cons, List.not_mem_nil, or_false] at hf
  obtain rfl | rfl | rfl := hf
  · rfl
  · rfl
  · rfl

/-- A save of a page that was loaded before a login takes back what the login wrote. -/
theorem not_saves_keep : ¬∀ (X : Setup) (l : List ListItem) (p : ListPool),
    (userList X).Run VersionFits System.Free l p → SavesKeep X l := by
  intro h
  have hrun := Sample.carol_run (C := System.Free) trivial
  have hsave := hrun.next (c := .env (.save (Sample.carolSave (Sample.carol true "")))) trivial rfl
  have hversion : ∀ v, (Sample.carolSave (Sample.carol true "")).version = some v →
      v = (Sample.carolLogin.apply Sample.server Sample.carolListed).permissionsVersion :=
    fun v hv => (Option.some.inj hv).symm
  obtain ⟨cfg', hok⟩ := updatePermissions_isOk (X := Sample.server) hversion
  have hkept := h _ _ _ hsave [] _ _ _ 1 cfg' rfl rfl hok [] _ _ [] rfl ⟨_, List.mem_cons_self, rfl⟩ "carol"
    .lastLogin
  rw [Sample.carol_logged, (updatePermissions_ok hok).2.2] at hkept
  have hlost := hkept (by simp [SameAt, SameField, Sample.carolListed, Sample.carol])
  simp only [Sample.carolSave, Option.map_some, Option.getD_some,
    Sample.carol_collect (Sample.carol true "") rfl] at hlost
  change "1000" = "" at hlost
  exact absurd hlost (by decide)

end Integration

end NemoServer
