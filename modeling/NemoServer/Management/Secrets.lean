import NemoServer.Foundations.Lockstep
import NemoServer.Management.ClientPolicy

/-!
# Secrets in policies

The options whose values are secret (`SECRET_POLICY_KEYS`), and what is left of a policy without
them. `Alike V` relates two policies with the same options, equal but for the values of secrets,
which are related by `V`; `AlikeServer` relates two states that differ in nothing but the policies
they store, in all five places, and these only so. Most operations do not look at the policies
stored (`Unlooking`), so they answer alike in two such states.
-/

set_option autoImplicit false

namespace NemoServer

namespace Management

/-! ## Options that are not secret -/

def isPublic (o : String × String) : Bool := !secretPolicyKeys.contains o.1

/-- The options that are not secret. -/
def publicOptions (options : List (String × String)) : List (String × String) :=
  options.filter isPublic

theorem isPublic_iff {o : String × String} : isPublic o = true ↔ o.1 ∉ secretPolicyKeys := by
  simp [isPublic]

theorem publicOptions_removeOption (key : String) (options : List (String × String)) :
    publicOptions (removeOption key options) = removeOption key (publicOptions options) := by
  unfold publicOptions removeOption
  rw [List.filter_filter, List.filter_filter]
  exact List.filter_congr fun o _ => Bool.and_comm _ _

theorem publicOptions_insertOption {key : String} (hkey : key ∉ secretPolicyKeys) (value : String)
    (options : List (String × String)) :
    publicOptions (insertOption key value options) =
      insertOption key value (publicOptions options) := by
  have hrest := publicOptions_removeOption key options
  unfold publicOptions removeOption at hrest
  unfold insertOption publicOptions
  rw [List.filter_cons_of_pos (isPublic_iff.2 hkey), hrest]

/-- A secret that is set shows nowhere else. -/
theorem publicOptions_insertOption_secret {key : String} (hkey : key ∈ secretPolicyKeys)
    (value : String) (options : List (String × String)) :
    publicOptions (insertOption key value options) = publicOptions options := by
  unfold insertOption publicOptions
  rw [List.filter_cons_of_neg (by rw [isPublic_iff]; exact not_not_intro hkey), List.filter_filter]
  refine List.filter_congr fun o _ => ?_
  by_cases ho : isPublic o = true
  · have hne : o.1 ≠ key := by
      rintro rfl
      exact isPublic_iff.1 ho hkey
    simp [ho, hne]
  · simp [ho]

theorem lookup_publicOptions {key : String} (hkey : key ∉ secretPolicyKeys)
    (options : List (String × String)) :
    (publicOptions options).lookup key = options.lookup key := by
  induction options with
  | nil => rfl
  | cons o options ih =>
    unfold publicOptions at ih ⊢
    by_cases ho : isPublic o = true
    · rw [List.filter_cons_of_pos ho, List.lookup_cons, List.lookup_cons, ih]
    · have hne : (key == o.1) = false := by
        rw [beq_eq_false_iff_ne]
        rintro rfl
        exact ho (isPublic_iff.2 hkey)
      rw [List.filter_cons_of_neg ho, List.lookup_cons, hne, ih]

theorem publicOptions_orInsertOption {key : String} (hkey : key ∉ secretPolicyKeys)
    (value : String) (options : List (String × String)) :
    publicOptions (orInsertOption key value options) =
      orInsertOption key value (publicOptions options) := by
  unfold orInsertOption
  rw [lookup_publicOptions hkey]
  split
  · rfl
  · exact publicOptions_insertOption hkey value options

theorem publicOptions_extendOptions (options more : List (String × String)) :
    publicOptions (extendOptions options more) =
      extendOptions (publicOptions options) (publicOptions more) := by
  unfold extendOptions
  induction more generalizing options with
  | nil => rfl
  | cons o more ih =>
    rw [List.foldl_cons, ih]
    by_cases ho : isPublic o = true
    · rw [publicOptions_insertOption (isPublic_iff.1 ho)]
      simp [publicOptions, ho]
    · have hkey : o.1 ∈ secretPolicyKeys := by
        by_contra hkey
        exact ho (isPublic_iff.2 hkey)
      rw [publicOptions_insertOption_secret hkey]
      simp [publicOptions, ho]

theorem publicOptions_applyApiTlsDefaults (options : List (String × String))
    (info : Option TlsCertInfo) :
    publicOptions (applyApiTlsDefaults options info) =
      applyApiTlsDefaults (publicOptions options) info := by
  unfold applyApiTlsDefaults
  cases info with
  | none => rfl
  | some info =>
    dsimp only
    split
    · exact publicOptions_orInsertOption (by decide) _ _
    · split
      · exact publicOptions_orInsertOption (by decide) _ _
      · rfl

theorem publicOptions_insertLists (X : Setup) (lists : PolicyLists)
    (options : List (String × String)) :
    publicOptions (insertLists X lists options) = insertLists X lists (publicOptions options) := by
  have hinsert : ∀ (c : Prop) [Decidable c] (key value : String) (options : List (String × String)),
      key ∉ secretPolicyKeys → publicOptions (if c then options else insertOption key value options) =
        if c then publicOptions options else insertOption key value (publicOptions options) := by
    intro c _ key value options hkey
    split
    · rfl
    · exact publicOptions_insertOption hkey value options
  unfold insertLists
  dsimp only
  rw [hinsert _ _ _ _ (by decide), hinsert _ _ _ _ (by decide), hinsert _ _ _ _ (by decide)]

theorem publicOptions_sanitize (X : Setup) (policy : ManagementPolicy) :
    publicOptions (sanitizeManagementPolicy X policy).options =
      (sanitizeManagementPolicy X { policy with options := publicOptions policy.options }).options := by
  unfold sanitizeManagementPolicy publicOptions
  dsimp only
  induction policy.options with
  | nil => rfl
  | cons o options ih =>
    rw [List.filterMap_cons]
    by_cases ho : isPublic o = true
    · rw [List.filter_cons_of_pos ho, List.filterMap_cons]
      cases hvalue : sanitizeManagementPolicyValue X o.1 o.2 with
      | none => exact ih
      | some value =>
        have hpublic : isPublic (o.1, value) = true := ho
        dsimp only [Option.map_some]
        rw [List.filter_cons_of_pos hpublic, ih]
    · rw [List.filter_cons_of_neg ho, ← ih]
      cases hvalue : sanitizeManagementPolicyValue X o.1 o.2 with
      | none => rfl
      | some value => exact List.filter_cons_of_neg ho

/-- Stripping leaves exactly the options that are not secret. -/
theorem stripSecretOptions_options (policy : ManagementPolicy) :
    (stripSecretOptions policy).options = publicOptions policy.options := by
  unfold stripSecretOptions withOptions publicOptions
  have hfold : ∀ (keys : List String) (options : List (String × String)),
      keys.foldl (fun os key => removeOption key os) options =
        options.filter fun o => !keys.contains o.1 := by
    intro keys
    induction keys with
    | nil => simp
    | cons key keys ih =>
      intro options
      rw [List.foldl_cons, ih, removeOption, List.filter_filter]
      refine List.filter_congr fun o _ => ?_
      by_cases ho : o.1 = key <;> simp [ho]
  exact hfold _ _

/-! ## Policies that are alike -/

/-- Options of one name, with one value unless the name is that of a secret. -/
structure AlikeOption (V : String → String → Prop) (o o' : String × String) : Prop where
  key : o.1 = o'.1
  value : o.1 ∉ secretPolicyKeys → o.2 = o'.2
  secret : o.1 ∈ secretPolicyKeys → V o.2 o'.2

abbrev AlikeOptions (V : String → String → Prop) := List.Forall₂ (AlikeOption V)

/-- Policies with the same options, equal but for the values of secrets. -/
structure Alike (V : String → String → Prop) (policy policy' : ManagementPolicy) : Prop where
  override : policy.allowUserOverride = policy'.allowUserOverride
  options : AlikeOptions V policy.options policy'.options

/-- The same for the policies of users. -/
structure AlikeManaged (V : String → String → Prop) (policy policy' : UserManagedPolicy) :
    Prop where
  override : policy.allowUserOverride = policy'.allowUserOverride
  options : AlikeOptions V policy.options policy'.options

structure AlikeUser (V : String → String → Prop) (p p' : UserPermission) : Prop where
  policy : AlikeManaged V p.policy p'.policy
  rest : p' = { p with policy := p'.policy }

/-- Rows whose policies are related by `T` as they are read. -/
structure AlikeRow (X : Setup) (T : Option String → Option String → Prop) (r r' : Row) : Prop where
  policy : T (Database.registeredPeerFromRow X r).managementPolicy
    (Database.registeredPeerFromRow X r').managementPolicy
  rest : r' = { r with managementPolicy := r'.managementPolicy }

/-- Policies with the same options that are not secret. -/
structure SamePublic (policy policy' : ManagementPolicy) : Prop where
  override : policy.allowUserOverride = policy'.allowUserOverride
  options : publicOptions policy.options = publicOptions policy'.options

section

variable {V : String → String → Prop}

theorem AlikeOptions.publicOptions {options options' : List (String × String)}
    (h : AlikeOptions V options options') : publicOptions options = publicOptions options' := by
  induction h with
  | nil => rfl
  | @cons o o' options options' ho _ ih =>
    unfold Management.publicOptions at ih ⊢
    by_cases hkey : o.1 ∈ secretPolicyKeys
    · rw [List.filter_cons_of_neg (by rw [isPublic_iff]; exact not_not_intro hkey),
        List.filter_cons_of_neg (by rw [isPublic_iff, ← ho.key]; exact not_not_intro hkey), ih]
    · have heq : o = o' := Prod.ext ho.key (ho.value hkey)
      rw [← heq, List.filter_cons_of_pos (isPublic_iff.2 hkey),
        List.filter_cons_of_pos (isPublic_iff.2 hkey), ih]

theorem Alike.samePublic {policy policy' : ManagementPolicy} (h : Alike V policy policy') :
    SamePublic policy policy' := ⟨h.override, h.options.publicOptions⟩

end

theorem SamePublic.withOptions {policy policy' : ManagementPolicy} (h : SamePublic policy policy')
    {f : List (String × String) → List (String × String)}
    (hf : ∀ options, publicOptions (f options) = f (publicOptions options)) :
    SamePublic (withOptions policy f) (withOptions policy' f) := by
  refine ⟨h.override, ?_⟩
  change publicOptions (f policy.options) = publicOptions (f policy'.options)
  rw [hf, hf, h.options]

theorem SamePublic.lookup {policy policy' : ManagementPolicy} (h : SamePublic policy policy')
    {key : String} (hkey : key ∉ secretPolicyKeys) :
    policy.options.lookup key = policy'.options.lookup key := by
  rw [← lookup_publicOptions hkey policy.options, h.options, lookup_publicOptions hkey]

/-- One policy over another. -/
theorem SamePublic.extend {policy policy' : ManagementPolicy} (h : SamePublic policy policy')
    {b b' : Bool} {more more' : List (String × String)} (hb : b = b')
    (hmore : publicOptions more = publicOptions more') :
    SamePublic ⟨policy.allowUserOverride || b, extendOptions policy.options more⟩
      ⟨policy'.allowUserOverride || b', extendOptions policy'.options more'⟩ := by
  refine ⟨by rw [h.override, hb], ?_⟩
  rw [publicOptions_extendOptions, publicOptions_extendOptions, h.options, hmore]

/-- What is stripped of its secrets is the same. -/
theorem SamePublic.strip {policy policy' : ManagementPolicy} (h : SamePublic policy policy') :
    stripSecretOptions policy = stripSecretOptions policy' := by
  have hoptions : (stripSecretOptions policy).options = (stripSecretOptions policy').options := by
    rw [stripSecretOptions_options, stripSecretOptions_options, h.options]
  have hoverride : (stripSecretOptions policy).allowUserOverride =
      (stripSecretOptions policy').allowUserOverride := h.override
  cases hp : stripSecretOptions policy
  cases hp' : stripSecretOptions policy'
  simp_all

/-! ## States that are alike -/

/-- The policies a server stores. -/
structure PolicyStore where
  global : ManagementPolicy
  admin : UserManagedPolicy
  named : Table String UserManagedPolicy
  users : Table String UserPermission
  rows : List Row

structure AlikeStore (X : Setup) (V : String → String → Prop)
    (T : Option String → Option String → Prop) (d d' : PolicyStore) : Prop where
  global : Alike V d.global d'.global
  admin : AlikeManaged V d.admin d'.admin
  named : ∀ name, Option.Rel (AlikeManaged V) (d.named name) (d'.named name)
  users : ∀ user, Option.Rel (AlikeUser V) (d.users user) (d'.users user)
  rows : List.Forall₂ (AlikeRow X T) d.rows d'.rows

end Management

namespace Server

open Management

def policyStore (s : Server) : PolicyStore :=
  ⟨s.api.globalPolicy, s.cfg.adminPolicy, s.cfg.policies, s.cfg.permissions, s.db⟩

/-- The state with other policies stored. -/
def withStore (s : Server) (d : PolicyStore) : Server :=
  { s with
    db := d.rows
    cfg := { s.cfg with adminPolicy := d.admin, policies := d.named, permissions := d.users }
    api := { s.api with globalPolicy := d.global } }

variable (s : Server) (d : PolicyStore)

@[simp] theorem clock_withStore : (s.withStore d).clock = s.clock := rfl

@[simp] theorem sessions_withStore : (s.withStore d).sessions = s.sessions := rfl

@[simp] theorem dbUp_withStore : (s.withStore d).dbUp = s.dbUp := rfl

@[simp] theorem deviceKeys_withStore : (s.withStore d).cfg.deviceKeys = s.cfg.deviceKeys := rfl

@[simp] theorem pendingClaims_withStore :
    (s.withStore d).cfg.pendingDeviceKeyClaims = s.cfg.pendingDeviceKeyClaims := rfl

end Server

namespace Management

/-- States that differ in the policies they store, and these only in the values of secrets. -/
def AlikeServer (X : Setup) (V : String → String → Prop)
    (T : Option String → Option String → Prop) (s s' : Server) : Prop :=
  ∃ d, s' = s.withStore d ∧ AlikeStore X V T s.policyStore d

/-- An operation that does not look at the policies stored, and does not change them. -/
structure Unlooking (X : Setup) (o : Op) : Prop where
  answer : ∀ s d, (o.sem X (s.withStore d)).1 = (o.sem X s).1
  state : ∀ s d, (o.sem X (s.withStore d)).2 = (o.sem X s).2.withStore d
  store : ∀ s, (o.sem X s).2.policyStore = s.policyStore

section

variable {X : Setup} {V : String → String → Prop} {T : Option String → Option String → Prop}

theorem Unlooking.blind {o : Op} (ho : Unlooking X o) :
    Prog.Blind (Op.sem X) (AlikeServer X V T) o := by
  rintro s _ ⟨d, rfl, hd⟩
  refine ⟨(ho.answer s d).symm, d, ho.state s d, ?_⟩
  rw [ho.store]
  exact hd

end

end Management

end NemoServer
