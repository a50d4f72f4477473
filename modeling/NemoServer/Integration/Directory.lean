import NemoServer.Integration.Ldap

/-!
# A directory and its accounts

What a login is judged against: accounts under distinguished names, whatever names they carry, and
a server whose answers are truthful about them. A bind proves the password of the account its name
stands for; a search answers with entries of accounts, whichever the filter happens to select; the
server may answer RFC 4532 or refuse to.
-/

set_option autoImplicit false

namespace NemoServer

open Str Integration

structure Account where
  dn : String
  attrs : Attrs
  password : String

/-- The connection of a client: how many it has opened, and as whom the last is bound. -/
structure LdapSession where
  connections : ℕ
  boundAs : Option String
  deriving DecidableEq

/-- A directory server: what it holds, what the names in use stand for, and how it answers. -/
structure Directory where
  accounts : List Account
  /-- The account at a distinguished name. -/
  entryAt : String → Option Account
  /-- The account the name of a bind stands for. -/
  resolve : String → Option Account
  /-- The account a user string of RFC 4532 stands for. -/
  userString : String → Option Account
  connects : ℕ → TlsConnector → String → Except String Unit
  binds : ℕ → String → String → LdapReply Unit
  searches : Option String → String → Scope → String → List String → LdapReply (List SearchEntry)
  whoAmI : Option String → LdapReply (Option Bytes)

/-- The entry of an account, with the attributes asked for. -/
def Account.entry (a : Account) (attrList : List String) : SearchEntry :=
  ⟨a.dn, a.attrs.filter fun kv => kv.1 ∈ attrList⟩

/-- The name an account is known by. -/
def Account.canonicalName (X : Setup) (a : Account) : String := canonicalUsername X a.attrs ""

theorem lookup_entry {a : Account} {names : List String} {key : String} (hkey : key ∈ names) :
    (a.entry names).attrs.lookup key = a.attrs.lookup key := by
  have hlookup : ∀ attrs : Attrs,
      (attrs.filter fun kv => kv.1 ∈ names).lookup key = attrs.lookup key := by
    intro attrs
    induction attrs with
    | nil => rfl
    | cons kv attrs ih =>
      obtain ⟨k, vs⟩ := kv
      by_cases hk : k ∈ names
      · rw [List.filter_cons_of_pos (by simpa using hk), List.lookup_cons, List.lookup_cons, ih]
      · have hne : (key == k) = false := by
          rw [beq_eq_false_iff_ne]
          rintro rfl
          exact hk hkey
        rw [List.filter_cons_of_neg (by simpa using hk), ih, List.lookup_cons, hne]
  exact hlookup a.attrs

/-- An entry read by a login stands under the name of its account. -/
theorem canonicalUsername_entry (X : Setup) (a : Account) :
    canonicalUsername X (a.entry attrList).attrs "" = a.canonicalName X := by
  unfold Account.canonicalName canonicalUsername firstAttr
  rw [lookup_entry (by decide), lookup_entry (by decide), lookup_entry (by decide)]

namespace Directory

variable (D : Directory)

/-- The identity reported for a connection bound as `name`. -/
def confirmed (name : String) : Option AuthzId :=
  match D.whoAmI (some name) with
  | .success (some raw) => (fromUtf8 raw).bind parseAuthzid
  | _ => none

/-- The one entry a subtree search on such a connection selects. -/
def uniqueMatch (name base filter : String) : Option SearchEntry :=
  match D.searches (some name) base .subtree filter attrList with
  | .success [se] => some se
  | _ => none

/-- The profile of a reported name: the one entry found under it, if that entry agrees. -/
def profile (X : Setup) (cfg : LdapConfig) (principal reported : String) : Option SearchEntry :=
  if trim cfg.baseDn = "" then none
  else (D.uniqueMatch principal (trim cfg.baseDn)
      (buildSearchFilter cfg.userSearchFilter reported cfg.windowsDomain)).filter fun se =>
    canonicalUsername X se.attrs (normalizeLookupUsername X reported) =
      normalizeLookupUsername X reported

/-- The answers are true of the accounts. -/
structure Truthful : Prop where
  own_dn : ∀ a ∈ D.accounts, D.entryAt a.dn = some a
  /-- A distinguished name stands for its account in a bind too. -/
  resolve_dn : ∀ {d a}, D.entryAt d = some a → D.resolve d = some a
  bind_proves : ∀ {n name password}, password ≠ "" → D.binds n name password = .success () →
    ∃ a ∈ D.accounts, D.resolve name = some a ∧ a.password = password
  search_entries : ∀ {as base scope filter names es},
    D.searches as base scope filter names = .success es → ∀ e ∈ es, ∃ a ∈ D.accounts,
      e = a.entry names ∧ (scope = .base → D.entryAt base = some a)
  confirmed_dn : ∀ {name a d}, D.resolve name = some a → D.confirmed name = some (.dn d) →
    D.entryAt d = some a
  confirmed_user : ∀ {name a u}, D.resolve name = some a → D.confirmed name = some (.user u) →
    D.userString u = some a

/-- The answer to a request. -/
def sem : (o : LdapOp) → LdapSession → o.Res × LdapSession
  | .connect connector url, s =>
    (D.connects s.connections connector url, ⟨s.connections + 1, none⟩)
  | .simpleBind name password, s =>
    match D.binds s.connections name password with
    | .success () => (.success (), { s with boundAs := some name })
    | .failed e => (.failed e, s)
    | .rejected e => (.rejected e, s)
  | .search base scope filter names, s => (D.searches s.boundAs base scope filter names, s)
  | .whoAmI, s => (D.whoAmI s.boundAs, s)
  | .unbind, s => ((), s)

/-- The name and the password of the last bind that succeeded. -/
def lastBind : List (Call LdapOp LdapSession) → Option (String × String)
  | [] => none
  | ⟨.simpleBind name password, s⟩ :: h =>
    match D.binds s.connections name password with
    | .success () => some (name, password)
    | _ => lastBind h
  | _ :: h => lastBind h

/-- The part of a login returns `a`, with these requests made and this session. -/
abbrev Returns {α : Type} (p : Login α) (h : List (Call LdapOp LdapSession)) (s : LdapSession)
    (a : α) (h' : List (Call LdapOp LdapSession)) (s' : LdapSession) : Prop :=
  Prog.Returns D.sem (fun _ s => s) p h s a h' s'

variable {D}

theorem profile_agrees {X : Setup} {cfg : LdapConfig} {principal reported : String}
    {se : SearchEntry} (h : D.profile X cfg principal reported = some se) :
    canonicalUsername X se.attrs (normalizeLookupUsername X reported) =
      normalizeLookupUsername X reported := by
  unfold profile at h
  split at h
  · cases h
  · simpa using (Option.filter_eq_some_iff.1 h).2

section Requests

variable {α : Type} {h h' : List (Call LdapOp LdapSession)} {s s' : LdapSession}

theorem returns_request_bind {o : LdapOp} {f : o.Res → Login α} {a : α} :
    D.Returns (request o >>= f) h s a h' s' ↔
      D.Returns (f (D.sem o s).1) (⟨o, s⟩ :: h) (D.sem o s).2 a h' s' := Iff.rfl

@[simp] theorem not_returns_refuse {reason : String} {a : α} :
    ¬ D.Returns (refuse reason) h s a h' s' := by
  intro hret
  cases hret

@[simp] theorem returns_liftExcept {r : Except String α} {a : α} :
    D.Returns (liftExcept r) h s a h' s' ↔ r = .ok a ∧ h = h' ∧ s = s' := by
  cases r with
  | error e =>
    constructor
    · intro hret
      cases hret
    · rintro ⟨hr, -⟩
      cases hr
  | ok b =>
    change ((Except.ok b, h, s) :
      Except String α × List (Call LdapOp LdapSession) × LdapSession) = _ ↔ _
    simp

theorem returns_bindAs {connector : TlsConnector} {cfg : LdapConfig}
    {name password failed : String} {rejected : String → String} :
    D.Returns (bindAs connector cfg name password failed rejected) h s () h' s' ↔
      D.connects s.connections connector (trim cfg.serverUrl) = .ok () ∧
      D.binds (s.connections + 1) name password = .success () ∧
      ⟨.simpleBind name password, ⟨s.connections + 1, none⟩⟩ ::
        ⟨.connect connector (trim cfg.serverUrl), s⟩ :: h = h' ∧
      ⟨s.connections + 1, some name⟩ = s' := by
  unfold bindAs
  rw [returns_request_bind]
  simp only [sem]
  rcases D.connects s.connections connector (trim cfg.serverUrl) with e | ⟨⟩
  · simp
  · simp only [true_and]
    rw [returns_request_bind]
    simp only [sem]
    rcases D.binds (s.connections + 1) name password with e | e | ⟨⟩
    · simp
    · simp
    · simp

theorem returns_searchOne {base filter : String} {scope : Scope} {r : Option SearchEntry} :
    D.Returns (searchOne base scope filter attrList) h s r h' s' ↔
      (match D.searches s.boundAs base scope filter attrList with
        | .success [se] => some se
        | _ => none) = r ∧
      ⟨.search base scope filter attrList, s⟩ :: h = h' ∧ s = s' := by
  unfold searchOne
  rw [returns_request_bind]
  simp only [sem]
  split
  · next hone => simp [hone]
  · simp

theorem returns_ldapWhoami {name : String} (hs : s.boundAs = some name) {r : Option AuthzId} :
    D.Returns ldapWhoami h s r h' s' ↔ D.confirmed name = r ∧ ⟨.whoAmI, s⟩ :: h = h' ∧ s = s' := by
  unfold ldapWhoami confirmed
  rw [returns_request_bind]
  simp only [sem, hs]
  split
  · next hanswer => simp [hanswer]
  · simp

variable (D) in
/-- The part of a login returns `a`, and the last bind that succeeded is `l`. -/
def Ends (p : Login α) (h : List (Call LdapOp LdapSession)) (s : LdapSession) (a : α)
    (l : Option (String × String)) : Prop :=
  ∃ h' s', D.Returns p h s a h' s' ∧ D.lastBind h' = l

variable {l : Option (String × String)} {a : α}

@[simp] theorem ends_pure {b : α} : D.Ends (pure b) h s a l ↔ b = a ∧ D.lastBind h = l := by
  unfold Ends
  constructor
  · rintro ⟨h', s', hret, hl⟩
    obtain ⟨hb, rfl, rfl⟩ := Prog.returns_pure.1 hret
    exact ⟨hb, hl⟩
  · rintro ⟨hb, hl⟩
    exact ⟨h, s, Prog.returns_pure.2 ⟨hb, rfl, rfl⟩, hl⟩

@[simp] theorem not_ends_throw {e : String} : ¬ D.Ends (throw e) h s a l := by
  rintro ⟨h', s', hret, -⟩
  exact Prog.not_returns_throw hret

@[simp] theorem not_ends_refuse {reason : String} : ¬ D.Ends (refuse reason) h s a l := by
  rintro ⟨h', s', hret, -⟩
  exact not_returns_refuse hret

theorem ends_request_bind {o : LdapOp} {f : o.Res → Login α} :
    D.Ends (request o >>= f) h s a l ↔ D.Ends (f (D.sem o s).1) (⟨o, s⟩ :: h) (D.sem o s).2 a l :=
  Iff.rfl

theorem ends_bind {β : Type} {p : Login β} {f : β → Login α} :
    D.Ends (p >>= f) h s a l ↔
      ∃ b h₁ s₁, D.Returns p h s b h₁ s₁ ∧ D.Ends (f b) h₁ s₁ a l := by
  unfold Ends
  constructor
  · rintro ⟨h', s', hret, hl⟩
    obtain ⟨b, h₁, s₁, hp, hf⟩ := Prog.returns_bind.1 hret
    exact ⟨b, h₁, s₁, hp, h', s', hf, hl⟩
  · rintro ⟨b, h₁, s₁, hp, h', s', hf, hl⟩
    exact ⟨h', s', Prog.returns_bind.2 ⟨b, h₁, s₁, hp, hf⟩, hl⟩

@[simp] theorem lastBind_simpleBind {n : ℕ} {as : Option String} {name password : String}
    (hb : D.binds n name password = .success ()) :
    D.lastBind (⟨.simpleBind name password, ⟨n, as⟩⟩ :: h) = some (name, password) := by
  simp [lastBind, hb]

end Requests

/-! ## What a login finds out -/

section Found

variable {X : Setup} {cfg : LdapConfig} {h h' : List (Call LdapOp LdapSession)}
  {s s' : LdapSession} {found : Found}

variable (D X cfg) in
/-- What a login bound as `principal` takes itself to be. -/
def Identifies (username principal : String) (found : Found) : Prop :=
  match D.confirmed principal with
  | some (.dn d) =>
    ∃ se, D.searches (some principal) d .base "(objectClass=*)" attrList = .success [se] ∧
      se.attrs ≠ [] ∧ found = ⟨d, se.attrs, ""⟩
  | some (.user u) =>
    found = match D.profile X cfg principal u with
      | some se => ⟨se.dn, se.attrs, normalizeLookupUsername X u⟩
      | none => ⟨"", [], normalizeLookupUsername X u⟩
  | none =>
    trim cfg.baseDn ≠ "" ∧ ∃ se, D.uniqueMatch principal (trim cfg.baseDn)
        (buildSearchFilter cfg.userSearchFilter username cfg.windowsDomain) = some se ∧
      canonicalUsername X se.attrs "" = normalizeLookupUsername X principal ∧
      normalizeLookupUsername X principal ≠ "" ∧ found = ⟨se.dn, se.attrs, ""⟩

theorem ends_confirmedDn {d : String} {l : Option (String × String)} :
    D.Ends (confirmedDn d) h s found l ↔ D.lastBind h = l ∧
      ∃ se, D.searches s.boundAs d .base "(objectClass=*)" attrList = .success [se] ∧
        se.attrs ≠ [] ∧ found = ⟨d, se.attrs, ""⟩ := by
  unfold confirmedDn
  simp only [ends_bind, returns_searchOne]
  constructor
  · rintro ⟨r, _, _, ⟨hr, rfl, rfl⟩, hends⟩
    cases r with
    | none => exact absurd hends not_ends_refuse
    | some se =>
      split at hr
      · next hone =>
        cases hr
        simp only at hends
        split at hends
        · exact absurd hends not_ends_refuse
        · next hattrs =>
          rw [ends_request_bind, ends_pure] at hends
          exact ⟨hends.2, se, hone, hattrs, hends.1.symm⟩
      · cases hr
  · rintro ⟨hl, se, hone, hattrs, rfl⟩
    refine ⟨some se, _, _, ⟨?_, rfl, rfl⟩, ?_⟩
    · rw [hone]
    · simp only [if_neg hattrs]
      rw [ends_request_bind, ends_pure]
      exact ⟨rfl, hl⟩

theorem returns_searchProfile {principal reported : String} (hs : s.boundAs = some principal)
    {r : Option SearchEntry} :
    D.Returns (searchProfile cfg reported) h s r h' s' ↔
      (if trim cfg.baseDn = "" then none else D.uniqueMatch principal (trim cfg.baseDn)
        (buildSearchFilter cfg.userSearchFilter reported cfg.windowsDomain)) = r ∧
      (if trim cfg.baseDn = "" then h else ⟨.search (trim cfg.baseDn) .subtree
        (buildSearchFilter cfg.userSearchFilter reported cfg.windowsDomain) attrList, s⟩ :: h) =
          h' ∧ s = s' := by
  unfold searchProfile
  split
  · exact Prog.returns_pure
  · rw [returns_searchOne, hs]
    rfl

/-- After the search for the reported name: unbind, and compare the names. -/
theorem ends_compare {identity : String} {r : Option SearchEntry} {l : Option (String × String)} :
    D.Ends (do
      request .unbind
      match r with
      | none => pure ⟨"", [], identity⟩
      | some se =>
        if canonicalUsername X se.attrs identity = identity then pure ⟨se.dn, se.attrs, identity⟩
        else pure ⟨"", [], identity⟩) h s found l ↔
      D.lastBind h = l ∧
        found = match r.filter fun se => canonicalUsername X se.attrs identity = identity with
          | some se => ⟨se.dn, se.attrs, identity⟩
          | none => ⟨"", [], identity⟩ := by
  rw [ends_request_bind, and_comm, eq_comm]
  cases r with
  | none => exact ends_pure
  | some se =>
    by_cases hagree : canonicalUsername X se.attrs identity = identity
    · simp only [Option.filter, hagree, decide_true, if_true]
      exact ends_pure
    · simp only [Option.filter, hagree, decide_false, if_false]
      exact ends_pure

/-- What is found under the reported name counts only if it agrees with it. -/
theorem ends_confirmedName {principal reported : String} (hs : s.boundAs = some principal)
    {l : Option (String × String)} :
    D.Ends (confirmedName X cfg reported) h s found l ↔ D.lastBind h = l ∧
      found = match D.profile X cfg principal reported with
        | some se => ⟨se.dn, se.attrs, normalizeLookupUsername X reported⟩
        | none => ⟨"", [], normalizeLookupUsername X reported⟩ := by
  have hlast : ∀ filter, D.lastBind (if trim cfg.baseDn = "" then h else
      ⟨.search (trim cfg.baseDn) .subtree filter attrList, s⟩ :: h) = D.lastBind h := by
    intro filter
    split
    · rfl
    · rfl
  have hprofile : D.profile X cfg principal reported =
      (if trim cfg.baseDn = "" then none else D.uniqueMatch principal (trim cfg.baseDn)
        (buildSearchFilter cfg.userSearchFilter reported cfg.windowsDomain)).filter fun se =>
          canonicalUsername X se.attrs (normalizeLookupUsername X reported) =
            normalizeLookupUsername X reported := by
    unfold profile
    split
    · rfl
    · rfl
  unfold confirmedName
  rw [ends_bind, hprofile]
  simp only [returns_searchProfile hs]
  generalize (if trim cfg.baseDn = "" then none else D.uniqueMatch principal (trim cfg.baseDn)
    (buildSearchFilter cfg.userSearchFilter reported cfg.windowsDomain)) = r
  constructor
  · rintro ⟨_, _, _, ⟨rfl, rfl, rfl⟩, hends⟩
    rw [← hlast]
    exact ends_compare.1 hends
  · intro hfound
    refine ⟨r, _, _, ⟨rfl, rfl, rfl⟩, ends_compare.2 ?_⟩
    rwa [hlast]

theorem ends_tightenedSearch {username principal : String} (hs : s.boundAs = some principal)
    {l : Option (String × String)} :
    D.Ends (tightenedSearch X cfg username principal) h s found l ↔ D.lastBind h = l ∧
      trim cfg.baseDn ≠ "" ∧ ∃ se, D.uniqueMatch principal (trim cfg.baseDn)
          (buildSearchFilter cfg.userSearchFilter username cfg.windowsDomain) = some se ∧
        canonicalUsername X se.attrs "" = normalizeLookupUsername X principal ∧
        normalizeLookupUsername X principal ≠ "" ∧ found = ⟨se.dn, se.attrs, ""⟩ := by
  unfold tightenedSearch
  by_cases hbase : trim cfg.baseDn = ""
  · simp [hbase]
  simp only [if_neg hbase, ends_bind, returns_searchOne, hs]
  constructor
  · rintro ⟨r, _, _, ⟨hr, rfl, rfl⟩, hends⟩
    cases r with
    | none => exact absurd hends not_ends_refuse
    | some se =>
      simp only at hends
      split at hends
      · exact absurd hends not_ends_refuse
      · next hname =>
        rw [ends_request_bind, ends_pure] at hends
        push Not at hname
        exact ⟨hends.2, hbase, se, hr, hname.2, hname.2 ▸ hname.1, hends.1.symm⟩
  · rintro ⟨hl, -, se, hone, hname, hne, rfl⟩
    refine ⟨some se, _, _, ⟨hone, rfl, rfl⟩, ?_⟩
    simp only [hname, ne_eq, not_true_eq_false, or_false, if_neg hne]
    rw [ends_request_bind, ends_pure]
    exact ⟨rfl, hl⟩

/-- After a direct bind what the directory confirms decides what comes next. -/
theorem ends_identify {username principal : String} {n : ℕ} {l : Option (String × String)} :
    D.Ends (do
      match ← ldapWhoami with
      | some (.dn boundDn) => confirmedDn boundDn
      | some (.user reported) => confirmedName X cfg reported
      | none => tightenedSearch X cfg username principal) h ⟨n, some principal⟩ found l ↔
      D.lastBind h = l ∧ D.Identifies X cfg username principal found := by
  unfold Identifies
  rw [ends_bind]
  simp only [returns_ldapWhoami (s := ⟨n, some principal⟩) rfl]
  have hlast : D.lastBind (⟨.whoAmI, ⟨n, some principal⟩⟩ :: h) = D.lastBind h := rfl
  constructor
  · rintro ⟨_, _, _, ⟨rfl, rfl, rfl⟩, hends⟩
    rw [← hlast]
    split at hends
    · exact ends_confirmedDn.1 hends
    · exact (ends_confirmedName rfl).1 hends
    · exact (ends_tightenedSearch rfl).1 hends
  · intro hspec
    rw [← hlast] at hspec
    refine ⟨_, _, _, ⟨rfl, rfl, rfl⟩, ?_⟩
    split at hspec
    · exact ends_confirmedDn.2 hspec
    · exact (ends_confirmedName rfl).2 hspec
    · exact (ends_tightenedSearch rfl).2 hspec

/-- A direct login: its bind, and what it identifies itself as. -/
theorem ends_directLogin {connector : TlsConnector} {username password : String}
    {l : Option (String × String)} :
    D.Ends (directLogin X cfg connector username password) [] ⟨0, none⟩ found l ↔
      D.connects 0 connector (trim cfg.serverUrl) = .ok () ∧
      D.binds 1 (authPrincipal username cfg.windowsDomain) password = .success () ∧
      l = some (authPrincipal username cfg.windowsDomain, password) ∧
      D.Identifies X cfg username (authPrincipal username cfg.windowsDomain) found := by
  unfold directLogin
  rw [ends_bind]
  constructor
  · rintro ⟨_, _, _, hbound, hends⟩
    obtain ⟨hc, hb, rfl, rfl⟩ := returns_bindAs.1 hbound
    obtain ⟨hl, hspec⟩ := ends_identify.1 hends
    rw [lastBind_simpleBind hb] at hl
    exact ⟨hc, hb, hl.symm, hspec⟩
  · rintro ⟨hc, hb, rfl, hspec⟩
    refine ⟨(), _, _, returns_bindAs.2 ⟨hc, hb, rfl, rfl⟩, ends_identify.2 ⟨?_, hspec⟩⟩
    exact lastBind_simpleBind hb

/-- A service login binds as the very entry the search selected. -/
theorem serviceLogin_found {connector : TlsConnector} {username password : String}
    {l : Option (String × String)}
    (hends : D.Ends (serviceLogin cfg connector username password) [] ⟨0, none⟩ found l) :
    ∃ base filter n se,
      D.searches (some (trim cfg.bindDn)) base .subtree filter attrList = .success [se] ∧
      D.binds n se.dn password = .success () ∧ l = some (se.dn, password) ∧
      found = ⟨se.dn, se.attrs, ""⟩ := by
  unfold serviceLogin at hends
  obtain ⟨_, _, _, hbound, hends⟩ := ends_bind.1 hends
  obtain ⟨-, -, rfl, rfl⟩ := returns_bindAs.1 hbound
  simp only at hends
  split at hends
  · exact absurd hends not_ends_refuse
  rw [ends_request_bind] at hends
  simp only [sem] at hends
  split at hends
  · exact absurd hends not_ends_throw
  · exact absurd hends not_ends_throw
  · next entries hentries =>
    rw [ends_request_bind] at hends
    split at hends
    · next se =>
      split at hends
      · exact absurd hends not_ends_throw
      · obtain ⟨_, _, _, hproved, hends⟩ := ends_bind.1 hends
        obtain ⟨-, hb, rfl, rfl⟩ := returns_bindAs.1 hproved
        rw [ends_request_bind, ends_pure] at hends
        obtain ⟨rfl, rfl⟩ := hends
        exact ⟨_, _, _, se, hentries, hb, lastBind_simpleBind hb, rfl⟩
    · exact absurd hends not_ends_throw

end Found

end Directory

end NemoServer
