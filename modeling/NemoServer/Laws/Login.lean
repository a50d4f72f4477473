import NemoServer.Integration.Directory
import NemoServer.Server.Sample

/-!
# Whose login it is

A login is to be the account whose password was proved. `authenticate_ldap` reaches it on four
ways. On two of them, through a service account and through a reported distinguished name, the
entry it names itself after is the entry that was bound. On the other two it compares names: the
name typed with that of the entry the filter selects, or the name reported. The account part of a
name (a principal such as `alice@corp`) may be the account name of somebody else, and the login is
then theirs. `login_names_bound_account_iff` says exactly when that does not happen.
-/

set_option autoImplicit false

namespace NemoServer

open Str Integration

namespace Directory

variable (D : Directory) (X : Setup) (cfg : LdapConfig) (T : Tls) (username password : String)

/-- Whoever logs in is the account the password bind succeeded for, under its own name. -/
def LoginsAsBound : Prop :=
  ∀ user l, D.Ends (authenticateLdap X cfg T username password) [] ⟨0, none⟩ user l →
    ∃ name a, l = some (name, password) ∧ D.resolve name = some a ∧
      user.username = a.canonicalName X

/-- The login gets as far as a bind by the typed name, as the account `a`. -/
structure BindsDirectly (a : Account) : Prop where
  direct : trim cfg.bindDn = ""
  connected : ∃ connector, checkLogin T cfg username password = .ok connector ∧
    D.connects 0 connector (trim cfg.serverUrl) = .ok ()
  proved : D.binds 1 (authPrincipal username cfg.windowsDomain) password = .success ()
  account : D.resolve (authPrincipal username cfg.windowsDomain) = some a

/-- The names compared on the way belong to the account `a`. -/
structure NamesBound (a : Account) : Prop where
  /-- The name typed, if nothing is reported and the filter selects one entry of that name. -/
  typed : ∀ se, D.confirmed (authPrincipal username cfg.windowsDomain) = none →
    trim cfg.baseDn ≠ "" →
    D.uniqueMatch (authPrincipal username cfg.windowsDomain) (trim cfg.baseDn)
      (buildSearchFilter cfg.userSearchFilter username cfg.windowsDomain) = some se →
    canonicalUsername X se.attrs "" =
      normalizeLookupUsername X (authPrincipal username cfg.windowsDomain) →
    normalizeLookupUsername X (authPrincipal username cfg.windowsDomain) ∈ ["", a.canonicalName X]
  /-- The name reported, if the filter selects one entry of that name. -/
  enriched : ∀ u se, D.confirmed (authPrincipal username cfg.windowsDomain) = some (.user u) →
    D.profile X cfg (authPrincipal username cfg.windowsDomain) u = some se →
    normalizeLookupUsername X u ∈ ["", a.canonicalName X]
  /-- The name reported, if not; it is then normalised twice. -/
  reported : ∀ u, D.confirmed (authPrincipal username cfg.windowsDomain) = some (.user u) →
    D.profile X cfg (authPrincipal username cfg.windowsDomain) u = none →
    normalizeLookupUsername X (normalizeLookupUsername X u) ∈ ["", a.canonicalName X]

variable {D X cfg T username password}

/-- A login in two parts: what it finds out, and the name it makes of it. -/
theorem ends_authenticateLdap {user : LdapUser} {l : Option (String × String)} :
    D.Ends (authenticateLdap X cfg T username password) [] ⟨0, none⟩ user l ↔
      ∃ connector found, checkLogin T cfg username password = .ok connector ∧
        D.Ends (proveLogin X cfg connector username password) [] ⟨0, none⟩ found l ∧
        canonicalUsername X found.attrs found.identity ≠ "" ∧
        user = ⟨canonicalUsername X found.attrs found.identity,
          firstAttr found.attrs "displayName", firstAttr found.attrs "mail", found.dn⟩ := by
  unfold authenticateLdap
  simp only [ends_bind, returns_liftExcept]
  constructor
  · rintro ⟨connector, _, _, ⟨hcheck, rfl, rfl⟩, found, h₁, s₁, hprove, hends⟩
    split at hends
    · exact absurd hends not_ends_throw
    · next hname =>
      obtain ⟨hfound, hl⟩ := ends_pure.1 hends
      exact ⟨connector, found, hcheck, ⟨h₁, s₁, hprove, hl⟩, hname, hfound.symm⟩
  · rintro ⟨connector, found, hcheck, ⟨h₁, s₁, hprove, hl⟩, hname, rfl⟩
    refine ⟨connector, _, _, ⟨hcheck, rfl, rfl⟩, found, h₁, s₁, hprove, ?_⟩
    rw [if_neg hname]
    exact ends_pure.2 ⟨rfl, hl⟩

section Truthful

variable (hD : D.Truthful)

include hD

/-- The entry of a service login is the account its bind proved. -/
theorem serviceLogin_account {connector : TlsConnector} {found : Found}
    {l : Option (String × String)}
    (hends : D.Ends (serviceLogin cfg connector username password) [] ⟨0, none⟩ found l) :
    ∃ name a, l = some (name, password) ∧ D.resolve name = some a ∧
      canonicalUsername X found.attrs found.identity = a.canonicalName X := by
  obtain ⟨base, filter, n, se, hsearch, -, rfl, rfl⟩ := serviceLogin_found hends
  obtain ⟨a, ha, rfl, -⟩ := hD.search_entries hsearch se (List.mem_singleton_self se)
  have hresolve : D.resolve a.dn = some a := hD.resolve_dn (hD.own_dn a ha)
  exact ⟨a.dn, a, rfl, hresolve, canonicalUsername_entry X a⟩

/-- What a direct login finds out names the account it is bound as. -/
theorem identifies_account {a : Account} {found : Found}
    (haccount : D.resolve (authPrincipal username cfg.windowsDomain) = some a)
    (hnames : D.NamesBound X cfg username a)
    (hfound : D.Identifies X cfg username (authPrincipal username cfg.windowsDomain) found)
    (hne : canonicalUsername X found.attrs found.identity ≠ "") :
    canonicalUsername X found.attrs found.identity = a.canonicalName X := by
  unfold Identifies at hfound
  split at hfound
  · next d hd =>
    obtain ⟨se, hsearch, -, rfl⟩ := hfound
    obtain ⟨b, -, rfl, hb⟩ := hD.search_entries hsearch se (List.mem_singleton_self se)
    have hsame : some b = some a := (hb rfl).symm.trans (hD.confirmed_dn haccount hd)
    rw [← Option.some.inj hsame]
    exact canonicalUsername_entry X b
  · next u hu =>
    split at hfound
    · next se hse =>
      subst hfound
      have hagree : canonicalUsername X se.attrs (normalizeLookupUsername X u) =
          normalizeLookupUsername X u := profile_agrees hse
      rw [hagree] at hne ⊢
      simpa [hne] using hnames.enriched u se hu hse
    · next hnone =>
      subst hfound
      rw [canonicalUsername_nil] at hne ⊢
      simpa [hne] using hnames.reported u hu hnone
  · next hnone =>
    obtain ⟨hbase, se, hmatch, hname, hne', rfl⟩ := hfound
    have hin := hnames.typed se hnone hbase hmatch hname
    rw [hname]
    simpa [hne'] using hin

end Truthful

/-- A direct login that gets through names the account it is bound as only if the names it
compares are that account's. -/
theorem namesBound_of_loginsAsBound (h : D.LoginsAsBound X cfg T username password) {a : Account}
    (ha : D.BindsDirectly cfg T username password a) : D.NamesBound X cfg username a := by
  obtain ⟨hdirect, ⟨connector, hcheck, hconnect⟩, hproved, haccount⟩ := ha
  have hcanonical : ∀ found, D.Identifies X cfg username
      (authPrincipal username cfg.windowsDomain) found →
      canonicalUsername X found.attrs found.identity ∈ ["", a.canonicalName X] := by
    intro found hfound
    by_cases hne : canonicalUsername X found.attrs found.identity = ""
    · simp [hne]
    · have hprove : D.Ends (proveLogin X cfg connector username password) [] ⟨0, none⟩ found
          (some (authPrincipal username cfg.windowsDomain, password)) := by
        unfold proveLogin
        rw [if_neg (not_not.2 hdirect)]
        exact ends_directLogin.2 ⟨hconnect, hproved, rfl, hfound⟩
      obtain ⟨name, b, hname, hb, hcanon⟩ :=
        h _ _ (ends_authenticateLdap.2 ⟨connector, found, hcheck, hprove, hne, rfl⟩)
      rw [Option.some_inj, Prod.mk.injEq] at hname
      rw [← hname.1, haccount] at hb
      cases hb
      simp only at hcanon
      simp [hcanon]
  unfold Identifies at hcanonical
  constructor
  · intro se hnone hbase hmatch hname
    by_cases hne : normalizeLookupUsername X (authPrincipal username cfg.windowsDomain) = ""
    · simp [hne]
    · rw [← hname]
      refine hcanonical ⟨se.dn, se.attrs, ""⟩ ?_
      rw [hnone]
      exact ⟨hbase, se, hmatch, hname, hne, rfl⟩
  · intro u se hu hse
    rw [← profile_agrees hse]
    refine hcanonical ⟨se.dn, se.attrs, normalizeLookupUsername X u⟩ ?_
    simp only [hu, hse]
  · intro u hu hnone
    refine hcanonical ⟨"", [], normalizeLookupUsername X u⟩ ?_
    simp only [hu, hnone]

/-- The law: a login is the account whose password was proved exactly when, on a direct bind, the
names compared afterwards are that account's. -/
theorem login_names_bound_account_iff (hD : D.Truthful) :
    D.LoginsAsBound X cfg T username password ↔
      ∀ a, D.BindsDirectly cfg T username password a → D.NamesBound X cfg username a := by
  constructor
  · intro h a ha
    exact namesBound_of_loginsAsBound h ha
  · intro h user l hends
    obtain ⟨connector, found, hcheck, hprove, hne, rfl⟩ := ends_authenticateLdap.1 hends
    unfold proveLogin at hprove
    split at hprove
    · exact serviceLogin_account hD hprove
    · next hdirect =>
      obtain ⟨hconnect, hproved, rfl, hfound⟩ := ends_directLogin.1 hprove
      have hpassword : password ≠ "" := by
        rintro rfl
        simp [checkLogin] at hcheck
      obtain ⟨a, -, haccount, -⟩ := hD.bind_proves hpassword hproved
      have hnames := h a ⟨not_not.1 hdirect, ⟨connector, hcheck, hconnect⟩, hproved, haccount⟩
      exact ⟨_, a, rfl, haccount, identifies_account hD haccount hnames hfound hne⟩

/-! ## Two accounts -/

/-- The first is `asmith`, with the principal `alice@corp`; `alice` is the account of the other. -/
def asmith : Account :=
  ⟨"cn=a", [("sAMAccountName", ["asmith"]), ("userPrincipalName", ["alice@corp"])], "first"⟩

def alice : Account :=
  ⟨"cn=b", [("sAMAccountName", ["alice"]), ("userPrincipalName", ["balice@corp"])], "second"⟩

def holder (d : String) : Option Account := [asmith, alice].find? fun a => a.dn == d

/-- A bind takes a distinguished name or a principal. -/
def bearer (name : String) : Option Account :=
  [asmith, alice].find? fun a => a.dn == name || firstAttr a.attrs "userPrincipalName" == name

/-- A directory that holds the two; it finds by account name, and answers RFC 4532 or refuses to. -/
def twins (answers : Bool) : Directory where
  accounts := [asmith, alice]
  entryAt := holder
  resolve := bearer
  userString _ := none
  connects _ _ _ := .ok ()
  binds _ name password :=
    if (bearer name).any fun a => a.password == password then .success ()
    else .rejected "invalid credentials"
  searches _ base scope filter names := .success
    (([asmith, alice].filter fun a => match scope with
      | .base => a.dn == base
      | .subtree => "(sAMAccountName=" ++ firstAttr a.attrs "sAMAccountName" ++ ")" == filter).map
        fun a => a.entry names)
  whoAmI as := match answers, as.bind bearer with
    | true, some a => .success (some (toUtf8 ("dn:" ++ a.dn)))
    | _, _ => .rejected "unsupported"

/-- No service account; the filter of a deployment that logs in by account name. -/
def byAccountName : LdapConfig where
  enabled := true
  serverUrl := "ldaps://dc.corp"
  windowsDomain := "corp"
  baseDn := "dc=corp"
  bindDn := ""
  bindPassword := ""
  userSearchFilter := "(sAMAccountName=\x7braw_username\x7d)"
  tlsVerify := true
  caCert := ""

def sampleTls : Tls := ⟨false, fun _ => .ok (), fun _ => .ok ()⟩

theorem holder_some {d : String} {a : Account} (h : holder d = some a) :
    a ∈ [asmith, alice] ∧ a.dn = d := by
  have hdn := List.find?_some h
  exact ⟨List.mem_of_find?_eq_some h, by simpa using hdn⟩

theorem bearer_mem {name : String} {a : Account} (h : bearer name = some a) :
    a ∈ [asmith, alice] :=
  List.mem_of_find?_eq_some h

theorem twins_confirmed {answers : Bool} {name : String} {a : Account}
    (ha : bearer name = some a) :
    (twins answers).confirmed name = if answers then some (.dn a.dn) else none := by
  have hmem : a ∈ [asmith, alice] := bearer_mem ha
  cases answers with
  | false => simp [confirmed, twins]
  | true =>
    have hparse : (fromUtf8 (toUtf8 ("dn:" ++ a.dn))).bind parseAuthzid = some (.dn a.dn) := by
      rcases List.mem_pair.1 hmem with rfl | rfl
      · decide
      · decide
    simp only [confirmed, twins, Option.bind_some, ha, if_true]
    exact hparse

theorem twins_truthful (answers : Bool) : (twins answers).Truthful := by
  have hown : ∀ a ∈ [asmith, alice], holder a.dn = some a ∧ bearer a.dn = some a := by
    intro a ha
    rcases List.mem_pair.1 ha with rfl | rfl
    · exact ⟨rfl, rfl⟩
    · exact ⟨rfl, rfl⟩
  constructor
  · exact fun a ha => (hown a ha).1
  · intro d a hd
    obtain ⟨ha, rfl⟩ := holder_some hd
    exact (hown a ha).2
  · intro n name password _ hbind
    simp only [twins] at hbind
    split at hbind
    · next hany =>
      obtain ⟨a, ha, hpassword⟩ := (Option.any_eq_true _ _).1 hany
      exact ⟨a, bearer_mem ha, ha, by simpa using hpassword⟩
    · cases hbind
  · intro as base scope filter names es hsearch e he
    cases hsearch
    obtain ⟨a, ha, rfl⟩ := List.mem_map.1 he
    obtain ⟨hmem, hsel⟩ := List.mem_filter.1 ha
    refine ⟨a, hmem, rfl, ?_⟩
    rintro rfl
    have hdn : a.dn = base := by simpa using hsel
    rw [← hdn]
    exact (hown a hmem).1
  · intro name a d ha hd
    rw [twins_confirmed ha] at hd
    cases answers with
    | false => cases hd
    | true =>
      cases hd
      exact (hown a (bearer_mem ha)).1
  · intro name a u ha hu
    rw [twins_confirmed ha] at hu
    cases answers with
    | false => cases hu
    | true => cases hu

theorem twins_bindsDirectly (answers : Bool) :
    (twins answers).BindsDirectly byAccountName sampleTls "alice@corp" "first" asmith := by
  constructor
  · decide
  · exact ⟨⟨false, none⟩, by decide, rfl⟩
  · rfl
  · rfl

theorem twins_ends : (twins true).Ends (authenticateLdap (Sample.setup .offer false) byAccountName
    sampleTls "alice@corp" "first") [] ⟨0, none⟩ ⟨"asmith", "", "", "cn=a"⟩
      (some ("alice@corp", "first")) := by
  have hconfirmed : (twins true).confirmed "alice@corp" = some (.dn "cn=a") := by
    rw [twins_confirmed (a := asmith) rfl]
    rfl
  have hprincipal : authPrincipal "alice@corp" byAccountName.windowsDomain = "alice@corp" := by
    decide
  refine ends_authenticateLdap.2 ⟨⟨false, none⟩, ⟨"cn=a", asmith.attrs, ""⟩, by decide, ?_,
    by decide, by decide⟩
  refine ends_directLogin.2 ⟨rfl, rfl, rfl, ?_⟩
  unfold Identifies
  rw [hprincipal, hconfirmed]
  exact ⟨asmith.entry attrList, rfl, by decide, rfl⟩

/-- With the answer of RFC 4532 the login is `asmith`'s, whoever owns the name `alice`. -/
theorem login_names_bound_account_iff_twins :
    (∃ user l, (twins true).Ends (authenticateLdap (Sample.setup .offer false) byAccountName
      sampleTls "alice@corp" "first") [] ⟨0, none⟩ user l ∧ user.username = "asmith") ∧
    (twins true).LoginsAsBound (Sample.setup .offer false) byAccountName sampleTls
      "alice@corp" "first" := by
  have hconfirmed : (twins true).confirmed "alice@corp" = some (.dn "cn=a") := by
    rw [twins_confirmed (a := asmith) rfl]
    rfl
  have hprincipal : authPrincipal "alice@corp" byAccountName.windowsDomain = "alice@corp" := by
    decide
  constructor
  · exact ⟨_, _, twins_ends, rfl⟩
  · rw [login_names_bound_account_iff (twins_truthful true)]
    intro a _
    constructor
    · intro se hnone
      rw [hprincipal, hconfirmed] at hnone
      cases hnone
    · intro u se hu
      rw [hprincipal, hconfirmed] at hu
      cases hu
    · intro u hu
      rw [hprincipal, hconfirmed] at hu
      cases hu

/-- Without it the login typed as `alice@corp`, which proved the password of `asmith`, is
`alice`'s. -/
theorem not_login_names_bound_account : (twins false).Truthful ∧
    ¬ (twins false).LoginsAsBound (Sample.setup .offer false) byAccountName sampleTls
      "alice@corp" "first" := by
  refine ⟨twins_truthful false, fun h => ?_⟩
  have hnames := namesBound_of_loginsAsBound h (twins_bindsDirectly false)
  have htyped := hnames.typed (alice.entry attrList) (twins_confirmed (a := asmith) rfl)
    (by decide) rfl (by decide)
  revert htyped
  decide

end Directory

end NemoServer
