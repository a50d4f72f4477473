import NemoServer.Foundations.Prog
import NemoServer.Integration.Users
import NemoServer.Std.Utf8

/-!
# Logging in against a directory

`authenticate_ldap` and its helpers (`nemo_integration.rs`), as programs over the requests an LDAP
client makes. A request fails, is rejected by the server, or succeeds. The requests and the
verification of certificates are those of the crates `ldap3` and `native_tls`.
-/

set_option autoImplicit false

namespace NemoServer

structure LdapConfig where
  enabled : Bool
  serverUrl : String
  windowsDomain : String
  baseDn : String
  /-- The service account; empty to bind as the user directly. -/
  bindDn : String
  bindPassword : String
  userSearchFilter : String
  tlsVerify : Bool
  caCert : String

structure LdapUser where
  username : String
  displayName : String
  email : String
  dn : String
  deriving DecidableEq

/-- The attributes of an entry: the values of each key. -/
abbrev Attrs := List (String × List String)

structure SearchEntry where
  dn : String
  attrs : Attrs
  deriving DecidableEq

inductive Scope
  | base
  | subtree
  deriving DecidableEq

/-- The identity a directory reports for a connection. -/
inductive AuthzId
  | dn (dn : String)
  | user (name : String)
  deriving DecidableEq

structure TlsConnector where
  acceptInvalid : Bool
  rootCertificate : Option String
  deriving DecidableEq

/-- The TLS side of a deployment; the errors are texts. -/
structure Tls where
  insecureLdapAllowed : Bool
  certificateFromPem : String → Except String Unit
  build : TlsConnector → Except String Unit

inductive LdapReply (α : Type)
  | failed (e : String)
  | rejected (e : String)
  | success (a : α)

inductive LdapOp
  | connect (connector : TlsConnector) (url : String)
  | simpleBind (name password : String)
  | search (base : String) (scope : Scope) (filter : String) (attrList : List String)
  | whoAmI
  | unbind
  deriving DecidableEq

abbrev LdapOp.Res : LdapOp → Type
  | .connect _ _ => Except String Unit
  | .simpleBind _ _ => LdapReply Unit
  | .search _ _ _ _ => LdapReply (List SearchEntry)
  | .whoAmI => LdapReply (Option Bytes)
  | .unbind => Unit

/-- A part of a login; it may fail with the reason. -/
abbrev Login := ExceptT String (Prog LdapOp LdapOp.Res)

namespace Integration

open Str

/-- The principal of a direct bind. -/
def authPrincipal (username domain : String) : String :=
  let username := trim username
  if '@' ∈ username.toList ∨ '\\' ∈ username.toList then username
  else if trim domain = "" then username
  else username ++ "@" ++ trim domain

/-- The special characters of RFC 4515. -/
def escapeChar (c : Char) : List Char :=
  if c = '\\' then "\\5c".toList
  else if c = '*' then "\\2a".toList
  else if c = '(' then "\\28".toList
  else if c = ')' then "\\29".toList
  else if c = Char.ofNat 0 then "\\00".toList
  else if c = '/' then "\\2f".toList
  else [c]

def escapeFilter (input : String) : String := String.ofList (input.toList.flatMap escapeChar)

/-- The template with its placeholders replaced, one after another. -/
def buildSearchFilter (template username domain : String) : String :=
  let raw := rawUsername username
  let upn := if trim domain = "" then raw else raw ++ "@" ++ trim domain
  replace "\x7bupn\x7d" (escapeFilter upn)
    (replace "\x7braw_username\x7d" (escapeFilter raw)
      (replace "\x7busername\x7d" (escapeFilter (trim username)) template))

def firstAttr (attrs : Attrs) (key : String) : String :=
  match attrs.lookup key with
  | some (v :: _) => trim v
  | _ => ""

/-- An authzid in one of its two forms. -/
def parseAuthzid (authzid : String) : Option AuthzId :=
  let s := (trim authzid).toList
  match stripPrefix "dn:".toList s with
  | some d =>
    let d := trim (String.ofList d)
    if d = "" then none else some (.dn d)
  | none =>
    match stripPrefix "u:".toList s with
    | some u =>
      let u := trim (String.ofList u)
      if u = "" then none else some (.user u)
    | none => none

/-- The name an entry stands under: its first nonempty account name, else the fallback. -/
def canonicalUsername (X : Setup) (attrs : Attrs) (rawInput : String) : String :=
  let sam := firstAttr attrs "sAMAccountName"
  let upn := firstAttr attrs "userPrincipalName"
  let uid := firstAttr attrs "uid"
  normalizeLookupUsername X
    (if sam ≠ "" then sam else if upn ≠ "" then upn else if uid ≠ "" then uid else rawInput)

@[simp] theorem canonicalUsername_nil (X : Setup) (rawInput : String) :
    canonicalUsername X [] rawInput = normalizeLookupUsername X rawInput := rfl

def ldapTlsVerifyEffective (tlsVerify insecureAllowed : Bool) : Except String Bool :=
  if tlsVerify then .ok true
  else if insecureAllowed then .ok false
  else .error ("LDAP tls_verify is disabled, but accepting any DC certificate is refused. " ++
    "Pin the DC certificate (ca_cert) and re-enable verification, or start the server with " ++
    "--insecure-ldap-i-accept-mitm Y to explicitly accept the risk.")

def buildLdapConnector (T : Tls) (cfg : LdapConfig) : Except String TlsConnector := do
  let verify ← ldapTlsVerifyEffective cfg.tlsVerify T.insecureLdapAllowed
  let ca := trim cfg.caCert
  if ca = "" then
    let connector : TlsConnector := ⟨!verify, none⟩
    let _ ← (T.build connector).mapError fun e => s!"TLS setup failed: {e}"
    pure connector
  else
    let _ ← (T.certificateFromPem ca).mapError fun e => s!"pinned certificate is invalid: {e}"
    let connector : TlsConnector := ⟨!verify, some ca⟩
    let _ ← (T.build connector).mapError fun e => s!"TLS setup failed: {e}"
    pure connector

/-- The checks before the first connection. -/
def checkLogin (T : Tls) (cfg : LdapConfig) (username password : String) :
    Except String TlsConnector :=
  if username = "" ∨ password = "" then .error "username and password are required"
  else if !cfg.enabled then .error "LDAP integration is disabled"
  else if trim cfg.serverUrl = "" then .error "LDAP server URL is not configured"
  else if !"ldaps://".toList.isPrefixOf (toAsciiLowercase (trim cfg.serverUrl)).toList then
    .error ("LDAP must use ldaps:// (LDAP over TLS, port 636). Plaintext ldap:// is refused " ++
      "because it would expose the domain password on the network.")
  else buildLdapConnector T cfg

def request (o : LdapOp) : Login o.Res := ExceptT.lift (Prog.op o)

/-- Unbind and refuse. -/
def refuse {α : Type} (reason : String) : Login α := do
  request .unbind
  throw reason

/-- A fresh connection, bound as `name`. -/
def bindAs (connector : TlsConnector) (cfg : LdapConfig) (name password failed : String)
    (rejected : String → String) : Login Unit := do
  match ← request (.connect connector (trim cfg.serverUrl)) with
  | .error e => throw s!"connect failed: {e}"
  | .ok () =>
    match ← request (.simpleBind name password) with
    | .failed e => throw s!"{failed}: {e}"
    | .rejected e => throw (rejected e)
    | .success () => pure ()

/-- RFC 4532 "Who am I?"; `none` if there is no usable answer. -/
def ldapWhoami : Login (Option AuthzId) := do
  match ← request .whoAmI with
  | .success (some raw) => pure ((fromUtf8 raw).bind parseAuthzid)
  | _ => pure none

/-- A search that insists on exactly one entry. -/
def searchOne (base : String) (scope : Scope) (filter : String) (attrList : List String) :
    Login (Option SearchEntry) := do
  match ← request (.search base scope filter attrList) with
  | .success [se] => pure (some se)
  | _ => pure none

def attrList : List String :=
  ["distinguishedName", "sAMAccountName", "userPrincipalName", "uid", "displayName", "mail"]

/-- What a login has found out: the entry and, if RFC 4532 supplied it, the identity. -/
structure Found where
  dn : String
  attrs : Attrs
  identity : String

variable (X : Setup) (cfg : LdapConfig)

/-- Bind as the service account, search for the user, then bind as the user. -/
def serviceLogin (connector : TlsConnector) (username password : String) : Login Found := do
  bindAs connector cfg (trim cfg.bindDn) cfg.bindPassword "service bind failed"
    fun e => s!"service bind rejected: {e}"
  let filter := buildSearchFilter cfg.userSearchFilter username cfg.windowsDomain
  if trim cfg.baseDn = "" then refuse "base DN is not configured"
  else
    match ← request (.search (trim cfg.baseDn) .subtree filter attrList) with
    | .failed e => throw s!"user search failed: {e}"
    | .rejected e => throw s!"user search rejected: {e}"
    | .success entries =>
      request .unbind
      match entries with
      | [se] =>
        if se.dn = "" then throw "user record has no distinguished name"
        else
          bindAs connector cfg se.dn password "authentication failed"
            fun _ => "invalid username or password"
          request .unbind
          pure ⟨se.dn, se.attrs, ""⟩
      | _ => throw "invalid username or password"

/-- The directory reported a DN: read that entry. -/
def confirmedDn (boundDn : String) : Login Found := do
  match ← searchOne boundDn .base "(objectClass=*)" attrList with
  | none => refuse "invalid username or password"
  | some se =>
    if se.attrs = [] then refuse "invalid username or password"
    else
      request .unbind
      pure ⟨boundDn, se.attrs, ""⟩

def searchProfile (reported : String) : Login (Option SearchEntry) :=
  if trim cfg.baseDn = "" then pure none
  else searchOne (trim cfg.baseDn) .subtree
    (buildSearchFilter cfg.userSearchFilter reported cfg.windowsDomain) attrList

/-- The directory reported a name: enrich it with the profile found under that name, if the two
agree. -/
def confirmedName (reported : String) : Login Found := do
  let identity := normalizeLookupUsername X reported
  let profile ← searchProfile cfg reported
  request .unbind
  match profile with
  | none => pure ⟨"", [], identity⟩
  | some se =>
    if canonicalUsername X se.attrs identity = identity then pure ⟨se.dn, se.attrs, identity⟩
    else pure ⟨"", [], identity⟩

/-- The directory reported nothing: search for the typed name, tightened. -/
def tightenedSearch (username principal : String) : Login Found := do
  if trim cfg.baseDn = "" then
    refuse ("this server cannot confirm your account; ask your administrator to finish the " ++
      "directory configuration")
  else
    let filter := buildSearchFilter cfg.userSearchFilter username cfg.windowsDomain
    let expected := normalizeLookupUsername X principal
    match ← searchOne (trim cfg.baseDn) .subtree filter attrList with
    | none => refuse "invalid username or password"
    | some se =>
      let found := canonicalUsername X se.attrs ""
      if found = "" ∨ found ≠ expected then refuse "invalid username or password"
      else
        request .unbind
        pure ⟨se.dn, se.attrs, ""⟩

/-- Bind as the typed principal, then find out which account that is. -/
def directLogin (connector : TlsConnector) (username password : String) : Login Found := do
  let principal := authPrincipal username cfg.windowsDomain
  bindAs connector cfg principal password "authentication failed"
    fun _ => "invalid username or password"
  match ← ldapWhoami with
  | some (.dn boundDn) => confirmedDn boundDn
  | some (.user reported) => confirmedName X cfg reported
  | none => tightenedSearch X cfg username principal

def proveLogin (connector : TlsConnector) (username password : String) : Login Found :=
  if trim cfg.bindDn ≠ "" then serviceLogin cfg connector username password
  else directLogin X cfg connector username password

def authenticateLdap (T : Tls) (username password : String) : Login LdapUser := do
  let connector ← liftExcept (checkLogin T cfg username password)
  let found ← proveLogin X cfg connector username password
  let canonical := canonicalUsername X found.attrs found.identity
  if canonical = "" then throw "could not determine canonical username"
  else
    pure ⟨canonical, firstAttr found.attrs "displayName", firstAttr found.attrs "mail", found.dn⟩

end Integration

end NemoServer
