import NemoServer.Integration.Ldap
import NemoServer.Std.Search

/-!
# Searching the directory

The filter of the user picker (`nemo_integration.rs`): enabled accounts of persons, in which every
word of the query is found in one of the attributes. A wildcard that was typed is kept.
-/

set_option autoImplicit false

namespace NemoServer

namespace Integration

open Str

/-- As `escapeChar`, but a wildcard is kept. -/
def escapeKeepChar (c : Char) : List Char :=
  if c = '\\' then "\\5c".toList
  else if c = '(' then "\\28".toList
  else if c = ')' then "\\29".toList
  else if c = Char.ofNat 0 then "\\00".toList
  else if c = '/' then "\\2f".toList
  else if c = '*' then ['*']
  else [c]

def escapeFilterKeepWildcard (input : String) : String :=
  String.ofList (input.toList.flatMap escapeKeepChar)

/-- `DIRECTORY_SEARCH_ATTRS`. -/
def directorySearchAttrs : List String :=
  ["sAMAccountName", "userPrincipalName", "uid", "displayName", "cn", "givenName", "sn", "mail",
    "department", "title", "description", "physicalDeliveryOfficeName", "company", "memberOf"]

/-- `DIRECTORY_BASELINE`. -/
def directoryBaseline : String :=
  "(objectCategory=person)(objectClass=user)" ++
    "(!(userAccountControl:1.2.840.113556.1.4.803:=2))" ++
    "(!(isCriticalSystemObject=TRUE))(!(sAMAccountName=*$))"

/-- What is appended for a word of the query. -/
def termFilter (term : String) : String :=
  let e := escapeFilterKeepWildcard term
  let pat := if '*' ∈ term.toList then e else "*" ++ e ++ "*"
  "(|" ++ String.join (directorySearchAttrs.map fun attr => "(" ++ attr ++ "=" ++ pat ++ ")") ++ ")"

def directorySearchFilter (query : String) : String :=
  let q := trim query
  if q = "" then "(&" ++ directoryBaseline ++ ")"
  else
    let terms := (splitWhitespace q.toList).map fun term => termFilter (String.ofList term)
    "(&" ++ directoryBaseline ++ String.join terms ++ ")"

end Integration

end NemoServer
