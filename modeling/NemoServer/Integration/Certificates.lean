import NemoServer.Setup
import NemoServer.Std.Search

/-!
# Certificates as text

The certificate of the directory (`nemo_integration.rs`) is fetched once, shown to the operator
with its fingerprint, and kept in the configuration as a PEM text, from which it is read again
whenever a connection is made.
-/

set_option autoImplicit false

namespace NemoServer

namespace Integration

open Str

variable (X : Deps)

/-- `BEGIN`. -/
def pemBegin : String := "-----BEGIN CERTIFICATE-----"
/-- `END`. -/
def pemEnd : String := "-----END CERTIFICATE-----"

/-- The first certificate of a text. -/
def pemToDer (pem : String) : Option Bytes := do
  let start ← find pemBegin.toList pem.toList
  let rest := pem.toList.drop (start + pemBegin.length)
  let stop ← find pemEnd.toList rest
  X.base64Decode (String.ofList (splitWhitespace (rest.take stop)).flatten)

def derToPem (der : Bytes) : String :=
  (chunks 64 (toUtf8 (X.base64Encode der))).foldl
    (fun out chunk => out ++ (fromUtf8 chunk).getD "" ++ "\n") (pemBegin ++ "\n") ++
      pemEnd ++ "\n"

/-! ## Fingerprints -/

/-- The digest in upper case, a colon between two bytes. -/
def certFingerprint (der : Bytes) : String :=
  String.intercalate ":" ((X.sha256 der).map fun b =>
    String.ofList ((Deps.hexByte b).map Char.toUpper))

/-- The fingerprint of the first certificate of a text, if it has one. -/
def pemFingerprint (pem : String) : String :=
  match pemToDer X pem with
  | some der => certFingerprint X der
  | none => ""

end Integration

end NemoServer
