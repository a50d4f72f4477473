import NemoServer.Keys.Generate
import NemoServer.Relay.Grant

/-!
# The key of each server

How hbbs (`get_server_sk`) and hbbr (`get_server_keypair`) make a signing key and a licence key of
the argument `-k`: it is a secret key in base64, or a public text, or one of the marks that stand
for the key file the two servers share.
-/

set_option autoImplicit false

namespace NemoServer

namespace Keys

/-- What both servers take from the dependencies. -/
structure ServerDeps extends KeyDeps where
  /-- `sign::Signature::from_bytes`. -/
  signatureFromBytes : Bytes → Option Bytes
  /-- `sign::verify_detached`. -/
  verifyDetached : Bytes → Bytes → PublicKey → Bool
  /-- The public half of a signing key. -/
  publicKey : SecretKey → PublicKey

variable (X : ServerDeps)

/-- hbbr with a licence key and a signing key. -/
def ServerDeps.relay (key : String) (sk : Option SecretKey) : Relay.Setup :=
  { X.toDeps with
    signatureFromBytes := X.signatureFromBytes
    verifyDetached := X.verifyDetached
    publicKey := X.publicKey
    key := key
    sk := sk }

/-- The licence key and the signing key of a server. -/
abbrev Keypair := String × Option SecretKey

/-- An argument that is a secret key; `SECRETKEYBYTES` is 64. -/
def keyArgument (key : String) : Keypair :=
  match X.base64Decode key with
  | some sk => if sk.length = 64 then (X.base64Encode (sk.drop 32), some sk) else (key, none)
  | none => (key, none)

/-- `get_server_sk` of hbbs; there is no result if `gen_sk` exits. -/
def getServerSk (mayGenerate : Bool) (suffix key : String) : KeyHandler (Option Keypair) := do
  let (key, outSk) := keyArgument X key
  if key = "" ∨ key = "-" ∨ key = "_" then
    match ← genSk X.toKeyDeps 0 mayGenerate suffix with
    | some (pk, sk) => pure (some (if key ≠ "" then pk else key, some sk))
    | none => pure none
  else pure (some (key, outSk))

/-- `get_server_keypair` of hbbr. -/
def getServerKeypair (suffix key : String) : KeyHandler (Option Keypair) := do
  let (key, sk) := keyArgument X key
  if key = "-" ∨ key = "_" then
    match ← genSk X.toKeyDeps 300 false suffix with
    | some (pk, gen) => pure (some (pk, some gen))
    | none => pure none
  else pure (some (key, sk))

end Keys

end NemoServer
