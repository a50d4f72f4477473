import NemoServer.Foundations.Files
import NemoServer.Foundations.Interleave
import NemoServer.Setup
import NemoServer.Std.Utf8

/-!
# The server key

The file `id_ed25519` with the signing key of the servers, and how a process that starts comes by
the key (`common.rs`): it reads the file, or, if it may, generates a key and publishes it under the
name of the file with a hard link, which only one process can make. The processes run side by side
over one directory; every call of the file system may fail.
-/

set_option autoImplicit false

namespace NemoServer

namespace Keys

open Prog Str

/-- What the key files take from the dependencies. -/
structure KeyDeps extends Deps where
  /-- `sign::gen_keypair`: the `n`-th Ed25519 key pair. -/
  signKeypair : ℕ → PublicKey × SecretKey
  /-- The text of an error of the file system. -/
  ioError : String

/-- The directory of the key, and what the programs that handle it see besides. -/
structure KeyHost where
  disk : Disk String
  /-- The file system fails. -/
  fault : Bool
  /-- The wall clock, in seconds. -/
  clock : ℕ
  /-- How many key pairs were generated. -/
  keypairs : ℕ
  /-- The names of temporary files that were handed out. -/
  tmpNames : List String

abbrev ServerKey := String × SecretKey

inductive KeyOp
  | file (o : FileOp String)
  | genKeypair
  | nowEpochSecs
  /-- `gen_sk` returns a key, or the process exits. -/
  | started (key : Option ServerKey)
  /-- `rotate_server_key_at` returns the new public key and the path of the archive. -/
  | rotated (res : Except String (String × String))

@[reducible] def KeyOp.Res : KeyOp → Type
  | .file o => o.Res
  | .genKeypair => PublicKey × SecretKey
  | .nowEpochSecs => ℕ
  | _ => Unit

def KeyOp.sem (X : KeyDeps) : (o : KeyOp) → KeyHost → o.Res × KeyHost
  | .file o, s => ((o.sem s.fault s.disk).1, { s with disk := (o.sem s.fault s.disk).2 })
  | .genKeypair, s => (X.signKeypair s.keypairs, { s with keypairs := s.keypairs + 1 })
  | .nowEpochSecs, s => (s.clock, s)
  | .started _, s => ((), s)
  | .rotated _, s => ((), s)

/-- A call of the file system, while the file system works. -/
theorem sem_file {X : KeyDeps} {s : KeyHost} (h : s.fault = false) (o : FileOp String) :
    (KeyOp.file o).sem X s =
      ((o.sem false s.disk).1, { s with disk := (o.sem false s.disk).2 }) := by
  rw [← h]
  rfl

theorem sem_file_fault {X : KeyDeps} {s : KeyHost} (h : s.fault = true) (o : FileOp String) :
    (KeyOp.file o).sem X s = ((o.sem true s.disk).1, s) := by
  have hdisk : (o.sem s.fault s.disk).2 = s.disk := by rw [h, FileOp.sem_fault]
  have hsem : (KeyOp.file o).sem X s =
      ((o.sem s.fault s.disk).1, { s with disk := (o.sem s.fault s.disk).2 }) := rfl
  rw [hsem, hdisk, ← h]

abbrev KeyHandler := Prog KeyOp KeyOp.Res

/-- Perform one operation. -/
abbrev KeyOp.perform (o : KeyOp) : KeyHandler o.Res := Prog.op o

/-- A call of the file system. -/
abbrev file (o : FileOp String) : KeyHandler o.Res := KeyOp.perform (.file o)

/-! ## Files -/

def skFile : String := "id_ed25519"

def pubFile (sk : String) : String := sk ++ ".pub"

/-- `write_all`, from an offset on. -/
def writeFrom (i off : ℕ) : Bytes → KeyHandler Bool
  | [] => pure true
  | b :: bytes => do
    if ← file (.writeAt i off b) then writeFrom i (off + 1) bytes else pure false

/-- Create a file, or empty it, and write it. -/
def writeFile (path : String) (bytes : Bytes) : KeyHandler Bool := do
  match ← file (.create path) with
  | none => pure false
  | some i => writeFrom i 0 bytes

variable (X : KeyDeps)

/-- The text of a key file. -/
def keyText (sk : SecretKey) : Bytes := toUtf8 (X.base64Encode sk)

/-- A key in the text of a key file; `SECRETKEYBYTES` is 64. -/
def parseSk (contents : String) : Except Unit (Option ServerKey) :=
  let sk := (X.base64Decode (trim contents)).getD []
  if sk.length ≠ 64 then .error () else .ok (some (X.base64Encode (sk.drop 32), sk))

/-- `read_to_string`, and the key in the text; what cannot be read, or is no text, is no key. -/
def readContents (bytes : Option Bytes) : Except Unit (Option ServerKey) :=
  match bytes.bind fromUtf8 with
  | none => .ok none
  | some contents => parseSk X contents

/-- No file is `none`. -/
def readSk (sk : String) : KeyHandler (Except Unit (Option ServerKey)) := do
  match ← file (.openRead sk) with
  | none => pure (.ok none)
  | some i => do
    let bytes ← file (.read i)
    pure (readContents X bytes)

/-! ## Key pairs -/

/-- The public key is free of the separators of a licence name. -/
def urlSafe (pk : String) : Bool := !pk.toList.contains '/' && !pk.toList.contains ':'

def genFunc : KeyHandler ServerKey := do
  let (pk, sk) ← KeyOp.perform .genKeypair
  pure (X.base64Encode pk, sk)

/-- Generate until the public key is safe, and take what comes after so many that are not. -/
def genUntilSafe : ℕ → KeyHandler ServerKey
  | 0 => genFunc X
  | n + 1 => do
    let key ← genFunc X
    if urlSafe key.1 then pure key else genUntilSafe n

/-! ## Starts -/

/-- The temporary file: the name ends in the number of the process and a counter. -/
def tmpFile (suffix : String) : String := skFile ++ ".tmp-" ++ suffix

def generateAndPublishSk (suffix : String) : KeyHandler (Option ServerKey) := do
  let (pk, sk) ← genUntilSafe X 300
  if ← writeFile (tmpFile suffix) (keyText X sk) then
    let published ← file (.hardLink (tmpFile suffix) skFile)
    let _ ← file (.removeFile (tmpFile suffix))
    if published then
      let _ ← writeFile (pubFile skFile) (toUtf8 pk)
      pure (some (pk, sk))
    else pure none
  else
    let _ ← file (.removeFile (tmpFile suffix))
    pure none

/-- The file is read again after another process was first. -/
def loadPublished : KeyHandler (Option ServerKey) := do
  match ← readSk X skFile with
  | .ok key => pure key
  | .error () => pure none

def loadOrGenerate (mayGenerate : Bool) (suffix : String) : KeyHandler (Option ServerKey) := do
  match ← readSk X skFile with
  | .error () => pure none
  | .ok (some key) => pure (some key)
  | .ok none =>
    if mayGenerate then
      match ← generateAndPublishSk X suffix with
      | some key => pure (some key)
      | none => loadPublished X
    else pure none

/-- `gen_sk`; without a result the process exits. -/
def genSk (wait : ℕ) (mayGenerate : Bool) (suffix : String) : KeyHandler (Option ServerKey) := do
  if 0 < wait then let _ ← file (.fileExists skFile)
  loadOrGenerate X mayGenerate suffix

/-- A process that starts. -/
structure Start where
  wait : ℕ
  mayGenerate : Bool
  suffix : String
  deriving DecidableEq

def Start.code (j : Start) : KeyHandler Unit := do
  KeyOp.perform (.started (← genSk X j.wait j.mayGenerate j.suffix))

/-- The file system fails or recovers; the clock is set. -/
inductive KeyEnv
  | setFault (fault : Bool)
  | setClock (clock : ℕ)

def KeyEnv.act (s : KeyHost) : KeyEnv → KeyHost
  | .setFault fault => { s with fault := fault }
  | .setClock clock => { s with clock := clock }

/-- Processes that start, each with a temporary name of its own. A crash stops them all. -/
def starts : System KeyOp KeyOp.Res KeyHost Start KeyEnv where
  sem := KeyOp.sem X
  code := Start.code X
  start j s := if tmpFile j.suffix ∈ s.tmpNames then none
    else some { s with tmpNames := tmpFile j.suffix :: s.tmpNames }
  env e s := some (e.act s)
  reboot s := s

/-- There is no key yet, and no file has two names. -/
structure KeyHost.Booted (s : KeyHost) : Prop where
  absent : s.disk.paths skFile = none
  distinct : ∀ path path' i, s.disk.paths path = some i → s.disk.paths path' = some i →
    path = path'
  bounded : ∀ path i, s.disk.paths path = some i → i < s.disk.fresh
  unused : s.tmpNames = []

end Keys

end NemoServer
