import NemoServer.Keys.Generate

/-!
# Rotating the server key

`rotate_server_key_at` (`nemo_management.rs`): the replacement is written to a temporary file, the
current key is moved aside under a name with the second in it, and the replacement takes its
place. Calls run side by side, in one process or in several.
-/

set_option autoImplicit false

namespace NemoServer

namespace Keys

open Prog Str

variable (X : KeyDeps)

/-! ## The public key on disk -/

def readToString (path : String) : KeyHandler (Option String) := do
  match ← file (.openRead path) with
  | none => pure none
  | some i => do
    let bytes ← file (.read i)
    pure (bytes.bind fromUtf8)

/-- The public half of a secret key, from the text of its file. -/
def publicHalf (contents : String) : Option String :=
  ((X.base64Decode (trim contents)).filter fun sk => sk.length = 64).map
    fun sk => X.base64Encode (sk.drop 32)

/-- The file `.pub`, or what the secret key says where it is missing or blank. -/
def serverPublicKeyOnDiskAt (sk : String) : KeyHandler String := do
  let pk := ((← readToString (pubFile sk)).map trim).getD ""
  if pk ≠ "" then pure pk
  else
    let contents ← readToString sk
    pure ((contents.bind (publicHalf X)).getD "")

/-! ## Rotation -/

/-- As in `generateAndPublishSk`. -/
def genUrlSafeKeypair : KeyHandler ServerKey := genUntilSafe X 300

def rotatingFile (sk : String) (pid : ℕ) : String := sk ++ ".rotating-" ++ toString pid

/-- Where the key is moved that is retired at the second `stamp`. -/
def archiveFile (sk : String) (stamp : ℕ) : String := sk ++ ".rotated-" ++ toString stamp

def writePrivate (path : String) (contents : Bytes) : KeyHandler Bool := writeFile path contents

/-- The replacement takes the place of the key; if it cannot, what was moved aside is put back. -/
def publishReplacement (sk tmp archive newPub : String) (hadOld : Bool) :
    KeyHandler (Except String (String × String)) := do
  if ← file (.rename tmp sk) then
    let _ ← writeFile (pubFile sk) (toUtf8 newPub)
    pure (.ok (newPub, if hadOld then archive else ""))
  else
    if hadOld then let _ ← file (.rename archive sk)
    let _ ← file (.removeFile tmp)
    pure (.error ("could not publish the replacement key: " ++ X.ioError))

def rotateServerKeyAt (sk : String) (pid : ℕ) :
    KeyHandler (Except String (String × String)) := do
  let _previousPub ← serverPublicKeyOnDiskAt X sk
  let (newPub, newSk) ← genUrlSafeKeypair X
  let tmp := rotatingFile sk pid
  if ← writePrivate tmp (keyText X newSk) then
    let stamp ← KeyOp.perform .nowEpochSecs
    let archive := archiveFile sk stamp
    let hadOld ← file (.fileExists sk)
    if hadOld then
      if ← file (.rename sk archive) then publishReplacement X sk tmp archive newPub true
      else
        let _ ← file (.removeFile tmp)
        pure (.error ("could not archive the current key to " ++ archive ++ ": " ++ X.ioError))
    else publishReplacement X sk tmp archive newPub false
  else pure (.error ("could not write the replacement key: " ++ X.ioError))

/-- A call of `rotate_server_key_at`, in the process `pid`. -/
structure Rotation where
  pid : ℕ
  deriving DecidableEq

def Rotation.code (sk : String) (j : Rotation) : KeyHandler Unit := do
  KeyOp.perform (.rotated (← rotateServerKeyAt X sk j.pid))

/-- Calls for one key file, at any times. A crash stops them all. -/
def rotations (sk : String) : System KeyOp KeyOp.Res KeyHost Rotation KeyEnv where
  sem := KeyOp.sem X
  code := Rotation.code X sk
  start _ s := some s
  env e s := some (e.act s)
  reboot s := s

/-! ## Names -/

/-- The names a rotation uses. -/
inductive Rotates (sk : String) : String → Prop
  | key : Rotates sk sk
  | pub : Rotates sk (pubFile sk)
  | rotating (pid : ℕ) : Rotates sk (rotatingFile sk pid)
  | archive (stamp : ℕ) : Rotates sk (archiveFile sk stamp)

variable {sk : String}

theorem length_rotatingFile (sk : String) (pid : ℕ) : sk.length < (rotatingFile sk pid).length := by
  have hdash : ".rotating-".length = 10 := rfl
  rw [rotatingFile, String.length_append, String.length_append]
  omega

theorem length_archiveFile (sk : String) (stamp : ℕ) :
    sk.length < (archiveFile sk stamp).length := by
  have hdash : ".rotated-".length = 9 := rfl
  rw [archiveFile, String.length_append, String.length_append]
  omega

theorem rotatingFile_ne (pid : ℕ) : rotatingFile sk pid ≠ sk := by
  intro h
  have hlen := length_rotatingFile sk pid
  rw [h] at hlen
  omega

theorem archiveFile_ne (stamp : ℕ) : archiveFile sk stamp ≠ sk := by
  intro h
  have hlen := length_archiveFile sk stamp
  rw [h] at hlen
  omega

theorem pubFile_ne : pubFile sk ≠ sk := by
  intro h
  have hlen := congrArg String.length h
  have hpub : ".pub".length = 4 := rfl
  rw [pubFile, String.length_append] at hlen
  omega

theorem rotatingFile_ne_archiveFile (pid stamp : ℕ) :
    rotatingFile sk pid ≠ archiveFile sk stamp := by
  intro h
  have hchars := congrArg String.toList h
  simp [rotatingFile, archiveFile] at hchars

theorem rotatingFile_ne_pubFile (pid : ℕ) : rotatingFile sk pid ≠ pubFile sk := by
  intro h
  have hchars := congrArg String.toList h
  simp [rotatingFile, pubFile] at hchars

theorem archiveFile_ne_pubFile (stamp : ℕ) : archiveFile sk stamp ≠ pubFile sk := by
  intro h
  have hchars := congrArg String.toList h
  simp [archiveFile, pubFile] at hchars

end Keys

end NemoServer
