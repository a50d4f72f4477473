import NemoServer.Foundations.Files
import NemoServer.Foundations.Prog
import NemoServer.Std.Utf8

/-!
# The configuration file

`nemo_integration.rs`: how `nemo_integration.json` is read at the start (`load_config`), and how
every change of the configuration replaces it (`persist`): by a rename of a temporary file that is
complete. What the configuration says does not matter here, so it is a type of its own, with its
JSON.
-/

set_option autoImplicit false

namespace NemoServer

namespace Integration

open Prog Str

/-- `IntegrationConfig` as JSON. -/
structure ConfigJson (C : Type) where
  /-- `serde_json::from_str`. -/
  fromStr : String → Option C
  /-- `serde_json::to_string_pretty`. -/
  toStringPretty : C → Option String
  /-- `IntegrationConfig::default()`. -/
  default : C

/-- The directory, whether its file system fails, and `CONFIG`. -/
structure ConfigHost (C : Type) where
  disk : Disk String
  fault : Bool
  config : C

inductive ConfigOp (C : Type)
  | file (o : FileOp String)
  /-- The first use of `CONFIG`. -/
  | install (cfg : C)
  /-- A change under the lock; the answer is the new configuration. -/
  | update (f : C → C)

@[reducible] def ConfigOp.Res {C : Type} : ConfigOp C → Type
  | .file o => o.Res
  | .install _ => Unit
  | .update _ => C

def ConfigOp.sem {C : Type} : (o : ConfigOp C) → ConfigHost C → o.Res × ConfigHost C
  | .file o, s => ((o.sem s.fault s.disk).1, { s with disk := (o.sem s.fault s.disk).2 })
  | .install cfg, s => ((), { s with config := cfg })
  | .update f, s => (f s.config, { s with config := f s.config })

variable {C : Type}

abbrev ConfigProg (C : Type) := Prog (ConfigOp C) ConfigOp.Res

/-- A call of the file system. -/
abbrev fileOp (o : FileOp String) : ConfigProg C o.Res := Prog.op (ConfigOp.file o)

/-! ## Names -/

/-- `config_path()` without the argument that sets another one. -/
def configPath : String := "nemo_integration.json"

/-- The path with the extension `corrupt-` and the second. -/
def corruptPath (now : ℕ) : String := "nemo_integration.corrupt-" ++ toString now

/-- The path with the extension `json.tmp-` and the number of the process. -/
def configTmp (pid : ℕ) : String := "nemo_integration.json.tmp-" ++ toString pid

/-! ## Reading -/

/-- `fs::read_to_string`. -/
def readConfigText : ConfigProg C (Option String) := do
  match ← fileOp (.openRead configPath) with
  | none => pure none
  | some i => do
    let bytes ← fileOp (.read i)
    pure (bytes.bind fromUtf8)

variable (J : ConfigJson C)

/-- A text that is no configuration is moved aside; whatever cannot be read is as if absent. -/
def loadConfig (now : ℕ) : ConfigProg C C := do
  match ← readConfigText with
  | some text =>
    match J.fromStr text with
    | some cfg => pure cfg
    | none =>
      let _ ← fileOp (.rename configPath (corruptPath now))
      pure J.default
  | none => pure J.default

/-! ## Writing -/

/-- `write_all`, from an offset on. -/
def writeAllFrom (i off : ℕ) : List UInt8 → ConfigProg C Bool
  | [] => pure true
  | b :: bytes => do
    if ← fileOp (.writeAt i off b) then writeAllFrom i (off + 1) bytes else pure false

def atomicWrite (pid : ℕ) (text : String) : ConfigProg C Bool := do
  match ← fileOp (.create (configTmp pid)) with
  | none => pure false
  | some i =>
    if ← writeAllFrom i 0 (toUtf8 text) then
      if ← fileOp (.sync i) then fileOp (.rename (configTmp pid) configPath) else pure false
    else pure false

/-- What cannot be written is logged, and the configuration stays changed in memory. -/
def persist (pid : ℕ) (cfg : C) : ConfigProg C Unit := do
  match J.toStringPretty cfg with
  | some text => let _ ← atomicWrite pid text
  | none => pure ()

/-- A change of the configuration that persists. -/
def changeConfig (pid : ℕ) (f : C → C) : ConfigProg C Unit := do
  persist J pid (← Prog.op (ConfigOp.update f))

def changeAll (pid : ℕ) : List (C → C) → ConfigProg C Unit
  | [] => pure ()
  | f :: changes => do
    changeConfig J pid f
    changeAll pid changes

/-- A process that loads the configuration and makes changes. -/
def configProcess (now pid : ℕ) (changes : List (C → C)) : ConfigProg C Unit := do
  let cfg ← loadConfig J now
  Prog.op (ConfigOp.install cfg)
  changeAll J pid changes

end Integration

end NemoServer
