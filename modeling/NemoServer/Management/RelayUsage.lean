import NemoServer.Management.StatsStore
import NemoServer.Std.Json

/-!
# What hbbr reports

The reading of the answer to `uj` (`fetch_relay_usage` of `nemo_management.rs`), as `serde_json`
reads a list of `RelayUsageSample`: a sample is an object or the list of its fields, unknown members
are passed over, missing fields are the defaults, and a field that is there twice or is of another
kind is an error.
-/

set_option autoImplicit false

namespace NemoServer

namespace Management

open Str

def readString : Json → Option String
  | .str s => some s
  | _ => none

def readU64 : Json → Option ℕ
  | .number n => parseU64 (String.ofList n.text)
  | _ => none

/-- A field of an object. -/
def readField {α : Type} (members : List (String × Json)) (name : String)
    (read : Json → Option α) (default : α) : Option α :=
  match members.filter fun m => m.1 == name with
  | [] => some default
  | [m] => read m.2
  | _ => none

/-- A field of a list of the fields. -/
def readItem {α : Type} (items : List Json) (i : ℕ) (read : Json → Option α) (default : α) :
    Option α :=
  match items[i]? with
  | none => some default
  | some j => read j

def RelayUsageSample.ofJson : Json → Option RelayUsageSample
  | .obj members => do
    let session ← readField members "session" readString ""
    let bytes ← readField members "bytes" readU64 0
    let kbps ← readField members "kbps" readU64 0
    let peakKbps ← readField members "peak_kbps" readU64 0
    let ms ← readField members "ms" readU64 0
    some { session, bytes, kbps, peakKbps, ms }
  | .arr items => do
    let session ← readItem items 0 readString ""
    let bytes ← readItem items 1 readU64 0
    let kbps ← readItem items 2 readU64 0
    let peakKbps ← readItem items 3 readU64 0
    let ms ← readItem items 4 readU64 0
    if items.length ≤ 5 then some { session, bytes, kbps, peakKbps, ms } else none
  | _ => none

/-- What `fetch_relay_usage` makes of an answer. -/
def readRelayUsage (answer : String) : Option (List RelayUsageSample) :=
  match Json.read answer with
  | some (.arr items) => items.mapM RelayUsageSample.ofJson
  | _ => none

end Management

end NemoServer
