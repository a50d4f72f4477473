import NemoServer.Foundations.Interleave
import NemoServer.Management.Statistics

/-!
# The file of revocation stamps

`set_peer_terminate` (`nemo_management.rs`), as the concurrent calls of a server perform it: the
stamp and the copy of the map are made under the lock, and the copy is written to the file outside
it. A plain write empties the file and then fills it, at any pace, so that two writes may mingle,
and a crash may find any part of them done. A restart reads the file back; what does not parse is
no stamp at all.
-/

set_option autoImplicit false

namespace NemoServer

namespace Management

open Prog

/-- `serde_json`, on maps from ids to seconds. -/
structure StampJson where
  text : List (String × ℕ) → List Char
  parse : List Char → Option (List (String × ℕ))

/-- What is loaded from the file. -/
def StampJson.load (J : StampJson) (file : Option (List Char)) : List (String × ℕ) :=
  (file.bind J.parse).getD []

/-- The stamp of a machine, 0 if it has none. -/
def stampOf (map : List (String × ℕ)) (id : String) : ℕ := (map.lookup id).getD 0

/-- A stamp only moves forward. -/
def stampIn (clock : ℕ) (id : String) : List (String × ℕ) → List (String × ℕ)
  | [] => [(id, clock)]
  | (k, v) :: map => if k = id then (k, if v < clock then clock else v) :: map
    else (k, v) :: stampIn clock id map

/-- A write at an offset; a gap before it is filled with zeroes. -/
def writeChar (text : List Char) (off : ℕ) (c : Char) : List Char :=
  if off < text.length then text.set off c
  else text ++ List.replicate (off - text.length) (Char.ofNat 0) ++ [c]

structure StampState where
  /-- `PEER_TERMINATE`. -/
  map : List (String × ℕ)
  file : Option (List Char)
  clock : ℕ

inductive StampOp
  /-- The critical section: stamp, and copy the map. -/
  | stamp (id : String)
  /-- The file is opened for writing, which empties it. -/
  | create
  | writeAt (off : ℕ) (c : Char)
  /-- The call returns what its copy says of the id. -/
  | returned (id : String) (snapshot : List (String × ℕ))

@[reducible] def StampOp.Res : StampOp → Type
  | .stamp _ => List (String × ℕ)
  | _ => Unit

def StampOp.sem : (o : StampOp) → StampState → o.Res × StampState
  | .stamp id, s =>
    let map := stampIn s.clock id s.map
    (map, { s with map := map })
  | .create, s => ((), { s with file := some [] })
  | .writeAt off c, s => ((), { s with file := some (writeChar (s.file.getD []) off c) })
  | .returned _ _, s => ((), s)

abbrev StampHandler := Prog StampOp StampOp.Res

/-- Perform one operation. -/
abbrev StampOp.perform (o : StampOp) : StampHandler o.Res := Prog.op o

/-- Write the rest of a text, from an offset on. -/
def writeFrom (off : ℕ) : List Char → StampHandler Unit
  | [] => pure ()
  | c :: cs => do
    StampOp.perform (.writeAt off c)
    writeFrom (off + 1) cs

/-- `std::fs::write`. -/
def fsWrite (text : List Char) : StampHandler Unit := do
  StampOp.perform .create
  writeFrom 0 text

variable (J : StampJson)

/-- The part of `set_peer_terminate` outside the lock. -/
def persistStamps (id : String) (snapshot : List (String × ℕ)) : StampHandler Unit := do
  fsWrite (J.text snapshot)
  StampOp.perform (.returned id snapshot)

def setPeerTerminate (id : String) : StampHandler Unit := do
  let snapshot ← StampOp.perform (.stamp id)
  persistStamps J id snapshot

/-- The server as its calls of `set_peer_terminate` see it; the clock may be set to any second. -/
def stamps : System StampOp StampOp.Res StampState String ℕ where
  sem := StampOp.sem
  code := setPeerTerminate J
  start _ s := some s
  env clock s := some { s with clock := clock }
  reboot s := { s with map := J.load s.file }

/-- A server that has just started. -/
def StampState.Booted (s : StampState) : Prop := s.map = J.load s.file

/-- The rest of a call that has written the text up to `off`. -/
def resumeAt (id : String) (snapshot : List (String × ℕ)) (off : ℕ) : StampHandler Unit := do
  writeFrom off ((J.text snapshot).drop off)
  StampOp.perform (.returned id snapshot)

variable {J}

theorem stampOf_stampIn (clock : ℕ) (id t : String) (map : List (String × ℕ)) :
    stampOf (stampIn clock id map) t =
      if t = id then max (stampOf map t) clock else stampOf map t := by
  induction map with
  | nil =>
    by_cases h : t = id
    · simp [stampIn, stampOf, h]
    · simp [stampIn, stampOf, h, List.lookup_cons, beq_eq_false_iff_ne.2 h]
  | cons kv map ih =>
    obtain ⟨k, v⟩ := kv
    simp only [stampOf] at ih
    simp only [stampIn, stampOf]
    by_cases hk : k = id
    · subst hk
      rw [if_pos rfl]
      by_cases h : t = k
      · simp only [h, List.lookup_cons_self, Option.getD_some, if_true]
        split <;> omega
      · simp [List.lookup_cons, beq_eq_false_iff_ne.2 h, h]
    · rw [if_neg hk]
      by_cases h : t = k
      · subst h
        simp [hk]
      · simp [List.lookup_cons, beq_eq_false_iff_ne.2 h, ih]

/-- The map that is copied to the file is the one the statistics keep. -/
theorem stampIn_simulates {s : Statistics} {map : List (String × ℕ)}
    (h : ∀ t, stampOf map t = s.peerTerminateBefore t) (clock : ℕ) (id t : String) :
    stampOf (stampIn clock id map) t = (s.setPeerTerminate clock id).peerTerminateBefore t := by
  rw [stampOf_stampIn, Statistics.peerTerminateBefore_set, h]

/-- Appending to what is written so far. -/
theorem writeChar_take {text : List Char} {off : ℕ} (h : off < text.length) :
    writeChar (text.take off) off text[off] = text.take (off + 1) := by
  have hlen : (text.take off).length = off := by
    rw [List.length_take]
    omega
  rw [writeChar, hlen, if_neg (Nat.lt_irrefl _), Nat.sub_self, List.replicate_zero,
    List.append_nil, List.take_add_one, List.getElem?_eq_getElem h, Option.toList_some]

theorem resumeAt_lt {id : String} {snapshot : List (String × ℕ)} {off : ℕ}
    (h : off < (J.text snapshot).length) : resumeAt J id snapshot off =
      .call (.writeAt off (J.text snapshot)[off]) fun _ => resumeAt J id snapshot (off + 1) := by
  rw [resumeAt, List.drop_eq_getElem_cons h]
  rfl

theorem resumeAt_length (id : String) (snapshot : List (String × ℕ)) :
    resumeAt J id snapshot (J.text snapshot).length =
      .call (.returned id snapshot) fun _ => .ret () := by
  rw [resumeAt, List.drop_length]
  rfl

theorem persistStamps_eq (id : String) (snapshot : List (String × ℕ)) :
    persistStamps J id snapshot = .call .create fun _ => resumeAt J id snapshot 0 := by
  rw [resumeAt, List.drop_zero]
  rfl

theorem setPeerTerminate_eq (id : String) :
    setPeerTerminate J id = .call (.stamp id) fun snapshot => persistStamps J id snapshot := rfl

end Management

end NemoServer
