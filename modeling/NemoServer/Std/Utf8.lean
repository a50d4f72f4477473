import Mathlib.Algebra.Group.Nat.Defs
import NemoServer.Std.Str

/-!
# Bytes and numbers as text

`String::from_utf8_lossy`, which replaces every malformed piece of a text by U+FFFD, and the
parsing of an unsigned number. A text in which nothing was replaced is the exact text of its bytes
(`toUtf8_fromUtf8Lossy`).
-/

set_option autoImplicit false

namespace NemoServer

namespace Str

/-- `char::REPLACEMENT_CHARACTER`. -/
def replacement : Char := Char.ofNat 0xFFFD

/-- `str::as_bytes`. -/
def toUtf8 (s : String) : List UInt8 := s.toList.flatMap String.utf8EncodeChar

theorem length_toUtf8 (s : String) : (toUtf8 s).length = s.utf8ByteSize := by
  rw [← String.size_toByteArray, ← String.utf8Encode_toList, List.utf8Encode,
    List.size_toByteArray]
  rfl

/-- The byte may follow the first byte `b` of a character of three or four bytes. -/
def secondByte (b c : UInt8) : Bool :=
  if b = 0xE0 then 0xA0 ≤ c && c ≤ 0xBF
  else if b = 0xED then 0x80 ≤ c && c ≤ 0x9F
  else if b = 0xF0 then 0x90 ≤ c && c ≤ 0xBF
  else if b = 0xF4 then 0x80 ≤ c && c ≤ 0x8F
  else 0xE1 ≤ b && b ≤ 0xF3 && 0x80 ≤ c && c ≤ 0xBF

/-- How many bytes one U+FFFD stands for, where no character can be decoded. -/
def malformed : List UInt8 → ℕ
  | b :: c :: d :: _ =>
    if secondByte b c then (if 0xF0 ≤ b && 0x80 ≤ d && d ≤ 0xBF then 3 else 2) else 1
  | [b, c] => if secondByte b c then 2 else 1
  | _ => 1

/-- Every round takes a byte at least, so the number of bytes is fuel enough. -/
def lossy : ℕ → List UInt8 → List Char
  | 0, _ => []
  | _ + 1, [] => []
  | fuel + 1, b :: bytes =>
    match (b :: bytes).toByteArray.utf8DecodeChar? 0 with
    | some c => c :: lossy fuel ((b :: bytes).drop c.utf8Size)
    | none => replacement :: lossy fuel ((b :: bytes).drop (malformed (b :: bytes)))

/-- `String::from_utf8_lossy`. -/
def fromUtf8Lossy (bytes : List UInt8) : String := String.ofList (lossy bytes.length bytes)

/-- `String::from_utf8`: the text whose encoding the bytes are. -/
def fromUtf8 (bytes : List UInt8) : Option String :=
  if toUtf8 (fromUtf8Lossy bytes) = bytes then some (fromUtf8Lossy bytes) else none

/-- `str::parse::<u64>`: decimal digits, after a sign of plus if there is one. -/
def parseU64 (s : String) : Option ℕ :=
  let digits := match s.toList with
    | '+' :: cs => cs
    | cs => cs
  if digits ≠ [] ∧ digits.all Char.isDigit then
    let n := digits.foldl (fun n c => 10 * n + (c.toNat - '0'.toNat)) 0
    if n < 2 ^ 64 then some n else none
  else none

/-- The number in decimal digits. -/
def decimal (digits : List Char) : Option ℕ :=
  if digits ≠ [] ∧ digits.all Char.isDigit then
    some (digits.foldl (fun n c => 10 * n + (c.toNat - '0'.toNat)) 0)
  else none

/-- `str::parse::<i32>`. -/
def parseI32 (s : String) : Option ℤ :=
  match s.toList with
  | '-' :: cs => (decimal cs).bind fun n => if n ≤ 2 ^ 31 then some (-n) else none
  | '+' :: cs => (decimal cs).bind fun n => if n < 2 ^ 31 then some n else none
  | cs => (decimal cs).bind fun n => if n < 2 ^ 31 then some n else none

/-- `splitn(3, ':')`, if there are three parts. -/
def splitThree (s : String) : Option (String × String × String) := do
  let (first, rest) ← splitOnce ':' s.toList
  let (second, third) ← splitOnce ':' rest
  some (String.ofList first, String.ofList second, String.ofList third)

/-! ## Decoding what was encoded -/

theorem decode_some {bytes : List UInt8} {c : Char}
    (h : bytes.toByteArray.utf8DecodeChar? 0 = some c) :
    bytes = String.utf8EncodeChar c ++ bytes.drop c.utf8Size := by
  obtain ⟨b, hb⟩ := ByteArray.exists_of_utf8DecodeChar?_eq_some h
  have hlist := congrArg (fun b : ByteArray => b.data.toList) hb
  simp only [List.data_toByteArray, ByteArray.data_append, Array.toList_append] at hlist
  have hdrop : bytes.drop c.utf8Size = b.data.toList := by
    rw [hlist, ← String.length_utf8EncodeChar c, List.drop_left]
  rw [hdrop]
  exact hlist

theorem decode_encode (c : Char) (bytes : List UInt8) :
    (String.utf8EncodeChar c ++ bytes).toByteArray.utf8DecodeChar? 0 = some c := by
  rw [List.toByteArray_append]
  exact ByteArray.utf8DecodeChar?_utf8EncodeChar_append

theorem encode_ne_nil (c : Char) : String.utf8EncodeChar c ≠ [] := by
  intro h
  have hpos := c.utf8Size_pos
  have hlen := String.length_utf8EncodeChar c
  rw [h] at hlen
  simp only [List.length_nil] at hlen
  omega

theorem lossy_exact {fuel : ℕ} {bytes : List UInt8} (hfuel : bytes.length ≤ fuel)
    (h : replacement ∉ lossy fuel bytes) :
    (lossy fuel bytes).flatMap String.utf8EncodeChar = bytes := by
  induction fuel generalizing bytes with
  | zero =>
    obtain rfl : bytes = [] := List.length_eq_zero_iff.1 (by omega)
    rfl
  | succ fuel ih =>
    cases bytes with
    | nil => rfl
    | cons b bytes =>
      rw [lossy] at h ⊢
      split at h
      · next c hc =>
        have hpos := c.utf8Size_pos
        have hrest : ((b :: bytes).drop c.utf8Size).length ≤ fuel := by
          rw [List.length_drop]
          omega
        rw [List.flatMap_cons, ih hrest fun hm => h (List.mem_cons_of_mem _ hm)]
        exact (decode_some hc).symm
      · exact absurd List.mem_cons_self h

theorem lossy_encode {fuel : ℕ} {l : List Char}
    (hfuel : (l.flatMap String.utf8EncodeChar).length ≤ fuel) :
    lossy fuel (l.flatMap String.utf8EncodeChar) = l := by
  induction l generalizing fuel with
  | nil => cases fuel <;> rfl
  | cons c l ih =>
    rw [List.flatMap_cons] at hfuel ⊢
    have hlen := String.length_utf8EncodeChar c
    have hpos := c.utf8Size_pos
    rw [List.length_append] at hfuel
    cases fuel with
    | zero => omega
    | succ fuel =>
      obtain ⟨b, bytes, hb⟩ := List.exists_cons_of_ne_nil
        (List.append_ne_nil_of_left_ne_nil (encode_ne_nil c) (l.flatMap String.utf8EncodeChar))
      have hdec := decode_encode c (l.flatMap String.utf8EncodeChar)
      have hdrop : (b :: bytes).drop c.utf8Size = l.flatMap String.utf8EncodeChar := by
        rw [← hb, ← hlen, List.drop_left]
      rw [hb] at hdec ⊢
      rw [lossy]
      simp only [hdec, hdrop]
      rw [ih (by omega)]

/-- A text in which nothing was replaced is the exact text of its bytes. -/
theorem toUtf8_fromUtf8Lossy {bytes : List UInt8}
    (h : replacement ∉ (fromUtf8Lossy bytes).toList) : toUtf8 (fromUtf8Lossy bytes) = bytes := by
  unfold toUtf8 fromUtf8Lossy at *
  rw [String.toList_ofList] at *
  exact lossy_exact (Nat.le_refl _) h

@[simp] theorem fromUtf8Lossy_toUtf8 (s : String) : fromUtf8Lossy (toUtf8 s) = s := by
  unfold toUtf8 fromUtf8Lossy
  rw [lossy_encode (Nat.le_refl _), String.ofList_toList]

/-! ## Parts of a text -/

theorem splitOnce_some {c : Char} {l first rest : List Char}
    (h : splitOnce c l = some (first, rest)) : l = first ++ c :: rest := by
  unfold splitOnce at h
  split at h
  · cases h
  · next d rest' hdrop =>
    obtain ⟨rfl, rfl⟩ := Prod.mk.inj (Option.some.inj h)
    have hd : (d != c) = false := by
      have hhead := List.head_dropWhile_not (· != c) (l := l) (by simp [hdrop])
      simpa [hdrop] using hhead
    have happ := List.takeWhile_append_dropWhile (p := (· != c)) (l := l)
    rw [hdrop] at happ
    obtain rfl : d = c := by simpa using hd
    exact happ.symm

theorem splitOnce_eq_none {c : Char} {l : List Char} : splitOnce c l = none ↔ c ∉ l := by
  unfold splitOnce
  split
  · rename_i hnil
    rw [List.dropWhile_eq_nil_iff] at hnil
    exact iff_of_true rfl fun hc => by simpa using hnil c hc
  · rename_i d rest hdrop
    refine iff_of_false (Option.some_ne_none _) (not_not.2 ?_)
    by_contra hc
    have hnil : l.dropWhile (· != c) = [] := by
      rw [List.dropWhile_eq_nil_iff]
      intro x hx
      exact bne_iff_ne.2 fun h => hc (h ▸ hx)
    rw [hdrop] at hnil
    exact List.cons_ne_nil d rest hnil

theorem splitOnce_some_notMem {c : Char} {l first rest : List Char}
    (h : splitOnce c l = some (first, rest)) : c ∉ first := by
  unfold splitOnce at h
  split at h
  · cases h
  · obtain ⟨rfl, rfl⟩ := Prod.mk.inj (Option.some.inj h)
    intro hc
    simpa using List.mem_takeWhile_imp hc

theorem splitOnce_append {c : Char} {first rest : List Char} (h : c ∉ first) :
    splitOnce c (first ++ c :: rest) = some (first, rest) := by
  have hne : ∀ d ∈ first, (d != c) = true := by
    intro d hd
    simp only [bne_iff_ne]
    rintro rfl
    exact h hd
  unfold splitOnce
  rw [List.dropWhile_append_of_pos hne, List.takeWhile_append_of_pos hne]
  simp

theorem splitThree_some {s first second third : String}
    (h : splitThree s = some (first, second, third)) :
    s = first ++ ":" ++ second ++ ":" ++ third := by
  simp only [splitThree, Option.bind_eq_bind, Option.bind_eq_some_iff, Option.some.injEq,
    Prod.mk.injEq] at h
  obtain ⟨⟨a, rest⟩, ha, ⟨b, c⟩, hb, rfl, rfl, rfl⟩ := h
  apply String.toList_inj.1
  simp only at hb
  rw [splitOnce_some ha, splitOnce_some hb]
  simp

theorem splitThree_append {first second : String} (third : String) (hf : ':' ∉ first.toList)
    (hs : ':' ∉ second.toList) :
    splitThree (first ++ ":" ++ second ++ ":" ++ third) = some (first, second, third) := by
  have htext : (first ++ ":" ++ second ++ ":" ++ third).toList =
      first.toList ++ ':' :: (second.toList ++ ':' :: third.toList) := by simp
  simp only [splitThree, htext, splitOnce_append hf, splitOnce_append hs, Option.bind_eq_bind,
    Option.bind_some, String.ofList_toList]

/-- A number has no other characters than digits and a sign. -/
theorem mem_of_parseU64 {s : String} {n : ℕ} (h : parseU64 s = some n) {c : Char}
    (hc : c ∈ s.toList) : c = '+' ∨ c.isDigit = true := by
  unfold parseU64 at h
  simp only [Option.ite_none_right_eq_some] at h
  obtain ⟨⟨-, hall⟩, -⟩ := h
  rw [List.all_eq_true] at hall
  split at hall
  · next cs heq =>
    rw [heq] at hc
    rcases List.mem_cons.1 hc with rfl | hc
    · exact .inl rfl
    · exact .inr (hall c hc)
  · exact .inr (hall c hc)

theorem replacement_notMem_of_parseU64 {s : String} {n : ℕ} (h : parseU64 s = some n) :
    replacement ∉ s.toList := by
  intro hc
  rcases mem_of_parseU64 h hc with heq | hdigit
  · exact absurd heq (by decide)
  · exact absurd hdigit (by decide)

end Str

end NemoServer
