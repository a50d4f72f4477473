import Mathlib.Data.List.Basic
import Mathlib.Data.Nat.Notation
import NemoServer.Std.Str

/-!
# Base64

The standard alphabet with padding, for the deployments that exhibit runs. What is encoded is
decoded again (`base64Bytes_base64Chars`); of other texts, those without padding or with bits left
over are refused.
-/

set_option autoImplicit false

namespace NemoServer

namespace Sample

open Str

def base64Alphabet : List Char :=
  "ABCDEFGHIJKLMNOPQRSTUVWXYZabcdefghijklmnopqrstuvwxyz0123456789+/".toList

def base64Digit (n : ℕ) : Char := (base64Alphabet[n]?).getD '='

/-- Base64 with padding. -/
def base64Chars : List UInt8 → List Char
  | a :: b :: c :: rest =>
    [base64Digit (a.toNat / 4), base64Digit (a.toNat % 4 * 16 + b.toNat / 16),
      base64Digit (b.toNat % 16 * 4 + c.toNat / 64), base64Digit (c.toNat % 64)] ++
      base64Chars rest
  | [a, b] =>
    [base64Digit (a.toNat / 4), base64Digit (a.toNat % 4 * 16 + b.toNat / 16),
      base64Digit (b.toNat % 16 * 4), '=']
  | [a] => [base64Digit (a.toNat / 4), base64Digit (a.toNat % 4 * 16), '=', '=']
  | [] => []

def base64Value (c : Char) : Option ℕ :=
  if base64Alphabet.idxOf c < 64 then some (base64Alphabet.idxOf c) else none

/-- The bytes of a text, four characters at a time. -/
def base64Bytes : List Char → Option (List UInt8)
  | a :: b :: c :: d :: rest => do
    let x ← base64Value a
    let y ← base64Value b
    let first := UInt8.ofNat (x * 4 + y / 16)
    if c = '=' then
      if d = '=' ∧ rest = [] ∧ y % 16 = 0 then some [first] else none
    else
      let z ← base64Value c
      let second := UInt8.ofNat (y % 16 * 16 + z / 4)
      if d = '=' then
        if rest = [] ∧ z % 4 = 0 then some [first, second] else none
      else
        let w ← base64Value d
        let more ← base64Bytes rest
        some (first :: second :: UInt8.ofNat (z % 4 * 64 + w) :: more)
  | [] => some []
  | _ => none

theorem base64Digit_ne {c : Char} (h : c ∉ base64Alphabet) (hc : c ≠ '=') (n : ℕ) :
    c ≠ base64Digit n := by
  unfold base64Digit
  cases hn : base64Alphabet[n]? with
  | none => exact hc
  | some d =>
    rintro rfl
    exact h (List.mem_of_getElem? hn)

theorem not_mem_base64Chars {c : Char} (h : c ∉ base64Alphabet) (hc : c ≠ '=') (b : List UInt8) :
    c ∉ base64Chars b := by
  have hdigit := base64Digit_ne h hc
  induction b using base64Chars.induct with
  | case1 a b d rest ih => simp [base64Chars, hdigit, ih]
  | case2 a b => simp [base64Chars, hdigit, hc]
  | case3 a => simp [base64Chars, hdigit, hc]
  | case4 => simp [base64Chars]

theorem trim_base64Chars (b : List UInt8) :
    trim (String.ofList (base64Chars b)) = String.ofList (base64Chars b) := by
  have hclear : ∀ c ∈ base64Chars b, isWhitespace c = false := by
    intro c hc
    by_contra hw
    have htest : (base64Alphabet.all fun d => !isWhitespace d) = true := by decide +kernel
    have hall : ∀ d ∈ base64Alphabet, isWhitespace d = false := fun d hd => by
      simpa using List.all_eq_true.1 htest d hd
    refine not_mem_base64Chars (fun hmem => hw (hall c hmem)) (fun heq => hw ?_) b hc
    rw [heq]
    decide
  rw [trim, String.toList_ofList, trimChars_eq_self hclear]

theorem base64Value_digit {n : ℕ} (h : n < 64) : base64Value (base64Digit n) = some n := by
  have hall : ∀ n < 64, base64Value (base64Digit n) = some n := by decide +kernel
  exact hall n h

theorem base64Digit_ne_pad {n : ℕ} (h : n < 64) : base64Digit n ≠ '=' := by
  have hall : ∀ n < 64, base64Digit n ≠ '=' := by decide +kernel
  exact hall n h

theorem ofNat_eq {n : ℕ} {a : UInt8} (h : n = a.toNat) : UInt8.ofNat n = a := by
  rw [h, UInt8.ofNat_toNat]

/-- What is encoded is decoded. -/
theorem base64Bytes_base64Chars (b : List UInt8) : base64Bytes (base64Chars b) = some b := by
  induction b using base64Chars.induct with
  | case1 a b c rest ih =>
    have ha := a.toNat_lt
    have hb := b.toNat_lt
    have hc := c.toNat_lt
    rw [base64Chars, List.cons_append, List.cons_append, List.cons_append, List.cons_append,
      List.nil_append, base64Bytes, base64Value_digit (by omega), base64Value_digit (by omega),
      base64Value_digit (by omega), base64Value_digit (by omega), ih]
    simp only [Option.bind_eq_bind, Option.bind_some]
    rw [if_neg (base64Digit_ne_pad (by omega)), if_neg (base64Digit_ne_pad (by omega)),
      ofNat_eq (a := a) (by omega), ofNat_eq (a := b) (by omega), ofNat_eq (a := c) (by omega)]
  | case2 a b =>
    have ha := a.toNat_lt
    have hb := b.toNat_lt
    rw [base64Chars, base64Bytes, base64Value_digit (by omega), base64Value_digit (by omega),
      base64Value_digit (by omega)]
    simp only [Option.bind_eq_bind, Option.bind_some]
    rw [if_neg (base64Digit_ne_pad (by omega)), if_pos trivial, if_pos ⟨trivial, by omega⟩,
      ofNat_eq (a := a) (by omega), ofNat_eq (a := b) (by omega)]
  | case3 a =>
    have ha := a.toNat_lt
    rw [base64Chars, base64Bytes, base64Value_digit (by omega), base64Value_digit (by omega)]
    simp only [Option.bind_eq_bind, Option.bind_some]
    rw [if_pos trivial, if_pos ⟨trivial, trivial, by omega⟩, ofNat_eq (a := a) (by omega)]
  | case4 => rfl

end Sample

end NemoServer
