import Mathlib.Data.List.Nodup
import Mathlib.Data.Nat.Notation
import Mathlib.Data.Nat.Bitwise
import Mathlib.Tactic.Ring

/-!
# Lanes of a word

A word packs small numbers side by side: the lane with the index `i` is the `w` bits from the bit
`w * i` on. Numbers are written with `or`, each shifted to its lane; where no two of them have one
lane, each lane holds what was written to it (`lane_pack`), and the others are zero
(`lane_pack_of_notMem`).
-/

set_option autoImplicit false

namespace NemoServer

namespace Lanes

variable {w : ℕ}

/-- The number in a lane. -/
def lane (w bits i : ℕ) : ℕ := bits >>> (w * i) % 2 ^ w

/-- Numbers, each with its lane, written one after another. -/
def pack (w : ℕ) (parts : List (ℕ × ℕ)) (bits : ℕ) : ℕ :=
  parts.foldl (fun bits part => bits ||| part.2 <<< (w * part.1)) bits

@[simp] theorem lane_zero (i : ℕ) : lane w 0 i = 0 := by
  simp [lane]

theorem lane_or (a b i : ℕ) : lane w (a ||| b) i = lane w a i ||| lane w b i := by
  rw [lane, Nat.shiftRight_or_distrib, Nat.or_mod_two_pow]
  rfl

/-- A number that fits in its lane touches no other. -/
theorem lane_shiftLeft {n : ℕ} (hn : n < 2 ^ w) (i j : ℕ) :
    lane w (n <<< (w * i)) j = if j = i then n else 0 := by
  obtain hlt | rfl | hgt := Nat.lt_trichotomy j i
  · obtain ⟨k, rfl⟩ : ∃ k, i = j + 1 + k := ⟨i - (j + 1), by omega⟩
    have hshift : n <<< (w * (j + 1 + k)) = (n <<< (w * k) <<< w) <<< (w * j) := by
      rw [← Nat.shiftLeft_add, ← Nat.shiftLeft_add]
      congr 1
      ring
    rw [lane, hshift, Nat.shiftLeft_shiftRight, Nat.shiftLeft_eq _ w, Nat.mul_mod_left,
      if_neg (by omega)]
  · rw [lane, Nat.shiftLeft_shiftRight, Nat.mod_eq_of_lt hn, if_pos rfl]
  · obtain ⟨k, rfl⟩ : ∃ k, j = i + 1 + k := ⟨j - (i + 1), by omega⟩
    have hshift : n <<< (w * i) >>> (w * (i + 1 + k)) = n >>> w >>> (w * k) := by
      rw [show w * (i + 1 + k) = w * i + w + w * k by ring, Nat.shiftRight_add, Nat.shiftRight_add,
        Nat.shiftLeft_shiftRight]
    rw [lane, hshift, Nat.shiftRight_eq_div_pow n w, Nat.div_eq_of_lt hn, Nat.zero_shiftRight,
      Nat.zero_mod, if_neg (by omega)]

/-- A lane to which nothing is written stays. -/
theorem lane_pack_of_notMem {parts : List (ℕ × ℕ)} (hfit : ∀ part ∈ parts, part.2 < 2 ^ w) {i : ℕ}
    (hi : i ∉ parts.map (·.1)) (bits : ℕ) : lane w (pack w parts bits) i = lane w bits i := by
  induction parts generalizing bits with
  | nil => rfl
  | cons part parts ih =>
    rw [List.map_cons, List.mem_cons, not_or] at hi
    have hrest := ih (fun p hp => hfit p (List.mem_cons_of_mem _ hp)) hi.2
    rw [pack, List.foldl_cons]
    refine (hrest _).trans ?_
    rw [lane_or, lane_shiftLeft (hfit part List.mem_cons_self), if_neg hi.1, Nat.or_zero]

/-- A lane holds what was written to it, if that was written there alone. -/
theorem lane_pack {parts : List (ℕ × ℕ)} (hfit : ∀ part ∈ parts, part.2 < 2 ^ w)
    (hnodup : (parts.map (·.1)).Nodup) {i n : ℕ} (hmem : (i, n) ∈ parts) {bits : ℕ}
    (hbits : lane w bits i = 0) : lane w (pack w parts bits) i = n := by
  induction parts generalizing bits with
  | nil => cases hmem
  | cons part parts ih =>
    have hfit' : ∀ p ∈ parts, p.2 < 2 ^ w := fun p hp => hfit p (List.mem_cons_of_mem _ hp)
    rw [List.map_cons, List.nodup_cons] at hnodup
    rw [pack, List.foldl_cons]
    obtain rfl | hmem := List.mem_cons.1 hmem
    · refine (lane_pack_of_notMem hfit' hnodup.1 _).trans ?_
      rw [lane_or, hbits, lane_shiftLeft (hfit _ List.mem_cons_self), if_pos rfl, Nat.zero_or]
    · refine ih hfit' hnodup.2 hmem ?_
      have hne : i ≠ part.1 := by
        rintro rfl
        exact hnodup.1 (List.mem_map.2 ⟨_, hmem, rfl⟩)
      rw [lane_or, hbits, lane_shiftLeft (hfit part List.mem_cons_self), if_neg hne, Nat.zero_or]

end Lanes

end NemoServer
