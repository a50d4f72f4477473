import Mathlib.Algebra.Order.Group.Nat
import Mathlib.Data.List.Rotate
import Mathlib.Data.List.Count
import Mathlib.Data.Option.Basic

/-!
# Taking turns

Turns over a list, one entry after the other and from the start again: turn `i` is the entry at `i`
modulo the length. The turns of one round are a rotation of the list (`turns_round`), so over any
number of turns each entry has its share to within one round (`count_turns`).
-/

set_option autoImplicit false

namespace NemoServer

namespace RoundRobin

variable {α : Type*} (l : List α)

/-- The entry whose turn it is; there is none if the list is empty. -/
def turn (i : ℕ) : Option α := l[i % l.length]?

/-- The entries of `n` consecutive turns, from turn `start` on. -/
def turns (start n : ℕ) : List (Option α) := (List.range n).map fun i => turn l (start + i)

variable {l}

theorem turn_of_modEq {i j : ℕ} (h : i % l.length = j % l.length) : turn l i = turn l j :=
  congrArg (l[·]?) h

@[simp] theorem length_turns (start n : ℕ) : (turns l start n).length = n := by simp [turns]

theorem turns_add (start m n : ℕ) :
    turns l start (m + n) = turns l start m ++ turns l (start + m) n := by
  rw [turns, List.range_add, List.map_append, List.map_map]
  exact congrArg (turns l start m ++ ·)
    (List.map_congr_left fun i _ => congrArg (turn l) (Nat.add_assoc start m i).symm)

theorem turns_succ (start n : ℕ) :
    turns l start (n + 1) = turns l start n ++ [turn l (start + n)] := by
  rw [turns_add]
  rfl

/-- The turns of a round are a rotation of the list. -/
theorem turns_round (start : ℕ) : turns l start l.length = (l.rotate start).map some := by
  refine List.ext_getElem (by simp) fun i hi _ => ?_
  rw [length_turns] at hi
  have hlen : i < (l.rotate start).length := by rwa [List.length_rotate]
  have hturn : turn l (start + i) = some (l.rotate start)[i] := by
    rw [turn, Nat.add_comm, ← List.getElem?_rotate hi, List.getElem?_eq_getElem]
  simpa [turns] using hturn

/-- Turns that do not make up a round go to different places of the list. -/
theorem turns_sublist {start n : ℕ} (h : n ≤ l.length) :
    (turns l start n).Sublist ((l.rotate start).map some) := by
  rw [← turns_round]
  obtain ⟨m, hm⟩ := Nat.exists_eq_add_of_le h
  rw [hm, turns_add]
  exact List.sublist_append_left _ _

variable [DecidableEq α]

theorem count_round (start : ℕ) (a : α) :
    (turns l start l.length).count (some a) = l.count a := by
  rw [turns_round, List.count_map_of_injective _ _ (Option.some_injective α)]
  exact (List.rotate_perm l start).count_eq a

theorem count_rounds (start m : ℕ) (a : α) :
    (turns l start (m * l.length)).count (some a) = m * l.count a := by
  induction m generalizing start with
  | zero => simp [turns]
  | succ m ih => rw [Nat.succ_mul, turns_add, List.count_append, ih, count_round, Nat.succ_mul]

/-- Each entry has its share of the turns, to within one round. -/
theorem count_turns (start n : ℕ) (a : α) :
    n / l.length * l.count a ≤ (turns l start n).count (some a) ∧
      (turns l start n).count (some a) ≤ (n / l.length + 1) * l.count a := by
  obtain rfl | h := eq_or_ne l []
  · have hnone : (turns ([] : List α) start n).count (some a) = 0 :=
      List.count_eq_zero.2 (by simp [turns, turn])
    simp [hnone]
  have hpos := List.length_pos_of_ne_nil h
  -- whole rounds, and what is left over
  have hsplit : turns l start n = turns l start (n / l.length * l.length) ++
      turns l (start + n / l.length * l.length) (n % l.length) := by
    rw [← turns_add, Nat.div_add_mod']
  have hrest : (turns l (start + n / l.length * l.length) (n % l.length)).count (some a) ≤
      l.count a := by
    refine ((turns_sublist (Nat.mod_lt n hpos).le).count_le (some a)).trans ?_
    rw [← turns_round, count_round]
  rw [hsplit, List.count_append, count_rounds, Nat.succ_mul]
  omega

end RoundRobin

end NemoServer
