import Mathlib.Data.List.Basic
import Mathlib.Algebra.Order.Group.Nat

/-!
# Bursts

The instants at which something happened, newest first. Two that follow each other at least `pause`
apart are separated by a pause; a burst is what happened since the last pause.

* `countP_since_le`: what happened since an instant less than a pause ago belongs to the burst.
* `spree`: what a counter shows that starts at zero with the first instant of all, and at one after
  each pause.
-/

set_option autoImplicit false

namespace NemoServer

namespace Burst

variable (pause : ℕ)

/-- What happened since the last pause. -/
def burst : List ℕ → List ℕ
  | [] => []
  | [t] => [t]
  | t :: t' :: l => if t - t' < pause then t :: burst (t' :: l) else [t]

/-- At `now` the burst of what happened before is not over. -/
def GoesOn (l : List ℕ) (now : ℕ) : Prop := ∃ t ∈ l.head?, now - t < pause

instance (l : List ℕ) (now : ℕ) : Decidable (GoesOn pause l now) :=
  match l with
  | [] => .isFalse fun ⟨_, h, _⟩ => nomatch h
  | t :: _ => decidable_of_iff (now - t < pause) ⟨fun h => ⟨t, rfl, h⟩, fun ⟨_, ht, h⟩ => by
      obtain rfl := Option.some.inj ht
      exact h⟩

/-- The members of the burst, but for the first instant of all. -/
def spree (l : List ℕ) : ℕ :=
  if (burst pause l).length = l.length then l.length - 1 else (burst pause l).length

variable {pause} {l : List ℕ} {t now : ℕ}

@[simp] theorem goesOn_cons : GoesOn pause (t :: l) now ↔ now - t < pause := by
  simp [GoesOn]

@[simp] theorem burst_singleton : burst pause [t] = [t] := rfl

theorem burst_cons_of_goesOn (h : GoesOn pause l now) :
    burst pause (now :: l) = now :: burst pause l := by
  cases l with
  | nil => rfl
  | cons t l => exact if_pos (goesOn_cons.1 h)

theorem burst_cons_of_not_goesOn (h : ¬ GoesOn pause l now) : burst pause (now :: l) = [now] := by
  cases l with
  | nil => rfl
  | cons t l => exact if_neg fun hlt => h (goesOn_cons.2 hlt)

variable (pause) in
theorem length_burst_le (l : List ℕ) : (burst pause l).length ≤ l.length := by
  induction l with
  | nil => exact Nat.le_refl 0
  | cons now l ih =>
    by_cases h : GoesOn pause l now
    · rw [burst_cons_of_goesOn h, List.length_cons, List.length_cons]
      omega
    · rw [burst_cons_of_not_goesOn h, List.length_cons, List.length_cons, List.length_nil]
      omega

variable (pause) in
theorem length_burst_le_spree (l : List ℕ) : (burst pause l).length ≤ spree pause l + 1 := by
  have := length_burst_le pause l
  unfold spree
  split <;> omega

@[simp] theorem spree_singleton : spree pause [t] = 0 := rfl

theorem spree_cons_of_goesOn (h : GoesOn pause l now) :
    spree pause (now :: l) = spree pause l + 1 := by
  have hpos : 0 < l.length := by
    obtain ⟨t, ht, -⟩ := h
    exact List.length_pos_of_mem (List.mem_of_mem_head? ht)
  unfold spree
  rw [burst_cons_of_goesOn h, List.length_cons, List.length_cons]
  simp only [Nat.add_right_cancel_iff]
  split <;> omega

theorem spree_cons_of_not_goesOn (hne : l ≠ []) (h : ¬ GoesOn pause l now) :
    spree pause (now :: l) = 1 := by
  have hpos := List.length_pos_iff.2 hne
  unfold spree
  rw [burst_cons_of_not_goesOn h, List.length_cons, List.length_cons, List.length_nil]
  split <;> omega

variable (pause) in
/-- What happened since `start` belongs to the burst, if the last of it came less than a pause after
`start`. -/
theorem countP_since_le (start : ℕ) (hl : l.Pairwise (· ≥ ·))
    (hstart : ∀ t ∈ l.head?, t < start + pause) :
    l.countP (fun t => decide (start ≤ t)) ≤ (burst pause l).length := by
  induction l with
  | nil => exact Nat.le_refl 0
  | cons now l ih =>
    obtain ⟨hnow, hl⟩ := List.pairwise_cons.1 hl
    have hlast : now < start + pause := hstart now rfl
    rw [List.countP_cons]
    by_cases hold : ∃ t ∈ l.head?, start ≤ t
    · -- the instant before is in the window, so no pause lies between
      obtain ⟨t, ht, hle⟩ := hold
      have hbefore : t ≤ now := hnow t (List.mem_of_mem_head? ht)
      have hgoes : GoesOn pause l now := ⟨t, ht, by omega⟩
      have := ih hl fun t' ht' => by
        obtain rfl := Option.mem_unique ht ht'
        exact Nat.lt_of_le_of_lt hbefore hlast
      rw [burst_cons_of_goesOn hgoes, List.length_cons]
      split <;> omega
    · have hnone : l.countP (fun t => decide (start ≤ t)) = 0 := by
        rw [List.countP_eq_zero]
        intro t ht hle
        cases l with
        | nil => cases ht
        | cons first rest =>
          refine hold ⟨first, rfl, ?_⟩
          have hle := of_decide_eq_true hle
          rcases List.mem_cons.1 ht with rfl | hrest
          · exact hle
          · exact Nat.le_trans hle ((List.pairwise_cons.1 hl).1 t hrest)
      have hpos : 1 ≤ (burst pause (now :: l)).length := by
        by_cases h : GoesOn pause l now
        · rw [burst_cons_of_goesOn h, List.length_cons]
          omega
        · rw [burst_cons_of_not_goesOn h]
          exact Nat.le_refl 1
      rw [hnone]
      split <;> omega

end Burst

end NemoServer
