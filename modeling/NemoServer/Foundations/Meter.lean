import Mathlib.Algebra.BigOperators.Group.Finset.Basic

/-!
# Meters

A source reports the cumulative count of each of its keys, over and over. A meter keeps one running
total of them: at a report it adds what the count exceeds the count it holds for the key. The
reports are listed newest first.

* `lastCount`: the count last reported for a key.
* `lastTotal`: what the keys were last reported at, all together.
* `lastTotal_le_add`, `add_eq_lastTotal_iff`: a meter that holds no more than the last count never
  falls behind the last counts, and stays level with them exactly if it still holds the last count
  of the key and the key did not go back.
-/

set_option autoImplicit false

namespace NemoServer

namespace Meter

variable {K : Type*} [DecidableEq K]

/-- The count last reported for a key; zero before its first report. -/
def lastCount : List (K × ℕ) → K → ℕ
  | [], _ => 0
  | r :: rs, k => if r.1 = k then r.2 else lastCount rs k

/-- What the reported keys were last reported at, all together. -/
def lastTotal (rs : List (K × ℕ)) : ℕ := ∑ k ∈ (rs.map Prod.fst).toFinset, lastCount rs k

@[simp] theorem lastTotal_nil : lastTotal ([] : List (K × ℕ)) = 0 := rfl

@[simp] theorem lastCount_cons_self (k : K) (n : ℕ) (rs : List (K × ℕ)) :
    lastCount ((k, n) :: rs) k = n := if_pos rfl

theorem lastCount_cons_of_ne {k l : K} (n : ℕ) (rs : List (K × ℕ)) (h : k ≠ l) :
    lastCount ((k, n) :: rs) l = lastCount rs l := if_neg h

theorem lastCount_of_not_mem {rs : List (K × ℕ)} {k : K} (h : k ∉ rs.map Prod.fst) :
    lastCount rs k = 0 := by
  induction rs with
  | nil => rfl
  | cons r rs ih =>
    rw [List.map_cons, List.mem_cons, not_or] at h
    rw [lastCount, if_neg (Ne.symm h.1), ih h.2]

/-- A report replaces the last count of its key by the new one. -/
theorem lastTotal_cons (k : K) (n : ℕ) (rs : List (K × ℕ)) :
    lastTotal ((k, n) :: rs) + lastCount rs k = lastTotal rs + n := by
  unfold lastTotal
  rw [List.map_cons, List.toFinset_cons]
  dsimp only
  -- the sum over the other keys is the same before and after
  have hothers : ∑ l ∈ (rs.map Prod.fst).toFinset.erase k, lastCount ((k, n) :: rs) l =
      ∑ l ∈ (rs.map Prod.fst).toFinset.erase k, lastCount rs l := by
    refine Finset.sum_congr rfl fun l hl => ?_
    exact lastCount_cons_of_ne n rs (Finset.ne_of_mem_erase hl).symm
  have hnew := Finset.add_sum_erase (insert k (rs.map Prod.fst).toFinset)
    (lastCount ((k, n) :: rs)) (Finset.mem_insert_self k _)
  rw [Finset.erase_insert_eq_erase, hothers, lastCount_cons_self] at hnew
  by_cases hk : k ∈ (rs.map Prod.fst).toFinset
  · have hold := Finset.add_sum_erase _ (lastCount rs) hk
    omega
  · rw [Finset.erase_eq_of_notMem hk] at hnew
    have hzero : lastCount rs k = 0 := lastCount_of_not_mem fun h => hk (List.mem_toFinset.2 h)
    omega

variable {rs : List (K × ℕ)} {k : K} {n held total : ℕ}

/-- A meter that holds at most the last count of the key does not fall behind at a report. -/
theorem lastTotal_le_add (hheld : held ≤ lastCount rs k) (htotal : lastTotal rs ≤ total) :
    lastTotal ((k, n) :: rs) ≤ total + (n - held) := by
  have := lastTotal_cons k n rs
  omega

/-- It is level after the report exactly if it was level, holds the last count of the key, and the
report is no lower. -/
theorem add_eq_lastTotal_iff (hheld : held ≤ lastCount rs k) (htotal : lastTotal rs ≤ total) :
    total + (n - held) = lastTotal ((k, n) :: rs) ↔
      total = lastTotal rs ∧ lastCount rs k ≤ held ∧ lastCount rs k ≤ n := by
  have := lastTotal_cons k n rs
  omega

end Meter

end NemoServer
