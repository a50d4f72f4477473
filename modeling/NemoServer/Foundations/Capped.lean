import Mathlib.Data.List.MinMax

/-!
# Capped lists

Lists that are kept within a bound by taking entries out: the one of least key, the first of them
where several are least, or the one at the front.

* `length_evict_le`, `evict_sublist`: the evicted list is within the bound, and nothing is new in
  it.
* `evict_concat`: an entry that was just added with the greatest key is not evicted.
* `filter_evict`: while an entry outside a class of high keys is left, no entry of the class goes.
* `trim_eq_drop`, `trim_trim_append`, `suffix_trim`: what trimming at the front leaves.
-/

set_option autoImplicit false

namespace NemoServer

namespace Capped

variable {α κ : Type*} [LinearOrder κ] (key : α × ℕ → κ) (limit : ℕ)

/-- The place of the entry of least key, the first of them; the key may read the place. -/
def leastAt (l : List α) : Option ℕ := (l.zipIdx.argmin key).map (·.2)

/-- Take out the entry of least key while there are more than `limit`. -/
def evict : ℕ → List α → List α
  | 0, l => l
  | fuel + 1, l =>
    if limit < l.length then
      match leastAt key l with
      | some i => evict fuel (l.eraseIdx i)
      | none => l
    else l

/-- Take out the entry at the front while there are more than `limit`. -/
def trim : List α → List α
  | [] => []
  | a :: l => if limit < (a :: l).length then trim l else a :: l

/-! ## The entry of least key -/

theorem leastAt_eq_none {l : List α} (h : leastAt key l = none) : l = [] := by
  rw [leastAt, Option.map_eq_none_iff, List.argmin_eq_none] at h
  exact List.zipIdx_eq_nil_iff.1 h

theorem leastAt_eq_some {l : List α} {i : ℕ} (h : leastAt key l = some i) :
    ∃ a, l[i]? = some a ∧ ∀ j b, l[j]? = some b → key (a, i) ≤ key (b, j) := by
  obtain ⟨⟨a, j⟩, hleast, rfl⟩ := Option.map_eq_some_iff.1 h
  refine ⟨a, List.mk_mem_zipIdx_iff_getElem?.1 (List.argmin_mem hleast), fun j' b hb => ?_⟩
  exact List.le_of_mem_argmin (List.mk_mem_zipIdx_iff_getElem?.2 hb) hleast

/-- An entry at the end whose key is no less than the others is not the first of least key. -/
theorem leastAt_concat {l : List α} {a : α} (hl : l ≠ [])
    (h : ∀ j b, l[j]? = some b → key (b, j) ≤ key (a, l.length)) :
    leastAt key (l ++ [a]) = leastAt key l := by
  unfold leastAt
  rw [List.zipIdx_append, List.zipIdx_singleton, Nat.zero_add, List.argmin_concat]
  cases hleast : l.zipIdx.argmin key with
  | none => exact absurd (List.zipIdx_eq_nil_iff.1 (List.argmin_eq_none.1 hleast)) hl
  | some c =>
    have hc := h c.2 c.1 (List.mem_zipIdx_iff_getElem?.1 (List.argmin_mem hleast))
    dsimp only
    rw [if_neg (not_lt.2 hc)]

/-! ## Evicting -/

theorem evict_of_le {fuel : ℕ} {l : List α} (h : l.length ≤ limit) : evict key limit fuel l = l := by
  cases fuel with
  | zero => rfl
  | succ fuel => rw [evict, if_neg (Nat.not_lt.2 h)]

theorem evict_sublist (fuel : ℕ) (l : List α) : (evict key limit fuel l).Sublist l := by
  induction fuel generalizing l with
  | zero => exact List.Sublist.refl l
  | succ fuel ih =>
    rw [evict]
    by_cases hfull : limit < l.length
    · rw [if_pos hfull]
      cases leastAt key l with
      | none => exact List.Sublist.refl l
      | some i => exact (ih _).trans (List.eraseIdx_sublist ..)
    · rw [if_neg hfull]

/-- With a round for each entry in excess, the list ends within the bound. -/
theorem length_evict_le {fuel : ℕ} {l : List α} (h : l.length ≤ limit + fuel) :
    (evict key limit fuel l).length ≤ limit := by
  induction fuel generalizing l with
  | zero => exact h
  | succ fuel ih =>
    rw [evict]
    by_cases hfull : limit < l.length
    · rw [if_pos hfull]
      cases hleast : leastAt key l with
      | none =>
        rw [leastAt_eq_none key hleast] at hfull
        exact absurd hfull (Nat.not_lt_zero limit)
      | some i =>
        obtain ⟨a, ha, -⟩ := leastAt_eq_some key hleast
        have hi : i < l.length := List.getElem?_eq_some_iff.1 ha |>.1
        have hlen := List.length_eraseIdx_of_lt hi
        exact ih (by omega)
    · rw [if_neg hfull]
      omega

/-- The key of an entry, where it does not read the place. -/
theorem evict_concat (f : α → κ) (fuel : ℕ) {l : List α} {a : α} (hlimit : 0 < limit)
    (h : ∀ b ∈ l, f b ≤ f a) :
    ∃ l', evict (fun e => f e.1) limit fuel (l ++ [a]) = l' ++ [a] ∧ l'.Sublist l := by
  induction fuel generalizing l with
  | zero => exact ⟨l, rfl, List.Sublist.refl l⟩
  | succ fuel ih =>
    rw [evict]
    by_cases hfull : limit < (l ++ [a]).length
    · rw [if_pos hfull]
      have hl : l ≠ [] := by
        rintro rfl
        rw [List.nil_append, List.length_singleton] at hfull
        omega
      rw [leastAt_concat _ hl fun j b hb => h b (List.mem_of_getElem? hb)]
      cases hleast : leastAt (fun e : α × ℕ => f e.1) l with
      | none => exact absurd (leastAt_eq_none _ hleast) hl
      | some i =>
        obtain ⟨b, hb, -⟩ := leastAt_eq_some _ hleast
        have hi : i < l.length := List.getElem?_eq_some_iff.1 hb |>.1
        dsimp only
        rw [List.eraseIdx_append_of_lt_length hi]
        obtain ⟨l', heq, hsub⟩ := ih (l := l.eraseIdx i) fun c hc =>
          h c (List.mem_of_mem_eraseIdx hc)
        exact ⟨l', heq, hsub.trans (List.eraseIdx_sublist ..)⟩
    · rw [if_neg hfull]
      exact ⟨l, rfl, List.Sublist.refl l⟩

/-- Where an entry out of the class stands below every entry in it, one eviction takes none of the
class while an entry out of it is left. -/
theorem filter_evict (p : α → Bool) {l : List α} (hlen : l.length ≤ limit + 1)
    (hp : ∀ a b i j, p a = true → p b = false → key (b, j) < key (a, i))
    (hleft : ∃ b ∈ l, p b = false) (fuel : ℕ) :
    (evict key limit fuel l).filter p = l.filter p := by
  cases fuel with
  | zero => rfl
  | succ fuel =>
    rw [evict]
    by_cases hfull : limit < l.length
    · rw [if_pos hfull]
      cases hleast : leastAt key l with
      | none => rfl
      | some i =>
        obtain ⟨a, ha, hle⟩ := leastAt_eq_some key hleast
        obtain ⟨b, hb, hpb⟩ := hleft
        obtain ⟨j, hj⟩ := List.mem_iff_getElem?.1 hb
        have hpa : p a = false := by
          rw [← Bool.not_eq_true]
          exact fun hpa => absurd (hle j b hj) (not_le.2 (hp a b i j hpa hpb))
        obtain ⟨hi, rfl⟩ := List.getElem?_eq_some_iff.1 ha
        have hone := List.length_eraseIdx_of_lt hi
        dsimp only
        rw [evict_of_le key limit (by omega), List.eraseIdx_eq_take_drop_succ, List.filter_append]
        conv_rhs => rw [← List.take_append_drop i l, List.filter_append,
          List.drop_eq_getElem_cons hi, List.filter_cons_of_neg (by simp [hpa])]
    · rw [if_neg hfull]

/-! ## Trimming -/

variable {limit}

theorem trim_eq_drop (l : List α) : trim limit l = l.drop (l.length - limit) := by
  induction l with
  | nil => exact List.drop_nil.symm
  | cons a l ih =>
    rw [trim]
    by_cases hfull : limit < (a :: l).length
    · rw [if_pos hfull, ih, List.length_cons,
        show l.length + 1 - limit = l.length - limit + 1 by rw [List.length_cons] at hfull; omega,
        List.drop_succ_cons]
    · rw [if_neg hfull, Nat.sub_eq_zero_of_le (not_lt.1 hfull), List.drop_zero]

theorem length_trim_le (l : List α) : (trim limit l).length ≤ limit := by
  rw [trim_eq_drop, List.length_drop]
  omega

theorem trim_of_le {l : List α} (h : l.length ≤ limit) : trim limit l = l := by
  rw [trim_eq_drop, Nat.sub_eq_zero_of_le h, List.drop_zero]

/-- Trimming on the way makes no difference at the end. -/
theorem trim_trim_append (l l' : List α) : trim limit (trim limit l ++ l') = trim limit (l ++ l') := by
  simp only [trim_eq_drop, List.drop_append, List.length_append, List.length_drop, List.drop_drop]
  congr 2 <;> omega

/-- The entries at the end stay, as many as the bound allows. -/
theorem suffix_trim {l l' : List α} (h : l' <:+ l) (hlen : l'.length ≤ limit) :
    l' <:+ trim limit l := by
  rw [trim_eq_drop]
  refine List.suffix_of_suffix_length_le h (List.drop_suffix _ _) ?_
  have := h.length_le
  rw [List.length_drop]
  omega

/-- The newest of what was added at the end are the newest of all. -/
theorem trim_suffix_trim_append (l l' : List α) : trim limit l' <:+ trim limit (l ++ l') := by
  have hsuffix : trim limit l' <:+ l' := by
    rw [trim_eq_drop]
    exact List.drop_suffix _ _
  exact suffix_trim (hsuffix.trans (List.suffix_append l l')) (length_trim_le l')

end Capped

end NemoServer
