import Mathlib.Data.List.AList

/-!
# Finite maps

The maps of a program that are looped over, counted or written to a file: association lists with
distinct keys, and what is needed of them beyond the lists of Mathlib. Two maps with the same
look-ups are the same map of the program.

* `retain`: the entries a test accepts, as `HashMap::retain` keeps them.
* `retain_eq_self`: a map that keeps its size keeps its entries.
* `Iteration`: an order to loop over the entries in, of which nothing else is known.
* `eraseAll`: the map without a list of keys.
-/

set_option autoImplicit false

namespace NemoServer

/-- A finite map. -/
abbrev FinMap (K V : Type*) := AList fun _ : K => V

namespace FinMap

variable {K V : Type*}

/-- Keep the entries a test accepts. -/
def retain (m : FinMap K V) (p : K → V → Bool) : FinMap K V where
  entries := m.entries.filter fun e => p e.1 e.2
  nodupKeys := m.nodupKeys.sublist List.filter_sublist

/-- How many entries there are. -/
def size (m : FinMap K V) : ℕ := m.entries.length

/-- A map that keeps its size keeps its entries. -/
theorem retain_eq_self {m : FinMap K V} {p : K → V → Bool}
    (h : (m.retain p).size = m.size) : m.retain p = m :=
  AList.ext (List.filter_sublist.eq_of_length h)

/-- An order to loop over the entries of a map in. -/
structure Iteration (K V : Type*) where
  entries : FinMap K V → List (Sigma fun _ : K => V)
  perm : ∀ m, (entries m).Perm m.entries

/-- The entries as they are listed. -/
def Iteration.listed : Iteration K V := ⟨AList.entries, fun _ => List.Perm.refl _⟩

theorem length_keys (m : FinMap K V) : m.keys.length = m.size := List.length_map _

variable [DecidableEq K]

theorem lookup_eq_some_iff {m : FinMap K V} {k : K} {v : V} :
    m.lookup k = some v ↔ (⟨k, v⟩ : Sigma fun _ : K => V) ∈ m.entries :=
  AList.mem_lookup_iff

@[simp] theorem lookup_retain_eq_some {m : FinMap K V} {p : K → V → Bool} {k : K} {v : V} :
    (m.retain p).lookup k = some v ↔ m.lookup k = some v ∧ p k v = true := by
  rw [lookup_eq_some_iff, lookup_eq_some_iff, retain, List.mem_filter]

theorem lookup_retain (m : FinMap K V) (p : K → V → Bool) (k : K) :
    (m.retain p).lookup k = (m.lookup k).filter (p k) := by
  ext v
  rw [lookup_retain_eq_some, Option.filter_eq_some_iff]

theorem lookup_insert_eq_some {m : FinMap K V} {k j : K} {v w : V} :
    AList.lookup j (AList.insert k v m) = some w ↔
      j = k ∧ v = w ∨ j ≠ k ∧ m.lookup j = some w := by
  by_cases h : j = k
  · subst h
    rw [AList.lookup_insert]
    simp
  · rw [AList.lookup_insert_ne h]
    simp [h]

theorem lookup_erase_eq_some {m : FinMap K V} {k j : K} {w : V} :
    AList.lookup j (AList.erase k m) = some w ↔ j ≠ k ∧ m.lookup j = some w := by
  by_cases h : j = k
  · subst h
    rw [AList.lookup_erase]
    simp
  · rw [AList.lookup_erase_ne h]
    simp [h]

theorem size_insert (m : FinMap K V) (k : K) (v : V) :
    size (AList.insert k v m) = if k ∈ m then m.size else m.size + 1 := by
  rw [← length_keys, AList.keys_insert, List.length_cons]
  by_cases h : k ∈ m
  · have hpos : 0 < m.keys.length := List.length_pos_of_mem (AList.mem_keys.1 h)
    rw [if_pos h, List.length_erase_of_mem (AList.mem_keys.1 h), ← length_keys]
    omega
  · rw [if_neg h, List.erase_of_not_mem fun hk => h (AList.mem_keys.2 hk), length_keys]

theorem size_erase_of_mem {m : FinMap K V} {k : K} (h : k ∈ m) :
    size (AList.erase k m) + 1 = m.size := by
  have hpos : 0 < m.keys.length := List.length_pos_of_mem (AList.mem_keys.1 h)
  rw [← length_keys, AList.keys_erase, List.length_erase_of_mem (AList.mem_keys.1 h), ← length_keys]
  omega

theorem size_erase_le (m : FinMap K V) (k : K) : size (AList.erase k m) ≤ m.size :=
  (List.kerase_sublist k m.entries).length_le

/-- The map without the keys listed. -/
def eraseAll (m : FinMap K V) (ks : List K) : FinMap K V :=
  ks.foldl (fun m k => AList.erase k m) m

theorem mem_eraseAll {m : FinMap K V} {ks : List K} {j : K} :
    j ∈ m.eraseAll ks ↔ j ∉ ks ∧ j ∈ m := by
  induction ks generalizing m with
  | nil => simp [eraseAll]
  | cons k ks ih =>
    rw [eraseAll, List.foldl_cons, ← eraseAll, ih, AList.mem_erase, List.mem_cons, not_or]
    tauto

/-- Distinct keys of the map each take an entry with them. -/
theorem size_eraseAll {m : FinMap K V} {ks : List K} (hnodup : ks.Nodup) (hmem : ∀ k ∈ ks, k ∈ m) :
    (m.eraseAll ks).size + ks.length = m.size := by
  induction ks generalizing m with
  | nil => rfl
  | cons k ks ih =>
    rw [List.nodup_cons] at hnodup
    have hrest : ∀ j ∈ ks, j ∈ AList.erase k m := fun j hj =>
      AList.mem_erase.2 ⟨fun e => hnodup.1 (e ▸ hj), hmem j (List.mem_cons_of_mem k hj)⟩
    have hkeys := ih hnodup.2 hrest
    have hk := size_erase_of_mem (hmem k List.mem_cons_self)
    rw [eraseAll, List.foldl_cons, ← eraseAll, List.length_cons]
    omega

theorem lookup_of_size_eq_zero {m : FinMap K V} (h : m.size = 0) (k : K) : m.lookup k = none := by
  have hnil : m.entries = [] := List.length_eq_zero_iff.1 h
  rw [AList.lookup, hnil]
  rfl

end FinMap

end NemoServer
