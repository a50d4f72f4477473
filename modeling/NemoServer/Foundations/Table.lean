import Mathlib.Logic.Function.Basic

/-!
# Tables

A hash map behind a lock, as the finite-domain-free partial function it is read as. The
operations are those the modelled programs use: `insert` replaces, `remove` takes one key out,
`retain` keeps the entries a predicate accepts.
-/

namespace NemoServer

/-- A map from keys to values, read at a key with `t k`. -/
def Table (K V : Type*) := K → Option V

namespace Table

variable {K V : Type*}

/-- The table with no entry. -/
def empty : Table K V := fun _ => none

/-- The entries `p` accepts. -/
def retain (t : Table K V) (p : K → V → Bool) : Table K V := fun k => (t k).filter (p k)

@[simp] theorem empty_apply (k : K) : (empty : Table K V) k = none := rfl

theorem retain_eq_some {t : Table K V} {p : K → V → Bool} {k : K} {v : V} :
    t.retain p k = some v ↔ t k = some v ∧ p k v = true := by
  simp [retain, Option.filter_eq_some_iff]

variable [DecidableEq K]

/-- The table with `v` at `k`, whatever stood there. -/
def insert (t : Table K V) (k : K) (v : V) : Table K V := fun j => if j = k then some v else t j

/-- The table without `k`. -/
def remove (t : Table K V) (k : K) : Table K V := fun j => if j = k then none else t j

theorem insert_apply (t : Table K V) (k j : K) (v : V) :
    t.insert k v j = if j = k then some v else t j := rfl

theorem remove_apply (t : Table K V) (k j : K) :
    t.remove k j = if j = k then none else t j := rfl

@[simp] theorem insert_self (t : Table K V) (k : K) (v : V) : t.insert k v k = some v := by
  simp [insert_apply]

@[simp] theorem remove_self (t : Table K V) (k : K) : t.remove k k = none := by
  simp [remove_apply]

theorem insert_of_ne (t : Table K V) {k j : K} (v : V) (h : j ≠ k) : t.insert k v j = t j := by
  simp [insert_apply, h]

theorem insert_eq_some {t : Table K V} {k j : K} {v w : V} :
    t.insert k v j = some w ↔ j = k ∧ v = w ∨ j ≠ k ∧ t j = some w := by
  by_cases h : j = k <;> simp [insert_apply, h]

theorem remove_eq_some {t : Table K V} {k j : K} {w : V} :
    t.remove k j = some w ↔ j ≠ k ∧ t j = some w := by
  by_cases h : j = k <;> simp [remove_apply, h]

end Table

end NemoServer
