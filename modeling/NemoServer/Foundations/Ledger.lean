import Mathlib.Data.List.Infix
import Mathlib.Data.Set.Function
import NemoServer.Foundations.Interleave
import NemoServer.Foundations.Table

/-!
# Tables and the history of their entries

A table that several tasks write is read back from the history of what they did. Each item of a
history, read through `read`, records an entry (sweeping out the entries a test rejects first),
takes one out, clears the table, or leaves it alone; `tableOf read l` is the table after the
history `l`, the newest item first.

* `tableOf_eq_some`: an entry stands in the table exactly if some item recorded it and every item
  since has spared it.
* `exists_source`: the entries taken out come from distinct recordings, each earlier than the
  taking.

The `n`-th item of a history, counted from its beginning, is written `Happened l n i`.
-/

namespace NemoServer

/-- What an item of a history does to a table. -/
inductive Entry (K V : Type*)
  | record (k : K) (v : V) (keep : K → V → Bool)
  | take (k : K)
  | clear
  | idle

namespace Entry

variable {K V : Type*} [DecidableEq K]

/-- The table after the entry. -/
def apply (t : Table K V) : Entry K V → Table K V
  | .record k v keep => (t.retain keep).insert k v
  | .take k => t.remove k
  | .clear => Table.empty
  | .idle => t

/-- The entry leaves `v` at `k` where it is. -/
def Spares (k : K) (v : V) : Entry K V → Prop
  | .record k' _ keep => k ≠ k' ∧ keep k v = true
  | .take k' => k ≠ k'
  | .clear => False
  | .idle => True

/-- The entry records `v` at `k`. -/
def Records (k : K) (v : V) : Entry K V → Prop
  | .record k' v' _ => k' = k ∧ v' = v
  | .take _ => False
  | .clear => False
  | .idle => False

theorem apply_eq_some {t : Table K V} {e : Entry K V} {k : K} {v : V} :
    e.apply t k = some v ↔ e.Records k v ∨ e.Spares k v ∧ t k = some v := by
  cases e with
  | record k' v' keep =>
    simp only [apply, Records, Spares, Table.insert_eq_some, Table.retain_eq_some]
    constructor
    · rintro (⟨rfl, rfl⟩ | ⟨hk, ht, hkeep⟩)
      · exact .inl ⟨rfl, rfl⟩
      · exact .inr ⟨⟨hk, hkeep⟩, ht⟩
    · rintro (⟨rfl, rfl⟩ | ⟨⟨hk, hkeep⟩, ht⟩)
      · exact .inl ⟨rfl, rfl⟩
      · exact .inr ⟨hk, ht, hkeep⟩
  | take k' => simp [apply, Records, Spares, Table.remove_eq_some]
  | clear => simp [apply, Records, Spares]
  | idle => simp [apply, Records, Spares]

omit [DecidableEq K] in
theorem records_unique {e : Entry K V} {k k' : K} {v v' : V} (h : e.Records k v)
    (h' : e.Records k' v') : k = k' ∧ v = v' := by
  cases e with
  | record => exact ⟨h.1.symm.trans h'.1, h.2.symm.trans h'.2⟩
  | take => exact h.elim
  | clear => exact h.elim
  | idle => exact h.elim

end Entry

/-- `i` is the `n`-th item of the history `l`. -/
def Happened {ι : Type*} (l : List ι) (n : ℕ) (i : ι) : Prop :=
  ∃ l', (i :: l') <:+ l ∧ l'.length = n

namespace Happened

variable {ι : Type*} {l l' : List ι} {n m : ℕ} {i j : ι}

theorem of_suffix (h : (i :: l') <:+ l) : Happened l l'.length i := ⟨l', h, rfl⟩

theorem mem (h : Happened l n i) : i ∈ l :=
  let ⟨_, hs, _⟩ := h
  hs.subset List.mem_cons_self

theorem of_mem (h : i ∈ l) : ∃ n, Happened l n i := by
  obtain ⟨l₁, l₂, rfl⟩ := List.append_of_mem h
  exact ⟨l₂.length, l₂, ⟨l₁, rfl⟩, rfl⟩

theorem suffix (h : Happened l' n i) (hs : l' <:+ l) : Happened l n i :=
  let ⟨l₁, h₁, hn⟩ := h
  ⟨l₁, h₁.trans hs, hn⟩

/-- The history before an item is determined by its number. -/
theorem before_unique {l₁ l₂ : List ι} (h₁ : (i :: l₁) <:+ l) (h₂ : (j :: l₂) <:+ l)
    (h : l₁.length = l₂.length) : i = j ∧ l₁ = l₂ := by
  have heq : i :: l₁ = j :: l₂ := by
    rcases List.suffix_or_suffix_of_suffix h₁ h₂ with hs | hs
    · exact hs.eq_of_length (by simp [h])
    · exact (hs.eq_of_length (by simp [h])).symm
  exact ⟨(List.cons.inj heq).1, (List.cons.inj heq).2⟩

theorem unique (h : Happened l n i) (h' : Happened l n j) : i = j := by
  obtain ⟨l₁, h₁, rfl⟩ := h
  obtain ⟨l₂, h₂, hn⟩ := h'
  exact (before_unique h₁ h₂ hn.symm).1

/-- An earlier item happened in the history before a later one. -/
theorem before {l₁ : List ι} (h : Happened l n i) (h₁ : (j :: l₁) <:+ l) (hn : n < l₁.length) :
    Happened l₁ n i := by
  obtain ⟨l₂, h₂, rfl⟩ := h
  refine ⟨l₂, ?_, rfl⟩
  have hlen : (i :: l₂).length ≤ l₁.length := hn
  exact List.suffix_of_suffix_length_le h₂ ((List.suffix_cons j l₁).trans h₁) hlen

theorem lt_length (h : Happened l n i) : n < l.length := by
  obtain ⟨l₁, h₁, rfl⟩ := h
  exact h₁.length_le

end Happened

section TableOf

variable {ι K V : Type*} [DecidableEq K] (read : ι → Entry K V)

/-- The table after the history `l`. -/
def tableOf : List ι → Table K V
  | [] => Table.empty
  | i :: l => (read i).apply (tableOf l)

variable {read}

/-- `v` was recorded at `k` by the item `j`, `l` the history before it, and every item of `l'`
since has spared it. -/
structure Stands (read : ι → Entry K V) (k : K) (v : V) (l' : List ι) (j : ι) (l : List ι) :
    Prop where
  suffix : (j :: l) <:+ l'
  records : (read j).Records k v
  spares : ∀ n i, l.length < n → Happened l' n i → (read i).Spares k v

theorem tableOf_eq_some {l' : List ι} {k : K} {v : V} :
    tableOf read l' k = some v ↔ ∃ j l, Stands read k v l' j l := by
  induction l' with
  | nil =>
    constructor
    · intro h
      cases h
    · rintro ⟨j, l, hs, -, -⟩
      cases List.suffix_nil.1 hs
  | cons i l' ih =>
    rw [tableOf, Entry.apply_eq_some, ih]
    constructor
    · rintro (hrec | ⟨hspare, j, l, hs, hrec, hsp⟩)
      · refine ⟨i, l', List.suffix_rfl, hrec, fun n i' hn hi => absurd hi.lt_length ?_⟩
        simp only [List.length_cons]
        omega
      · refine ⟨j, l, hs.trans (List.suffix_cons _ _), hrec, fun n i' hn hi => ?_⟩
        rcases Nat.lt_or_ge n l'.length with hlt | hge
        · exact hsp n i' hn (hi.before List.suffix_rfl hlt)
        · have heq : n = l'.length := Nat.le_antisymm (Nat.le_of_lt_succ hi.lt_length) hge
          subst heq
          exact hi.unique (.of_suffix List.suffix_rfl) ▸ hspare
    · rintro ⟨j, l, hs, hrec, hsp⟩
      rcases List.suffix_cons_iff.1 hs with heq | hs
      · obtain ⟨rfl, rfl⟩ := List.cons.inj heq
        exact .inl hrec
      · have hlen : l.length < l'.length := hs.length_le
        exact .inr ⟨hsp l'.length i hlen (.of_suffix List.suffix_rfl), j, l, hs, hrec,
          fun n i' hn hi => hsp n i' hn (hi.suffix (List.suffix_cons _ _))⟩

/-- Item `n` of the history takes out the entry `v` at `k`. -/
def Takes (read : ι → Entry K V) (l : List ι) (n : ℕ) (k : K) (v : V) : Prop :=
  ∃ i l', (i :: l') <:+ l ∧ l'.length = n ∧ read i = .take k ∧ tableOf read l' k = some v

/-- Item `m` recorded the entry `v` at `k` that item `n` takes out. -/
def Source (read : ι → Entry K V) (l : List ι) (n m : ℕ) (k : K) (v : V) : Prop :=
  ∃ i l', (i :: l') <:+ l ∧ l'.length = n ∧ read i = .take k ∧
    ∃ j l₁, Stands read k v l' j l₁ ∧ l₁.length = m

theorem Takes.source {l : List ι} {n : ℕ} {k : K} {v : V} (h : Takes read l n k v) :
    ∃ m, Source read l n m k v :=
  let ⟨i, l', hs, hn, hi, ht⟩ := h
  let ⟨j, l₁, hst⟩ := tableOf_eq_some.1 ht
  ⟨l₁.length, i, l', hs, hn, hi, j, l₁, hst, rfl⟩

omit [DecidableEq K] in
theorem Source.lt {l : List ι} {n m : ℕ} {k : K} {v : V} (h : Source read l n m k v) : m < n := by
  obtain ⟨i, l₁, hs, rfl, hi, j, l₂, hst, rfl⟩ := h
  exact hst.suffix.length_le

omit [DecidableEq K] in
theorem Source.not_lt {l : List ι} {n n' m : ℕ} {k k' : K} {v v' : V}
    (h : Source read l n m k v) (h' : Source read l n' m k' v') : ¬ n < n' := by
  intro hlt
  obtain ⟨i, l₁, hs, rfl, hi, j, l₂, hst, rfl⟩ := h
  obtain ⟨i', l₁', hs', rfl, hi', j', l₂', hst', hm⟩ := h'
  have hsuf : ∀ {x y : List ι} {a : ι}, (a :: x) <:+ y → x <:+ y :=
    fun hxy => (List.suffix_cons _ _).trans hxy
  have hj : j = j' := (Happened.before_unique (hst.suffix.trans (hsuf hs))
    (hst'.suffix.trans (hsuf hs')) hm.symm).1
  subst hj
  have hk : k = k' := (Entry.records_unique hst.records hst'.records).1
  have hspare := hst'.spares l₁.length i (hm ▸ hst.suffix.length_le)
    ((Happened.of_suffix hs).before hs' hlt)
  rw [hi] at hspare
  exact absurd hk.symm hspare

omit [DecidableEq K] in
/-- Two entries taken out do not come from one recording. -/
theorem Source.injective {l : List ι} {n n' m : ℕ} {k k' : K} {v v' : V}
    (h : Source read l n m k v) (h' : Source read l n' m k' v') : n = n' := by
  have h₁ := h.not_lt h'
  have h₂ := h'.not_lt h
  omega

variable (read) in
/-- The entries taken out come from distinct earlier recordings. -/
theorem exists_source (l : List ι) : ∃ f : ℕ → ℕ,
    (∀ n k v, Takes read l n k v → Source read l n (f n) k v) ∧
      Set.InjOn f {n | ∃ k v, Takes read l n k v} := by
  classical
  have hex : ∀ n, ∃ m, ∀ k v, Takes read l n k v → Source read l n m k v := by
    intro n
    by_cases h : ∃ k v, Takes read l n k v
    · obtain ⟨k, v, h⟩ := h
      obtain ⟨m, hm⟩ := h.source
      refine ⟨m, fun k' v' h' => ?_⟩
      obtain ⟨i, l₁, hs, hn, hi, ht⟩ := h
      obtain ⟨i', l₁', hs', hn', hi', ht'⟩ := h'
      obtain ⟨rfl, rfl⟩ := Happened.before_unique hs hs' (hn.trans hn'.symm)
      obtain rfl : k = k' := by rw [hi] at hi'; exact Entry.take.inj hi'
      obtain rfl : v = v' := Option.some.inj (ht.symm.trans ht')
      exact hm
    · exact ⟨0, fun k v hkv => absurd ⟨k, v, hkv⟩ h⟩
  choose f hf using hex
  refine ⟨f, hf, ?_⟩
  rintro n ⟨k, v, h⟩ n' ⟨k', v', h'⟩ heq
  exact (hf n k v h).injective (heq ▸ hf n' k' v' h')

end TableOf

/-! ## Tables of a system -/

namespace System

variable {Op : Type} {Res : Op → Type} {σ J E K V : Type} [DecidableEq K]
  {S : System Op Res σ J E} {init : σ → Prop}
  {C : List (Item Op σ J E) → Pool Op Res σ J → Choice J E → Prop}
  {l : List (Item Op σ J E)} {p : Pool Op Res σ J}

/-- A table that every item changes as `read` says is the table of the history. -/
theorem Run.tableOf_eq {read : Item Op σ J E → Entry K V} {f : σ → Table K V}
    (hinit : ∀ s, init s → f s = Table.empty)
    (hnext : ∀ p c i p', S.advance p c = some (i, p') →
      f p'.shared = (read i).apply (f p.shared)) (h : S.Run init C l p) :
    f p.shared = tableOf read l := by
  induction h with
  | boot hs => exact hinit _ hs
  | next _ _ ha ih => rw [hnext _ _ _ _ ha, ih, tableOf]

/-- The table an item finds. -/
theorem Run.tableOf_pre {read : Item Op σ J E → Entry K V} {f : σ → Table K V}
    (hinit : ∀ s, init s → f s = Table.empty)
    (hnext : ∀ p c i p', S.advance p c = some (i, p') →
      f p'.shared = (read i).apply (f p.shared)) (h : S.Run init C l p)
    {i : Item Op σ J E} {l' : List (Item Op σ J E)} (hs : (i :: l') <:+ l) :
    f i.pre = tableOf read l' := by
  obtain ⟨p', _, _, hr, -, -, -, hpre⟩ := h.before i l' hs
  rw [← hpre]
  exact hr.tableOf_eq hinit hnext

end System

end NemoServer
