import Mathlib.Data.List.Perm.Basic
import NemoServer.Laws.Pairing

/-!
# What a grant joins

The grant is not used up by being presented: hbbr forgets an id when it joins two connections, and
a third one that presents it is parked again. What holds in every run is that a pair takes two
connections that presented the grant while it was good, and none of them twice (`grant_pairs`).
-/

set_option autoImplicit false

namespace NemoServer

namespace Relay

open Prog

variable {X : Setup} {C : List Step → Pool Op Op.Res State Job → Choice Job Env → Prop}
  {l l' : List Step} {p : Pool Op Op.Res State Job} {u : String} {a b c : StreamId}

/-! ## Who presents a grant, and who is joined -/

/-- The connection whose task looks up `u` here: its request has passed every check. -/
def presents (u : String) : Step → Option StreamId
  | .step _ j _ (.lookup u') _ => if u' = u then some j.stream else none
  | _ => none

/-- The connections that are joined here under `u`, the one that came second first. -/
def joins (u : String) : Step → Option (StreamId × StreamId)
  | .step _ j _ (.lookup u') s => if u' = u then (s.peers u).map fun c => (j.stream, c) else none
  | _ => none

def presenters (u : String) (l : List Step) : List StreamId := l.filterMap (presents u)

def pairs (u : String) (l : List Step) : List (StreamId × StreamId) := l.filterMap (joins u)

/-- The connections of the pairs. -/
def sides (ps : List (StreamId × StreamId)) : List StreamId := ps.flatMap fun x => [x.1, x.2]

@[simp] theorem sides_cons (x : StreamId × StreamId) (ps : List (StreamId × StreamId)) :
    sides (x :: ps) = x.1 :: x.2 :: sides ps := rfl

theorem length_sides (ps : List (StreamId × StreamId)) : (sides ps).length = 2 * ps.length := by
  induction ps with
  | nil => rfl
  | cons x ps ih =>
    simp only [sides_cons, List.length_cons, ih]
    omega

theorem presents_eq_some {i : Step} : presents u i = some c ↔
    ∃ n j past s, i = .step n j past (.lookup u) s ∧ j.stream = c := by
  constructor
  · intro h
    unfold presents at h
    split at h
    · next n j past u' s =>
      simp only [Option.ite_none_right_eq_some, Option.some.injEq] at h
      obtain ⟨rfl, hc⟩ := h
      exact ⟨n, j, past, s, rfl, hc⟩
    · cases h
  · rintro ⟨n, j, past, s, rfl, rfl⟩
    exact if_pos rfl

theorem joins_eq_some {i : Step} : joins u i = some (a, b) ↔
    ∃ n j past s, i = .step n j past (.lookup u) s ∧ j.stream = a ∧ s.peers u = some b := by
  constructor
  · intro h
    unfold joins at h
    split at h
    · next n j past u' s =>
      simp only [Option.ite_none_right_eq_some, Option.map_eq_some_iff, Prod.mk.injEq] at h
      obtain ⟨rfl, c, hc, rfl, rfl⟩ := h
      exact ⟨n, j, past, s, rfl, rfl, hc⟩
    · cases h
  · rintro ⟨n, j, past, s, rfl, rfl, hb⟩
    simp [joins, hb]

/-- A task looks up the id in the history `l`, and finds what the state says. -/
def LooksUp (u : String) (l : List Step) (c : StreamId) (found : Option StreamId) : Prop :=
  ∃ n j past s l', (.step n j past (.lookup u) s :: l') <:+ l ∧ j.stream = c ∧ s.peers u = found

theorem mem_presenters : c ∈ presenters u l ↔ ∃ found, LooksUp u l c found := by
  unfold presenters
  rw [List.mem_filterMap]
  constructor
  · rintro ⟨i, hi, hc⟩
    obtain ⟨n, j, past, s, rfl, hj⟩ := presents_eq_some.1 hc
    obtain ⟨k, l', hs, -⟩ := Happened.of_mem hi
    exact ⟨_, n, j, past, s, l', hs, hj, rfl⟩
  · rintro ⟨found, n, j, past, s, l', hs, hj, -⟩
    exact ⟨_, hs.subset List.mem_cons_self, presents_eq_some.2 ⟨n, j, past, s, rfl, hj⟩⟩

theorem mem_pairs : (a, b) ∈ pairs u l ↔ LooksUp u l a (some b) := by
  unfold pairs
  rw [List.mem_filterMap]
  constructor
  · rintro ⟨i, hi, hc⟩
    obtain ⟨n, j, past, s, rfl, hj, hb⟩ := joins_eq_some.1 hc
    obtain ⟨k, l', hs, -⟩ := Happened.of_mem hi
    exact ⟨n, j, past, s, l', hs, hj, hb⟩
  · rintro ⟨n, j, past, s, l', hs, hj, hb⟩
    exact ⟨_, hs.subset List.mem_cons_self, joins_eq_some.2 ⟨n, j, past, s, rfl, hj, hb⟩⟩

theorem mem_sides {ps : List (StreamId × StreamId)} :
    c ∈ sides ps ↔ (∃ b, (c, b) ∈ ps) ∨ ∃ a, (a, c) ∈ ps := by
  unfold sides
  simp only [List.mem_flatMap, List.mem_cons, List.not_mem_nil, or_false, Prod.exists]
  constructor
  · rintro ⟨a, b, hab, rfl | rfl⟩
    · exact .inl ⟨b, hab⟩
    · exact .inr ⟨a, hab⟩
  · rintro (⟨b, hab⟩ | ⟨a, hab⟩)
    · exact ⟨c, b, hab, .inl rfl⟩
    · exact ⟨a, c, hab, .inr rfl⟩

/-! ## No connection is in two pairs -/

/-- A connection that is found was parked by its own task, and has stood there since. -/
theorem parker_of_found (hr : (hbbr X).Run Started C l p) {n : ℕ} {j : Job} {past : Past}
    {s : State} (hs : (.step n j past (.lookup u) s :: l') <:+ l) (hfound : s.peers u = some c) :
    ∃ m j' past' s' l₀, Stands parked u c l' (.step m j' past' (.park u c) s') l₀ ∧
      j'.stream = c := by
  rw [show s.peers = _ from peers_pre hr hs] at hfound
  obtain ⟨i, l₀, hst⟩ := tableOf_eq_some.1 hfound
  have hi : i ∈ l := hs.subset (List.mem_cons_of_mem _ (hst.suffix.subset List.mem_cons_self))
  obtain ⟨m, j', past', s', rfl⟩ := park_of_records hst.records
  exact ⟨m, j', past', s', l₀, hst, (rule_of_step hr hi).1.symm⟩

/-- A task that parks its connection has found nobody. -/
theorem ne_of_park (hr : (hbbr X).Run Started C l p) {n m : ℕ} {j j' : Job} {past past' : Past}
    {u' : String} {s s' : State} {l₀ l₁ : List Step}
    (hpark : (.step m j' past' (.park u' c) s' :: l₀) <:+ l)
    (hlook : (.step n j past (.lookup u) s :: l₁) <:+ l) (hfound : s.peers u = some b) :
    j.stream ≠ c := by
  rintro rfl
  obtain ⟨hc, -⟩ := rule_of_step hr (hpark.subset List.mem_cons_self)
  obtain rfl := stream_unique hr (hlook.subset List.mem_cons_self)
    (hpark.subset List.mem_cons_self) hc
  obtain ⟨_, s₁, l₂, hs₁, hnone⟩ := lookup_of_park hr hpark
  obtain ⟨rfl, rfl, -⟩ := lookup_unique hr hlook (hs₁.trans ((List.suffix_cons _ _).trans hpark))
  cases hnone.symm.trans hfound

/-- The connection of a task that looks up has not been looked up before. -/
theorem not_looksUp_before (hr : (hbbr X).Run Started C l p) {n : ℕ} {j : Job} {past : Past}
    {s : State} (hs : (.step n j past (.lookup u) s :: l') <:+ l) {found : Option StreamId} :
    ¬LooksUp u l' j.stream found := by
  rintro ⟨n', j', past', s', l₁, hs', hj, -⟩
  have hl' := (List.suffix_cons _ _).trans hs
  obtain rfl := stream_unique hr ((hs'.trans hl').subset List.mem_cons_self)
    (hs.subset List.mem_cons_self) hj
  obtain ⟨-, -, rfl⟩ := lookup_unique hr (hs'.trans hl') hs
  exact absurd hs'.length_le (by simp)

theorem presenters_nodup (hr : (hbbr X).Run Started C l p) (u : String) (hl : l' <:+ l) :
    (presenters u l').Nodup := by
  induction l' with
  | nil => exact List.nodup_nil
  | cons i l' ih =>
    have ih := ih ((List.suffix_cons _ _).trans hl)
    unfold presenters at ih ⊢
    cases hp : presents u i with
    | none => rwa [List.filterMap_cons_none hp]
    | some c =>
      rw [List.filterMap_cons_some hp, List.nodup_cons]
      refine ⟨fun hmem => ?_, ih⟩
      obtain ⟨n, j, past, s, rfl, rfl⟩ := presents_eq_some.1 hp
      obtain ⟨found, hlook⟩ := mem_presenters.1 hmem
      exact not_looksUp_before hr hl hlook

theorem sides_nodup (hr : (hbbr X).Run Started C l p) (u : String) (hl : l' <:+ l) :
    (sides (pairs u l')).Nodup := by
  induction l' with
  | nil => exact List.nodup_nil
  | cons i l' ih =>
    have hl' := (List.suffix_cons _ _).trans hl
    have ih := ih hl'
    cases hp : joins u i with
    | none =>
      unfold pairs at ih ⊢
      rwa [List.filterMap_cons_none hp]
    | some x =>
      obtain ⟨a, b⟩ := x
      have hcons : pairs u (i :: l') = (a, b) :: pairs u l' := List.filterMap_cons_some hp
      obtain ⟨n, j, past, s, rfl, rfl, hfound⟩ := joins_eq_some.1 hp
      obtain ⟨m, jm, pm, sm, l₀, hst, hjm⟩ := parker_of_found hr hl hfound
      have hpark := hst.suffix.trans hl'
      rw [hcons, sides_cons, List.nodup_cons, List.nodup_cons, List.mem_cons, not_or]
      refine ⟨⟨ne_of_park hr hpark hl hfound, fun hmem => ?_⟩, fun hmem => ?_, ih⟩
      · rcases mem_sides.1 hmem with ⟨b', hpair⟩ | ⟨a', hpair⟩
        · exact not_looksUp_before hr hl (mem_pairs.1 hpair)
        · -- it would have been parked before
          obtain ⟨n', j', past', s', l₁, hs', -, hfound'⟩ := mem_pairs.1 hpair
          obtain ⟨m', jm', pm', sm', l₀', hst', -⟩ := parker_of_found hr (hs'.trans hl') hfound'
          have hpark' := hst'.suffix.trans ((List.suffix_cons _ _).trans (hs'.trans hl'))
          exact ne_of_park hr hpark' hl hfound rfl
      · rcases mem_sides.1 hmem with ⟨b', hpair⟩ | ⟨a', hpair⟩
        · obtain ⟨n', j', past', s', l₁, hs', hj', hfound'⟩ := mem_pairs.1 hpair
          exact ne_of_park hr hpark (hs'.trans hl') hfound' hj'
        · -- the earlier pair took it out of the table, and its task does not park again
          obtain ⟨n', j', past', s', l₁, hs', -, hfound'⟩ := mem_pairs.1 hpair
          obtain ⟨m', jm', pm', sm', l₀', hst', hjm'⟩ :=
            parker_of_found hr (hs'.trans hl') hfound'
          have hpark' := hst'.suffix.trans ((List.suffix_cons _ _).trans (hs'.trans hl'))
          obtain rfl := stream_unique hr (hpark.subset List.mem_cons_self)
            (hpark'.subset List.mem_cons_self) (hjm.trans hjm'.symm)
          obtain ⟨-, rfl⟩ := park_unique hr hpark hpark'
          have hlater : l₀.length < l₁.length := hst'.suffix.length_le
          exact hst.spares _ _ hlater (Happened.of_suffix hs') rfl

/-! ## The law -/

/-- What the grant `u` was good for in the history `l`. -/
structure Spent (X : Setup) (l : List Step) (u : String) : Prop where
  /-- Whoever looks it up has presented it, and it was not expired when it was checked. -/
  checked : ∀ c ∈ presenters u l, ∃ n j past s s₀, .step n j past (.lookup u) s ∈ l ∧
    j.stream = c ∧ ⟨.wallClock, s₀⟩ ∈ past ∧ Accepts X j u s₀.clock
  distinct : (presenters u l).Nodup
  parks : ∀ n j past c s, .step n j past (.park u c) s ∈ l → c ∈ presenters u l
  joins : ∀ c ∈ sides (pairs u l), c ∈ presenters u l
  /-- The two sides of a pair are different, and no connection is in two pairs. -/
  apart : (sides (pairs u l)).Nodup
  labels : ∀ n j past id label s s₁, .step n j past (.insertLabel id label) s ∈ l →
    ⟨.lookup u, s₁⟩ ∈ past → label = X.relaySessionLabel u
  few : 2 * (pairs u l).length ≤ (presenters u l).length

/-- In every run, a grant joins connections that presented it while it was good, none of them
twice. -/
theorem grant_pairs (X : Setup) {C : List Step → Pool Op Op.Res State Job → Choice Job Env → Prop}
    (l : List Step) (p : Pool Op Op.Res State Job) (hr : (hbbr X).Run Started C l p) (u : String) :
    Spent X l u := by
  have hparks : ∀ {n j past c s l₀}, (.step n j past (.park u c) s :: l₀) <:+ l →
      c ∈ presenters u l := by
    intro n j past c s l₀ hs
    obtain ⟨rfl, -⟩ := rule_of_step hr (hs.subset List.mem_cons_self)
    obtain ⟨_, s₁, l₁, hs₁, -⟩ := lookup_of_park hr hs
    have hl₁ := hs₁.trans ((List.suffix_cons _ _).trans hs)
    exact mem_presenters.2 ⟨_, n, j, _, s₁, l₁, hl₁, rfl, rfl⟩
  have hjoins : ∀ c ∈ sides (pairs u l), c ∈ presenters u l := by
    intro c hc
    rcases mem_sides.1 hc with ⟨b, hpair⟩ | ⟨a, hpair⟩
    · exact mem_presenters.2 ⟨_, mem_pairs.1 hpair⟩
    · obtain ⟨n, j, past, s, l₁, hs, -, hfound⟩ := mem_pairs.1 hpair
      obtain ⟨m, j', past', s', l₀, hst, -⟩ := parker_of_found hr hs hfound
      exact hparks (hst.suffix.trans ((List.suffix_cons _ _).trans hs))
  have hapart := sides_nodup hr u List.suffix_rfl
  refine ⟨fun c hc => ?_, presenters_nodup hr u List.suffix_rfl, fun n j past c s hi => ?_, hjoins,
    hapart, fun n j past id label s s₁ hi hlook => ?_, ?_⟩
  · obtain ⟨found, n, j, past, s, l₁, hs, hj, -⟩ := mem_presenters.1 hc
    have hi := hs.subset List.mem_cons_self
    obtain ⟨s₀, rfl, haccepts⟩ := rule_of_step hr hi
    exact ⟨n, j, _, s, s₀, hi, hj, List.mem_singleton.2 rfl, haccepts⟩
  · obtain ⟨k, l₀, hs, -⟩ := Happened.of_mem hi
    exact hparks hs
  · obtain ⟨u', s₀, s₁', s₂, id', rfl, rfl⟩ := rule_of_step hr hi
    simp only [List.mem_cons, Call.mk.injEq, reduceCtorEq, false_and, List.not_mem_nil, or_false,
      false_or, Op.lookup.injEq] at hlook
    rw [hlook.1]
  · rw [← length_sides]
    exact (List.subperm_of_subset hapart hjoins).length_le

namespace Sample

/-- After a pair was made, two more connections present the grant. -/
def secondPair : List (Choice Job Env) :=
  pairing ++ .start (connection 2) :: List.replicate 3 (.step 2) ++
    .start (connection 3) :: List.replicate 2 (.step 3)

end Sample

theorem grant_pairs_pairing : ∃ l p, (hbbr Sample.setup).Run Started Timely l p ∧
    (pairs Sample.grant l).length = 1 ∧ Spent Sample.setup l Sample.grant := by
  obtain ⟨l, p, hr, htest⟩ := Sample.exists_run Sample.pairing
    (fun l => decide ((pairs Sample.grant l).length = 1)) (by decide +kernel)
  exact ⟨l, p, hr, of_decide_eq_true htest, grant_pairs Sample.setup l p hr Sample.grant⟩

/-- One grant joins two pairs. -/
theorem not_one_pair : ¬∀ (X : Setup) (l : List Step) (p : Pool Op Op.Res State Job),
    (hbbr X).Run Started Timely l p → ∀ u, (pairs u l).length ≤ 1 := by
  intro hall
  obtain ⟨l, p, hr, htest⟩ := Sample.exists_run Sample.secondPair
    (fun l => decide (1 < (pairs Sample.grant l).length)) (by decide +kernel)
  have hle := hall _ l p hr Sample.grant
  have hlt := of_decide_eq_true htest
  omega

end Relay

end NemoServer
