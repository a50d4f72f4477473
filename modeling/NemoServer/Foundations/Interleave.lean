import Mathlib.Logic.Function.Basic
import Mathlib.Order.Basic
import NemoServer.Foundations.Prog

/-!
# Interleaved runs

A `System` runs any number of jobs over one shared state: each job is a program of atomic
operations, and at every moment the scheduler may start a job, let a running one perform its next
operation, let the environment act, or restart the machine, which loses every running job.
`System.advance` performs one such choice, and `System.Run` collects the runs, with the list of
what happened, the newest item first. A condition `C` on the choices, given what happened before
and the pool they are made in, restricts the runs; `Free` restricts nothing.

* `Run.induct` is the induction over runs, with one case for each kind of choice.
* `Verified` packages an invariant `I` of the shared state with a guarantee `G` of the calls;
  `Run.invariant` and `Run.guarantee` draw the consequences for every item of a run.
* `Run.past` says what the history of a running job is: the calls it has made in this run.
* `Run.project` forgets what a system that watches another one adds to its runs.
* `System.exec` performs a list of choices, for exhibiting a run.
-/

namespace NemoServer

/-- Jobs over a shared state `σ`, each a program of the operations `Op`; `E` are the actions of
the environment. -/
structure System (Op : Type) (Res : Op → Type) (σ J E : Type) where
  sem : (o : Op) → σ → Res o × σ
  code : J → Prog Op Res Unit
  /-- Starting a job may be refused, and may mark the state. -/
  start : J → σ → Option σ
  env : E → σ → Option σ
  reboot : σ → σ

/-- A running job: the calls it has made, newest first, and what is left of it. -/
structure Live (Op : Type) (Res : Op → Type) (σ J : Type) where
  job : J
  past : List (Call Op σ)
  rest : Prog Op Res Unit

/-- The shared state and the running jobs; numbers from `fresh` on are unused. -/
structure Pool (Op : Type) (Res : Op → Type) (σ J : Type) where
  shared : σ
  live : ℕ → Option (Live Op Res σ J)
  fresh : ℕ

/-- What the scheduler does next. -/
inductive Choice (J E : Type)
  | start (j : J)
  | step (n : ℕ)
  | env (e : E)
  | crash

/-- The same choice where more can happen. -/
def Choice.onEnv {J E F : Type} (f : E → F) : Choice J E → Choice J F
  | .start j => .start j
  | .step n => .step n
  | .env e => .env (f e)
  | .crash => .crash

/-- What happened, and the state it happened in. -/
inductive Item (Op σ J E : Type)
  | start (n : ℕ) (j : J) (pre : σ)
  | step (n : ℕ) (j : J) (past : List (Call Op σ)) (o : Op) (pre : σ)
  | env (e : E) (pre : σ)
  | crash (pre : σ)

namespace Item

variable {Op σ J E : Type}

/-- The state an item happened in. -/
def pre : Item Op σ J E → σ
  | .start _ _ s => s
  | .step _ _ _ _ s => s
  | .env _ s => s
  | .crash s => s

/-- The call of job `n`, if the item is one. -/
def callOf (n : ℕ) : Item Op σ J E → Option (Call Op σ)
  | .step m _ _ o s => if m = n then some ⟨o, s⟩ else none
  | .start _ _ _ => none
  | .env _ _ => none
  | .crash _ => none

/-- The choice an item comes of. -/
def choice : Item Op σ J E → Choice J E
  | .start _ j _ => .start j
  | .step n _ _ _ _ => .step n
  | .env e _ => .env e
  | .crash _ => .crash

end Item

namespace System

variable {Op : Type} {Res : Op → Type} {σ J E : Type}

/-- A job stays in the pool until nothing is left of it. -/
def keep (L : Live Op Res σ J) : Option (Live Op Res σ J) :=
  match L.rest with
  | .ret _ => none
  | .call _ _ => some L

theorem keep_eq_some {L L' : Live Op Res σ J} (h : keep L = some L') : L' = L := by
  unfold keep at h
  split at h
  · cases h
  · exact (Option.some.inj h).symm

variable (S : System Op Res σ J E)

/-- One choice of the scheduler. -/
def advance (p : Pool Op Res σ J) : Choice J E → Option (Item Op σ J E × Pool Op Res σ J)
  | .start j => (S.start j p.shared).map fun s =>
      (.start p.fresh j p.shared,
        ⟨s, Function.update p.live p.fresh (keep ⟨j, [], S.code j⟩), p.fresh + 1⟩)
  | .step n =>
    match p.live n with
    | some ⟨j, past, .call o k⟩ =>
      some (.step n j past o p.shared,
        ⟨(S.sem o p.shared).2, Function.update p.live n
          (keep ⟨j, ⟨o, p.shared⟩ :: past, k (S.sem o p.shared).1⟩), p.fresh⟩)
    | _ => none
  | .env e => (S.env e p.shared).map fun s => (.env e p.shared, ⟨s, p.live, p.fresh⟩)
  | .crash => some (.crash p.shared, ⟨S.reboot p.shared, fun _ => none, p.fresh⟩)

/-- The pool of a machine that has just started. -/
def boot (s : σ) : Pool Op Res σ J := ⟨s, fun _ => none, 0⟩

/-- The runs from the states `init`, each choice allowed by `C` where it is made. -/
inductive Run (init : σ → Prop)
    (C : List (Item Op σ J E) → Pool Op Res σ J → Choice J E → Prop) :
    List (Item Op σ J E) → Pool Op Res σ J → Prop
  | boot {s : σ} (h : init s) : Run init C [] (boot s)
  | next {l : List (Item Op σ J E)} {p p' : Pool Op Res σ J} {c : Choice J E}
      {i : Item Op σ J E} (hr : Run init C l p) (hc : C l p c) (h : S.advance p c = some (i, p')) :
      Run init C (i :: l) p'

/-- No restriction on the choices. -/
def Free : List (Item Op σ J E) → Pool Op Res σ J → Choice J E → Prop := fun _ _ _ => True

variable {S} {init : σ → Prop}
  {C : List (Item Op σ J E) → Pool Op Res σ J → Choice J E → Prop}

theorem Run.free {l : List (Item Op σ J E)} {p : Pool Op Res σ J} (h : S.Run init C l p) :
    S.Run init Free l p := by
  induction h with
  | boot h => exact .boot h
  | next _ _ h ih => exact .next ih trivial h

/-- A condition on choices that holds after quiet histories holds all along a quiet run. -/
theorem Run.assuming {Q : Item Op σ J E → Prop} {l : List (Item Op σ J E)} {p : Pool Op Res σ J}
    (h : S.Run init (fun l p c => (∀ x ∈ l, Q x) → C l p c) l p) (hl : ∀ x ∈ l, Q x) :
    S.Run init C l p := by
  induction h with
  | boot h => exact .boot h
  | next _ hc ha ih =>
    obtain ⟨-, hold⟩ := List.forall_mem_cons.1 hl
    exact .next (ih hold) (hc hold) ha

theorem Run.init_mono {init' : σ → Prop} {l : List (Item Op σ J E)} {p : Pool Op Res σ J}
    (h : S.Run init C l p) (hinit : ∀ s, init s → init' s) : S.Run init' C l p := by
  induction h with
  | boot h => exact .boot (hinit _ h)
  | next _ hc ha ih => exact .next ih hc ha

theorem advance_start {p : Pool Op Res σ J} {j : J} {s : σ} (h : S.start j p.shared = some s) :
    S.advance p (.start j) = some (.start p.fresh j p.shared,
      ⟨s, Function.update p.live p.fresh (keep ⟨j, [], S.code j⟩), p.fresh + 1⟩) := by
  simp [advance, h]

theorem advance_step {p : Pool Op Res σ J} {n : ℕ} {j : J} {past : List (Call Op σ)} {o : Op}
    {k : Res o → Prog Op Res Unit} (h : p.live n = some ⟨j, past, .call o k⟩) :
    S.advance p (.step n) = some (.step n j past o p.shared,
      ⟨(S.sem o p.shared).2, Function.update p.live n
        (keep ⟨j, ⟨o, p.shared⟩ :: past, k (S.sem o p.shared).1⟩), p.fresh⟩) := by
  simp [advance, h]

theorem advance_env {p : Pool Op Res σ J} {e : E} {s : σ} (h : S.env e p.shared = some s) :
    S.advance p (.env e) = some (.env e p.shared, ⟨s, p.live, p.fresh⟩) := by
  simp [advance, h]

/-- A job that performs an operation is running. -/
theorem advance_step_live {p p' : Pool Op Res σ J} {c : Choice J E} {n : ℕ} {j : J}
    {past : List (Call Op σ)} {o : Op} {s : σ}
    (h : S.advance p c = some (.step n j past o s, p')) :
    ∃ k, p.live n = some ⟨j, past, .call o k⟩ := by
  cases c with
  | start j =>
    obtain ⟨s, -, heq⟩ := Option.map_eq_some_iff.1 h
    cases (Prod.mk.inj heq).1
  | step n =>
    simp only [advance] at h
    split at h
    · next j past o k hl =>
      obtain ⟨heq, -⟩ := Prod.mk.inj (Option.some.inj h)
      cases heq
      exact ⟨k, hl⟩
    · cases h
  | env e =>
    obtain ⟨s, -, heq⟩ := Option.map_eq_some_iff.1 h
    cases (Prod.mk.inj heq).1
  | crash => cases (Prod.mk.inj (Option.some.inj h)).1

/-- Induction over runs: one case for each kind of choice. -/
theorem Run.induct {motive : ∀ l p, S.Run init C l p → Prop}
    (hboot : ∀ s (h : init s), motive [] (System.boot s) (.boot h))
    (hstart : ∀ l p j s (hr : S.Run init C l p) (hc : C l p (.start j))
      (hs : S.start j p.shared = some s), motive l p hr →
      motive (.start p.fresh j p.shared :: l)
        ⟨s, Function.update p.live p.fresh (keep ⟨j, [], S.code j⟩), p.fresh + 1⟩
        (.next hr hc (advance_start hs)))
    (hstep : ∀ l p n j past o k (hr : S.Run init C l p) (hc : C l p (.step n))
      (hl : p.live n = some ⟨j, past, .call o k⟩), motive l p hr →
      motive (.step n j past o p.shared :: l) ⟨(S.sem o p.shared).2, Function.update p.live n
        (keep ⟨j, ⟨o, p.shared⟩ :: past, k (S.sem o p.shared).1⟩), p.fresh⟩
        (.next hr hc (advance_step hl)))
    (henv : ∀ l p e s (hr : S.Run init C l p) (hc : C l p (.env e))
      (hs : S.env e p.shared = some s), motive l p hr →
      motive (.env e p.shared :: l) ⟨s, p.live, p.fresh⟩ (.next hr hc (advance_env hs)))
    (hcrash : ∀ l p (hr : S.Run init C l p) (hc : C l p .crash), motive l p hr →
      motive (.crash p.shared :: l) ⟨S.reboot p.shared, fun _ => none, p.fresh⟩
        (.next hr hc rfl))
    {l : List (Item Op σ J E)} {p : Pool Op Res σ J} (h : S.Run init C l p) : motive l p h := by
  induction h with
  | boot h => exact hboot _ h
  | @next l p p' c i hr hc ha ih =>
    cases c with
    | start j =>
      have ha' := ha
      simp only [advance, Option.map_eq_some_iff, Prod.mk.injEq] at ha'
      obtain ⟨s, hs, rfl, rfl⟩ := ha'
      exact hstart l p j s hr hc hs ih
    | step n =>
      have ha' := ha
      simp only [advance] at ha'
      split at ha'
      · rename_i j past o k hl
        simp only [Option.some.injEq, Prod.mk.injEq] at ha'
        obtain ⟨rfl, rfl⟩ := ha'
        exact hstep l p n j past o k hr hc hl ih
      · cases ha'
    | env e =>
      have ha' := ha
      simp only [advance, Option.map_eq_some_iff, Prod.mk.injEq] at ha'
      obtain ⟨s, hs, rfl, rfl⟩ := ha'
      exact henv l p e s hr hc hs ih
    | crash =>
      have ha' := ha
      simp only [advance, Option.some.injEq, Prod.mk.injEq] at ha'
      obtain ⟨rfl, rfl⟩ := ha'
      exact hcrash l p hr hc ih

theorem live_update {p : Pool Op Res σ J} {n m : ℕ} {L L' : Live Op Res σ J}
    (h : Function.update p.live n (keep L) m = some L') :
    m = n ∧ L' = L ∨ m ≠ n ∧ p.live m = some L' := by
  by_cases hm : m = n
  · subst hm
    rw [Function.update_self] at h
    exact .inl ⟨rfl, keep_eq_some h⟩
  · rw [Function.update_of_ne hm] at h
    exact .inr ⟨hm, h⟩

/-- What one choice does to the shared state: one case for each kind of item. -/
theorem advance_cases {motive : σ → Item Op σ J E → σ → Prop}
    (hstart : ∀ n j s s', S.start j s = some s' → motive s (.start n j s) s')
    (hstep : ∀ n j past o s, motive s (.step n j past o s) (S.sem o s).2)
    (henv : ∀ e s s', S.env e s = some s' → motive s (.env e s) s')
    (hcrash : ∀ s, motive s (.crash s) (S.reboot s)) {p p' : Pool Op Res σ J} {c : Choice J E}
    {i : Item Op σ J E} (h : S.advance p c = some (i, p')) : motive p.shared i p'.shared := by
  cases c with
  | start j =>
    obtain ⟨s, hs, heq⟩ := Option.map_eq_some_iff.1 h
    obtain ⟨rfl, rfl⟩ := Prod.mk.inj heq
    exact hstart _ j _ s hs
  | step n =>
    simp only [advance] at h
    split at h
    · next j past o k _ =>
      obtain ⟨rfl, rfl⟩ := Prod.mk.inj (Option.some.inj h)
      exact hstep n j past o p.shared
    · cases h
  | env e =>
    obtain ⟨s, hs, heq⟩ := Option.map_eq_some_iff.1 h
    obtain ⟨rfl, rfl⟩ := Prod.mk.inj heq
    exact henv e _ s hs
  | crash =>
    obtain ⟨rfl, rfl⟩ := Prod.mk.inj (Option.some.inj h)
    exact hcrash p.shared

theorem advance_pre {p p' : Pool Op Res σ J} {c : Choice J E} {i : Item Op σ J E}
    (h : S.advance p c = some (i, p')) : i.pre = p.shared :=
  advance_cases (motive := fun s i _ => i.pre = s) (fun _ _ _ _ _ => rfl) (fun _ _ _ _ _ => rfl)
    (fun _ _ _ _ => rfl) (fun _ => rfl) h

theorem advance_choice {p p' : Pool Op Res σ J} {c : Choice J E} {i : Item Op σ J E}
    (h : S.advance p c = some (i, p')) : c = i.choice := by
  cases c with
  | start j =>
    obtain ⟨s, -, heq⟩ := Option.map_eq_some_iff.1 h
    exact (Prod.mk.inj heq).1 ▸ rfl
  | step n =>
    simp only [advance] at h
    split at h
    · exact (Prod.mk.inj (Option.some.inj h)).1 ▸ rfl
    · cases h
  | env e =>
    obtain ⟨s, -, heq⟩ := Option.map_eq_some_iff.1 h
    exact (Prod.mk.inj heq).1 ▸ rfl
  | crash => exact (Prod.mk.inj (Option.some.inj h)).1 ▸ rfl

/-! ## Invariants and guarantees -/

/-- `I` is an invariant of the shared state, kept by every call that meets the guarantee `G` of
its job, and every job meets its guarantee. -/
structure Verified (S : System Op Res σ J E) (init I : σ → Prop)
    (G : J → List (Call Op σ) → Op → σ → Prop) : Prop where
  init : ∀ s, init s → I s
  code : ∀ j, (S.code j).Sat S.sem I (G j) (fun _ _ => True) []
  call : ∀ j past o s, I s → G j past o s → I (S.sem o s).2
  start : ∀ j s s', I s → S.start j s = some s' → I s'
  env : ∀ e s s', I s → S.env e s = some s' → I s'
  reboot : ∀ s, I s → I (S.reboot s)

variable {I : σ → Prop} {G : J → List (Call Op σ) → Op → σ → Prop}

/-- What a verified run keeps: the invariant, and that what is left of each job is verified. -/
theorem Run.verified (hv : Verified S init I G) {l : List (Item Op σ J E)} {p : Pool Op Res σ J}
    (h : S.Run init C l p) :
    I p.shared ∧ ∀ n L, p.live n = some L →
      L.rest.Sat S.sem I (G L.job) (fun _ _ => True) L.past := by
  induction h using Run.induct with
  | hboot s hs => exact ⟨hv.init s hs, by simp [System.boot]⟩
  | hstart l p j s _ _ hs ih =>
    refine ⟨hv.start j _ _ ih.1 hs, fun n L hL => ?_⟩
    obtain ⟨-, rfl⟩ | ⟨-, hL⟩ := live_update hL
    · exact hv.code j
    · exact ih.2 n L hL
  | hstep l p n j past o k _ _ hl ih =>
    have hsat := ih.2 n _ hl p.shared ih.1
    refine ⟨hv.call j past o _ ih.1 hsat.1, fun m L hL => ?_⟩
    obtain ⟨-, rfl⟩ | ⟨-, hL⟩ := live_update hL
    · exact hsat.2
    · exact ih.2 m L hL
  | henv l p e s _ _ hs ih => exact ⟨hv.env e _ _ ih.1 hs, ih.2⟩
  | hcrash l p _ _ ih => exact ⟨hv.reboot _ ih.1, by simp⟩

theorem Run.invariant (hv : Verified S init I G) {l : List (Item Op σ J E)}
    {p : Pool Op Res σ J} (h : S.Run init C l p) : I p.shared :=
  (h.verified hv).1

/-- Every item of a verified run happened in a state with the invariant. -/
theorem Run.invariant_item (hv : Verified S init I G) {l : List (Item Op σ J E)}
    {p : Pool Op Res σ J} (h : S.Run init C l p) : ∀ i ∈ l, I i.pre := by
  induction h using Run.induct with
  | hboot s hs => simp
  | hstart l p j s hr _ _ ih => exact List.forall_mem_cons.2 ⟨hr.invariant hv, ih⟩
  | hstep l p n j past o k hr _ _ ih => exact List.forall_mem_cons.2 ⟨hr.invariant hv, ih⟩
  | henv l p e s hr _ _ ih => exact List.forall_mem_cons.2 ⟨hr.invariant hv, ih⟩
  | hcrash l p hr _ ih => exact List.forall_mem_cons.2 ⟨hr.invariant hv, ih⟩

/-- Every call of a verified run meets the guarantee of its job. -/
theorem Run.guarantee (hv : Verified S init I G) {l : List (Item Op σ J E)}
    {p : Pool Op Res σ J} (h : S.Run init C l p) :
    ∀ n j past o s, .step n j past o s ∈ l → G j past o s := by
  induction h using Run.induct with
  | hboot s hs => simp
  | hstart l p j s hr _ _ ih => simpa using ih
  | hstep l p n j past o k hr _ hl ih =>
    intro n' j' past' o' s' hmem
    rcases List.mem_cons.1 hmem with heq | hmem
    · cases heq
      have hver := hr.verified hv
      exact (hver.2 n _ hl p.shared hver.1).1
    · exact ih n' j' past' o' s' hmem
  | henv l p e s hr _ _ ih => simpa using ih
  | hcrash l p hr _ ih => simpa using ih

/-- A running job has something left to do. -/
theorem Run.live_call {l : List (Item Op σ J E)} {p : Pool Op Res σ J} (h : S.Run init C l p) :
    ∀ n L, p.live n = some L → ∃ o k, L.rest = .call o k := by
  have hkeep : ∀ L L' : Live Op Res σ J, keep L = some L' → ∃ o k, L'.rest = .call o k := by
    intro L L' hL
    obtain rfl := keep_eq_some hL
    unfold keep at hL
    split at hL
    · cases hL
    · next o k heq => exact ⟨o, k, heq⟩
  have hupd : ∀ (p : Pool Op Res σ J) n m (L L' : Live Op Res σ J),
      Function.update p.live n (keep L) m = some L' →
      (∃ o k, L'.rest = .call o k) ∨ p.live m = some L' := by
    intro p n m L L' hL
    by_cases hm : m = n
    · subst hm
      rw [Function.update_self] at hL
      exact .inl (hkeep _ _ hL)
    · rw [Function.update_of_ne hm] at hL
      exact .inr hL
  induction h using Run.induct with
  | hboot s hs => simp [System.boot]
  | hstart l p j s _ _ _ ih => exact fun m L hL => (hupd p _ m _ L hL).elim id (ih m L)
  | hstep l p n j past o k _ _ _ ih => exact fun m L hL => (hupd p n m _ L hL).elim id (ih m L)
  | henv l p e s _ _ _ ih => exact ih
  | hcrash l p _ _ ih => simp

/-- A running job meets its guarantee at its next call. -/
theorem Run.live_guarantee (hv : Verified S init I G) {l : List (Item Op σ J E)}
    {p : Pool Op Res σ J} (h : S.Run init C l p) {n : ℕ} {L : Live Op Res σ J}
    (hL : p.live n = some L) : ∃ o, G L.job L.past o p.shared := by
  obtain ⟨o, k, hrest⟩ := h.live_call n L hL
  obtain ⟨hI, hsat⟩ := h.verified hv
  have hcall := hsat n L hL
  rw [hrest] at hcall
  exact ⟨o, (hcall _ hI).1⟩

/-! ## The history of a job -/

/-- The calls of job `n` in a run, newest first. -/
def calls (n : ℕ) (l : List (Item Op σ J E)) : List (Call Op σ) := l.filterMap (Item.callOf n)

@[simp] theorem calls_start {n m : ℕ} {j : J} {s : σ} {l : List (Item Op σ J E)} :
    calls n (.start m j s :: l) = calls n l := rfl

@[simp] theorem calls_env {n : ℕ} {e : E} {s : σ} {l : List (Item Op σ J E)} :
    calls n (.env e s :: l) = calls n l := rfl

@[simp] theorem calls_crash {n : ℕ} {s : σ} {l : List (Item Op σ J E)} :
    calls n (.crash s :: l) = calls n l := rfl

theorem calls_step {n m : ℕ} {j : J} {past : List (Call Op σ)} {o : Op} {s : σ}
    {l : List (Item Op σ J E)} :
    calls n (.step m j past o s :: l) = if m = n then ⟨o, s⟩ :: calls n l else calls n l := by
  by_cases h : m = n <;> simp [calls, Item.callOf, h]

theorem mem_calls {n : ℕ} {l : List (Item Op σ J E)} {c : Call Op σ} :
    c ∈ calls n l ↔ ∃ j past, .step n j past c.op c.pre ∈ l := by
  simp only [calls, List.mem_filterMap]
  constructor
  · rintro ⟨i, hi, hc⟩
    cases i with
    | step m j past o s =>
      simp only [Item.callOf, Option.ite_none_right_eq_some, Option.some.injEq] at hc
      obtain ⟨rfl, rfl⟩ := hc
      exact ⟨j, past, hi⟩
    | start => cases hc
    | env => cases hc
    | crash => cases hc
  · rintro ⟨j, past, hi⟩
    exact ⟨_, hi, by simp [Item.callOf]⟩

/-- The numbers of the running jobs and of the items are in use. -/
theorem Run.lt_fresh {l : List (Item Op σ J E)} {p : Pool Op Res σ J} (h : S.Run init C l p) :
    (∀ n L, p.live n = some L → n < p.fresh) ∧
      (∀ n j s, .start n j s ∈ l → n < p.fresh) ∧
      ∀ n j past o s, .step n j past o s ∈ l → n < p.fresh := by
  induction h using Run.induct with
  | hboot s hs => simp [System.boot]
  | hstart l p j s _ _ _ ih =>
    refine ⟨fun n L hL => ?_, fun n j' s' hm => ?_, fun n j' past o s' hm => ?_⟩
    · obtain ⟨rfl, -⟩ | ⟨-, hL⟩ := live_update hL
      · exact Nat.lt_succ_self _
      · exact (ih.1 n L hL).trans (Nat.lt_succ_self _)
    · rcases List.mem_cons.1 hm with heq | hm
      · cases heq
        exact Nat.lt_succ_self _
      · exact (ih.2.1 n j' s' hm).trans (Nat.lt_succ_self _)
    · rcases List.mem_cons.1 hm with heq | hm
      · cases heq
      · exact (ih.2.2 n j' past o s' hm).trans (Nat.lt_succ_self _)
  | hstep l p n j past o k _ _ hl ih =>
    refine ⟨fun m L hL => ?_, fun m j' s' hm => ?_, fun m j' past' o' s' hm => ?_⟩
    · obtain ⟨rfl, -⟩ | ⟨-, hL⟩ := live_update hL
      · exact ih.1 _ _ hl
      · exact ih.1 m L hL
    · exact ih.2.1 m j' s' (by simpa using hm)
    · rcases List.mem_cons.1 hm with heq | hm
      · cases heq
        exact ih.1 _ _ hl
      · exact ih.2.2 m j' past' o' s' hm
  | henv l p e s _ _ _ ih =>
    exact ⟨ih.1, fun n j s' hm => ih.2.1 n j s' (by simpa using hm),
      fun n j past o s' hm => ih.2.2 n j past o s' (by simpa using hm)⟩
  | hcrash l p _ _ ih =>
    exact ⟨by simp, fun n j s' hm => ih.2.1 n j s' (by simpa using hm),
      fun n j past o s' hm => ih.2.2 n j past o s' (by simpa using hm)⟩

theorem calls_fresh {l : List (Item Op σ J E)} {p : Pool Op Res σ J} (h : S.Run init C l p) :
    calls p.fresh l = [] := by
  rw [List.eq_nil_iff_forall_not_mem]
  intro c hc
  obtain ⟨j, past, hm⟩ := mem_calls.1 hc
  exact absurd (h.lt_fresh.2.2 _ _ _ _ _ hm) (lt_irrefl _)

/-- The history of a running job is the list of its calls in the run. -/
theorem Run.live_past {l : List (Item Op σ J E)} {p : Pool Op Res σ J} (h : S.Run init C l p) :
    ∀ n L, p.live n = some L → L.past = calls n l := by
  induction h using Run.induct with
  | hboot s hs => simp [System.boot]
  | hstart l p j s hr _ _ ih =>
    intro n L hL
    obtain ⟨rfl, rfl⟩ | ⟨-, hL⟩ := live_update hL
    · exact (calls_start.trans (calls_fresh hr)).symm
    · exact ih n L hL
  | hstep l p n j past o k _ _ hl ih =>
    intro m L hL
    obtain ⟨rfl, rfl⟩ | ⟨hm, hL⟩ := live_update hL
    · have hpast := ih _ _ hl
      simp only at hpast
      rw [calls_step, if_pos rfl, hpast]
    · rw [calls_step, if_neg (Ne.symm hm)]
      exact ih m L hL
  | henv l p e s _ _ _ ih => exact ih
  | hcrash l p _ _ ih => simp

/-- The history of a call is the list of the earlier calls of its job in the run. -/
theorem Run.past {l : List (Item Op σ J E)} {p : Pool Op Res σ J} (h : S.Run init C l p) :
    ∀ n j past o s l', (.step n j past o s :: l') <:+ l → past = calls n l' := by
  induction h using Run.induct with
  | hboot s hs => simp
  | hstart l p j s _ _ _ ih =>
    intro n j' past o s' l' hs'
    rcases List.suffix_cons_iff.1 hs' with heq | hs'
    · cases heq
    · exact ih n j' past o s' l' hs'
  | hstep l p n j past o k hr _ hl ih =>
    intro n' j' past' o' s' l' hs'
    rcases List.suffix_cons_iff.1 hs' with heq | hs'
    · cases heq
      exact hr.live_past n _ hl
    · exact ih n' j' past' o' s' l' hs'
  | henv l p e s _ _ _ ih =>
    intro n j past o s' l' hs'
    rcases List.suffix_cons_iff.1 hs' with heq | hs'
    · cases heq
    · exact ih n j past o s' l' hs'
  | hcrash l p _ _ ih =>
    intro n j past o s' l' hs'
    rcases List.suffix_cons_iff.1 hs' with heq | hs'
    · cases heq
    · exact ih n j past o s' l' hs'

/-- Calls that no job makes twice are made once. -/
theorem Run.once {l : List (Item Op σ J E)} {p : Pool Op Res σ J} (h : S.Run init C l p)
    {P : Op → Prop} (hP : ∀ n j past o s, .step n j past o s ∈ l → P o → ∀ x ∈ past, ¬P x.op)
    {n : ℕ} {j j' : J} {past past' : List (Call Op σ)} {o o' : Op} {s s' : σ}
    {l₁ l₂ : List (Item Op σ J E)} (h₁ : (.step n j past o s :: l₁) <:+ l)
    (h₂ : (.step n j' past' o' s' :: l₂) <:+ l) (ho : P o) (ho' : P o') :
    o = o' ∧ s = s' ∧ l₁ = l₂ := by
  have hlt : ∀ {j j' past past' o o' s s' l₁ l₂}, (.step n j past o s :: l₁) <:+ l →
      (.step n j' past' o' s' :: l₂) <:+ l → P o → P o' →
      ¬(.step n j past o s :: l₁) <:+ l₂ := by
    intro j j' past past' o o' s s' l₁ l₂ _ h₂ ho ho' hs
    have hmem : ⟨o, s⟩ ∈ calls n l₂ := mem_calls.2 ⟨j, past, hs.subset List.mem_cons_self⟩
    rw [← h.past n j' past' o' s' l₂ h₂] at hmem
    exact hP n j' past' o' s' (h₂.subset List.mem_cons_self) ho' _ hmem ho
  rcases List.suffix_or_suffix_of_suffix h₁ h₂ with hs | hs <;>
    rcases List.suffix_cons_iff.1 hs with heq | hs
  · cases heq
    exact ⟨rfl, rfl, rfl⟩
  · exact absurd hs (hlt h₁ h₂ ho ho')
  · cases heq
    exact ⟨rfl, rfl, rfl⟩
  · exact absurd hs (hlt h₂ h₁ ho' ho)

/-- A number belongs to one job for the whole run. -/
theorem Run.job_unique {l : List (Item Op σ J E)} {p : Pool Op Res σ J} (h : S.Run init C l p) :
    (∀ n L j past o s, p.live n = some L → .step n j past o s ∈ l → j = L.job) ∧
      ∀ n j j' past past' o o' s s', .step n j past o s ∈ l → .step n j' past' o' s' ∈ l →
        j = j' := by
  induction h using Run.induct with
  | hboot s hs => simp
  | hstart l p j s hr _ _ ih =>
    simp only [List.mem_cons, reduceCtorEq, false_or]
    refine ⟨fun n L j' past o s' hL hm => ?_, ih.2⟩
    obtain ⟨rfl, -⟩ | ⟨-, hL⟩ := live_update hL
    · exact absurd (hr.lt_fresh.2.2 _ _ _ _ _ hm) (lt_irrefl _)
    · exact ih.1 n L j' past o s' hL hm
  | hstep l p n j past o k _ _ hl ih =>
    refine ⟨fun m L j' past' o' s' hL hm => ?_, fun m j₁ j₂ past₁ past₂ o₁ o₂ s₁ s₂ h₁ h₂ => ?_⟩
    · obtain ⟨rfl, rfl⟩ | ⟨hne, hL⟩ := live_update hL
      · rcases List.mem_cons.1 hm with heq | hm
        · cases heq; rfl
        · have hj := ih.1 _ _ _ _ _ _ hl hm
          exact hj
      · rcases List.mem_cons.1 hm with heq | hm
        · cases heq
          exact absurd rfl hne
        · exact ih.1 _ _ _ _ _ _ hL hm
    · rcases List.mem_cons.1 h₁ with heq₁ | h₁ <;> rcases List.mem_cons.1 h₂ with heq₂ | h₂
      · cases heq₁; cases heq₂; rfl
      · cases heq₁
        exact (ih.1 _ _ _ _ _ _ hl h₂).symm
      · cases heq₂
        exact ih.1 _ _ _ _ _ _ hl h₁
      · exact ih.2 _ _ _ _ _ _ _ _ _ h₁ h₂
  | henv l p e s _ _ _ ih =>
    simp only [List.mem_cons, reduceCtorEq, false_or]
    exact ih
  | hcrash l p _ _ ih =>
    simp only [List.mem_cons, reduceCtorEq, false_or]
    exact ⟨by simp, ih.2⟩

/-- A job that does something was started. -/
theorem Run.started {l : List (Item Op σ J E)} {p : Pool Op Res σ J} (h : S.Run init C l p) :
    (∀ n L, p.live n = some L → ∃ s, .start n L.job s ∈ l) ∧
      ∀ n j past o s, .step n j past o s ∈ l → ∃ s', .start n j s' ∈ l := by
  induction h using Run.induct with
  | hboot s hs => simp [System.boot]
  | hstart l p j s _ _ _ ih =>
    simp only [List.mem_cons, reduceCtorEq, false_or]
    refine ⟨fun n L hL => ?_, fun n j' past o s' hm => ?_⟩
    · obtain ⟨rfl, rfl⟩ | ⟨-, hL⟩ := live_update hL
      · exact ⟨p.shared, .inl rfl⟩
      · exact (ih.1 n L hL).imp fun s' h => .inr h
    · exact (ih.2 n j' past o s' hm).imp fun s' h => .inr h
  | hstep l p n j past o k _ _ hl ih =>
    simp only [List.mem_cons, reduceCtorEq, false_or]
    have hj : ∃ s, .start n j s ∈ l := ih.1 _ _ hl
    refine ⟨fun m L hL => ?_, fun m j' past' o' s' hm => ?_⟩
    · obtain ⟨rfl, rfl⟩ | ⟨-, hL⟩ := live_update hL
      · exact hj
      · exact ih.1 m L hL
    · rcases hm with heq | hm
      · cases heq
        exact hj
      · exact ih.2 m j' past' o' s' hm
  | henv l p e s _ _ _ ih =>
    simp only [List.mem_cons, reduceCtorEq, false_or]
    exact ih
  | hcrash l p _ _ ih =>
    simp only [List.mem_cons, reduceCtorEq, false_or]
    exact ⟨by simp, ih.2⟩

theorem calls_eq_cons {n : ℕ} {l : List (Item Op σ J E)} {c : Call Op σ} {past : List (Call Op σ)}
    (h : calls n l = c :: past) :
    ∃ j past' l', (.step n j past' c.op c.pre :: l') <:+ l ∧ calls n l' = past := by
  obtain ⟨l₁, i, l₂, rfl, -, hi, hl₂⟩ := List.filterMap_eq_cons_iff.1 h
  cases i with
  | step m j past' o s =>
    simp only [Item.callOf, Option.ite_none_right_eq_some] at hi
    obtain ⟨rfl, hc⟩ := hi
    obtain rfl := Option.some.inj hc
    exact ⟨j, past', l₂, ⟨l₁, rfl⟩, hl₂⟩
  | start => cases hi
  | env => cases hi
  | crash => cases hi

/-- The newest call of a job's history is an earlier item, made with the rest of that history. -/
theorem Run.past_cons {l l' : List (Item Op σ J E)} {p : Pool Op Res σ J} (h : S.Run init C l p)
    {n : ℕ} {j : J} {c : Call Op σ} {past : List (Call Op σ)} {o : Op} {s : σ}
    (hs : (.step n j (c :: past) o s :: l') <:+ l) :
    ∃ l₁, (.step n j past c.op c.pre :: l₁) <:+ l' := by
  obtain ⟨j', past', l₁, hs₁, hcalls⟩ := calls_eq_cons (h.past n j _ o s l' hs).symm
  have hl : (.step n j' past' c.op c.pre :: l₁) <:+ l :=
    hs₁.trans ((List.suffix_cons _ _).trans hs)
  have hpast := h.past n j' past' _ _ l₁ hl
  have hj := h.job_unique.2 n j' j _ _ _ _ _ _ (hl.subset List.mem_cons_self)
    (hs.subset List.mem_cons_self)
  rw [hcalls] at hpast
  exact ⟨l₁, hj ▸ hpast ▸ hs₁⟩

/-- The run up to an item, which happened in the state that run ended in. -/
theorem Run.before {l : List (Item Op σ J E)} {p : Pool Op Res σ J} (h : S.Run init C l p) :
    ∀ i l', (i :: l') <:+ l → ∃ p' c p'', S.Run init C l' p' ∧ C l' p' c ∧
      S.advance p' c = some (i, p'') ∧ S.Run init C (i :: l') p'' ∧ p'.shared = i.pre := by
  induction h with
  | boot h => simp
  | @next l p p' c i hr hc ha ih =>
    intro i' l' hs
    rcases List.suffix_cons_iff.1 hs with heq | hs
    · obtain ⟨rfl, rfl⟩ := List.cons.inj heq
      exact ⟨p, c, p', hr, hc, ha, .next hr hc ha, (advance_pre ha).symm⟩
    · exact ih i' l' hs

/-- A job has done nothing before it was started. -/
theorem Run.calls_before_start {l l' : List (Item Op σ J E)} {p : Pool Op Res σ J}
    (h : S.Run init C l p) {n : ℕ} {j : J} {s : σ} (hs : (.start n j s :: l') <:+ l) :
    calls n l' = [] := by
  obtain ⟨p', c, p'', hr, -, ha, -, -⟩ := h.before _ _ hs
  obtain rfl := advance_choice ha
  obtain ⟨s', -, heq⟩ := Option.map_eq_some_iff.1 ha
  obtain ⟨rfl, -⟩ := Item.start.inj (Prod.mk.inj heq).1
  exact calls_fresh hr

/-- What no choice lessens is no less at a later item, and more if the earlier one increased it. -/
theorem Run.pre_add_le {f : σ → ℕ} (hf : ∀ p c i p', S.advance p c = some (i, p') →
    f p.shared ≤ f p'.shared) {l : List (Item Op σ J E)} {p : Pool Op Res σ J}
    (h : S.Run init C l p) {i i' : Item Op σ J E} {l' : List (Item Op σ J E)} {d : ℕ}
    (hs : (i :: l') <:+ l) (hi : i' ∈ l')
    (hd : ∀ p c p', S.advance p c = some (i', p') → f i'.pre + d ≤ f p'.shared) :
    f i'.pre + d ≤ f i.pre := by
  have hle : ∀ {l p}, S.Run init C l p → i' ∈ l → f i'.pre + d ≤ f p.shared := by
    intro l p h
    induction h with
    | boot h => simp
    | next _ _ ha ih =>
      intro hi
      rcases List.mem_cons.1 hi with rfl | hi
      · exact hd _ _ _ ha
      · exact (ih hi).trans (hf _ _ _ _ ha)
  obtain ⟨p', _, _, hr, -, -, -, hpre⟩ := h.before i l' hs
  rw [← hpre]
  exact hle hr hi

theorem Run.pre_le {f : σ → ℕ} (hf : ∀ p c i p', S.advance p c = some (i, p') →
    f p.shared ≤ f p'.shared) {l : List (Item Op σ J E)} {p : Pool Op Res σ J}
    (h : S.Run init C l p) {i i' : Item Op σ J E} {l' : List (Item Op σ J E)}
    (hs : (i :: l') <:+ l) (hi : i' ∈ l') : f i'.pre ≤ f i.pre :=
  h.pre_add_le (d := 0) hf hs hi fun p c p' ha => advance_pre ha ▸ hf p c i' p' ha

/-- A program of limited means keeps to them in every run. -/
theorem Run.uses {P : J → Op → Prop} (hP : ∀ j, (S.code j).Uses (P j))
    {l : List (Item Op σ J E)} {p : Pool Op Res σ J} (h : S.Run init C l p) {n : ℕ} {j : J}
    {past : List (Call Op σ)} {o : Op} {s : σ} (hi : .step n j past o s ∈ l) : P j o := by
  have hv : Verified S init (fun _ => True) fun j _ o _ => P j o :=
    { init := fun _ _ => trivial
      code := fun j => ((hP j).sat fun _ _ _ _ _ ho => ho).mono fun _ _ _ _ => trivial
      call := fun _ _ _ _ _ _ => trivial
      start := fun _ _ _ _ _ => trivial
      env := fun _ _ _ _ _ => trivial
      reboot := fun _ _ => trivial }
  exact h.guarantee hv n j past o s hi

/-- A job that is running has done nothing before the last restart. -/
theorem Run.live_calls_crash {l : List (Item Op σ J E)} {p : Pool Op Res σ J}
    (h : S.Run init C l p) : ∀ n L, p.live n = some L →
      ∀ s l', (.crash s :: l') <:+ l → calls n l' = [] := by
  induction h using Run.induct with
  | hboot s hs => simp [System.boot]
  | hstart l p j s hr _ _ ih =>
    intro n L hL s' l' hs
    have hold : (.crash s' :: l') <:+ l := by
      rcases List.suffix_cons_iff.1 hs with heq | hs
      · cases heq
      · exact hs
    obtain ⟨rfl, -⟩ | ⟨-, hL⟩ := live_update hL
    · rw [← List.suffix_nil, ← calls_fresh hr]
      exact ((List.suffix_cons _ _).trans hold).filterMap _
    · exact ih n L hL s' l' hold
  | hstep l p n j past o k _ _ hl ih =>
    intro m L hL s' l' hs
    have hold : (.crash s' :: l') <:+ l := by
      rcases List.suffix_cons_iff.1 hs with heq | hs
      · cases heq
      · exact hs
    obtain ⟨rfl, -⟩ | ⟨-, hL⟩ := live_update hL
    · exact ih _ _ hl s' l' hold
    · exact ih m L hL s' l' hold
  | henv l p e s _ _ _ ih =>
    intro n L hL s' l' hs
    rcases List.suffix_cons_iff.1 hs with heq | hs
    · cases heq
    · exact ih n L hL s' l' hs
  | hcrash l p _ _ ih => simp

/-- A job does nothing more after a restart. -/
theorem Run.calls_crash_eq_nil {l : List (Item Op σ J E)} {p : Pool Op Res σ J}
    (h : S.Run init C l p) {n : ℕ} {j : J} {past : List (Call Op σ)} {o : Op} {s s' : σ}
    {l₁ l₂ : List (Item Op σ J E)} (hi : (.step n j past o s :: l₂) <:+ l)
    (hc : (.crash s' :: l₁) <:+ l₂) : calls n l₁ = [] := by
  obtain ⟨p', c, p'', hr, -, ha, -, -⟩ := h.before _ _ hi
  obtain ⟨k, hl⟩ := advance_step_live ha
  exact hr.live_calls_crash n _ hl s' l₁ hc

/-! ## The last item of a kind -/

/-- The newest item of a history that `P` accepts is `i`, after the history `l'`. -/
inductive Last {ι : Type} (P : ι → Prop) : List ι → ι → List ι → Prop
  | here {i : ι} {l : List ι} (h : P i) : Last P (i :: l) i l
  | there {x i : ι} {l l' : List ι} (h : ¬P x) (hl : Last P l i l') : Last P (x :: l) i l'

/-- There is no item that `Q` accepts after the newest one that `P` accepts. -/
def Quiet {ι : Type} (P Q : ι → Prop) : List ι → Prop
  | [] => True
  | i :: l => P i ∨ ¬Q i ∧ Quiet P Q l

section Quiet

variable {ι : Type} {P Q : ι → Prop}

/-- An item that `Q` accepts is followed by one that `P` accepts. -/
theorem Quiet.newer {l l' : List ι} {i : ι} (h : Quiet P Q (l ++ i :: l')) (hQ : Q i)
    (hP : ¬P i) : ∃ x ∈ l, P x := by
  induction l with
  | nil => exact absurd (h.resolve_left hP).1 (not_not.2 hQ)
  | cons x l ih =>
    obtain hx | ⟨-, hl⟩ := h
    · exact ⟨x, List.mem_cons_self, hx⟩
    · obtain ⟨y, hy, hPy⟩ := ih hl
      exact ⟨y, List.mem_cons_of_mem _ hy, hPy⟩

theorem Quiet.split {l : List ι} {i : ι} (h : Quiet P Q l) (hi : i ∈ l) (hP : P i) :
    ∃ new x old, l = new ++ x :: old ∧ P x ∧ ∀ y ∈ new, ¬P y ∧ ¬Q y := by
  induction l with
  | nil => cases hi
  | cons x l ih =>
    by_cases hx : P x
    · exact ⟨[], x, l, rfl, hx, by simp⟩
    · obtain ⟨hQ, hl⟩ := h.resolve_left hx
      have hi' : i ∈ l := (List.mem_cons.1 hi).resolve_left fun heq => hx (heq ▸ hP)
      obtain ⟨new, y, old, rfl, hy, hnew⟩ := ih hl hi'
      exact ⟨x :: new, y, old, rfl, hy, List.forall_mem_cons.2 ⟨⟨hx, hQ⟩, hnew⟩⟩

/-- The history holds the item `i`, after the history `l'`, and none that `Q` accepts since. -/
inductive Since {ι : Type} (Q : ι → Prop) : List ι → ι → List ι → Prop
  | here {i : ι} {l : List ι} : Since Q (i :: l) i l
  | there {x i : ι} {l l' : List ι} (h : ¬Q x) (hs : Since Q l i l') : Since Q (x :: l) i l'

theorem Since.suffix {l l' : List ι} {i : ι} (h : Since Q l i l') : (i :: l') <:+ l := by
  induction h with
  | here => exact List.suffix_rfl
  | there _ _ ih => exact ih.trans (List.suffix_cons _ _)

theorem Since.mem {l l' : List ι} {i : ι} (h : Since Q l i l') : i ∈ l :=
  h.suffix.subset List.mem_cons_self

theorem exists_since {l : List ι} {i : ι} (hi : i ∈ l) (hno : ∀ x ∈ l, ¬Q x) :
    ∃ l', Since Q l i l' := by
  obtain ⟨new, old, rfl⟩ := List.append_of_mem hi
  refine ⟨old, ?_⟩
  induction new with
  | nil => exact .here
  | cons x new ih =>
    obtain ⟨hx, hnew⟩ := List.forall_mem_cons.1 hno
    exact .there hx (ih (List.mem_append_right _ List.mem_cons_self) hnew)

/-- What `Q` accepts is no later. -/
theorem Since.older {l l' l₁ : List ι} {i x : ι} (h : Since Q l i l') (hx : (x :: l₁) <:+ l)
    (hQ : Q x) (hi : ¬Q i) : (x :: l₁) <:+ l' := by
  induction h with
  | here =>
    rcases List.suffix_cons_iff.1 hx with heq | hx
    · obtain ⟨rfl, -⟩ := List.cons.inj heq
      exact absurd hQ hi
    · exact hx
  | there hno _ ih =>
    rcases List.suffix_cons_iff.1 hx with heq | hx
    · obtain ⟨rfl, -⟩ := List.cons.inj heq
      exact absurd hQ hno
    · exact ih hx hi

end Quiet

/-- A call of job `n` since its last call that `P` accepts is an item since which there is none
that `Q` accepts, if there is none since the last call that `P` accepts. -/
theorem Quiet.since {n : ℕ} {P : Call Op σ → Prop} {Q : Item Op σ J E → Prop}
    {l : List (Item Op σ J E)} (h : Quiet (fun i => ∃ c, i.callOf n = some c ∧ P c) Q l)
    {c : Call Op σ} {rest : List (Call Op σ)} (hs : Since P (calls n l) c rest) :
    ∃ j past l', Since Q l (.step n j past c.op c.pre) l' ∧ calls n l' = rest := by
  induction l with
  | nil => cases hs
  | cons i l ih =>
    cases hi : i.callOf n with
    | none =>
      -- the item is none of the job's
      have hcalls : calls n (i :: l) = calls n l := List.filterMap_cons_none hi
      rw [hcalls] at hs
      obtain ⟨hQ, hl⟩ := h.resolve_left fun ⟨c', hc', _⟩ => by cases hi.symm.trans hc'
      obtain ⟨j, past, l', hsince, hrest⟩ := ih hl hs
      exact ⟨j, past, l', .there hQ hsince, hrest⟩
    | some c' =>
      have hcalls : calls n (i :: l) = c' :: calls n l := List.filterMap_cons_some hi
      rw [hcalls] at hs
      cases hs with
      | here =>
        cases i with
        | step m j past o s =>
          simp only [Item.callOf, Option.ite_none_right_eq_some] at hi
          obtain ⟨rfl, hc⟩ := hi
          obtain rfl := Option.some.inj hc
          exact ⟨j, past, l, .here, rfl⟩
        | _ => cases hi
      | there hP hs =>
        obtain ⟨hQ, hl⟩ := h.resolve_left fun ⟨c'', hc'', hP'⟩ =>
          hP (Option.some.inj (hi.symm.trans hc'') ▸ hP')
        obtain ⟨j, past, l', hsince, hrest⟩ := ih hl hs
        exact ⟨j, past, l', .there hQ hsince, hrest⟩

variable (S) in
/-- The state after an item. -/
def post : Item Op σ J E → σ
  | .start _ j s => (S.start j s).getD s
  | .step _ _ _ o s => (S.sem o s).2
  | .env e s => (S.env e s).getD s
  | .crash s => S.reboot s

theorem advance_post {p p' : Pool Op Res σ J} {c : Choice J E} {i : Item Op σ J E}
    (h : S.advance p c = some (i, p')) : p'.shared = S.post i :=
  advance_cases (motive := fun _ i s' => s' = S.post i)
    (fun _ _ _ _ hs => by simp [post, hs]) (fun _ _ _ _ _ => rfl)
    (fun _ _ _ hs => by simp [post, hs]) (fun _ => rfl) h

/-- What holds after an item, and is kept by every later one, holds still. -/
theorem Run.carry {I : σ → Prop} {new old : List (Item Op σ J E)} {i : Item Op σ J E}
    {p : Pool Op Res σ J} (h : S.Run init C (new ++ i :: old) p) (hi : I (S.post i))
    (hnew : ∀ a x b, new = a ++ x :: b → I x.pre → I (S.post x)) : I p.shared := by
  induction new generalizing p with
  | nil =>
    cases h with
    | next hr hc ha => exact advance_post ha ▸ hi
  | cons x new ih =>
    cases h with
    | next hr hc ha =>
      rw [advance_post ha]
      refine hnew [] x new rfl ?_
      rw [advance_pre ha]
      exact ih hr fun a y b heq => hnew (x :: a) y b (by rw [heq]; rfl)

variable (S) in
/-- The item changes what `f` reads of the state. -/
def Changes {β : Type} (f : σ → β) (i : Item Op σ J E) : Prop := f (S.post i) ≠ f i.pre

/-- What is read now is what the last change left. -/
theorem Run.eq_of_last {β : Type} {f : σ → β} {l : List (Item Op σ J E)} {p : Pool Op Res σ J}
    (h : S.Run init C l p) {i : Item Op σ J E} {l' : List (Item Op σ J E)}
    (hl : Last (S.Changes f) l i l') : f p.shared = f (S.post i) := by
  induction h with
  | boot h => cases hl
  | next hr hc ha ih =>
    rw [advance_post ha]
    cases hl with
    | here h => rfl
    | there hsame hl =>
      rw [not_not.1 hsame, advance_pre ha]
      exact ih hl

/-- What has been something else has changed. -/
theorem Run.exists_last {β : Type} {f : σ → β} {l : List (Item Op σ J E)} {p : Pool Op Res σ J}
    (h : S.Run init C l p) {i : Item Op σ J E} (hi : i ∈ l) (hne : f i.pre ≠ f p.shared) :
    ∃ i' l', Last (S.Changes f) l i' l' := by
  induction h with
  | boot h => cases hi
  | @next l q q' c i' hr hc ha ih =>
    by_cases hch : S.Changes f i'
    · exact ⟨i', l, .here hch⟩
    · have hsame : f q'.shared = f q.shared := by
        rw [advance_post ha, not_not.1 hch, advance_pre ha]
      rcases List.mem_cons.1 hi with rfl | hi
      · rw [hsame, advance_pre ha] at hne
        exact absurd rfl hne
      · obtain ⟨i₀, l₀, hl⟩ := ih hi (hsame ▸ hne)
        exact ⟨i₀, l₀, .there hch hl⟩

/-! ## Projections

A system that watches another one keeps more state and lets more happen; what it adds is left out
of a run, and a run of the other one is left over. -/

section Projection

variable {τ F : Type} (f : σ → τ) (g : E → Option F)

def Live.project (L : Live Op Res σ J) : Live Op Res τ J :=
  ⟨L.job, L.past.map fun c => ⟨c.op, f c.pre⟩, L.rest⟩

def Pool.project (p : Pool Op Res σ J) : Pool Op Res τ J :=
  ⟨f p.shared, fun n => (p.live n).map (Live.project f), p.fresh⟩

/-- An item as the projected system sees it, if it does. -/
def Item.project : Item Op σ J E → Option (Item Op τ J F)
  | .start n j s => some (.start n j (f s))
  | .step n j past o s => some (.step n j (past.map fun c => ⟨c.op, f c.pre⟩) o (f s))
  | .env e s => (g e).map fun e => .env e (f s)
  | .crash s => some (.crash (f s))

/-- The state `f s` is all that the operations of `S` see of `s` and all that `T` has of it; an
action of the environment is one of `T`, or leaves `f s` as it is. -/
structure Projects (S : System Op Res σ J E) (T : System Op Res τ J F) : Prop where
  answer : ∀ o s, (T.sem o (f s)).1 = (S.sem o s).1
  effect : ∀ o s, (T.sem o (f s)).2 = f (S.sem o s).2
  code : T.code = S.code
  start : ∀ j s s', S.start j s = some s' → T.start j (f s) = some (f s')
  seen : ∀ e e' s s', S.env e s = some s' → g e = some e' → T.env e' (f s) = some (f s')
  unseen : ∀ e s s', S.env e s = some s' → g e = none → f s' = f s
  reboot : ∀ s, f (S.reboot s) = T.reboot (f s)

variable {f g}

theorem keep_project (L : Live Op Res σ J) :
    keep (Live.project f L) = (keep L).map (Live.project f) := by
  obtain ⟨j, past, rest⟩ := L
  cases rest with
  | ret u => rfl
  | call o k => rfl

theorem project_update {p : Pool Op Res σ J} {n : ℕ} {L : Live Op Res σ J} :
    (fun m => (Function.update p.live n (keep L) m).map (Live.project f)) =
      Function.update (Pool.project f p).live n (keep (Live.project f L)) := by
  funext m
  by_cases hm : m = n
  · subst hm
    rw [Function.update_self, Function.update_self, keep_project]
  · rw [Function.update_of_ne hm, Function.update_of_ne hm]
    rfl

/-- A run of the watching system is a run of the watched one. -/
theorem Run.project {T : System Op Res τ J F} {init' : τ → Prop} (h : Projects f g S T)
    (hinit : ∀ s, init s → init' (f s)) {l : List (Item Op σ J E)} {p : Pool Op Res σ J}
    (hr : S.Run init C l p) :
    T.Run init' Free (l.filterMap (Item.project f g)) (Pool.project f p) := by
  induction hr using Run.induct with
  | hboot s hs => exact .boot (hinit s hs)
  | hstart l p j s hr hc hs ih =>
    refine .next (c := .start j) ih trivial ?_
    have hstart := advance_start (p := Pool.project f p) (h.start j _ _ hs)
    rw [hstart, h.code]
    unfold Pool.project
    dsimp only
    rw [project_update]
    rfl
  | hstep l p n j past o k hr hc hl ih =>
    have hlive : (Pool.project f p).live n =
        some ⟨j, past.map fun c => ⟨c.op, f c.pre⟩, .call o k⟩ := by
      unfold Pool.project
      dsimp only
      rw [hl]
      rfl
    refine .next (c := .step n) ih trivial ?_
    rw [advance_step hlive]
    unfold Pool.project
    dsimp only
    rw [project_update, h.answer, h.effect]
    rfl
  | henv l p e s hr hc hs ih =>
    cases hg : g e with
    | none =>
      rw [List.filterMap_cons_none (by simp [Item.project, hg])]
      have hsame : Pool.project f ⟨s, p.live, p.fresh⟩ = Pool.project f p := by
        unfold Pool.project
        rw [h.unseen e _ _ hs hg]
      rw [hsame]
      exact ih
    | some e' =>
      have hitem : Item.project f g (Item.env e p.shared : Item Op σ J E) =
          some (.env e' (f p.shared)) := by
        simp [Item.project, hg]
      rw [List.filterMap_cons_some hitem]
      exact .next (c := .env e') ih trivial (advance_env (h.seen e e' _ _ hs hg))
  | hcrash l p hr hc ih =>
    refine .next (c := .crash) ih trivial ?_
    unfold Pool.project
    rw [h.reboot]
    rfl

end Projection

/-! ## Exhibiting a run -/

variable (S) in
/-- Perform a list of choices; those that are not possible are skipped. -/
def exec : List (Choice J E) → List (Item Op σ J E) → Pool Op Res σ J →
    List (Item Op σ J E) × Pool Op Res σ J
  | [], l, p => (l, p)
  | c :: cs, l, p =>
    match S.advance p c with
    | some (i, p') => exec cs (i :: l) p'
    | none => exec cs l p

theorem Run.exec {l : List (Item Op σ J E)} {p : Pool Op Res σ J} (cs : List (Choice J E))
    (h : S.Run init Free l p) : S.Run init Free (S.exec cs l p).1 (S.exec cs l p).2 := by
  induction cs generalizing l p with
  | nil => exact h
  | cons c cs ih =>
    rw [System.exec]
    split
    · next i p' ha => exact ih (.next h trivial ha)
    · exact ih h

variable (S) in
/-- Perform a list of choices; those that are not possible, or not `ok`, are skipped. -/
def execIf (ok : Pool Op Res σ J → Choice J E → Bool) :
    List (Choice J E) → List (Item Op σ J E) → Pool Op Res σ J →
      List (Item Op σ J E) × Pool Op Res σ J
  | [], l, p => (l, p)
  | c :: cs, l, p =>
    match S.advance p c with
    | some (i, p') => if ok p c then execIf ok cs (i :: l) p' else execIf ok cs l p
    | none => execIf ok cs l p

theorem Run.execIf {ok : Pool Op Res σ J → Choice J E → Bool}
    (hok : ∀ l p c, S.Run init C l p → ok p c → C l p c)
    {l : List (Item Op σ J E)} {p : Pool Op Res σ J} (cs : List (Choice J E))
    (h : S.Run init C l p) : S.Run init C (S.execIf ok cs l p).1 (S.execIf ok cs l p).2 := by
  induction cs generalizing l p with
  | nil => exact h
  | cons c cs ih =>
    rw [System.execIf]
    split
    · next i p' ha =>
      split
      · next hc => exact ih (.next h (hok _ _ _ h hc) ha)
      · exact ih h
    · exact ih h

/-- A schedule that ends as the test `t` asks exhibits a run that does. -/
theorem exists_run {s : σ} (hs : init s) (cs : List (Choice J E))
    (t : List (Item Op σ J E) → Pool Op Res σ J → Bool)
    (h : t (S.exec cs [] (boot s)).1 (S.exec cs [] (boot s)).2 = true) :
    ∃ l p, S.Run init Free l p ∧ t l p = true :=
  ⟨_, _, (Run.boot hs).exec cs, h⟩

end System

end NemoServer
