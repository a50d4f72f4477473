import Mathlib.Data.List.Infix

/-!
# Programs of atomic operations

A concurrent task is a finite tree of atomic operations: between two of them any other task may
run, so each operation acts on whatever state it finds. `Prog Op Res α` is such a tree, over
operations `Op` with answers `Res`; the meaning of the operations is given separately, by a
function `sem` from an operation and a state to an answer and a new state.

* `Exec sem p h h' a`: executed from the history `h`, under arbitrary interference, `p` can
  return `a` with history `h'`. A history lists the calls made so far, the newest first, each
  with the state it was made in.
* `solo sem adj p h s`: the execution of `p` from the state `s` in which nothing interferes but
  `adj`; `Ends` is the weakest precondition of this execution.
* `stopped sem adj n p h s`: the same execution, stopped after `n` calls; `Stops` says what holds
  wherever it is stopped.
* `answer sem s p`: what `p` returns if every operation answers as in the state `s`.
* `Sat sem I G Q h p`: in every execution of `p` from `h` through states satisfying `I`, each
  call satisfies the guarantee `G` of its history, and the result satisfies `Q`. It is the
  weakest-precondition calculus the handlers are verified with: `Sat.bind` composes,
  `Sat.mono` weakens, `Sat.exec` turns a call to a helper into the fact that it was executed.
-/

namespace NemoServer

universe u v w x

/-- A program: a result, or an atomic operation and what to do with its answer. -/
inductive Prog (Op : Type u) (Res : Op → Type v) (α : Type w)
  | ret (a : α)
  | call (o : Op) (k : Res o → Prog Op Res α)

/-- One call: the operation and the state it was executed in. -/
structure Call (Op : Type u) (σ : Type x) where
  op : Op
  pre : σ

namespace Prog

variable {Op : Type u} {Res : Op → Type v} {α β : Type w} {σ : Type x}

/-- Sequencing. -/
def bind : Prog Op Res α → (α → Prog Op Res β) → Prog Op Res β
  | .ret a, f => f a
  | .call o k, f => .call o fun r => (k r).bind f

instance : Monad (Prog Op Res) where
  pure := .ret
  bind := .bind

/-- The program that performs one operation and returns its answer. -/
def op {Res : Op → Type w} (o : Op) : Prog Op Res (Res o) := .call o .ret

@[simp] theorem pure_def (a : α) : (pure a : Prog Op Res α) = .ret a := rfl

@[simp] theorem ret_bind (a : α) (f : α → Prog Op Res β) : (ret a >>= f) = f a := rfl

@[simp] theorem call_bind (o : Op) (k : Res o → Prog Op Res α) (f : α → Prog Op Res β) :
    (call o k >>= f) = call o fun r => k r >>= f := rfl

theorem bind_assoc {γ : Type w} (p : Prog Op Res α) (f : α → Prog Op Res β)
    (g : β → Prog Op Res γ) : (p >>= f) >>= g = p >>= fun a => f a >>= g := by
  induction p with
  | ret a => rfl
  | call o k ih => exact congrArg (Prog.call o) (funext ih)

theorem bind_eq (p : Prog Op Res α) (f : α → Prog Op Res β) : p.bind f = p >>= f := rfl

section Exec

variable (sem : (o : Op) → σ → Res o × σ)

/-- `p`, executed from the history `h`, returns `a` with history `h'`. -/
def Exec : Prog Op Res α → List (Call Op σ) → List (Call Op σ) → α → Prop
  | .ret b, h, h', a => h' = h ∧ a = b
  | .call o k, h, h', a => ∃ s, (k (sem o s).1).Exec (⟨o, s⟩ :: h) h' a

variable {sem}

theorem exec_bind {p : Prog Op Res α} {f : α → Prog Op Res β} {h h' : List (Call Op σ)} {b : β} :
    (p >>= f).Exec sem h h' b ↔ ∃ h₁ a, p.Exec sem h h₁ a ∧ (f a).Exec sem h₁ h' b := by
  induction p generalizing h with
  | ret a =>
    constructor
    · intro hf
      exact ⟨h, a, ⟨rfl, rfl⟩, hf⟩
    · rintro ⟨h₁, a', ⟨rfl, rfl⟩, hf⟩
      exact hf
  | call o k ih =>
    simp only [call_bind, Exec, ih]
    constructor
    · rintro ⟨s, h₁, a, hk, hf⟩
      exact ⟨h₁, a, ⟨s, hk⟩, hf⟩
    · rintro ⟨h₁, a, ⟨s, hk⟩, hf⟩
      exact ⟨s, h₁, a, hk, hf⟩

/-- An execution only adds to the history. -/
theorem Exec.suffix {p : Prog Op Res α} {h h' : List (Call Op σ)} {a : α}
    (he : p.Exec sem h h' a) : h <:+ h' := by
  induction p generalizing h with
  | ret b => exact he.1 ▸ List.suffix_rfl
  | call o k ih =>
    obtain ⟨s, hs⟩ := he
    exact (List.suffix_cons _ _).trans (ih _ hs)

variable (sem)

/-- `p` was executed within the history `past`, with result `a`. -/
def Ran (past : List (Call Op σ)) (p : Prog Op Res α) (a : α) : Prop :=
  ∃ h h', p.Exec sem h h' a ∧ h' <:+ past

variable {sem}

theorem Ran.mono {past past' : List (Call Op σ)} {p : Prog Op Res α} {a : α}
    (h : Ran sem past p a) (hs : past <:+ past') : Ran sem past' p a :=
  let ⟨h₁, h₂, he, hp⟩ := h
  ⟨h₁, h₂, he, hp.trans hs⟩

theorem Exec.ran {p : Prog Op Res α} {h h' : List (Call Op σ)} {a : α}
    (he : p.Exec sem h h' a) : Ran sem h' p a :=
  ⟨h, h', he, List.suffix_rfl⟩

end Exec

section Sat

variable (sem : (o : Op) → σ → Res o × σ) (I : σ → Prop)
  (G : List (Call Op σ) → Op → σ → Prop)

/-- Every call of `p`, executed from the history `h`, satisfies `G` as long as the states satisfy
`I`, and the result satisfies `Q`. -/
def Sat (Q : List (Call Op σ) → α → Prop) : Prog Op Res α → List (Call Op σ) → Prop
  | .ret a, h => Q h a
  | .call o k, h => ∀ s, I s → G h o s ∧ (k (sem o s).1).Sat Q (⟨o, s⟩ :: h)

variable {sem I G}

@[simp] theorem sat_ret {Q : List (Call Op σ) → α → Prop} {a : α} {h : List (Call Op σ)} :
    (ret a : Prog Op Res α).Sat sem I G Q h ↔ Q h a := Iff.rfl

theorem sat_call {Q : List (Call Op σ) → α → Prop} {o : Op} {k : Res o → Prog Op Res α}
    {h : List (Call Op σ)} : (call o k).Sat sem I G Q h ↔
      ∀ s, I s → G h o s ∧ (k (sem o s).1).Sat sem I G Q (⟨o, s⟩ :: h) := Iff.rfl

theorem Sat.mono {Q Q' : List (Call Op σ) → α → Prop} {p : Prog Op Res α} {h : List (Call Op σ)}
    (hp : p.Sat sem I G Q h) (hQ : ∀ h' a, h <:+ h' → Q h' a → Q' h' a) :
    p.Sat sem I G Q' h := by
  induction p generalizing h with
  | ret a => exact hQ h a List.suffix_rfl hp
  | call o k ih =>
    intro s hs
    obtain ⟨hG, hk⟩ := hp s hs
    exact ⟨hG, ih _ hk fun h' a hh => hQ h' a ((List.suffix_cons _ _).trans hh)⟩

/-- Sequencing: what the first program establishes is what the second one starts from. -/
theorem Sat.bind {Q : List (Call Op σ) → β → Prop} {R : List (Call Op σ) → α → Prop}
    {p : Prog Op Res α} {f : α → Prog Op Res β} {h : List (Call Op σ)}
    (hp : p.Sat sem I G R h) (hf : ∀ h' a, h <:+ h' → R h' a → (f a).Sat sem I G Q h') :
    (p >>= f).Sat sem I G Q h := by
  induction p generalizing h with
  | ret a => exact hf h a List.suffix_rfl hp
  | call o k ih =>
    intro s hs
    obtain ⟨hG, hk⟩ := hp s hs
    exact ⟨hG, ih _ hk fun h' a hh => hf h' a ((List.suffix_cons _ _).trans hh)⟩

/-- A verified program may be assumed to have been executed. -/
theorem Sat.exec {Q : List (Call Op σ) → α → Prop} {p : Prog Op Res α} {h : List (Call Op σ)}
    (hp : p.Sat sem I G Q h) : p.Sat sem I G (fun h' a => p.Exec sem h h' a ∧ Q h' a) h := by
  induction p generalizing h with
  | ret a => exact ⟨⟨rfl, rfl⟩, hp⟩
  | call o k ih =>
    intro s hs
    obtain ⟨hG, hk⟩ := hp s hs
    exact ⟨hG, (ih _ hk).mono fun h' a _ ⟨he, hq⟩ => ⟨⟨s, he⟩, hq⟩⟩

theorem Sat.guarantee {G' : List (Call Op σ) → Op → σ → Prop} {Q : List (Call Op σ) → α → Prop}
    {p : Prog Op Res α} {h : List (Call Op σ)} (hp : p.Sat sem I G Q h)
    (hG : ∀ h' o s, G h' o s → G' h' o s) : p.Sat sem I G' Q h := by
  induction p generalizing h with
  | ret a => exact hp
  | call o k ih =>
    intro s hs
    exact ⟨hG _ _ _ (hp s hs).1, ih _ (hp s hs).2⟩

end Sat

section Uses

/-- `p` performs only operations `P` accepts. -/
def Uses (P : Op → Prop) : Prog Op Res α → Prop
  | .ret _ => True
  | .call o k => P o ∧ ∀ r, (k r).Uses P

theorem uses_bind {P : Op → Prop} {p : Prog Op Res α} {f : α → Prog Op Res β}
    (hp : p.Uses P) (hf : ∀ a, (f a).Uses P) : (p >>= f).Uses P := by
  induction p with
  | ret a => exact hf a
  | call o k ih => exact ⟨hp.1, fun r => ih r (hp.2 r)⟩

theorem Uses.mono {P P' : Op → Prop} {p : Prog Op Res α} (hp : p.Uses P)
    (h : ∀ o, P o → P' o) : p.Uses P' := by
  induction p with
  | ret a => trivial
  | call o k ih => exact ⟨h o hp.1, fun r => ih r (hp.2 r)⟩

theorem uses_of_forall {P : Op → Prop} (h : ∀ o, P o) {p : Prog Op Res α} : p.Uses P := by
  induction p with
  | ret a => trivial
  | call o k ih => exact ⟨h o, ih⟩

variable {sem : (o : Op) → σ → Res o × σ} {I : σ → Prop} {G : List (Call Op σ) → Op → σ → Prop}

/-- What an execution adds to the history are operations the program may perform. -/
theorem Uses.exec {P : Op → Prop} {p : Prog Op Res α} {h h' : List (Call Op σ)} {a : α}
    (hp : p.Uses P) (he : p.Exec sem h h' a) : ∃ new, h' = new ++ h ∧ ∀ x ∈ new, P x.op := by
  induction p generalizing h with
  | ret b => exact ⟨[], he.1, by simp⟩
  | call o k ih =>
    obtain ⟨s, hs⟩ := he
    obtain ⟨new, rfl, hnew⟩ := ih _ (hp.2 _) hs
    refine ⟨new ++ [⟨o, s⟩], by simp, fun x hx => ?_⟩
    rcases List.mem_append.1 hx with hx | hx
    · exact hnew x hx
    · rw [List.mem_singleton.1 hx]
      exact hp.1

/-- A program whose operations meet the guarantee wherever they are called is verified by its
executions alone: this is how a caller uses a helper without unfolding it. -/
theorem Uses.sat {P : Op → Prop} {p : Prog Op Res α} (hp : p.Uses P) {h : List (Call Op σ)}
    (hG : ∀ h' o s, h <:+ h' → (∀ x ∈ h', P x.op ∨ x ∈ h) → P o → G h' o s) :
    p.Sat sem I G (fun h' a => p.Exec sem h h' a ∧ ∀ x ∈ h', P x.op ∨ x ∈ h) h := by
  suffices hgen : ∀ h₀, h <:+ h₀ → (∀ x ∈ h₀, P x.op ∨ x ∈ h) →
      p.Sat sem I G (fun h' a => p.Exec sem h₀ h' a ∧ ∀ x ∈ h', P x.op ∨ x ∈ h) h₀ from
    hgen h List.suffix_rfl fun x hx => .inr hx
  induction p with
  | ret a => exact fun h₀ _ hx => ⟨⟨rfl, rfl⟩, hx⟩
  | call o k ih =>
    intro h₀ hs hx s _
    refine ⟨hG h₀ o s hs hx hp.1, (ih _ (hp.2 _) _ (hs.trans (List.suffix_cons _ _)) ?_).mono
      fun h' a _ he => ⟨⟨s, he.1⟩, he.2⟩⟩
    exact List.forall_mem_cons.2 ⟨.inl hp.1, hx⟩

end Uses

section Solo

variable (sem : (o : Op) → σ → Res o × σ) (adj : List (Call Op σ) → σ → σ)

/-- `p` executed after the history `h` from the state `s`, where all that changes between two
calls is what `adj` does: its result, the history and the state after it. -/
def solo : Prog Op Res α → List (Call Op σ) → σ → α × List (Call Op σ) × σ
  | .ret a, h, s => (a, h, s)
  | .call o k, h, s => (k (sem o (adj h s)).1).solo (⟨o, adj h s⟩ :: h) (sem o (adj h s)).2

variable {sem adj}

@[simp] theorem solo_ret (a : α) (h : List (Call Op σ)) (s : σ) :
    (ret a : Prog Op Res α).solo sem adj h s = (a, h, s) := rfl

@[simp] theorem solo_call (o : Op) (k : Res o → Prog Op Res α) (h : List (Call Op σ)) (s : σ) :
    (call o k).solo sem adj h s =
      (k (sem o (adj h s)).1).solo sem adj (⟨o, adj h s⟩ :: h) (sem o (adj h s)).2 := rfl

theorem solo_bind (p : Prog Op Res α) (f : α → Prog Op Res β) (h : List (Call Op σ)) (s : σ) :
    (p >>= f).solo sem adj h s = (f (p.solo sem adj h s).1).solo sem adj
      (p.solo sem adj h s).2.1 (p.solo sem adj h s).2.2 := by
  induction p generalizing h s with
  | ret a => rfl
  | call o k ih => exact ih _ _ _

variable (sem adj) in
/-- One of the executions is the one with no other interference. -/
theorem exec_solo (p : Prog Op Res α) (h : List (Call Op σ)) (s : σ) :
    ∃ new, (p.solo sem adj h s).2.1 = new ++ h ∧
      p.Exec sem h (new ++ h) (p.solo sem adj h s).1 ∧ ∀ x ∈ new, ∃ h' s', x.pre = adj h' s' := by
  induction p generalizing h s with
  | ret a => exact ⟨[], rfl, ⟨rfl, rfl⟩, by simp⟩
  | call o k ih =>
    obtain ⟨new, hh, he, hpre⟩ := ih (sem o (adj h s)).1 (⟨o, adj h s⟩ :: h) (sem o (adj h s)).2
    have happ : new ++ ⟨o, adj h s⟩ :: h = (new ++ [⟨o, adj h s⟩]) ++ h := by simp
    rw [happ] at hh he
    refine ⟨new ++ [Call.mk o (adj h s)], hh, ⟨adj h s, he⟩, fun x hx => ?_⟩
    rcases List.mem_append.1 hx with hx | hx
    · exact hpre x hx
    · exact ⟨h, s, by rw [List.mem_singleton.1 hx]⟩

variable (sem adj) in
/-- After that execution `Q` holds of the result, the history and the state. -/
def Ends (Q : α → List (Call Op σ) → σ → Prop) (p : Prog Op Res α) (h : List (Call Op σ))
    (s : σ) : Prop :=
  Q (p.solo sem adj h s).1 (p.solo sem adj h s).2.1 (p.solo sem adj h s).2.2

@[simp] theorem ends_ret {Q : α → List (Call Op σ) → σ → Prop} {a : α} {h : List (Call Op σ)}
    {s : σ} : (ret a : Prog Op Res α).Ends sem adj Q h s ↔ Q a h s := Iff.rfl

theorem ends_call {Q : α → List (Call Op σ) → σ → Prop} {o : Op} {k : Res o → Prog Op Res α}
    {h : List (Call Op σ)} {s : σ} : (call o k).Ends sem adj Q h s ↔
      (k (sem o (adj h s)).1).Ends sem adj Q (⟨o, adj h s⟩ :: h) (sem o (adj h s)).2 := Iff.rfl

/-- One operation, and what is left after it. -/
theorem ends_op {Res : Op → Type w} {sem : (o : Op) → σ → Res o × σ}
    {adj : List (Call Op σ) → σ → σ} {Q : β → List (Call Op σ) → σ → Prop} {o : Op}
    {f : Res o → Prog Op Res β} {h : List (Call Op σ)} {s : σ} :
    (op o >>= f).Ends sem adj Q h s ↔
      (f (sem o (adj h s)).1).Ends sem adj Q (⟨o, adj h s⟩ :: h) (sem o (adj h s)).2 := Iff.rfl

theorem ends_bind {Q : β → List (Call Op σ) → σ → Prop} {p : Prog Op Res α}
    {f : α → Prog Op Res β} {h : List (Call Op σ)} {s : σ} : (p >>= f).Ends sem adj Q h s ↔
      p.Ends sem adj (fun a h' s' => (f a).Ends sem adj Q h' s') h s := by
  unfold Ends
  rw [solo_bind]

theorem Ends.mono {Q Q' : α → List (Call Op σ) → σ → Prop} {p : Prog Op Res α}
    {h : List (Call Op σ)} {s : σ} (hp : p.Ends sem adj Q h s)
    (hQ : ∀ a h' s', Q a h' s' → Q' a h' s') : p.Ends sem adj Q' h s :=
  hQ _ _ _ hp

/-- What every operation of the program keeps, its execution keeps. -/
theorem Uses.ends {P : Op → Prop} {I : List (Call Op σ) → σ → Prop} {p : Prog Op Res α}
    (hp : p.Uses P) {h : List (Call Op σ)} {s : σ} (hs : I h s)
    (hI : ∀ o h s, P o → I h s → I (⟨o, adj h s⟩ :: h) (sem o (adj h s)).2) :
    p.Ends sem adj (fun _ h' s' => I h' s') h s := by
  induction p generalizing h s with
  | ret a => exact hs
  | call o k ih => exact ih _ (hp.2 _) (hI o h s hp.1 hs)

/-- What the interference and every operation of the program keep, each of its calls finds. -/
theorem Uses.calls {P : Op → Prop} {I : σ → Prop} {p : Prog Op Res α} (hp : p.Uses P)
    {h : List (Call Op σ)} {s : σ} (hs : I s) (hadj : ∀ h s, I s → I (adj h s))
    (hI : ∀ o s, P o → I s → I (sem o s).2) :
    ∃ new, (p.solo sem adj h s).2.1 = new ++ h ∧ ∀ x ∈ new, I x.pre := by
  induction p generalizing h s with
  | ret a => exact ⟨[], rfl, by simp⟩
  | call o k ih =>
    have hpre := hadj h s hs
    obtain ⟨new, hnew, hall⟩ :=
      ih _ (hp.2 _) (h := ⟨o, adj h s⟩ :: h) (hI o _ hp.1 hpre)
    refine ⟨new ++ [⟨o, adj h s⟩], by simpa using hnew, fun x hx => ?_⟩
    obtain hx | hx := List.mem_append.1 hx
    · exact hall x hx
    · rw [List.mem_singleton.1 hx]
      exact hpre

end Solo

section Stopping

variable (sem : (o : Op) → σ → Res o × σ) (adj : List (Call Op σ) → σ → σ)

/-- `p` executed as by `solo`, but for no more than so many calls: its result, if it has returned
by then, the history and the state. -/
def stopped : ℕ → Prog Op Res α → List (Call Op σ) → σ → Option α × List (Call Op σ) × σ
  | _, .ret a, h, s => (some a, h, s)
  | 0, .call _ _, h, s => (none, h, s)
  | n + 1, .call o k, h, s =>
    (k (sem o (adj h s)).1).stopped n (⟨o, adj h s⟩ :: h) (sem o (adj h s)).2

/-- Wherever `p` may be stopped before it returns `P` holds, and where it returns `Q`. -/
def Stops (P : List (Call Op σ) → σ → Prop) (Q : α → List (Call Op σ) → σ → Prop) :
    Prog Op Res α → List (Call Op σ) → σ → Prop
  | .ret a, h, s => Q a h s
  | .call o k, h, s =>
    P h s ∧ (k (sem o (adj h s)).1).Stops P Q (⟨o, adj h s⟩ :: h) (sem o (adj h s)).2

variable {sem adj} {P : List (Call Op σ) → σ → Prop}

@[simp] theorem stops_ret {Q : α → List (Call Op σ) → σ → Prop} {a : α} {h : List (Call Op σ)}
    {s : σ} : (ret a : Prog Op Res α).Stops sem adj P Q h s ↔ Q a h s := Iff.rfl

theorem stops_bind {Q : β → List (Call Op σ) → σ → Prop} {p : Prog Op Res α}
    {f : α → Prog Op Res β} {h : List (Call Op σ)} {s : σ} :
    (p >>= f).Stops sem adj P Q h s ↔
      p.Stops sem adj P (fun a h' s' => (f a).Stops sem adj P Q h' s') h s := by
  induction p generalizing h s with
  | ret a => exact Iff.rfl
  | call o k ih => exact and_congr_right fun _ => ih _

theorem Stops.mono {P' : List (Call Op σ) → σ → Prop} {Q Q' : α → List (Call Op σ) → σ → Prop}
    {p : Prog Op Res α} {h : List (Call Op σ)} {s : σ} (hp : p.Stops sem adj P Q h s)
    (hP : ∀ h' s', P h' s' → P' h' s') (hQ : ∀ a h' s', Q a h' s' → Q' a h' s') :
    p.Stops sem adj P' Q' h s := by
  induction p generalizing h s with
  | ret a => exact hQ _ _ _ hp
  | call o k ih => exact ⟨hP _ _ hp.1, ih _ hp.2⟩

/-- What every operation of the program keeps holds wherever it stops. -/
theorem Uses.stops {I : Op → Prop} {p : Prog Op Res α} (hp : p.Uses I) {h : List (Call Op σ)}
    {s : σ} (hs : P h s)
    (hI : ∀ o h s, I o → P h s → P (⟨o, adj h s⟩ :: h) (sem o (adj h s)).2) :
    p.Stops sem adj P (fun _ h' s' => P h' s') h s := by
  induction p generalizing h s with
  | ret a => exact hs
  | call o k ih => exact ⟨hs, ih _ (hp.2 _) (hI o h s hp.1 hs)⟩

theorem Stops.stopped {Q : Option α → List (Call Op σ) → σ → Prop} {p : Prog Op Res α}
    {h : List (Call Op σ)} {s : σ} (hp : p.Stops sem adj (Q none) (fun a => Q (some a)) h s)
    (n : ℕ) :
    Q (p.stopped sem adj n h s).1 (p.stopped sem adj n h s).2.1 (p.stopped sem adj n h s).2.2 := by
  induction p generalizing n h s with
  | ret a =>
    cases n <;> exact hp
  | call o k ih =>
    cases n with
    | zero => exact hp.1
    | succ n => exact ih _ hp.2 n

end Stopping

section Answer

variable (sem : (o : Op) → σ → Res o × σ) (s : σ)

/-- What a program returns when every operation answers as it would in the state `s`. -/
def answer : Prog Op Res α → α
  | .ret a => a
  | .call o k => (k (sem o s).1).answer

variable {sem s}

@[simp] theorem answer_ret (a : α) : (ret a : Prog Op Res α).answer sem s = a := rfl

@[simp] theorem answer_call (o : Op) (k : Res o → Prog Op Res α) :
    (call o k).answer sem s = (k (sem o s).1).answer sem s := rfl

theorem answer_bind (p : Prog Op Res α) (f : α → Prog Op Res β) :
    (p >>= f).answer sem s = (f (p.answer sem s)).answer sem s := by
  induction p with
  | ret a => rfl
  | call o k ih => exact ih _

/-- An execution in which every operation answers as in `s` returns the answer of `s`. -/
theorem Exec.eq_answer {p : Prog Op Res α} {h new : List (Call Op σ)} {a : α}
    (he : p.Exec sem h (new ++ h) a) (hs : ∀ x ∈ new, (sem x.op x.pre).1 = (sem x.op s).1) :
    a = p.answer sem s := by
  induction p generalizing h new with
  | ret b => exact he.2
  | call o k ih =>
    obtain ⟨s', he⟩ := he
    obtain ⟨new', hnew⟩ := he.suffix
    have happ : new = new' ++ [⟨o, s'⟩] := by
      have hcons : (new' ++ [⟨o, s'⟩]) ++ h = new ++ h := by
        rw [← hnew]
        simp
      exact (List.append_cancel_right hcons).symm
    have hsame := hs ⟨o, s'⟩ (by simp [happ])
    rw [answer_call, ← hsame]
    exact ih _ (hnew ▸ he) fun x hx => hs x (by simp [happ, hx])

end Answer

section Fallible

variable {ε : Type w} (sem : (o : Op) → σ → Res o × σ) (adj : List (Call Op σ) → σ → σ)

/-- A program that may fail, executed without further interference, returns `a`. -/
def Returns (p : ExceptT ε (Prog Op Res) α) (h : List (Call Op σ)) (s : σ) (a : α)
    (h' : List (Call Op σ)) (s' : σ) : Prop :=
  p.run.solo sem adj h s = (.ok a, h', s')

variable {sem adj} {h h' : List (Call Op σ)} {s s' : σ}

@[simp] theorem returns_pure {a b : α} :
    Returns sem adj (pure a : ExceptT ε (Prog Op Res) α) h s b h' s' ↔
      a = b ∧ h = h' ∧ s = s' := by
  change ((Except.ok a, h, s) : Except ε α × List (Call Op σ) × σ) = _ ↔ _
  simp

@[simp] theorem not_returns_throw {e : ε} {b : α} :
    ¬ Returns sem adj (throw e : ExceptT ε (Prog Op Res) α) h s b h' s' := by
  intro hret
  cases hret

theorem returns_bind {p : ExceptT ε (Prog Op Res) α} {f : α → ExceptT ε (Prog Op Res) β} {b : β} :
    Returns sem adj (p >>= f) h s b h' s' ↔
      ∃ a h₁ s₁, Returns sem adj p h s a h₁ s₁ ∧ Returns sem adj (f a) h₁ s₁ b h' s' := by
  unfold Returns
  have hbind : (p >>= f).run = p.run >>= ExceptT.bindCont f := rfl
  rw [hbind, solo_bind]
  rcases hp : p.run.solo sem adj h s with ⟨⟨e⟩ | ⟨a⟩, h₁, s₁⟩
  · simp [ExceptT.bindCont]
  · simp only [ExceptT.bindCont, Prod.mk.injEq, Except.ok.injEq]
    constructor
    · intro hf
      exact ⟨a, h₁, s₁, ⟨rfl, rfl, rfl⟩, hf⟩
    · rintro ⟨_, _, _, ⟨rfl, rfl, rfl⟩, hf⟩
      exact hf

end Fallible

end Prog

end NemoServer
