import NemoServer.Foundations.Prog

/-!
# Two executions side by side

A program executed twice, from states that agree on what it may tell. `Lockstep sem R Q p p'` says
that `p` and `p'` make the same calls as long as the states they are made in are related by `R`,
that no call ends this relation, and that `Q` relates what they return. `Lockstep.bind` composes,
`Uses.lockstep` is for the operations that cannot tell related states apart, and `Lockstep.solo` is
what it all comes to: whatever interferes with the two executions, if it keeps the states related,
`Q` relates the results.
-/

set_option autoImplicit false

namespace NemoServer

namespace Prog

universe u v w x

/-- Two results: one error, or values that `Q` relates. -/
inductive Both {ε α β : Type*} (Q : α → β → Prop) : Except ε α → Except ε β → Prop
  | ok {a : α} {b : β} (h : Q a b) : Both Q (.ok a) (.ok b)
  | error (e : ε) : Both Q (.error e) (.error e)

variable {Op : Type u} {Res : Op → Type v} {α β α' β' : Type w} {σ : Type x}
  (sem : (o : Op) → σ → Res o × σ) (R : σ → σ → Prop)

inductive Lockstep (Q : α → β → Prop) : Prog Op Res α → Prog Op Res β → Prop
  | ret {a : α} {b : β} (h : Q a b) : Lockstep Q (.ret a) (.ret b)
  | call {o : Op} {k : Res o → Prog Op Res α} {k' : Res o → Prog Op Res β}
    (hR : ∀ s s', R s s' → R (sem o s).2 (sem o s').2)
    (hk : ∀ s s', R s s' → Lockstep Q (k (sem o s).1) (k' (sem o s').1)) :
    Lockstep Q (.call o k) (.call o k')

variable {sem R}

theorem Lockstep.mono {Q Q' : α → β → Prop} {p : Prog Op Res α} {p' : Prog Op Res β}
    (h : p.Lockstep sem R Q p') (hQ : ∀ a b, Q a b → Q' a b) : p.Lockstep sem R Q' p' := by
  induction h with
  | ret h => exact .ret (hQ _ _ h)
  | call hR _ ih => exact .call hR ih

theorem Lockstep.bind {Q : α → β → Prop} {Q' : α' → β' → Prop} {p : Prog Op Res α}
    {p' : Prog Op Res β} {f : α → Prog Op Res α'} {f' : β → Prog Op Res β'}
    (h : p.Lockstep sem R Q p') (hf : ∀ a b, Q a b → (f a).Lockstep sem R Q' (f' b)) :
    (p >>= f).Lockstep sem R Q' (p' >>= f') := by
  induction h with
  | ret h => exact hf _ _ h
  | call hR _ ih => exact .call hR ih

/-- One operation. -/
theorem lockstep_op {Res : Op → Type w} {sem : (o : Op) → σ → Res o × σ} {o : Op}
    {Q : Res o → Res o → Prop} (hR : ∀ s s', R s s' → R (sem o s).2 (sem o s').2)
    (hQ : ∀ s s', R s s' → Q (sem o s).1 (sem o s').1) :
    (op o : Prog Op Res (Res o)).Lockstep sem R Q (op o) :=
  .call hR fun s s' hs => .ret (hQ s s' hs)

/-- An operation that cannot tell related states apart, and leaves them related. -/
def Blind (sem : (o : Op) → σ → Res o × σ) (R : σ → σ → Prop) (o : Op) : Prop :=
  ∀ s s', R s s' → (sem o s).1 = (sem o s').1 ∧ R (sem o s).2 (sem o s').2

theorem Uses.lockstep {p : Prog Op Res α} (hp : p.Uses (Blind sem R)) :
    p.Lockstep sem R Eq p := by
  induction p with
  | ret a => exact .ret rfl
  | call o k ih =>
    refine .call (fun s s' hs => (hp.1 s s' hs).2) fun s s' hs => ?_
    rw [← (hp.1 s s' hs).1]
    exact ih _ (hp.2 _)

/-- Two executions of which the interference keeps the states related have related results. -/
theorem Lockstep.solo {Q : α → β → Prop} {p : Prog Op Res α} {p' : Prog Op Res β}
    (hp : p.Lockstep sem R Q p') {adj adj' : List (Call Op σ) → σ → σ}
    (hadj : ∀ h h' s s', R s s' → R (adj h s) (adj' h' s')) {h h' : List (Call Op σ)} {s s' : σ}
    (hs : R s s') : Q (p.solo sem adj h s).1 (p'.solo sem adj' h' s').1 ∧
      R (p.solo sem adj h s).2.2 (p'.solo sem adj' h' s').2.2 := by
  induction hp generalizing h h' s s' with
  | ret hQ => exact ⟨hQ, hs⟩
  | call hR _ ih =>
    have hs' := hadj h h' s s' hs
    exact ih _ _ hs' (hR _ _ hs')

end Prog

end NemoServer
