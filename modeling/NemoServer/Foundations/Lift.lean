import NemoServer.Foundations.Prog

/-!
# Programs over part of the operations

A program that was written for some operations, run where there are more of them: `Prog.lift ι`
performs `ι o` for each operation `o`. If `ι o` answers as `o` does in the part of the state that
the program knows, what the lifted program does is what the program does
(`Prog.exec_lift`).
-/

set_option autoImplicit false

namespace NemoServer

universe u v w x

/-- A call of an embedded operation. -/
def Call.lift {Op Op' : Type u} {σ : Type x} (ι : Op → Op') (c : Call Op σ) : Call Op' σ :=
  ⟨ι c.op, c.pre⟩

/-- A call, as it is seen in a part of the state. -/
def Call.view {Op : Type u} {σ σ' : Type x} (f : σ' → σ) (c : Call Op σ') : Call Op σ :=
  ⟨c.op, f c.pre⟩

namespace Prog

variable {Op Op' : Type u} {R : Op' → Type v} {ι : Op → Op'} {α : Type w} {σ σ' : Type x}

variable (ι) in
def lift : Prog Op (fun o => R (ι o)) α → Prog Op' R α
  | .ret a => .ret a
  | .call o k => .call (ι o) fun r => (k r).lift

@[simp] theorem lift_ret (a : α) : (ret a : Prog Op (fun o => R (ι o)) α).lift ι = .ret a := rfl

/-- A lifted program performs embedded operations only. -/
theorem uses_lift (p : Prog Op (fun o => R (ι o)) α) {P : Op' → Prop} (h : ∀ o, P (ι o)) :
    (p.lift ι).Uses P := by
  induction p with
  | ret a => trivial
  | call o k ih => exact ⟨h o, ih⟩

/-- What a lifted program does, the program does in the part of the state it knows. -/
theorem exec_lift {sem : (o : Op) → σ → R (ι o) × σ} {sem' : (o : Op') → σ' → R o × σ'}
    {f : σ' → σ} (hf : ∀ o s, (sem' (ι o) s).1 = (sem o (f s)).1)
    {p : Prog Op (fun o => R (ι o)) α} {h h' : List (Call Op' σ')} {a : α}
    (he : (p.lift ι).Exec sem' h h' a) :
    ∃ calls : List (Call Op σ'), h' = calls.map (Call.lift ι) ++ h ∧
      ∀ g, p.Exec sem g (calls.map (Call.view f) ++ g) a := by
  induction p generalizing h with
  | ret b =>
    obtain ⟨rfl, rfl⟩ := he
    exact ⟨[], rfl, fun g => ⟨rfl, rfl⟩⟩
  | call o k ih =>
    obtain ⟨s, he⟩ := he
    obtain ⟨calls, rfl, hcalls⟩ := ih _ he
    refine ⟨calls ++ [⟨o, s⟩], by simp [Call.lift], fun g => ⟨f s, ?_⟩⟩
    rw [← hf, List.map_append, List.append_assoc]
    exact hcalls _

end Prog

end NemoServer
