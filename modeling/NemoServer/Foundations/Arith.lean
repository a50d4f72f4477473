import Mathlib.Algebra.Order.Ring.Int
import Mathlib.Data.List.Infix

/-!
# Arithmetic that may overflow

The integer types of a machine, and computations that keep a record of what their operations come
to in ℤ. An operation whose exact result the type holds returns it; any other one wraps, or stops
the program, as it was built.

* `Arith.InRange`: no operation of a computation overflows.
* `Arith.runs`: a state machine whose steps are such computations, and `inRange_runs_iff`, which
  says by its steps when no operation of a run overflows.
-/

set_option autoImplicit false

namespace NemoServer

/-- The integers from `min` to `max`. -/
structure IntType where
  min : ℤ
  max : ℤ
  min_le_max : min ≤ max

namespace IntType

/-- `i8`, `i16`, `i32`, … -/
def signed (w : ℕ) : IntType where
  min := -2 ^ (w - 1)
  max := 2 ^ (w - 1) - 1
  min_le_max := by
    have hpos : (0 : ℤ) < 2 ^ (w - 1) := pow_pos (by decide) _
    omega

/-- `u8`, `u16`, `u32`, … -/
def unsigned (w : ℕ) : IntType where
  min := 0
  max := 2 ^ w - 1
  min_le_max := by
    have hpos : (0 : ℤ) < 2 ^ w := pow_pos (by decide) _
    omega

variable (t : IntType)

def Fits (n : ℤ) : Prop := t.min ≤ n ∧ n ≤ t.max

instance (n : ℤ) : Decidable (t.Fits n) := inferInstanceAs (Decidable (_ ∧ _))

/-- What a wrapping operation makes of `n`. -/
def wrap (n : ℤ) : ℤ := t.min + (n - t.min) % (t.max - t.min + 1)

variable {t} {n : ℤ}

theorem wrap_of_fits (h : t.Fits n) : t.wrap n = n := by
  obtain ⟨hmin, hmax⟩ := h
  rw [wrap, Int.emod_eq_of_lt (by omega) (by omega)]
  omega

theorem fits_unsigned {w n : ℕ} : (unsigned w).Fits n ↔ n < 2 ^ w := by
  have hcast : ((2 ^ w : ℕ) : ℤ) = 2 ^ w := by norm_cast
  unfold Fits unsigned
  dsimp only
  omega

end IntType

/-- A result, and the exact results of the operations it took. -/
structure Arith (α : Type) where
  val : α
  ops : List (IntType × ℤ)

namespace Arith

variable {α β σ ε : Type}

instance : Monad Arith where
  pure a := ⟨a, []⟩
  bind x f := ⟨(f x.val).val, x.ops ++ (f x.val).ops⟩

/-- An operation of the type `t` that comes to `n`. -/
def op (t : IntType) (n : ℤ) : Arith ℤ := ⟨t.wrap n, [(t, n)]⟩

/-- An operation on natural numbers of `w` bits. -/
def natOp (w n : ℕ) : Arith ℕ := do
  let m ← op (.unsigned w) n
  pure m.toNat

/-- No operation overflows. -/
def InRange (x : Arith α) : Prop := ∀ o ∈ x.ops, o.1.Fits o.2

instance (x : Arith α) : Decidable x.InRange :=
  inferInstanceAs (Decidable (∀ o ∈ x.ops, o.1.Fits o.2))

@[simp] theorem val_pure (a : α) : (pure a : Arith α).val = a := rfl

@[simp] theorem val_bind (x : Arith α) (f : α → Arith β) :
    (x >>= f).val = (f x.val).val := rfl

@[simp] theorem inRange_pure (a : α) : (pure a : Arith α).InRange := by
  intro o ho
  cases ho

@[simp] theorem inRange_bind (x : Arith α) (f : α → Arith β) :
    (x >>= f).InRange ↔ x.InRange ∧ (f x.val).InRange :=
  List.forall_mem_append

@[simp] theorem inRange_op (t : IntType) (n : ℤ) : (op t n).InRange ↔ t.Fits n :=
  List.forall_mem_singleton

@[simp] theorem inRange_natOp (w n : ℕ) : (natOp w n).InRange ↔ n < 2 ^ w := by
  rw [natOp, inRange_bind, inRange_op, IntType.fits_unsigned]
  exact and_iff_left (inRange_pure _)

theorem val_op {t : IntType} {n : ℤ} (h : t.Fits n) : (op t n).val = n := t.wrap_of_fits h

theorem val_natOp {w n : ℕ} (h : n < 2 ^ w) : (natOp w n).val = n := by
  rw [natOp, val_bind, val_op (IntType.fits_unsigned.2 h)]
  exact Int.toNat_natCast n

/-! ## Runs -/

/-- The events are those of a run, the newest first. -/
def runs (step : σ → ε → Arith σ) (init : Arith σ) : List ε → Arith σ
  | [] => init
  | e :: past => do
    let s ← runs step init past
    step s e

variable {step : σ → ε → Arith σ} {init : Arith σ} {I : List ε → σ → Prop}

/-- What every step keeps whose operations are in range, a run keeps whose operations are. -/
theorem runs_invariant (h0 : init.InRange → I [] init.val)
    (hstep : ∀ past e s, I past s → (step s e).InRange → I (e :: past) (step s e).val)
    {l : List ε} (hl : (runs step init l).InRange) : I l (runs step init l).val := by
  induction l with
  | nil => exact h0 hl
  | cons e past ih =>
    obtain ⟨hpast, hlast⟩ := (inRange_bind _ _).1 hl
    exact hstep past e _ (ih hpast) hlast

/-- No operation of a run overflows exactly if every event fits the state it finds, where the
invariant tells which do. -/
theorem inRange_runs_iff {F : List ε → ε → σ → Prop} (h0 : init.InRange → I [] init.val)
    (hstep : ∀ past e s, I past s → (step s e).InRange → I (e :: past) (step s e).val)
    (hfits : ∀ past e s, I past s → ((step s e).InRange ↔ F past e s)) (l : List ε) :
    (runs step init l).InRange ↔ init.InRange ∧
      ∀ e past, e :: past <:+ l → F past e (runs step init past).val := by
  induction l with
  | nil =>
    refine ⟨fun h => ⟨h, fun e past hpast => ?_⟩, And.left⟩
    exact absurd (List.suffix_nil.1 hpast) (List.cons_ne_nil _ _)
  | cons e past ih =>
    rw [runs, inRange_bind]
    constructor
    · rintro ⟨hpast, hlast⟩
      obtain ⟨hinit, hall⟩ := ih.1 hpast
      refine ⟨hinit, fun e' past' hsuffix => ?_⟩
      obtain heq | hsuffix := List.suffix_cons_iff.1 hsuffix
      · obtain ⟨rfl, rfl⟩ := List.cons.inj heq
        exact (hfits _ _ _ (runs_invariant h0 hstep hpast)).1 hlast
      · exact hall e' past' hsuffix
    · rintro ⟨hinit, hall⟩
      have hpast := ih.2 ⟨hinit, fun e' past' hsuffix =>
        hall e' past' (hsuffix.trans (List.suffix_cons e past))⟩
      exact ⟨hpast, (hfits _ _ _ (runs_invariant h0 hstep hpast)).2 (hall e past List.suffix_rfl)⟩

end Arith

end NemoServer
