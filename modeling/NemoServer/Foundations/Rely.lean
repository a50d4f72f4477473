import NemoServer.Foundations.Interleave

/-!
# Rely and guarantee

What one job of a system may count on while others run between its operations. `Guards` says of a
program that each of its operations, in whatever state the others leave it, meets `Φ`, as long as
the others do to the state only what the rely `R` allows. `Relies` packages what makes the jobs of
a system fit together: what one job does is what every other job relies on.

* `Guards.bind` sequences; `Guards.rely` carries a proof over what the others do.
* `Relies.guarantee`: every operation of every run meets the guarantee of its job.
* `Relies.stays`: what operations that meet it keep, a run keeps.
-/

set_option autoImplicit false

namespace NemoServer

universe u v w x

namespace Prog

variable {Op : Type u} {Res : Op → Type v} {α β : Type w} {σ : Type x}

section Guards

variable (sem : (o : Op) → σ → Res o × σ) (R : σ → σ → Prop) (Φ : Op → σ → Prop)

/-- Each operation of the program meets `Φ`, and its result `Q`, when the others change the state
between the operations only as `R` allows. -/
def Guards (Q : α → σ → Prop) : Prog Op Res α → σ → Prop
  | .ret a, s => ∀ s', R s s' → Q a s'
  | .call o k, s => ∀ s', R s s' → Φ o s' ∧ (k (sem o s').1).Guards Q (sem o s').2

variable {sem R Φ}

/-- What the others do does not matter. -/
theorem Guards.rely (htrans : ∀ s s' s'', R s s' → R s' s'' → R s s'') {Q : α → σ → Prop}
    {p : Prog Op Res α} {s s' : σ} (h : p.Guards sem R Φ Q s) (hR : R s s') :
    p.Guards sem R Φ Q s' := by
  cases p with
  | ret a => exact fun s'' hs => h s'' (htrans _ _ _ hR hs)
  | call o k => exact fun s'' hs => h s'' (htrans _ _ _ hR hs)

theorem Guards.mono {Q Q' : α → σ → Prop} {p : Prog Op Res α} {s : σ}
    (h : p.Guards sem R Φ Q s) (hQ : ∀ a s, Q a s → Q' a s) : p.Guards sem R Φ Q' s := by
  induction p generalizing s with
  | ret a => exact fun s' hs => hQ a s' (h s' hs)
  | call o k ih => exact fun s' hs => ⟨(h s' hs).1, ih _ (h s' hs).2⟩

/-- Sequencing: the second program starts where the first one ends. -/
theorem Guards.bind (hrefl : ∀ s, R s s) {Q : β → σ → Prop} {p : Prog Op Res α}
    {f : α → Prog Op Res β} {s : σ}
    (h : p.Guards sem R Φ (fun a s => (f a).Guards sem R Φ Q s) s) :
    (p >>= f).Guards sem R Φ Q s := by
  induction p generalizing s with
  | ret a => exact h s (hrefl s)
  | call o k ih => exact fun s' hs => ⟨(h s' hs).1, ih _ (h s' hs).2⟩

end Guards

end Prog

variable {Op : Type} {Res : Op → Type} {σ J E : Type}

/-- The jobs of a system fit together. `I` holds of every state, `Known` of every job that was
started; jobs that are `Apart` may run side by side. -/
structure Relies (S : System Op Res σ J E) (init I : σ → Prop) (Known : σ → J → Prop)
    (Apart : J → J → Prop) (R : J → σ → σ → Prop) (Φ : J → Op → σ → Prop) : Prop where
  refl : ∀ j s, R j s s
  trans : ∀ j s s' s'', R j s s' → R j s' s'' → R j s s''
  init : ∀ s, init s → I s
  start : ∀ j s s', I s → S.start j s = some s' → I s' ∧ Known s' j ∧
    (S.code j).Guards S.sem (R j) (Φ j) (fun _ _ => True) s' ∧
    ∀ j', Known s j' → Apart j j' ∧ Apart j' j ∧ Known s' j' ∧ R j' s s'
  step : ∀ j o s, I s → Known s j → Φ j o s → I (S.sem o s).2 ∧ Known (S.sem o s).2 j ∧
    ∀ j', Known s j' → Apart j j' → Known (S.sem o s).2 j' ∧ R j' s (S.sem o s).2
  env : ∀ e s s', I s → S.env e s = some s' → I s' ∧ ∀ j, Known s j → Known s' j ∧ R j s s'
  reboot : ∀ s, I s → I (S.reboot s)

namespace Relies

variable {S : System Op Res σ J E} {init I : σ → Prop} {Known : σ → J → Prop}
  {Apart : J → J → Prop} {R : J → σ → σ → Prop} {Φ : J → Op → σ → Prop}
  {C : List (Item Op σ J E) → Pool Op Res σ J → Choice J E → Prop}
  {l : List (Item Op σ J E)} {p : Pool Op Res σ J}

/-- What holds in every pool of a run. -/
structure Fits (S : System Op Res σ J E) (I : σ → Prop) (Known : σ → J → Prop)
    (Apart : J → J → Prop) (R : J → σ → σ → Prop) (Φ : J → Op → σ → Prop)
    (p : Pool Op Res σ J) : Prop where
  inv : I p.shared
  live : ∀ n L, p.live n = some L → Known p.shared L.job ∧
    L.rest.Guards S.sem (R L.job) (Φ L.job) (fun _ _ => True) p.shared
  apart : ∀ n n' L L', p.live n = some L → p.live n' = some L' → n ≠ n' → Apart L.job L'.job

theorem fits (h : Relies S init I Known Apart R Φ) (hr : S.Run init C l p) :
    Fits S I Known Apart R Φ p := by
  induction hr using System.Run.induct with
  | hboot s hs =>
    refine ⟨h.init s hs, ?_, ?_⟩
    · intro n L hL
      cases hL
    · intro n n' L L' hL
      cases hL
  | hstart l p j s hr hc hs ih =>
    obtain ⟨hI, hknown, hcode, hothers⟩ := h.start j _ _ ih.inv hs
    refine ⟨hI, fun m L hL => ?_, fun m m' L L' hL hL' hne => ?_⟩
    · obtain ⟨rfl, rfl⟩ | ⟨-, hL⟩ := System.live_update hL
      · exact ⟨hknown, hcode⟩
      · obtain ⟨hk, hg⟩ := ih.live m L hL
        obtain ⟨-, -, hk', hR⟩ := hothers _ hk
        exact ⟨hk', hg.rely (h.trans _) hR⟩
    · obtain ⟨rfl, rfl⟩ | ⟨hm, hL⟩ := System.live_update hL
      · obtain ⟨rfl, -⟩ | ⟨-, hL'⟩ := System.live_update hL'
        · exact absurd rfl hne
        · exact (hothers _ (ih.live m' L' hL').1).1
      · obtain ⟨rfl, rfl⟩ | ⟨-, hL'⟩ := System.live_update hL'
        · exact (hothers _ (ih.live m L hL).1).2.1
        · exact ih.apart m m' L L' hL hL' hne
  | hstep l p n j past o k hr hc hl ih =>
    obtain ⟨hk, hg⟩ := ih.live n _ hl
    obtain ⟨hΦ, hrest⟩ := hg _ (h.refl j _)
    obtain ⟨hI, hk', hothers⟩ := h.step j o _ ih.inv hk hΦ
    refine ⟨hI, fun m L hL => ?_, fun m m' L L' hL hL' hne => ?_⟩
    · obtain ⟨rfl, rfl⟩ | ⟨hm, hL⟩ := System.live_update hL
      · exact ⟨hk', hrest⟩
      · obtain ⟨hkL, hgL⟩ := ih.live m L hL
        obtain ⟨hkL', hR⟩ := hothers _ hkL (ih.apart n m _ L hl hL (Ne.symm hm))
        exact ⟨hkL', hgL.rely (h.trans _) hR⟩
    · obtain ⟨rfl, rfl⟩ | ⟨hm, hm'⟩ := System.live_update hL
      · obtain ⟨rfl, -⟩ | ⟨-, hm'⟩ := System.live_update hL'
        · exact absurd rfl hne
        · exact ih.apart m m' ⟨j, past, .call o k⟩ L' hl hm' hne
      · obtain ⟨rfl, rfl⟩ | ⟨-, hn⟩ := System.live_update hL'
        · exact ih.apart m m' L ⟨j, past, .call o k⟩ hm' hl hne
        · exact ih.apart m m' L L' hm' hn hne
  | henv l p e s hr hc hs ih =>
    obtain ⟨hI, hothers⟩ := h.env e _ _ ih.inv hs
    refine ⟨hI, fun m L hL => ?_, ih.apart⟩
    obtain ⟨hk, hg⟩ := ih.live m L hL
    exact ⟨(hothers _ hk).1, hg.rely (h.trans _) (hothers _ hk).2⟩
  | hcrash l p hr hc ih =>
    refine ⟨h.reboot _ ih.inv, ?_, ?_⟩
    · intro n L hL
      cases hL
    · intro n n' L L' hL
      cases hL

/-- Every operation of a run meets the guarantee of its job, in a state that meets the invariant. -/
theorem guarantee (h : Relies S init I Known Apart R Φ) (hr : S.Run init C l p) {n : ℕ} {j : J}
    {past : List (Call Op σ)} {o : Op} {s : σ} (hi : .step n j past o s ∈ l) : I s ∧ Φ j o s := by
  induction hr using System.Run.induct with
  | hboot s hs => cases hi
  | hstart l p j' s' hr hc hs ih =>
    obtain hi | hi := List.mem_cons.1 hi
    · cases hi
    · exact ih hi
  | hstep l p n' j' past' o' k hr hc hl ih =>
    obtain heq | hi := List.mem_cons.1 hi
    · cases heq
      have hfits := h.fits hr
      obtain ⟨-, hg⟩ := hfits.live _ _ hl
      exact ⟨hfits.inv, (hg _ (h.refl _ _)).1⟩
    · exact ih hi
  | henv l p e s' hr hc hs ih =>
    obtain hi | hi := List.mem_cons.1 hi
    · cases hi
    · exact ih hi
  | hcrash l p hr hc ih =>
    obtain hi | hi := List.mem_cons.1 hi
    · cases hi
    · exact ih hi

/-- What every kind of step keeps, and every operation that meets its guarantee, holds ever
after. -/
theorem stays (h : Relies S init I Known Apart R Φ) (hr : S.Run init C l p) {K : σ → Prop}
    (hstart : ∀ j s s', S.start j s = some s' → K s → K s')
    (hstep : ∀ j o s, I s → Φ j o s → K s → K (S.sem o s).2)
    (henv : ∀ e s s', S.env e s = some s' → K s → K s') (hreboot : ∀ s, K s → K (S.reboot s))
    {i : Item Op σ J E} (hi : i ∈ l) (hK : K i.pre) : K p.shared := by
  induction hr using System.Run.induct with
  | hboot s hs => cases hi
  | hstart l p j s' hr hc hs ih =>
    refine hstart j _ _ hs ?_
    obtain rfl | hi := List.mem_cons.1 hi
    · exact hK
    · exact ih hi
  | hstep l p n j past o k hr hc hl ih =>
    have hfits := h.fits hr
    refine hstep j o _ hfits.inv ((hfits.live n _ hl).2 _ (h.refl _ _)).1 ?_
    obtain rfl | hi := List.mem_cons.1 hi
    · exact hK
    · exact ih hi
  | henv l p e s' hr hc hs ih =>
    refine henv e _ _ hs ?_
    obtain rfl | hi := List.mem_cons.1 hi
    · exact hK
    · exact ih hi
  | hcrash l p hr hc ih =>
    refine hreboot _ ?_
    obtain rfl | hi := List.mem_cons.1 hi
    · exact hK
    · exact ih hi

end Relies

end NemoServer
