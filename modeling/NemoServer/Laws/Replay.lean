import NemoServer.Management.Replay

/-!
# A sealed envelope is accepted once

The traffic of one of the two guards is a list of envelopes, the newest first. A pair of timestamp
and nonce is accepted a second time exactly when it comes back while the timestamp is still in the
window but the nonce is forgotten, which takes a timestamp ahead of the clock.
-/

set_option autoImplicit false

namespace NemoServer

namespace Management

open Str

/-- The two guards. -/
inductive Guard
  | login
  | request
  deriving DecidableEq

def Guard.check : Guard → ℕ → String → ℕ → SeenNonces → Except String Unit × SeenNonces
  | .login => sealedLoginGuard
  | .request => sealedRequestGuard

/-- What the guard looks at: the timestamp and the nonce, and the clock when it does. -/
structure Envelope where
  ts : ℕ
  nonce : String
  now : ℕ
  deriving DecidableEq

variable (g : Guard)

/-- The memory of the guard after the envelopes `l`. -/
def seenAfter : List Envelope → SeenNonces
  | [] => []
  | e :: l => (g.check e.ts e.nonce e.now (seenAfter l)).2

/-- The envelope `e`, which comes after the envelopes `l`, is accepted. -/
def Accepted (e : Envelope) (l : List Envelope) : Prop :=
  (g.check e.ts e.nonce e.now (seenAfter g l)).1 = .ok ()

/-- The clock does not go back. -/
def ClockRuns (l : List Envelope) : Prop := l.Pairwise fun e e₀ => e₀.now ≤ e.now

/-- Fewer nonces are alive than fit in the memory. -/
def HasRoom (l : List Envelope) : Prop :=
  ∀ e l', (e :: l') <:+ l → (liveNonces (seenAfter g l') e.now).length < maxSeenNonces

variable {g} {l l' : List Envelope} {e e₀ : Envelope}

theorem check_ok_iff {ts now : ℕ} {nonce : String} {seen : SeenNonces} (hne : trim nonce ≠ "") :
    (g.check ts nonce now seen).1 = .ok () ↔ FreshTs ts now ∧
      (trim nonce).utf8ByteSize ≤ maxNonceLen ∧ ∀ t, (trim nonce, t) ∉ liveNonces seen now := by
  cases g with
  | login => simp [Guard.check, sealedLoginGuard_ok_iff, hne]
  | request => simp [Guard.check, sealedRequestGuard_ok_iff, sealedLoginGuard_ok_iff, hne]

/-- With a nonce, the two guards are one. -/
theorem check_eq {ts now : ℕ} {nonce : String} {seen : SeenNonces} (hne : trim nonce ≠ "") :
    g.check ts nonce now seen = sealedLoginGuard ts nonce now seen := by
  cases g with
  | login => rfl
  | request => rw [Guard.check, sealedRequestGuard, if_neg hne]

theorem check_keeps {ts now t : ℕ} {nonce k : String} {seen : SeenNonces}
    (hroom : (liveNonces seen now).length < maxSeenNonces) (h : (k, t) ∈ seen)
    (ht : now ≤ t + sealedLoginMaxAgeSecs) : (k, t) ∈ (g.check ts nonce now seen).2 := by
  cases g with
  | login => exact sealedLoginGuard_keeps hroom h ht
  | request =>
    rw [Guard.check, sealedRequestGuard]
    split
    · exact h
    · exact sealedLoginGuard_keeps hroom h ht

theorem mem_of_check {ts now t : ℕ} {nonce k : String} {seen : SeenNonces}
    (h : (k, t) ∈ (g.check ts nonce now seen).2) :
    (k, t) ∈ seen ∨ (g.check ts nonce now seen).1 = .ok () ∧ k = trim nonce ∧ t = now := by
  cases g with
  | login => exact mem_of_sealedLoginGuard h
  | request =>
    rw [Guard.check, sealedRequestGuard] at h ⊢
    split at h
    · exact .inl h
    · next hne =>
      rw [if_neg hne]
      exact mem_of_sealedLoginGuard h

/-! ## The memory of a run -/

/-- What is remembered was accepted. -/
theorem accepted_of_seen {k : String} {t : ℕ} (h : (k, t) ∈ seenAfter g l) :
    ∃ e l', (e :: l') <:+ l ∧ Accepted g e l' ∧ trim e.nonce = k ∧ e.now = t := by
  induction l with
  | nil => cases h
  | cons e l ih =>
    obtain h | ⟨hok, rfl, rfl⟩ := mem_of_check h
    · obtain ⟨e', l', hs, hacc⟩ := ih h
      exact ⟨e', l', hs.trans (List.suffix_cons _ _), hacc⟩
    · exact ⟨e, l, List.suffix_rfl, hok, rfl, rfl⟩

/-- What was accepted is remembered until it is expired. -/
theorem seen_of_accepted (hclock : ClockRuns (e :: l)) (hroom : HasRoom g l)
    (hs : (e₀ :: l') <:+ l) (hacc : Accepted g e₀ l') (hne : trim e₀.nonce ≠ "")
    (ht : e.now ≤ e₀.now + sealedLoginMaxAgeSecs) :
    (trim e₀.nonce, e₀.now) ∈ seenAfter g l := by
  induction l with
  | nil => cases List.suffix_nil.1 hs
  | cons e₁ l ih =>
    rcases List.suffix_cons_iff.1 hs with heq | hs
    · obtain ⟨rfl, rfl⟩ := List.cons.inj heq
      rw [seenAfter, check_eq hne]
      rw [Accepted, check_eq hne] at hacc
      exact sealedLoginGuard_adds hacc hne
    · have hclock' : ClockRuns (e :: l) :=
        hclock.sublist (List.Sublist.cons_cons e (List.sublist_cons_self e₁ l))
      have hroom' : HasRoom g l := fun e' l₁ h => hroom e' l₁ (h.trans (List.suffix_cons _ _))
      have hle : e₁.now ≤ e.now := List.rel_of_pairwise_cons hclock List.mem_cons_self
      have hmem := ih hclock' hroom' hs
      exact check_keeps (hroom e₁ l List.suffix_rfl) hmem (hle.trans ht)

/-! ## At most once -/

/-- Every pair of timestamp and nonce is accepted at most once in a run, exactly if an accepted pair
that comes back while its timestamp is in the window finds its nonce accepted in the last 300
seconds. -/
theorem accepted_once_iff (g : Guard) (l : List Envelope) (hclock : ClockRuns l)
    (hroom : HasRoom g l) :
    (∀ e l', (e :: l') <:+ l → trim e.nonce ≠ "" → Accepted g e l' →
      ∀ e₀ l₀, (e₀ :: l₀) <:+ l' → e₀.ts = e.ts → e₀.nonce = e.nonce → ¬ Accepted g e₀ l₀) ↔
    ∀ e l', (e :: l') <:+ l → trim e.nonce ≠ "" → FreshTs e.ts e.now →
      ∀ e₀ l₀, (e₀ :: l₀) <:+ l' → e₀.ts = e.ts → e₀.nonce = e.nonce → Accepted g e₀ l₀ →
        ∃ e₁ l₁, (e₁ :: l₁) <:+ l' ∧ Accepted g e₁ l₁ ∧ trim e₁.nonce = trim e.nonce ∧
          e.now ≤ e₁.now + sealedLoginMaxAgeSecs := by
  constructor
  · intro honce e l' hs hne hfresh e₀ l₀ hs₀ hts hnonce hacc₀
    have hlen : (trim e.nonce).utf8ByteSize ≤ maxNonceLen := by
      rw [Accepted, hnonce, check_ok_iff hne] at hacc₀
      exact hacc₀.2.1
    by_contra hnone
    refine honce e l' hs hne ?_ e₀ l₀ hs₀ hts hnonce hacc₀
    rw [Accepted, check_ok_iff hne]
    refine ⟨hfresh, hlen, fun t hmem => hnone ?_⟩
    obtain ⟨hseen, htime⟩ := mem_liveNonces.1 hmem
    obtain ⟨e₁, l₁, hs₁, hacc₁, hk, rfl⟩ := accepted_of_seen hseen
    exact ⟨e₁, l₁, hs₁, hacc₁, hk, htime⟩
  · intro hcond e l' hs hne hacc e₀ l₀ hs₀ hts hnonce hacc₀
    rw [Accepted, check_ok_iff hne] at hacc
    obtain ⟨hfresh, -, hnot⟩ := hacc
    obtain ⟨e₁, l₁, hs₁, hacc₁, hk, htime⟩ :=
      hcond e l' hs hne hfresh e₀ l₀ hs₀ hts hnonce hacc₀
    have hclock' : ClockRuns (e :: l') := hclock.sublist hs.sublist
    have hroom' : HasRoom g l' :=
      fun e' l₂ h => hroom e' l₂ (h.trans ((List.suffix_cons _ _).trans hs))
    have hmem := seen_of_accepted hclock' hroom' hs₁ hacc₁ (hk ▸ hne) htime
    rw [hk] at hmem
    exact hnot _ (mem_liveNonces.2 ⟨hmem, htime⟩)

/-- A short run has room. -/
theorem hasRoom_of_length (h : l.length ≤ maxSeenNonces) : HasRoom g l := by
  have hlen : ∀ l : List Envelope, (seenAfter g l).length ≤ l.length := by
    intro l
    induction l with
    | nil => exact le_rfl
    | cons e l ih =>
      have hcheck : (seenAfter g (e :: l)).length ≤ (seenAfter g l).length + 1 := by
        rw [seenAfter]
        cases g with
        | login => exact sealedLoginGuard_length_le
        | request =>
          rw [Guard.check, sealedRequestGuard]
          split
          · exact Nat.le_succ _
          · exact sealedLoginGuard_length_le
      rw [List.length_cons]
      omega
  intro e l' hs
  have hlive : (liveNonces (seenAfter g l') e.now).length ≤ (seenAfter g l').length :=
    List.length_filter_le _ _
  have hseen := hlen l'
  have hsuffix := hs.length_le
  rw [List.length_cons] at hsuffix
  omega

namespace Sample

/-- An envelope dated a minute ahead, as it is first received at `now`. -/
def ahead (now : ℕ) : Envelope := ⟨1060, "nonce", now⟩

/-- It comes twice, 301 seconds apart. -/
def replayed : List Envelope := [ahead 1301, ahead 1000]

theorem clockRuns_replayed : ClockRuns replayed := by
  simp [ClockRuns, replayed, ahead]

theorem hasRoom_replayed (g : Guard) : HasRoom g replayed :=
  hasRoom_of_length (by decide)

theorem accepted_first (g : Guard) : Accepted g (ahead 1000) [] := by
  cases g <;> rfl

theorem accepted_again (g : Guard) : Accepted g (ahead 1301) [ahead 1000] := by
  cases g <;> rfl

end Sample

/-- Each of the guards accepts a pair twice. -/
theorem not_accepted_once : ¬ ∃ g : Guard, ∀ l, ClockRuns l → HasRoom g l →
    ∀ e l', (e :: l') <:+ l → trim e.nonce ≠ "" → Accepted g e l' →
      ∀ e₀ l₀, (e₀ :: l₀) <:+ l' → e₀.ts = e.ts → e₀.nonce = e.nonce → ¬ Accepted g e₀ l₀ := by
  rintro ⟨g, hall⟩
  exact hall Sample.replayed Sample.clockRuns_replayed (Sample.hasRoom_replayed g) _ _
    List.suffix_rfl (by decide) (Sample.accepted_again g) _ _ List.suffix_rfl rfl rfl
    (Sample.accepted_first g)

/-- In that run the pair comes back when its nonce is forgotten. -/
theorem accepted_once_iff_replayed : ¬ ∀ e l', (e :: l') <:+ Sample.replayed →
    trim e.nonce ≠ "" → FreshTs e.ts e.now →
      ∀ e₀ l₀, (e₀ :: l₀) <:+ l' → e₀.ts = e.ts → e₀.nonce = e.nonce → Accepted .login e₀ l₀ →
        ∃ e₁ l₁, (e₁ :: l₁) <:+ l' ∧ Accepted .login e₁ l₁ ∧ trim e₁.nonce = trim e.nonce ∧
          e.now ≤ e₁.now + sealedLoginMaxAgeSecs := by
  intro hcond
  exact (accepted_once_iff .login Sample.replayed Sample.clockRuns_replayed
    (Sample.hasRoom_replayed _)).2 hcond _ _ List.suffix_rfl (by decide) (Sample.accepted_again _)
    _ _ List.suffix_rfl rfl rfl (Sample.accepted_first _)

end Management

end NemoServer
