import Mathlib.Data.List.MinMax
import NemoServer.Std.Str

/-!
# The replay guard of sealed envelopes

A sealed login or a sealed request carries a timestamp and a nonce (`nemo_management.rs`). The
guard accepts a timestamp within a window around the clock, and remembers the nonces it has
accepted for as long as the window is wide. Logins and requests have a memory each; a request
without a nonce is refused.
-/

set_option autoImplicit false

namespace NemoServer

namespace Management

open Str

/-- The nonces that were accepted, each with the time it was. -/
abbrev SeenNonces := List (String × ℕ)

def sealedLoginMaxAgeSecs : ℕ := 300
def sealedLoginMaxSkewSecs : ℕ := 60
def maxSeenNonces : ℕ := 100000
def maxNonceLen : ℕ := 64

/-- The nonces that are not expired. -/
def liveNonces (seen : SeenNonces) (now : ℕ) : SeenNonces :=
  seen.filter fun e => decide (now - e.2 ≤ sealedLoginMaxAgeSecs)

/-- Evict the oldest nonces while the memory is full. -/
def evictOldest (seen : SeenNonces) : ℕ → SeenNonces
  | 0 => seen
  | fuel + 1 =>
    if maxSeenNonces ≤ seen.length then
      match seen.argmin Prod.snd with
      | some oldest => evictOldest (seen.filter fun e => e.1 != oldest.1) fuel
      | none => seen
    else seen

def sealedLoginGuard (ts : ℕ) (nonce : String) (now : ℕ) (seen : SeenNonces) :
    Except String Unit × SeenNonces :=
  if sealedLoginMaxAgeSecs < now - ts ∨ sealedLoginMaxSkewSecs < ts - now then
    (.error "sealed credential expired; please retry", seen)
  else
    let nonce := trim nonce
    if maxNonceLen < nonce.utf8ByteSize then
      (.error "sealed credential nonce is too long", seen)
    else if nonce = "" then (.ok (), seen)
    else
      let seen := liveNonces seen now
      if seen.any fun e => e.1 == nonce then
        (.error "sealed credential replayed; please retry", seen)
      else (.ok (), evictOldest seen seen.length ++ [(nonce, now)])

def sealedRequestGuard (ts : ℕ) (nonce : String) (now : ℕ) (seen : SeenNonces) :
    Except String Unit × SeenNonces :=
  if trim nonce = "" then (.error "sealed request envelope without a nonce", seen)
  else sealedLoginGuard ts nonce now seen

/-- What the guard reads of an opened request: the fields `ts` and `nonce`, if the first is a
number and the second a text. -/
structure SealedRequest where
  ts : Option ℕ
  nonce : Option String
  body : String

/-- `none`: the payload is not JSON. -/
def parseSealedRequest (plain : Option SealedRequest) (now : ℕ) (seen : SeenNonces) :
    Except String SealedRequest × SeenNonces :=
  match plain with
  | none => (.error "invalid sealed request payload", seen)
  | some inner =>
    let ts := inner.ts.getD 0
    let nonce := inner.nonce.getD ""
    match sealedRequestGuard ts nonce now seen with
    | (.ok (), seen) => (.ok inner, seen)
    | (.error e, seen) => (.error e, seen)

/-! ## What the guard accepts, and what it remembers -/

/-- The timestamp lies in the window around the clock. -/
def FreshTs (ts now : ℕ) : Prop :=
  now - ts ≤ sealedLoginMaxAgeSecs ∧ ts - now ≤ sealedLoginMaxSkewSecs

section Guard

variable {ts now t : ℕ} {nonce k : String} {seen : SeenNonces}

theorem mem_liveNonces :
    (k, t) ∈ liveNonces seen now ↔ (k, t) ∈ seen ∧ now ≤ t + sealedLoginMaxAgeSecs := by
  simp only [liveNonces, List.mem_filter, decide_eq_true_eq, Nat.sub_le_iff_le_add']

theorem evictOldest_subset (seen : SeenNonces) (fuel : ℕ) : evictOldest seen fuel ⊆ seen := by
  induction fuel generalizing seen with
  | zero => exact List.Subset.refl _
  | succ fuel ih =>
    unfold evictOldest
    split
    · split
      · exact fun e he => List.mem_of_mem_filter (ih _ he)
      · exact List.Subset.refl _
    · exact List.Subset.refl _

theorem evictOldest_of_room (h : seen.length < maxSeenNonces) (fuel : ℕ) :
    evictOldest seen fuel = seen := by
  cases fuel with
  | zero => rfl
  | succ fuel => rw [evictOldest, if_neg (Nat.not_le.2 h)]

theorem evictOldest_length_le (seen : SeenNonces) (fuel : ℕ) :
    (evictOldest seen fuel).length ≤ seen.length := by
  induction fuel generalizing seen with
  | zero => exact le_rfl
  | succ fuel ih =>
    unfold evictOldest
    split
    · split
      · exact (ih _).trans (List.length_filter_le _ _)
      · exact le_rfl
    · exact le_rfl

theorem sealedLoginGuard_ok_iff : (sealedLoginGuard ts nonce now seen).1 = .ok () ↔
    FreshTs ts now ∧ (trim nonce).utf8ByteSize ≤ maxNonceLen ∧
      (trim nonce = "" ∨ ∀ t, (trim nonce, t) ∉ liveNonces seen now) := by
  unfold sealedLoginGuard FreshTs
  by_cases hts : sealedLoginMaxAgeSecs < now - ts ∨ sealedLoginMaxSkewSecs < ts - now
  · rw [if_pos hts]
    simp only [reduceCtorEq, false_iff]
    omega
  rw [if_neg hts]
  by_cases hlen : maxNonceLen < (trim nonce).utf8ByteSize
  · simp only [if_pos hlen, reduceCtorEq, false_iff]
    omega
  simp only [if_neg hlen]
  have hwindow : (now - ts ≤ sealedLoginMaxAgeSecs ∧ ts - now ≤ sealedLoginMaxSkewSecs) ∧
      (trim nonce).utf8ByteSize ≤ maxNonceLen := by omega
  by_cases hempty : trim nonce = ""
  · rw [if_pos hempty]
    exact ⟨fun _ => ⟨hwindow.1, hwindow.2, .inl hempty⟩, fun _ => rfl⟩
  rw [if_neg hempty]
  by_cases hseen : ((liveNonces seen now).any fun e => e.1 == trim nonce) = true
  · rw [if_pos hseen]
    obtain ⟨⟨k, t⟩, hmem, hk⟩ := List.any_eq_true.1 hseen
    obtain rfl := eq_of_beq hk
    simp only [reduceCtorEq, false_iff]
    rintro ⟨-, -, h | h⟩
    · exact hempty h
    · exact h t hmem
  · rw [if_neg hseen]
    refine ⟨fun _ => ⟨hwindow.1, hwindow.2, .inr fun t hmem => hseen ?_⟩, fun _ => rfl⟩
    exact List.any_eq_true.2 ⟨_, hmem, beq_self_eq_true _⟩

theorem sealedRequestGuard_ok_iff : (sealedRequestGuard ts nonce now seen).1 = .ok () ↔
    trim nonce ≠ "" ∧ (sealedLoginGuard ts nonce now seen).1 = .ok () := by
  unfold sealedRequestGuard
  by_cases h : trim nonce = "" <;> simp [h]

/-- Only an accepted nonce is new in the memory. -/
theorem mem_of_sealedLoginGuard (h : (k, t) ∈ (sealedLoginGuard ts nonce now seen).2) :
    (k, t) ∈ seen ∨ (sealedLoginGuard ts nonce now seen).1 = .ok () ∧ k = trim nonce ∧ t = now := by
  have hlive : ∀ {x : String × ℕ}, x ∈ liveNonces seen now → x ∈ seen :=
    fun hx => List.mem_of_mem_filter hx
  unfold sealedLoginGuard at h ⊢
  split at h
  · exact .inl h
  next hts =>
  rw [if_neg hts]
  simp only at h ⊢
  split at h
  · exact .inl h
  next hlen =>
  rw [if_neg hlen]
  split at h
  · exact .inl h
  next hempty =>
  rw [if_neg hempty]
  split at h
  · exact .inl (hlive h)
  next hseen =>
  rw [if_neg hseen]
  rcases List.mem_append.1 h with h | h
  · exact .inl (hlive (evictOldest_subset _ _ h))
  · obtain ⟨rfl, rfl⟩ := Prod.mk.inj (List.mem_singleton.1 h)
    exact .inr ⟨rfl, rfl, rfl⟩

/-- While there is room, what is not expired stays. -/
theorem sealedLoginGuard_keeps (hroom : (liveNonces seen now).length < maxSeenNonces)
    (h : (k, t) ∈ seen) (ht : now ≤ t + sealedLoginMaxAgeSecs) :
    (k, t) ∈ (sealedLoginGuard ts nonce now seen).2 := by
  have hlive := mem_liveNonces.2 ⟨h, ht⟩
  unfold sealedLoginGuard
  simp only
  split
  · exact h
  split
  · exact h
  split
  · exact h
  split
  · exact hlive
  · rw [evictOldest_of_room hroom]
    exact List.mem_append_left _ hlive

theorem sealedLoginGuard_adds (hok : (sealedLoginGuard ts nonce now seen).1 = .ok ())
    (hne : trim nonce ≠ "") : (trim nonce, now) ∈ (sealedLoginGuard ts nonce now seen).2 := by
  unfold sealedLoginGuard at hok ⊢
  simp only at hok ⊢
  split at hok
  · cases hok
  next hts =>
  rw [if_neg hts]
  split at hok
  · cases hok
  next hlen =>
  rw [if_neg hlen, if_neg hne]
  split at hok
  · cases hok
  next hseen =>
  rw [if_neg hseen]
  exact List.mem_append_right _ (List.mem_singleton.2 rfl)

/-- An envelope leaves at most its own nonce behind. -/
theorem sealedLoginGuard_length_le :
    (sealedLoginGuard ts nonce now seen).2.length ≤ seen.length + 1 := by
  have hlive : (liveNonces seen now).length ≤ seen.length := List.length_filter_le _ _
  unfold sealedLoginGuard
  simp only
  split
  · exact Nat.le_succ _
  split
  · exact Nat.le_succ _
  split
  · exact Nat.le_succ _
  split
  · exact hlive.trans (Nat.le_succ _)
  · have hevict := evictOldest_length_le (liveNonces seen now) (liveNonces seen now).length
    simp only [List.length_append, List.length_singleton]
    omega

end Guard

/-- A request is let through exactly if the guard accepts its timestamp and nonce, of which a
missing one is taken for 0, or for empty. -/
theorem parseSealedRequest_ok_iff {plain : Option SealedRequest} {now : ℕ} {seen : SeenNonces}
    {inner : SealedRequest} : (parseSealedRequest plain now seen).1 = .ok inner ↔
      plain = some inner ∧
        (sealedRequestGuard (inner.ts.getD 0) (inner.nonce.getD "") now seen).1 = .ok () := by
  unfold parseSealedRequest
  cases plain with
  | none => simp
  | some inner' =>
    simp only [Option.some.injEq]
    split
    · next seen' h =>
      simp only [Except.ok.injEq]
      constructor
      · rintro rfl
        exact ⟨rfl, by rw [h]⟩
      · exact fun h => h.1
    · next e seen' h =>
      simp only [reduceCtorEq, false_iff]
      rintro ⟨rfl, hok⟩
      rw [h] at hok
      cases hok

end Management

end NemoServer
