import Mathlib.Data.List.Nodup
import NemoServer.Integration.DeviceKeys

/-!
# The table of pending claims

What registering a claim does to the table: a request that is there already is refreshed in its
place, and a new one displaces requests that are still waiting, never a denied one.

* `oldestWaiting_some`, `oldestWaiting_none`: the request that is displaced is not denied.
* `Evicted`: what making room may do to the table.
* `registerPendingClaimIn_cases`: the five ways a request can end.
-/

set_option autoImplicit false

namespace NemoServer

namespace Integration

open Str

variable {claims claims' : List PendingDeviceKeyClaim} {publicKey peerId : String}

/-! ## The rows of the table -/

/-- The claims of a table, by key and peer. -/
def pairs (claims : List PendingDeviceKeyClaim) : List (String × String) :=
  claims.map fun c => (c.publicKey, c.peerId)

/-- The claims of a table, by key and peer, and whether they are denied. -/
def marks (claims : List PendingDeviceKeyClaim) : List (String × String × Bool) :=
  claims.map fun c => (c.publicKey, c.peerId, c.denied)

/-- The number of requests for a key. -/
def requests (claims : List PendingDeviceKeyClaim) (publicKey : String) : ℕ :=
  (claims.filter fun c => c.publicKey == publicKey).length

/-- The claim of the pair is in the table, and denied. -/
def Denied (claims : List PendingDeviceKeyClaim) (publicKey peerId : String) : Prop :=
  (publicKey, peerId, true) ∈ marks claims

theorem mem_pairs : (publicKey, peerId) ∈ pairs claims ↔
    ∃ c ∈ claims, c.publicKey = publicKey ∧ c.peerId = peerId := by
  simp [pairs]

theorem denied_iff : Denied claims publicKey peerId ↔
    ∃ c ∈ claims, c.publicKey = publicKey ∧ c.peerId = peerId ∧ c.denied = true := by
  simp [Denied, marks]

theorem pairs_filter_subset (claims : List PendingDeviceKeyClaim)
    (f : PendingDeviceKeyClaim → Bool) : pairs (claims.filter f) ⊆ pairs claims :=
  List.map_subset _ (List.filter_subset_self _)

theorem pairs_eq_of_marks (h : marks claims' = marks claims) : pairs claims' = pairs claims := by
  have hfst : ∀ cs, pairs cs = (marks cs).map fun m => (m.1, m.2.1) := fun cs => by
    simp [pairs, marks]
  rw [hfst, hfst, h]

theorem length_pairs : (pairs claims).length = claims.length := List.length_map _

theorem requests_eq (claims : List PendingDeviceKeyClaim) (publicKey : String) :
    requests claims publicKey = ((pairs claims).filter fun x => x.1 == publicKey).length := by
  simp only [requests, pairs, List.filter_map, List.length_map]
  rfl

/-! ## Making room -/

/-- The table lost requests that were waiting, and nothing else. -/
structure Evicted (claims claims' : List PendingDeviceKeyClaim) : Prop where
  sub : List.Sublist claims' claims
  denied : ∀ c ∈ claims, c.denied = true → c ∈ claims'

theorem Evicted.refl (claims : List PendingDeviceKeyClaim) : Evicted claims claims :=
  ⟨List.Sublist.refl _, fun _ hc _ => hc⟩

theorem Evicted.trans {claims'' : List PendingDeviceKeyClaim} (h : Evicted claims claims')
    (h' : Evicted claims' claims'') : Evicted claims claims'' :=
  ⟨h'.sub.trans h.sub, fun c hc hd => h'.denied c (h.denied c hc hd) hd⟩

theorem evicted_eraseIdx {i : ℕ} {c : PendingDeviceKeyClaim} (hi : claims[i]? = some c)
    (hc : c.denied = false) : Evicted claims (claims.eraseIdx i) := by
  refine ⟨List.eraseIdx_sublist _ _, fun d hd hdenied => ?_⟩
  rw [List.mem_eraseIdx_iff_getElem?]
  obtain ⟨j, hj⟩ := List.mem_iff_getElem?.1 hd
  refine ⟨j, fun hij => ?_, hj⟩
  rw [hij, hi, Option.some.injEq] at hj
  rw [hj, hdenied] at hc
  cases hc

theorem oldestWaiting_go {i : ℕ} {best : Option (ℕ × String)} {j : ℕ} {t : String}
    (h : oldestWaiting.go claims i best = some (j, t)) :
    best = some (j, t) ∨ ∃ k c, j = i + k ∧ claims[k]? = some c ∧ c.denied = false := by
  induction claims generalizing i best with
  | nil => exact .inl h
  | cons c cs ih =>
    have hlater : ∀ {best}, oldestWaiting.go cs (i + 1) best = some (j, t) →
        best = some (j, t) ∨ ∃ k d, j = i + k ∧ (c :: cs)[k]? = some d ∧ d.denied = false := by
      intro best hgo
      obtain hbest | ⟨k, d, rfl, hk, hd⟩ := ih hgo
      · exact .inl hbest
      · exact .inr ⟨k + 1, d, by omega, hk, hd⟩
    unfold oldestWaiting.go at h
    split at h
    · exact hlater h
    next hdenied =>
    have hhere : ∀ t', some (i, t') = some (j, t) →
        ∃ k d, j = i + k ∧ (c :: cs)[k]? = some d ∧ d.denied = false := by
      intro t' heq
      obtain ⟨rfl, -⟩ := Prod.mk.inj (Option.some.inj heq)
      exact ⟨0, c, rfl, rfl, Bool.eq_false_iff.2 hdenied⟩
    split at h
    · obtain heq | hex := hlater h
      · exact .inr (hhere _ heq)
      · exact .inr hex
    · obtain heq | hex := hlater h
      · split at heq
        · exact .inr (hhere _ heq)
        · exact .inl heq
      · exact .inr hex

/-- The request that is displaced is waiting. -/
theorem oldestWaiting_some {i : ℕ} (h : oldestWaiting claims = some i) :
    ∃ c, claims[i]? = some c ∧ c.denied = false := by
  obtain ⟨⟨j, t⟩, hgo, rfl⟩ := Option.map_eq_some_iff.1 h
  obtain hnone | ⟨k, c, hj, hk, hc⟩ := oldestWaiting_go hgo
  · cases hnone
  · rw [Nat.zero_add] at hj
    exact ⟨c, hj ▸ hk, hc⟩

theorem oldestWaiting_go_some {i : ℕ} {best : ℕ × String} :
    ∃ b, oldestWaiting.go claims i (some best) = some b := by
  induction claims generalizing i best with
  | nil => exact ⟨best, rfl⟩
  | cons c cs ih =>
    unfold oldestWaiting.go
    split
    · exact ih
    · simp only
      split
      · exact ih
      · exact ih

theorem oldestWaiting_go_none {i : ℕ} :
    oldestWaiting.go claims i none = none ↔ ∀ c ∈ claims, c.denied = true := by
  induction claims generalizing i with
  | nil => simp [oldestWaiting.go]
  | cons c cs ih =>
    unfold oldestWaiting.go
    cases hc : c.denied with
    | true => simp [hc, ih]
    | false =>
      obtain ⟨b, hb⟩ := @oldestWaiting_go_some cs (i + 1) (i, c.firstSeen)
      simp [hc, hb]

/-- Nothing can be displaced in a table of denied requests, and only there. -/
theorem oldestWaiting_none : oldestWaiting claims = none ↔ ∀ c ∈ claims, c.denied = true := by
  rw [oldestWaiting, Option.map_eq_none_iff, oldestWaiting_go_none]

theorem makeRoom_evicted (claims : List PendingDeviceKeyClaim) (fuel : ℕ) :
    Evicted claims (makeRoom claims fuel).2 := by
  induction fuel generalizing claims with
  | zero => exact Evicted.refl _
  | succ fuel ih =>
    unfold makeRoom
    split
    · split
      · exact Evicted.refl _
      next i hi =>
        obtain ⟨c, hc, hdenied⟩ := oldestWaiting_some hi
        exact (evicted_eraseIdx hc hdenied).trans (ih _)
    · exact Evicted.refl _

/-- With room made, the table is below its bound: each round displaces one request. -/
theorem length_makeRoom {fuel : ℕ} (hfuel : claims.length < maxPendingClaims + fuel)
    (h : (makeRoom claims fuel).1 = true) : (makeRoom claims fuel).2.length < maxPendingClaims := by
  induction fuel generalizing claims with
  | zero => exact hfuel
  | succ fuel ih =>
    unfold makeRoom at h ⊢
    split at h
    next hfull =>
      split at h
      · cases h
      next i hi =>
        rw [if_pos hfull]
        refine ih ?_ h
        obtain ⟨c, hc, -⟩ := oldestWaiting_some hi
        obtain ⟨hlt, -⟩ := List.getElem?_eq_some_iff.1 hc
        rw [List.length_eraseIdx_of_lt hlt]
        omega
    next hroom =>
      rw [if_neg hroom]
      exact Nat.lt_of_not_le hroom

theorem makeRoom_of_lt {fuel : ℕ} (h : claims.length < maxPendingClaims) :
    makeRoom claims fuel = (true, claims) := by
  cases fuel with
  | zero => rfl
  | succ fuel => rw [makeRoom, if_neg (by omega)]

/-- Room is made unless the table is full of denied requests. -/
theorem makeRoom_fst {fuel : ℕ} (h : claims.length < maxPendingClaims ∨
    ∃ c ∈ claims, c.denied = false) (hlen : claims.length ≤ maxPendingClaims) :
    (makeRoom claims fuel).1 = true := by
  cases fuel with
  | zero => rfl
  | succ fuel =>
    unfold makeRoom
    split
    next hfull =>
      obtain hlt | ⟨c, hc, hwaiting⟩ := h
      · omega
      cases hi : oldestWaiting claims with
      | none =>
        rw [oldestWaiting_none.1 hi c hc] at hwaiting
        cases hwaiting
      | some i =>
        -- one round is enough: the table is at its bound
        obtain ⟨d, hd, -⟩ := oldestWaiting_some hi
        obtain ⟨hlt, -⟩ := List.getElem?_eq_some_iff.1 hd
        have hlen' : (claims.eraseIdx i).length < maxPendingClaims := by
          rw [List.length_eraseIdx_of_lt hlt]
          omega
        change (makeRoom (claims.eraseIdx i) fuel).1 = true
        rw [makeRoom_of_lt hlen']
    · rfl

/-! ## Registering a claim -/

theorem marks_refresh (pk peerId keyId via now : String) (claims : List PendingDeviceKeyClaim) :
    marks (refresh pk peerId keyId via now claims) = marks claims := by
  induction claims with
  | nil => rfl
  | cons c cs ih =>
    unfold refresh
    split
    · rfl
    · simp only [marks, List.map_cons] at ih ⊢
      rw [ih]

/-- The ways a request ends: with a peer id that is none, a claim that is there already, too many
claims of the key, a table full of denied claims, or a new claim. -/
theorem registerPendingClaimIn_cases (claims : List PendingDeviceKeyClaim)
    (keyId publicKey peerId via now : String) {outcome : PendingOutcome}
    (h : registerPendingClaimIn claims keyId publicKey peerId via now = (outcome, claims')) :
    (validPeerId (trim peerId) = false ∧ outcome = .rejected ∧ claims' = claims) ∨
    (∃ c ∈ claims, c.publicKey = trim publicKey ∧ c.peerId = trim peerId ∧
      outcome = (if c.denied then .denied else .again) ∧ marks claims' = marks claims) ∨
    ((trim publicKey, trim peerId) ∉ pairs claims ∧ outcome = .full ∧ Evicted claims claims' ∧
      (maxPendingPerKey ≤ requests claims (trim publicKey) ∨
        (makeRoom claims claims.length).1 = false)) ∨
    ((trim publicKey, trim peerId) ∉ pairs claims ∧ outcome = .new ∧
      validPeerId (trim peerId) = true ∧ requests claims (trim publicKey) < maxPendingPerKey ∧
      ∃ kept, Evicted claims kept ∧ kept.length < maxPendingClaims ∧
        claims' = kept ++ [⟨keyId, trim publicKey, trim peerId, now, now, 1, via, false⟩]) := by
  unfold registerPendingClaimIn at h
  simp only at h
  split at h
  next hinvalid =>
    obtain ⟨rfl, rfl⟩ := Prod.mk.inj h
    exact .inl ⟨by simpa using hinvalid, rfl, rfl⟩
  next hvalid =>
  refine .inr ?_
  split at h
  next c hfind =>
    obtain ⟨rfl, rfl⟩ := Prod.mk.inj h
    have hpair := List.find?_some hfind
    simp only [Bool.and_eq_true, beq_iff_eq] at hpair
    exact .inl ⟨c, List.mem_of_find?_eq_some hfind, hpair.1, hpair.2, rfl, marks_refresh ..⟩
  next hfind =>
  have hnone : (trim publicKey, trim peerId) ∉ pairs claims := by
    rintro hmem
    obtain ⟨c, hc, hpk, hid⟩ := mem_pairs.1 hmem
    have := List.find?_eq_none.1 hfind c hc
    simp [hpk, hid] at this
  refine .inr ?_
  split at h
  next hkey =>
    obtain ⟨rfl, rfl⟩ := Prod.mk.inj h
    exact .inl ⟨hnone, rfl, Evicted.refl _, .inl hkey⟩
  next hkey =>
  have hroom := makeRoom_evicted claims claims.length
  have hlen := @length_makeRoom claims claims.length (by simp [maxPendingClaims])
  split at h
  next kept heq =>
    obtain ⟨rfl, rfl⟩ := Prod.mk.inj h
    rw [heq] at hroom
    exact .inl ⟨hnone, rfl, hroom, .inr (by rw [heq])⟩
  next kept heq =>
    obtain ⟨rfl, rfl⟩ := Prod.mk.inj h
    rw [heq] at hroom hlen
    exact .inr ⟨hnone, rfl, by simpa using hvalid, Nat.lt_of_not_le hkey, kept, hroom, hlen rfl,
      rfl⟩

end Integration

end NemoServer
