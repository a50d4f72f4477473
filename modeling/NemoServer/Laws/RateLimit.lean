import NemoServer.Server.IpBlocker
import NemoServer.Server.Sample

/-!
# What the limits of an address allow

The counter of an address starts anew after a pause, not after a fixed time, so it bounds what a
short window may hold, but counts a long burst of rare calls as it does a short one of many.

* `accepted_in_window`: in no window of `IP_BLOCK_DUR` seconds more than 32 calls of an address are
  accepted.
* `refused_only_above_iff`: in a run calls are refused above the limits only, exactly if each call
  that finds a spent spree or a full set of ids comes from an address above its limits.
-/

set_option autoImplicit false

namespace NemoServer

open Burst IpCall Server

/-! ## How many calls are accepted -/

/-- The calls of the history that were accepted. -/
def Server.acceptedCalls (s : Server) : List IpCall → List IpCall
  | [] => []
  | c :: past =>
    if s.accepts past c = true then c :: s.acceptedCalls past else s.acceptedCalls past

/-- The call comes from `ip`, in the `IP_BLOCK_DUR` seconds that begin at `start`. -/
def InWindow (ip : String) (start : ℕ) (c : IpCall) : Prop :=
  c.ip = ip ∧ start ≤ c.instant ∧ c.instant ≤ start + secs ipBlockDur

instance (ip : String) (start : ℕ) (c : IpCall) : Decidable (InWindow ip start c) :=
  inferInstanceAs (Decidable (_ ∧ _))

/-- The same of the instant alone. -/
def Inside (start t : ℕ) : Prop := start ≤ t ∧ t ≤ start + secs ipBlockDur

instance (start t : ℕ) : Decidable (Inside start t) := inferInstanceAs (Decidable (_ ∧ _))

theorem counted_sublist (ip : String) (history : List IpCall) :
    (counted ip history).Sublist (history.map IpCall.instant) := by
  induction history with
  | nil => exact List.Sublist.slnil
  | cons c past ih =>
    rw [counted, List.map_cons]
    split
    · exact ih.cons_cons _
    · exact ih.cons _

/-- The spree of an address stops at one above the limit. -/
theorem spree_counted_le (ip : String) (history : List IpCall) :
    spree countPause (counted ip history) ≤ 31 := by
  induction history with
  | nil => exact Nat.zero_le 31
  | cons c past ih =>
    rw [counted]
    split
    · rename_i hcond
      by_cases hgo : GoesOn countPause (counted ip past) c.instant
      · have hlimit : ¬ 30 < spree countPause (counted ip past) := fun h => hcond.2 ⟨hgo, h⟩
        rw [spree_cons_of_goesOn hgo]
        omega
      · by_cases hnil : counted ip past = []
        · rw [hnil]
          exact Nat.zero_le 31
        · rw [spree_cons_of_not_goesOn hnil hgo]
          omega
    · exact ih

/-- The counted calls of a window belong to one burst. -/
theorem countP_counted_le (ip : String) (start : ℕ) (history : List IpCall)
    (hord : (history.map IpCall.instant).Pairwise (· ≥ ·)) :
    (counted ip history).countP (fun t => decide (Inside start t)) ≤ 32 := by
  induction history with
  | nil => exact Nat.zero_le 32
  | cons c past ih =>
    have hold := ih (List.pairwise_cons.1 hord).2
    have hsorted := hord.sublist (counted_sublist ip (c :: past))
    have hspree := spree_counted_le ip (c :: past)
    rw [counted] at hsorted hspree ⊢
    split
    · rename_i hcond
      rw [if_pos hcond] at hsorted hspree
      by_cases hin : Inside start c.instant
      · -- what is in the window with the newest call came less than a pause before it
        have hsince := countP_since_le countPause start hsorted
          fun t ht => by
            obtain rfl := Option.some.inj ht
            have hend : c.instant ≤ start + secs ipBlockDur := hin.2
            have hpause : secs ipBlockDur < countPause := by decide
            omega
        have hmono : (c.instant :: counted ip past).countP (fun t => decide (Inside start t)) ≤
            (c.instant :: counted ip past).countP (fun t => decide (start ≤ t)) :=
          List.countP_mono_left fun t _ h => decide_eq_true (of_decide_eq_true h).1
        have hburst := length_burst_le_spree countPause (c.instant :: counted ip past)
        omega
      · rw [List.countP_cons_of_neg (by simpa using hin)]
        exact hold
    · exact hold

/-- An accepted call was counted. -/
theorem countP_accepted_le {s : Server} (hs : s.ipBlocker = Table.empty) (ip : String) (start : ℕ)
    (history : List IpCall) :
    (s.acceptedCalls history).countP (fun c => decide (InWindow ip start c)) ≤
      (counted ip history).countP (fun t => decide (Inside start t)) := by
  induction history with
  | nil => exact Nat.le_refl 0
  | cons c past ih =>
    rw [Server.acceptedCalls, counted]
    by_cases hin : InWindow ip start c
    · obtain ⟨rfl, hinside⟩ := hin
      by_cases hspent : Spent (counted c.ip past) c.instant
      · have hrefused : ¬ s.accepts past c = true :=
          fun h => (s.accepts_iff hs past c).1 h (.inl hspent)
        rw [if_neg hrefused, if_neg fun h => h.2 hspent]
        exact ih
      · have hcounted : (c.instant :: counted c.ip past).countP
            (fun t => decide (Inside start t)) =
              (counted c.ip past).countP (fun t => decide (Inside start t)) + 1 :=
          List.countP_cons_of_pos (decide_eq_true hinside)
        have hcond : c.ip = c.ip ∧ ¬ Spent (counted c.ip past) c.instant := ⟨rfl, hspent⟩
        rw [if_pos hcond, hcounted]
        split
        · rw [List.countP_cons]
          split <;> omega
        · omega
    · have hskip : (counted ip past).countP (fun t => decide (Inside start t)) ≤
          (if c.ip = ip ∧ ¬ Spent (counted ip past) c.instant then c.instant :: counted ip past
            else counted ip past).countP (fun t => decide (Inside start t)) := by
        split
        · exact (List.sublist_cons_self _ _).countP_le
        · exact Nat.le_refl _
      split
      · rw [List.countP_cons_of_neg (by simpa using hin)]
        exact ih.trans hskip
      · exact ih.trans hskip

/-- In any run of calls, at most 32 calls of an address are accepted in any `IP_BLOCK_DUR`
seconds. -/
theorem accepted_in_window {s : Server} (hs : s.ipBlocker = Table.empty) (history : List IpCall)
    (hord : (history.map IpCall.instant).Pairwise (· ≥ ·)) (ip : String) (start : ℕ) :
    (s.acceptedCalls history).countP (fun c => decide (InWindow ip start c)) ≤ 32 :=
  (countP_accepted_le hs ip start history).trans (countP_counted_le ip start history hord)

/-- Two addresses, one of them twice. -/
def fewCalls : List IpCall :=
  [⟨"10.0.0.1", "desk-02", secs 3⟩, ⟨"10.0.0.2", "desk-01", secs 2⟩, ⟨"10.0.0.1", "desk-01", secs 1⟩]

theorem accepted_in_window_few :
    ((Sample.server []).acceptedCalls fewCalls).countP
      (fun c => decide (InWindow "10.0.0.1" 0 c)) ≤ 32 :=
  accepted_in_window rfl fewCalls (by decide) "10.0.0.1" 0

/-! ## Which calls are refused -/

/-- How many calls of the address fall in the `IP_BLOCK_DUR` seconds before the call. -/
def recentCalls (past : List IpCall) (c : IpCall) : ℕ :=
  past.countP fun d => decide (d.ip = c.ip ∧ c.instant ≤ d.instant + secs ipBlockDur)

/-- The ids that were presented from the address in the day before the call. -/
def dayIds (past : List IpCall) (c : IpCall) : List String :=
  ((past.filter fun d =>
    decide (d.ip = c.ip ∧ c.instant ≤ d.instant + secs daySeconds)).map IpCall.id).dedup

/-- The address is above one of its limits with this call. -/
def AboveLimits (past : List IpCall) (c : IpCall) : Prop :=
  30 < recentCalls past c ∨ c.id ∉ dayIds past c ∧ 300 < (dayIds past c).length

instance (past : List IpCall) (c : IpCall) : Decidable (AboveLimits past c) :=
  inferInstanceAs (Decidable (_ ∨ _))

/-- A spree that is spent, or a set of ids that is full and lacks the id, is one of the last minute
or day: the address is above its limits. -/
structure Timely (past : List IpCall) (c : IpCall) : Prop where
  spree : Spent (counted c.ip past) c.instant → AboveLimits past c
  ids : Full (recorded c.ip past) c.instant → c.id ∉ known (recorded c.ip past) →
    AboveLimits past c

theorem refused_above_iff {s : Server} (hs : s.ipBlocker = Table.empty) (past : List IpCall)
    (c : IpCall) : (s.accepts past c = false → AboveLimits past c) ↔ Timely past c := by
  have hrefused : s.accepts past c = false ↔ Refused past c := by
    rw [← Bool.not_eq_true, s.accepts_iff hs, not_not]
  rw [hrefused]
  constructor
  · intro h
    exact ⟨fun hspent => h (.inl hspent), fun hfull hid => h (.inr ⟨hfull, hid⟩)⟩
  · rintro ⟨hspree, hids⟩ (hspent | ⟨hfull, hid⟩)
    · exact hspree hspent
    · exact hids hfull hid

/-- A device that calls every 50 seconds. -/
def steadyCalls (n : ℕ) : List IpCall :=
  (List.range n).reverse.map fun k => ⟨"10.0.0.1", "desk-01", secs (50 * k)⟩

end NemoServer
