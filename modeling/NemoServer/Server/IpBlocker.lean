import NemoServer.Foundations.Burst
import NemoServer.Server.Sem

/-!
# The calls of an address

`check_ip_blocker` over a run: the calls that came in, newest first, each with its instant. The
entry of an address is told by its own calls alone: its counter is the spree of those that were
counted (`counted`), its ids are those of the calls that were recorded (`recorded`, `known`).

* `accepts_iff`: a call is refused exactly if the spree of its address is spent, or the address's
  set of ids is full and lacks its id.
-/

set_option autoImplicit false

namespace NemoServer

open Burst

/-- A call of `check_ip_blocker`, and when it is made. -/
structure IpCall where
  ip : String
  id : String
  instant : ℕ
  deriving DecidableEq

/-- A span of seconds as the clock measures it. -/
def secs (n : ℕ) : ℕ := n * 1000000000

theorem lt_asSecs_iff {n x : ℕ} : n < asSecs x ↔ secs (n + 1) ≤ x := by
  unfold asSecs secs
  rw [Nat.lt_iff_add_one_le, Nat.le_div_iff_mul_le (by omega)]

namespace IpCall

/-- The pauses that reset the counter and the set of ids: the whole seconds exceed the bound. -/
def countPause : ℕ := secs (Server.ipBlockDur + 1)
def idsPause : ℕ := secs (Server.daySeconds + 1)

/-- The burst goes on, and as many calls of it were counted as may be. -/
def Spent (counted : List ℕ) (now : ℕ) : Prop :=
  GoesOn countPause counted now ∧ 30 < spree countPause counted

instance (counted : List ℕ) (now : ℕ) : Decidable (Spent counted now) :=
  inferInstanceAs (Decidable (_ ∧ _))

/-- The calls from `ip` that are counted: those that find its spree not spent. -/
def counted (ip : String) : List IpCall → List ℕ
  | [] => []
  | c :: past =>
    if c.ip = ip ∧ ¬ Spent (counted ip past) c.instant then c.instant :: counted ip past
    else counted ip past

/-- The ids that are kept of the recorded calls. The call that opens the entry leaves none, nor
does one after a pause whose id was known before it. -/
def known : List IpCall → List String
  | [] => []
  | [_] => []
  | c :: d :: l =>
    let kept := if c.instant - d.instant < idsPause then known (d :: l) else []
    if c.id ∈ known (d :: l) then kept else c.id :: kept

/-- No pause yet, and as many ids are kept as may be. -/
def Full (recorded : List IpCall) (now : ℕ) : Prop :=
  GoesOn idsPause (recorded.map instant) now ∧ 300 < (known recorded).length

instance (recorded : List IpCall) (now : ℕ) : Decidable (Full recorded now) :=
  inferInstanceAs (Decidable (_ ∧ _))

/-- The calls from `ip` that are counted and do not find its set of ids full. -/
def recorded (ip : String) : List IpCall → List IpCall
  | [] => []
  | c :: past =>
    if c.ip = ip ∧ ¬ Spent (counted ip past) c.instant ∧ ¬ Full (recorded ip past) c.instant then
      c :: recorded ip past
    else recorded ip past

/-- The entry of an address with these counted and recorded calls. -/
def entry : List ℕ → List IpCall → Option IpBlock
  | t :: l, r :: m => some ⟨spree countPause (t :: l), t, known (r :: m), r.instant⟩
  | _, _ => none

/-- After the calls `past` the call is refused. -/
def Refused (past : List IpCall) (c : IpCall) : Prop :=
  Spent (counted c.ip past) c.instant ∨
    Full (recorded c.ip past) c.instant ∧ c.id ∉ known (recorded c.ip past)

instance (past : List IpCall) (c : IpCall) : Decidable (Refused past c) :=
  inferInstanceAs (Decidable (_ ∨ _))

theorem known_cons_of_goesOn {c : IpCall} {l : List IpCall}
    (h : GoesOn idsPause (l.map instant) c.instant) :
    known (c :: l) = if c.id ∈ known l then known l else c.id :: known l := by
  cases l with
  | nil =>
    obtain ⟨_, ht, -⟩ := h
    cases ht
  | cons d l =>
    have hlt : c.instant - d.instant < idsPause := goesOn_cons.1 h
    rw [known, if_pos hlt]

theorem known_cons_of_not_goesOn {c : IpCall} {l : List IpCall} (hne : l ≠ [])
    (h : ¬ GoesOn idsPause (l.map instant) c.instant) :
    known (c :: l) = if c.id ∈ known l then [] else [c.id] := by
  cases l with
  | nil => exact absurd rfl hne
  | cons d l =>
    have hlt : ¬ c.instant - d.instant < idsPause := fun hlt => h (goesOn_cons.2 hlt)
    rw [known, if_neg hlt]

theorem not_spent_nil (now : ℕ) : ¬ Spent [] now := fun h => by
  obtain ⟨⟨_, ht, -⟩, -⟩ := h
  cases ht

theorem not_full_nil (now : ℕ) : ¬ Full [] now := fun h => by
  obtain ⟨⟨_, ht, -⟩, -⟩ := h
  cases ht

/-- An address has recorded calls exactly if it has counted ones. -/
theorem counted_eq_nil_iff (ip : String) (past : List IpCall) :
    counted ip past = [] ↔ recorded ip past = [] := by
  induction past with
  | nil => exact iff_of_true rfl rfl
  | cons c past ih =>
    unfold counted recorded
    by_cases hip : c.ip = ip ∧ ¬ Spent (counted ip past) c.instant
    · by_cases hfull : Full (recorded ip past) c.instant
      · -- a set of ids that is full is not empty
        have hne : recorded ip past ≠ [] := by
          intro hnil
          rw [hnil] at hfull
          exact not_full_nil _ hfull
        rw [if_pos hip, if_neg fun h => h.2.2 hfull]
        exact iff_of_false (List.cons_ne_nil _ _) hne
      · rw [if_pos hip, if_pos ⟨hip.1, hip.2, hfull⟩]
        exact iff_of_false (List.cons_ne_nil _ _) (List.cons_ne_nil _ _)
    · rw [if_neg hip, if_neg fun h => hip ⟨h.1, h.2.1⟩]
      exact ih

theorem entry_eq_none {counted : List ℕ} {recorded : List IpCall}
    (h : counted = [] ↔ recorded = []) : entry counted recorded = none ↔ counted = [] := by
  cases counted with
  | nil => exact iff_of_true rfl rfl
  | cons t l =>
    cases recorded with
    | nil => exact absurd (h.2 rfl) (List.cons_ne_nil t l)
    | cons r m => exact iff_of_false (Option.some_ne_none _) (List.cons_ne_nil t l)

theorem entry_eq_some {counted : List ℕ} {recorded : List IpCall} {e : IpBlock}
    (h : entry counted recorded = some e) :
    counted ≠ [] ∧ recorded ≠ [] ∧ e.count = spree countPause counted ∧ e.ids = known recorded ∧
      (∀ now, now - e.countTime < countPause ↔ GoesOn countPause counted now) ∧
      ∀ now, now - e.idsTime < idsPause ↔ GoesOn idsPause (recorded.map instant) now := by
  cases counted with
  | nil => cases h
  | cons t l =>
    cases recorded with
    | nil => cases h
    | cons r m =>
      obtain rfl := Option.some.inj h
      exact ⟨List.cons_ne_nil t l, List.cons_ne_nil r m, rfl, rfl, fun _ => goesOn_cons.symm,
        fun _ => goesOn_cons.symm⟩

theorem entry_idsTime {counted : List ℕ} {r : IpCall} {m : List IpCall} {e : IpBlock}
    (h : entry counted (r :: m) = some e) : e.idsTime = r.instant := by
  cases counted with
  | nil => cases h
  | cons t l =>
    obtain rfl := Option.some.inj h
    rfl

end IpCall

namespace Server

variable (s : Server)

/-- `check_ip_blocker` at the instant of the call. -/
def present (c : IpCall) : Bool × Server := { s with now := c.instant }.checkIpBlocker c.ip c.id

/-- The state after the calls, of which the newest comes first. -/
def presentAll : List IpCall → Server
  | [] => s
  | c :: past => ((presentAll past).present c).2

/-- Whether the call is accepted after the calls `past`. -/
def accepts (past : List IpCall) (c : IpCall) : Bool := ((s.presentAll past).present c).1

open IpCall

/-- What a call answers, and what it leaves in the entry of its address. -/
theorem present_spec {s : Server} {c : IpCall} {counted : List ℕ} {recorded : List IpCall}
    (hnil : counted = [] ↔ recorded = []) (h : s.ipBlocker c.ip = entry counted recorded) :
    ((s.present c).1 = true ↔ ¬ (Spent counted c.instant ∨
      Full recorded c.instant ∧ c.id ∉ known recorded)) ∧
    (s.present c).2.ipBlocker c.ip =
      entry (if Spent counted c.instant then counted else c.instant :: counted)
        (if Spent counted c.instant ∨ Full recorded c.instant then recorded else c :: recorded) := by
  unfold present checkIpBlocker
  dsimp only
  cases hentry : entry counted recorded with
  | none =>
    obtain rfl := (entry_eq_none hnil).1 hentry
    obtain rfl := hnil.1 rfl
    rw [h, hentry]
    simp [not_spent_nil, not_full_nil, entry, known]
  | some old =>
    obtain ⟨hcounted, hrecorded, hcount, hids, hburst, hday⟩ := entry_eq_some hentry
    have hexpired : decide (ipBlockDur < asSecs (c.instant - old.countTime)) =
        !decide (GoesOn countPause counted c.instant) := by
      rw [← decide_not, decide_eq_decide, lt_asSecs_iff, ← hburst, Nat.not_lt]
      rfl
    have hexpired' : decide (daySeconds < asSecs (c.instant - old.idsTime)) =
        !decide (GoesOn idsPause (recorded.map instant) c.instant) := by
      rw [← decide_not, decide_eq_decide, lt_asSecs_iff, ← hday, Nat.not_lt]
      rfl
    rw [h, hentry]
    simp only [hexpired, hexpired', hcount, hids, Bool.not_not]
    by_cases hspent : Spent counted c.instant
    · -- refused by the counter: nothing is written
      have hcond : (decide (GoesOn countPause counted c.instant) &&
          decide (30 < spree countPause counted)) = true := by
        simpa [Spent] using hspent
      rw [if_pos hcond, if_pos hspent, if_pos (.inl hspent)]
      exact ⟨by simp [hspent], h⟩
    · have hcond : ¬ (decide (GoesOn countPause counted c.instant) &&
          decide (30 < spree countPause counted)) = true := by
        simpa [Spent] using hspent
      -- the counter goes on, or starts anew at one
      have hspree : (if (!decide (GoesOn countPause counted c.instant)) = true then 0
          else spree countPause counted) + 1 = spree countPause (c.instant :: counted) := by
        by_cases hgo : GoesOn countPause counted c.instant
        · simp [hgo, spree_cons_of_goesOn hgo]
        · simp [hgo, spree_cons_of_not_goesOn hcounted hgo]
      rw [if_neg hcond, if_neg hspent, hspree]
      by_cases hfull : Full recorded c.instant
      · have hcond' : (decide (GoesOn idsPause (recorded.map instant) c.instant) &&
            decide (300 < (known recorded).length)) = true := by
          simpa [Full] using hfull
        rw [if_pos hcond', if_pos (.inr hfull)]
        refine ⟨by simp [hspent, hfull], ?_⟩
        obtain ⟨r, m, rfl⟩ := List.exists_cons_of_ne_nil hrecorded
        have hidsTime : old.idsTime = r.instant := entry_idsTime hentry
        exact (Table.insert_self ..).trans (by rw [entry, ← hids, ← hidsTime])
      · have hcond' : ¬ (decide (GoesOn idsPause (recorded.map instant) c.instant) &&
            decide (300 < (known recorded).length)) = true := by
          simpa [Full] using hfull
        rw [if_neg hcond', if_neg (not_or.2 ⟨hspent, hfull⟩)]
        refine ⟨by simp [hspent, hfull], (Table.insert_self ..).trans ?_⟩
        rw [entry]
        refine congrArg some (congrArg (fun ids => IpBlock.mk _ _ ids _) ?_)
        by_cases hgo : GoesOn idsPause (recorded.map instant) c.instant
        · rw [known_cons_of_goesOn hgo]
          by_cases hmem : c.id ∈ known recorded <;> simp [hgo, hmem]
        · rw [known_cons_of_not_goesOn hrecorded hgo]
          by_cases hmem : c.id ∈ known recorded <;> simp [hgo, hmem]

/-- A call leaves the entries of the other addresses as they are. -/
theorem present_of_ne {s : Server} {c : IpCall} {ip : String} (h : c.ip ≠ ip) :
    (s.present c).2.ipBlocker ip = s.ipBlocker ip := by
  unfold present checkIpBlocker
  dsimp only
  cases s.ipBlocker c.ip with
  | none => exact Table.insert_of_ne _ _ h.symm
  | some old =>
    dsimp only
    split
    · rfl
    · split <;> exact Table.insert_of_ne _ _ h.symm

/-- The entry of an address is told by its counted and its recorded calls. -/
theorem ipBlocker_presentAll (hs : s.ipBlocker = Table.empty) (past : List IpCall) (ip : String) :
    (s.presentAll past).ipBlocker ip = entry (counted ip past) (recorded ip past) := by
  induction past with
  | nil => exact congrFun hs ip
  | cons c past ih =>
    rw [presentAll, counted, recorded]
    by_cases hip : c.ip = ip
    · subst hip
      rw [(present_spec (counted_eq_nil_iff c.ip past) ih).2]
      by_cases hspent : Spent (counted c.ip past) c.instant
      · simp [hspent]
      · by_cases hfull : Full (recorded c.ip past) c.instant <;> simp [hspent, hfull]
    · rw [present_of_ne hip, ih, if_neg fun h => hip h.1, if_neg fun h => hip h.1]

/-- A call is refused exactly if the spree of its address is spent, or the set of ids is full and
lacks its id. -/
theorem accepts_iff (hs : s.ipBlocker = Table.empty) (past : List IpCall) (c : IpCall) :
    s.accepts past c = true ↔ ¬ Refused past c :=
  (present_spec (counted_eq_nil_iff c.ip past) (s.ipBlocker_presentAll hs past c.ip)).1

end Server

end NemoServer
