import NemoServer.Relay.Admin
import NemoServer.Rendezvous.Admin

/-!
# Settings that overflow

No integer operation of the two `check_cmd`, of `check_params` and of the loop of `relay` overflows
exactly as long as no page of a list begins in the last ten numbers of `i32`, no start check is of
more than 18446744073709551 seconds, and the traffic of every session, in bits, and its measured
time, in milliseconds and times its threshold, are numbers of 64 bits. The settings themselves are
saved from overflowing by the casts, and the counters of a session by nothing.

* `inRange_listArm`: the pages.
* `Adds`: while no operation overflows, the counters of a session are the sums of its traffic.
* `admin_inRange_iff`: the law.
-/

set_option autoImplicit false

namespace NemoServer

open Str

/-! ## hbbs -/

namespace Rendezvous

/-- The page, if one is asked for, does not begin in the last ten numbers. -/
def PageFits (cmd : String) : Prop :=
  ∀ name arg rest n, split ' ' (trim cmd) = name :: arg :: rest →
    name ∈ ["ip-blocker", "ib", "ip-changes", "ic"] → parseI32 arg = some n → n ≤ 2147483637

theorem fits_page {n : ℤ} (h : 0 ≤ n) : (IntType.signed 32).Fits (n + 10) ↔ n ≤ 2147483637 := by
  have hmax : (IntType.signed 32).max = 2147483647 := rfl
  have hmin : (IntType.signed 32).min = -2147483648 := rfl
  rw [IntType.Fits, hmax, hmin]
  omega

theorem inRange_showPage {α : Type} (l : List (String × α)) (render : α → String) (start : ℤ) :
    (showPage l render start).InRange ↔ start ≤ 2147483637 := by
  unfold showPage
  split
  · next h =>
    rw [Arith.inRange_bind, Arith.inRange_op, fits_page h]
    exact and_iff_left (Arith.inRange_pure _)
  · next h =>
    exact iff_of_true (Arith.inRange_pure _) (by omega)

/-- An arm shows the page that is asked for, or the first one. -/
theorem inRange_listArm {α : Type} (l : List (String × α)) (render : α → String)
    (byName : ℤ → Bool) (arg flag : Option String) :
    (listArm l render byName arg flag).InRange ↔ startOf arg ≤ 2147483637 := by
  unfold listArm
  dsimp only
  rw [Arith.inRange_bind, inRange_showPage]
  refine (and_iff_left (Arith.inRange_pure _)).trans ?_
  split
  · next h =>
    rw [Option.isNone_iff_eq_none.1 (Bool.and_eq_true_iff.1 h).2]
    exact iff_of_true (by decide) (by decide)
  · exact Iff.rfl

theorem startOf_le_iff {arg : Option String} :
    startOf arg ≤ 2147483637 ↔
      ∀ a n, arg = some a → parseI32 a = some n → n ≤ 2147483637 := by
  constructor
  · rintro h a n rfl hn
    rw [startOf, Option.bind_some, hn] at h
    exact h
  · intro h
    cases arg with
    | none => decide
    | some a =>
      rw [startOf, Option.bind_some]
      cases hn : parseI32 a with
      | none => decide
      | some n => exact h a n rfl hn

/-- A command overflows only where it computes the end of a page. -/
theorem inRange_checkCmd (cmd : String) (s : AdminLists) :
    (checkCmd cmd s).InRange ↔ PageFits cmd := by
  unfold checkCmd PageFits
  cases hwords : split ' ' (trim cmd) with
  | nil => exact iff_of_true (Arith.inRange_pure _) fun name arg rest n h => by cases h
  | cons name args =>
    have hargs : (∀ name' arg rest n, name :: args = name' :: arg :: rest →
        name' ∈ ["ip-blocker", "ib", "ip-changes", "ic"] → parseI32 arg = some n →
          n ≤ 2147483637) ↔ (name ∈ ["ip-blocker", "ib", "ip-changes", "ic"] →
            startOf args.head? ≤ 2147483637) := by
      rw [startOf_le_iff]
      constructor
      · intro h hname a n ha hn
        obtain ⟨rest, rfl⟩ := List.head?_eq_some_iff.1 ha
        exact h name a rest n rfl hname hn
      · rintro h _ a rest n heq hname hn
        obtain ⟨rfl, rfl⟩ := List.cons.inj heq
        exact h hname a n rfl hn
    rw [hargs]
    dsimp only
    have hone : ∀ (hname : name ∈ ["ip-blocker", "ib", "ip-changes", "ic"]),
        startOf args.head? ≤ 2147483637 ↔ (name ∈ ["ip-blocker", "ib", "ip-changes", "ic"] →
          startOf args.head? ≤ 2147483637) := fun hname => ⟨fun h _ => h, fun h => h hname⟩
    split
    · next hib =>
      rw [Arith.inRange_bind, inRange_listArm]
      refine (and_iff_left (Arith.inRange_pure _)).trans (hone ?_)
      obtain rfl | rfl := hib <;> simp
    · next hib =>
      split
      · next hic =>
        rw [Arith.inRange_bind, inRange_listArm]
        refine (and_iff_left (Arith.inRange_pure _)).trans (hone ?_)
        obtain rfl | rfl := hic <;> simp
      · next hic =>
        refine iff_of_true (Arith.inRange_pure _) fun hname => ?_
        simp only [List.mem_cons, List.not_mem_nil, or_false] at hname
        rcases hname with hname | hname | hname | hname
        · exact absurd (.inl hname) hib
        · exact absurd (.inr hname) hib
        · exact absurd (.inl hname) hic
        · exact absurd (.inr hname) hic

end Rendezvous

/-! ## hbbr -/

namespace Relay

/-- The start check, if a line sets it, is no more seconds than make milliseconds of 64 bits. -/
def StartCheckFits (cmd : String) : Prop :=
  ∀ v n, readCmd cmd = some (.downgradeStartCheck, some v) → parseU64 v = some n →
    n ≤ 18446744073709551

/-- The same of the environment. -/
def ParamVars.Fits (env : ParamVars) : Prop :=
  ∀ v n, env.downgradeStartCheck = some v → parseU64 v = some n → n ≤ 18446744073709551

theorem inRange_storeStartCheck (s : Statics) (tmp : Option ℕ) :
    (storeStartCheck s (tmp.getD 0)).InRange ↔ ∀ n, tmp = some n → n ≤ 18446744073709551 := by
  have hle : (∀ n, tmp = some n → n ≤ 18446744073709551) ↔ tmp.getD 0 ≤ 18446744073709551 := by
    cases tmp with
    | none => exact iff_of_true (fun n h => by cases h) (Nat.zero_le _)
    | some n => exact ⟨fun h => h n rfl, fun h m hm => Option.some.inj hm ▸ h⟩
  rw [hle]
  unfold storeStartCheck
  split
  · rw [Arith.inRange_bind, Arith.inRange_natOp]
    refine (and_iff_left (Arith.inRange_pure _)).trans ?_
    omega
  · next h =>
    exact iff_of_true (Arith.inRange_pure _) (by omega)

theorem inRange_checkParams (X : Floats) (env : ParamVars) (s : Statics) :
    (checkParams X env s).InRange ↔ env.Fits := by
  unfold checkParams
  dsimp only
  rw [Arith.inRange_bind, inRange_storeStartCheck]
  refine (and_iff_left (Arith.inRange_pure _)).trans ?_
  constructor
  · intro h v n hv hn
    exact h n (by rw [hv, Option.bind_some, hn])
  · intro h n hn
    obtain ⟨v, hv, hn⟩ := Option.bind_eq_some_iff.1 hn
    exact h v n hv hn

/-- A command overflows only where it stores the start check. -/
theorem inRange_checkCmd (X : Floats) (cmd : String) (s : Statics) :
    (checkCmd X cmd s).InRange ↔ StartCheckFits cmd := by
  unfold checkCmd StartCheckFits
  cases hread : readCmd cmd with
  | none => exact iff_of_true (Arith.inRange_pure _) fun v n h => by cases h
  | some c =>
    obtain ⟨c, arg⟩ := c
    dsimp only
    by_cases hc : c = .downgradeStartCheck
    · subst hc
      cases arg with
      | none => exact iff_of_true (Arith.inRange_pure _) fun v n h => by cases h
      | some v =>
        have hrun : (runCmd X s (some v) .downgradeStartCheck).InRange ↔
            (storeStartCheck s ((parseU64 v).getD 0)).InRange :=
          (Arith.inRange_bind _ _).trans (and_iff_left (Arith.inRange_pure _))
        rw [hrun, inRange_storeStartCheck]
        constructor
        · intro h v' n hv hn
          obtain rfl := Option.some.inj (Prod.mk.inj (Option.some.inj hv)).2
          exact h n hn
        · exact fun h n hn => h v n rfl hn
    · refine iff_of_true ?_ fun v n h => absurd (Prod.mk.inj (Option.some.inj h)).1 hc
      cases c with
      | downgradeStartCheck => exact absurd rfl hc
      | downgradeThreshold => cases arg <;> exact Arith.inRange_pure _
      | limitSpeed => cases arg <;> exact Arith.inRange_pure _
      | totalBandwidth => cases arg <;> exact Arith.inRange_pure _
      | singleBandwidth => cases arg <;> exact Arith.inRange_pure _
      | _ => exact Arith.inRange_pure _

/-! ## The traffic of a session -/

/-- The bits that are received. -/
def Arm.bits : Arm → ℕ
  | .received len _ => len * 8
  | _ => 0

/-- The bits that were received in the session `k` since it began; the newest event is first. -/
def bits (k : ℕ) : List Event → ℕ
  | [] => 0
  | .begins k' _ _ _ :: past => if k' = k then 0 else bits k past
  | .round k' arm _ :: past => (if k' = k then arm.bits else 0) + bits k past
  | .command _ :: past => bits k past

/-- What a round adds to the time of its session: nothing before a second is over. -/
def window (millis : ℕ) : ℕ := if millis % 2 ^ 64 < 1000 then 0 else millis % 2 ^ 64

/-- The milliseconds that were measured in the session `k` since it began. -/
def measured (k : ℕ) : List Event → ℕ
  | [] => 0
  | .begins k' _ _ _ :: past => if k' = k then 0 else measured k past
  | .round k' _ millis :: past => (if k' = k then window millis else 0) + measured k past
  | .command _ :: past => measured k past

/-- The loop goes on after the arm. -/
def Arm.Stays : Arm → Prop
  | .received len sent => len = 0 ∨ sent = true
  | .closed => False
  | .tick idle => idle ≤ 30

/-- The time of the session, and where the traffic is compared with the threshold that multiple of
it, are numbers of 64 bits. -/
def MeasureFits (s : Statics) (x : Session) (elapsed : ℕ) : Prop :=
  elapsed < 2 ^ 64 ∧ (s.downgradeStartCheck < elapsed → x.downgrade = false →
    elapsed * x.downgradeThreshold < 2 ^ 64)

/-- The event does not take a sum over 64 bits. -/
def Event.Fits (past : List Event) (e : Event) (s : Hbbr) : Prop :=
  match e with
  | .command cmd => StartCheckFits cmd
  | .begins _ _ _ _ => True
  | .round k arm millis => ∀ x, s.sessions k = some x →
    arm.bits + bits k past < 2 ^ 64 ∧
    (arm.Stays → 1000 ≤ millis % 2 ^ 64 → x.ip ∉ s.statics.blocklist →
      MeasureFits s.statics x (millis % 2 ^ 64 + measured k past))

/-- The counters of a session are the sums of its traffic. -/
structure Adds (b m : ℕ) (x : Session) : Prop where
  total : x.total = b
  elapsed : x.elapsed = m
  totalS : x.totalS ≤ x.total
  total_lt : x.total < 2 ^ 64

variable {X : Floats} {b m : ℕ} {x x' : Session} {arm : Arm}

/-! ## One round -/

theorem inRange_select (hx : Adds b m x) : (x.select arm).InRange ↔ arm.bits + b < 2 ^ 64 := by
  obtain ⟨rfl, -, hle, hlt⟩ := hx
  have hnone : 0 + x.total < 2 ^ 64 := by omega
  cases arm with
  | received len sent =>
    simp only [Session.select, Arith.inRange_bind, Arith.inRange_natOp, Arith.inRange_pure,
      and_true, Arm.bits]
    constructor
    · rintro ⟨hnb, htotal, -⟩
      rw [Arith.val_natOp hnb] at htotal
      omega
    · intro h
      have hnb : len * 8 < 2 ^ 64 := by omega
      rw [Arith.val_natOp hnb]
      omega
  | closed => exact iff_of_true (Arith.inRange_pure _) hnone
  | tick idle => exact iff_of_true (Arith.inRange_pure _) hnone

/-- The arm leaves the loop, or the session with its bits added. -/
theorem select_val (hx : Adds b m x) (hin : arm.bits + b < 2 ^ 64) :
    (x.select arm).val = none ∧ ¬arm.Stays ∨
      ∃ x', (x.select arm).val = some x' ∧ arm.Stays ∧ Adds (arm.bits + b) m x' ∧
        x'.ip = x.ip ∧ x'.downgrade = x.downgrade ∧
          x'.downgradeThreshold = x.downgradeThreshold := by
  obtain ⟨rfl, hm, hle, hlt⟩ := hx
  cases arm with
  | received len sent =>
    have hnb : len * 8 < 2 ^ 64 := by
      rw [Arm.bits] at hin
      omega
    have htotal : x.total + len * 8 < 2 ^ 64 := by
      rw [Arm.bits] at hin
      omega
    have htotalS : x.totalS + len * 8 < 2 ^ 64 := by omega
    simp only [Session.select, Arith.val_bind, Arith.val_natOp hnb, Arith.val_natOp htotal,
      Arith.val_natOp htotalS, Arith.val_pure]
    by_cases hsent : len ≠ 0 ∧ sent = false
    · rw [if_pos hsent]
      refine .inl ⟨rfl, fun hstays => ?_⟩
      rcases hstays with hzero | htrue
      · exact hsent.1 hzero
      · rw [hsent.2] at htrue
        cases htrue
    · rw [if_neg hsent]
      refine .inr ⟨_, rfl, ?_, ⟨?_, hm, ?_, htotal⟩, rfl, rfl, rfl⟩
      · by_cases hzero : len = 0
        · exact .inl hzero
        · exact .inr (Bool.of_not_eq_false fun hfalse => hsent ⟨hzero, hfalse⟩)
      · exact Nat.add_comm _ _
      · exact Nat.add_le_add_right hle _
  | closed => exact .inl ⟨rfl, fun h => h⟩
  | tick idle =>
    have hadds : Adds (Arm.bits (.tick idle) + x.total) m x :=
      ⟨(Nat.zero_add _).symm, hm, hle, hlt⟩
    by_cases hidle : 30 < idle
    · exact .inl ⟨if_pos hidle, Nat.not_le.2 hidle⟩
    · exact .inr ⟨x, if_neg hidle, Nat.not_lt.1 hidle, hadds, rfl, rfl, rfl⟩

theorem inRange_measure (s : Statics) (hx : Adds b m x) (millis : ℕ) :
    (x.measure s millis).InRange ↔ (1000 ≤ millis % 2 ^ 64 → x.ip ∉ s.blocklist →
      MeasureFits s x (millis % 2 ^ 64 + m)) := by
  obtain ⟨-, rfl, -, -⟩ := hx
  unfold Session.measure
  dsimp only
  split
  · next hshort =>
    exact iff_of_true (Arith.inRange_pure _) fun hlong => absurd hshort (Nat.not_lt.2 hlong)
  · next hlong =>
    split
    · next hblocked =>
      refine iff_of_true (Arith.inRange_pure _) fun _ hnot => ?_
      exact absurd (List.contains_iff_mem.1 hblocked) hnot
    · next hblocked =>
      have hnot : x.ip ∉ s.blocklist := fun hmem => hblocked (List.contains_iff_mem.2 hmem)
      have hfits : (1000 ≤ millis % 2 ^ 64 → x.ip ∉ s.blocklist →
          MeasureFits s x (millis % 2 ^ 64 + x.elapsed)) ↔
            MeasureFits s x (millis % 2 ^ 64 + x.elapsed) :=
        ⟨fun h => h (Nat.not_lt.1 hlong) hnot, fun h _ _ => h⟩
      rw [hfits, Arith.inRange_bind, Arith.inRange_natOp, Nat.add_comm x.elapsed, MeasureFits]
      refine and_congr_right fun hlt => ?_
      rw [Arith.val_natOp hlt]
      split
      · next hcheck =>
        rw [Arith.inRange_bind, Arith.inRange_natOp]
        refine (and_iff_left (Arith.inRange_pure _)).trans ?_
        exact ⟨fun h _ _ => h, fun h => h hcheck.1 hcheck.2⟩
      · next hcheck =>
        exact iff_of_true (Arith.inRange_pure _) fun hstart hdown =>
          absurd ⟨hstart, hdown⟩ hcheck

/-- The measurement leaves the loop, or the session with its time added. -/
theorem measure_val (s : Statics) (hx : Adds b m x) (millis : ℕ)
    (hin : (x.measure s millis).InRange) :
    ∀ x', (x.measure s millis).val.1 = some x' → Adds b (window millis + m) x' := by
  have hrange := (inRange_measure s hx millis).1 hin
  obtain ⟨rfl, rfl, hle, hlt⟩ := hx
  unfold Session.measure window
  dsimp only
  split
  · intro x' hx'
    obtain rfl := Option.some.inj hx'
    exact ⟨rfl, (Nat.zero_add _).symm, hle, hlt⟩
  · next hlong =>
    split
    · intro x' hx'
      cases hx'
    · next hblocked =>
      have hnot : x.ip ∉ s.blocklist := fun hmem => hblocked (List.contains_iff_mem.2 hmem)
      obtain ⟨helapsed, -⟩ := hrange (Nat.not_lt.1 hlong) hnot
      rw [Nat.add_comm] at helapsed
      rw [Arith.val_bind, Arith.val_natOp helapsed, Nat.add_comm (millis % 2 ^ 64)]
      split
      · intro x' hx'
        obtain rfl := Option.some.inj hx'
        exact ⟨rfl, rfl, Nat.zero_le _, hlt⟩
      · intro x' hx'
        obtain rfl := Option.some.inj hx'
        exact ⟨rfl, rfl, Nat.zero_le _, hlt⟩

/-! ## A run -/

/-- The counters of every session are the sums of its traffic. -/
def Counts (past : List Event) (s : Hbbr) : Prop :=
  ∀ k x, s.sessions k = some x → Adds (bits k past) (measured k past) x

/-- A session that is left takes its counters with it. -/
theorem counts_leave {past past' : List Event} {s : Hbbr} {k : ℕ} (hs : Counts past s)
    (hbits : ∀ j, j ≠ k → bits j past' = bits j past)
    (hmeasured : ∀ j, j ≠ k → measured j past' = measured j past) (statics : Statics) :
    Counts past' (Hbbr.leave { s with statics := statics } k x) := by
  intro j y hy
  obtain ⟨hne, hy⟩ := Table.remove_eq_some.1 hy
  rw [hbits j hne, hmeasured j hne]
  exact hs j y hy

theorem bits_round_of_ne {k j millis : ℕ} (past : List Event) (h : j ≠ k) :
    bits j (.round k arm millis :: past) = bits j past := by
  rw [bits, if_neg (Ne.symm h), Nat.zero_add]

theorem measured_round_of_ne {k j millis : ℕ} (past : List Event) (h : j ≠ k) :
    measured j (.round k arm millis :: past) = measured j past := by
  rw [measured, if_neg (Ne.symm h), Nat.zero_add]

theorem MeasureFits.congr {s : Statics} {n : ℕ} (hdowngrade : x'.downgrade = x.downgrade)
    (hthreshold : x'.downgradeThreshold = x.downgradeThreshold) :
    MeasureFits s x' n ↔ MeasureFits s x n := by
  rw [MeasureFits, MeasureFits, hdowngrade, hthreshold]

/-- A round of the loop, of a session that is relayed. -/
theorem step_round {s : Hbbr} {k millis : ℕ} {past : List Event} (hs : Counts past s)
    (hx : s.sessions k = some x) :
    ((s.step X (.round k arm millis)).InRange ↔ Event.Fits past (.round k arm millis) s) ∧
      ((s.step X (.round k arm millis)).InRange →
        Counts (.round k arm millis :: past) (s.step X (.round k arm millis)).val) := by
  have hadds := hs k x hx
  have hfits : Event.Fits past (.round k arm millis) s ↔ arm.bits + bits k past < 2 ^ 64 ∧
      (arm.Stays → 1000 ≤ millis % 2 ^ 64 → x.ip ∉ s.statics.blocklist →
        MeasureFits s.statics x (millis % 2 ^ 64 + measured k past)) := by
    refine ⟨fun h => h x hx, fun h y hy => ?_⟩
    obtain rfl := Option.some.inj (hx.symm.trans hy)
    exact h
  have hbits : ∀ j, j ≠ k → bits j (.round k arm millis :: past) = bits j past :=
    fun j => bits_round_of_ne past
  have hmeasured : ∀ j, j ≠ k → measured j (.round k arm millis :: past) = measured j past :=
    fun j => measured_round_of_ne past
  rw [hfits]
  simp only [Hbbr.step, hx, Arith.inRange_bind, Arith.val_bind, inRange_select hadds]
  by_cases hin : arm.bits + bits k past < 2 ^ 64
  · obtain ⟨hnone, hleft⟩ | ⟨x', hsome, hstays, hadds', hip, hdowngrade, hthreshold⟩ :=
      select_val hadds hin
    · rw [hnone]
      refine ⟨iff_of_true ⟨hin, Arith.inRange_pure _⟩ ⟨hin, fun h => absurd h hleft⟩, fun _ => ?_⟩
      exact counts_leave hs hbits hmeasured s.statics
    · rw [hsome]
      simp only [Arith.inRange_bind, Arith.inRange_pure, and_true, Arith.val_bind, Arith.val_pure,
        inRange_measure s.statics hadds', hip, MeasureFits.congr hdowngrade hthreshold]
      refine ⟨and_congr_right fun _ => ⟨fun h _ => h, fun h => h hstays⟩, fun h => ?_⟩
      have hmeasure := measure_val s.statics hadds' millis
        ((inRange_measure s.statics hadds' millis).2 fun hlong hnot =>
          (MeasureFits.congr hdowngrade hthreshold).2 (h.2 hlong (hip ▸ hnot)))
      cases hr : (x'.measure s.statics millis).val with
      | mk r statics =>
        rw [hr] at hmeasure
        cases r with
        | none => exact counts_leave hs hbits hmeasured statics
        | some y =>
          intro j z hz
          obtain ⟨rfl, rfl⟩ | ⟨hne, hz⟩ := Table.insert_eq_some.1 hz
          · have hsum := hmeasure y rfl
            rw [bits, measured, if_pos rfl, if_pos rfl]
            exact hsum
          · rw [hbits j hne, hmeasured j hne]
            exact hs j z hz
  · exact ⟨iff_of_false (fun h => hin h.1) fun h => hin h.1, fun h => absurd h.1 hin⟩

/-- An event overflows exactly if it does not fit, and otherwise the counters still add up. -/
theorem step_spec (past : List Event) (e : Event) (s : Hbbr) (hs : Counts past s) :
    ((s.step X e).InRange ↔ e.Fits past s) ∧
      ((s.step X e).InRange → Counts (e :: past) (s.step X e).val) := by
  cases e with
  | command cmd =>
    refine ⟨?_, fun _ => hs⟩
    rw [Hbbr.step, Arith.inRange_bind, inRange_checkCmd]
    exact and_iff_left (Arith.inRange_pure _)
  | begins k id ip label =>
    refine ⟨iff_of_true (Arith.inRange_pure _) trivial, fun _ j x hx => ?_⟩
    rw [bits, measured]
    obtain ⟨rfl, rfl⟩ | ⟨hne, hx⟩ := Table.insert_eq_some.1 hx
    · rw [if_pos rfl, if_pos rfl]
      exact ⟨rfl, rfl, Nat.le_refl _, Nat.two_pow_pos 64⟩
    · rw [if_neg (Ne.symm hne), if_neg (Ne.symm hne)]
      exact hs j x hx
  | round k arm millis =>
    cases hx : s.sessions k with
    | some x => exact step_round hs hx
    | none =>
      have hstep : s.step X (.round k arm millis) = pure s := by rw [Hbbr.step, hx]
      rw [hstep]
      refine ⟨iff_of_true (Arith.inRange_pure _) fun x hsome => ?_, fun _ j x hsome => ?_⟩
      · rw [hx] at hsome
        cases hsome
      · have hne : j ≠ k := by
          rintro rfl
          rw [Arith.val_pure, hx] at hsome
          cases hsome
        rw [bits_round_of_ne past hne, measured_round_of_ne past hne]
        exact hs j x hsome

/-- No operation of hbbr in a run, and none of hbbs on the lines of its operators, overflows exactly
if every setting, page and traffic fits. -/
theorem admin_inRange_iff (X : Floats) (env : ParamVars) (events : List Event)
    (cmds : List (String × Rendezvous.AdminLists)) :
    ((Hbbr.run X env events).InRange ∧ ∀ x ∈ cmds, (Rendezvous.checkCmd x.1 x.2).InRange) ↔
      (env.Fits ∧ ∀ e past, e :: past <:+ events → e.Fits past (Hbbr.run X env past).val) ∧
        ∀ x ∈ cmds, Rendezvous.PageFits x.1 := by
  have hstart : (do
      let statics ← checkParams X env Statics.initial
      pure ⟨statics, Table.empty⟩ : Arith Hbbr).InRange ↔ env.Fits := by
    rw [Arith.inRange_bind, inRange_checkParams]
    exact and_iff_left (Arith.inRange_pure _)
  have hrun : (Hbbr.run X env events).InRange ↔ _ :=
    Arith.inRange_runs_iff (I := Counts) (F := Event.Fits) (fun _ k x hx => by cases hx)
      (fun past e s hs => (step_spec past e s hs).2) (fun past e s hs => (step_spec past e s hs).1)
      events
  rw [hrun, hstart]
  exact and_congr_right fun _ => forall₂_congr fun x _ => Rendezvous.inRange_checkCmd x.1 x.2

namespace Sample

/-- No texts are numbers. -/
def floats : Floats where
  F := Unit
  parse _ := none
  positive _ := false
  hundredfold _ := 0
  mebi _ := 0
  bitsPerMilli sb t := sb * t / 100000
  showHundredth n := toString (n / 100)
  showMebi n := toString (n / 1048576)
  showMegabytes n := toString (n / 8388608)

/-- Nothing is set in the environment. -/
def noVars : ParamVars := ⟨none, none, none, none, none⟩

/-- An operator puts the start check off for half a billion years. -/
def lateCheck : List Event := [.command "t 18446744073709552"]

end Sample

/-- The start check wraps to less than half a second, and the end of a page over the largest
`i32`. -/
theorem not_admin_inRange :
    ¬(Hbbr.run Sample.floats Sample.noVars Sample.lateCheck).InRange ∧
      (Hbbr.run Sample.floats Sample.noVars Sample.lateCheck).val.statics.downgradeStartCheck =
        384 ∧
      ¬(Rendezvous.checkCmd "ib 2147483647" ⟨0, [], []⟩).InRange := by
  decide +kernel

end Relay

end NemoServer
