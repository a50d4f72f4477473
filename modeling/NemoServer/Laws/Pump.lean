import NemoServer.Laws.Overflow
import NemoServer.Relay.Pump

/-!
# What a relayed session passes on

* `step_counters`: the counters of hbbr with its traffic are those of `Hbbr`.
* `relay_passes_bytes`: each side is sent what the other one wrote, in order, and at most the frame
  that ends the session is lost.
-/

set_option autoImplicit false

namespace NemoServer

namespace Relay

variable {X : Floats}

/-! ## The counters -/

theorem Session.select_id {x y : Session} {arm : Arm} (h : (x.select arm).val = some y) :
    y.id = x.id := by
  cases arm with
  | received len sent =>
    simp only [Session.select, Arith.val_bind, Arith.val_pure] at h
    split at h
    · cases h
    · rw [← Option.some.inj h]
  | closed => cases h
  | tick idle =>
    simp only [Session.select, Arith.val_pure] at h
    split at h
    · cases h
    · rw [← Option.some.inj h]

/-- A frame that could not be sent ends the loop. -/
theorem Session.select_failed (x : Session) {bytes : Bytes} (h : bytes ≠ []) :
    (x.select (.received bytes.length false)).val = none := by
  have hlen : bytes.length ≠ 0 := fun hzero => h (List.length_eq_zero_iff.1 hzero)
  exact if_pos ⟨hlen, rfl⟩

namespace Pump

variable {x : Pump} {ready : Ready} {received : ℕ}

theorem pass_on (t : ℕ) (ready : Ready) : (x.pass t ready).on = x.on := by
  unfold pass
  split <;> rfl

theorem pass_session (x : Pump) (t : ℕ) (ready : Ready) : (x.pass t ready).session = x.session := by
  unfold pass
  split <;> rfl

/-- The round after a measurement. -/
def settled (x y : Pump) (millis restarted : ℕ) (z : Session) :
    Option Session × Statics → Pump × Statics
  | (none, s) => ({ y with session := z, on := false }, s)
  | (some w, s) =>
    ({ y with session := w, tm := if millis % 2 ^ 64 < 1000 then x.tm else restarted }, s)

theorem round_of_none (s : Statics) (checked restarted : ℕ)
    (h : (x.session.select (x.arm received ready)).val = none) :
    (x.round s ready received checked restarted).val =
        ({ x.pass received ready with on := false }, s) ∧
      ((x.round s ready received checked restarted).InRange ↔
        (x.session.select (x.arm received ready)).InRange) := by
  unfold round
  rw [Arith.val_bind, Arith.inRange_bind, h]
  exact ⟨rfl, and_iff_left (Arith.inRange_pure _)⟩

theorem round_of_some (s : Statics) (checked restarted : ℕ) {z : Session}
    (h : (x.session.select (x.arm received ready)).val = some z) :
    (x.round s ready received checked restarted).val =
        settled x (x.pass received ready) (asMillis (checked - x.tm)) restarted z
          (z.measure s (asMillis (checked - x.tm))).val ∧
      ((x.round s ready received checked restarted).InRange ↔
        (x.session.select (x.arm received ready)).InRange ∧
          (z.measure s (asMillis (checked - x.tm))).InRange) := by
  unfold round
  rw [Arith.val_bind, Arith.inRange_bind, h]
  dsimp only
  rw [Arith.val_bind, Arith.inRange_bind]
  rcases (z.measure s (asMillis (checked - x.tm))).val with ⟨_ | w, s'⟩
  · exact ⟨rfl, and_congr_right fun _ => and_iff_left (Arith.inRange_pure _)⟩
  · exact ⟨rfl, and_congr_right fun _ => and_iff_left (Arith.inRange_pure _)⟩

end Pump

namespace Relaying

theorem counters_insert {statics : Statics} {pumps : Table ℕ Pump} {k : ℕ} {x : Pump}
    (h : x.on = true) : counters ⟨statics, pumps.insert k x⟩ =
      ⟨statics, (counters ⟨statics, pumps⟩).sessions.insert k x.session⟩ := by
  refine congrArg (Hbbr.mk statics) (funext fun j => ?_)
  show (((pumps.insert k x) j).filter (·.on)).map (·.session) = _
  rw [Table.insert_apply, Table.insert_apply]
  by_cases hj : j = k
  · rw [if_pos hj, if_pos hj]
    simp [h]
  · rw [if_neg hj, if_neg hj]
    rfl

theorem counters_insert_off {statics : Statics} {pumps : Table ℕ Pump} {k : ℕ} {x : Pump}
    (h : x.on = false) : counters ⟨statics, pumps.insert k x⟩ =
      ⟨statics, (counters ⟨statics, pumps⟩).sessions.remove k⟩ := by
  refine congrArg (Hbbr.mk statics) (funext fun j => ?_)
  show (((pumps.insert k x) j).filter (·.on)).map (·.session) = _
  rw [Table.insert_apply, Table.remove_apply]
  by_cases hj : j = k
  · rw [if_pos hj, if_pos hj]
    simp [h]
  · rw [if_neg hj, if_neg hj]
    rfl

theorem step_counters_round {s : Relaying} {k received checked restarted : ℕ} {ready : Ready}
    {x : Pump} (hx : s.pumps k = some x) (hon : x.on = true)
    (hsome : s.counters.sessions k = some x.session) :
    (s.step X (.round k ready received checked restarted)).val.counters =
        (s.counters.step X (s.seen (.round k ready received checked restarted))).val ∧
      ((s.step X (.round k ready received checked restarted)).InRange ↔
        (s.counters.step X (s.seen (.round k ready received checked restarted))).InRange) := by
  have hstep : s.step X (.round k ready received checked restarted) =
      x.round s.statics ready received checked restarted >>= fun r =>
        pure ⟨if r.1.on then r.2 else forget r.2 x.session.id, s.pumps.insert k r.1⟩ := by
    simp only [step, hx, hon, if_true]
  rw [hstep, Arith.val_bind, Arith.inRange_bind, and_iff_left (Arith.inRange_pure _), Arith.val_pure]
  simp only [seen, Hbbr.step, hx, hsome, Arith.val_bind, Arith.inRange_bind]
  cases hsel : (x.session.select (x.arm received ready)).val with
  | none =>
    obtain ⟨hval, hrange⟩ := Pump.round_of_none s.statics checked restarted hsel
    rw [hval, hrange, counters_insert_off rfl]
    exact ⟨rfl, (and_iff_left (Arith.inRange_pure _)).symm⟩
  | some z =>
    obtain ⟨hval, hrange⟩ := Pump.round_of_some s.statics checked restarted hsel
    have hid := Session.select_id hsel
    rw [hval, hrange]
    dsimp only
    rw [Arith.val_bind, Arith.inRange_bind, and_iff_left (Arith.inRange_pure _), Arith.val_pure]
    refine ⟨?_, Iff.rfl⟩
    obtain ⟨r, hr⟩ : ∃ r, (z.measure s.statics (asMillis (checked - x.tm))).val = r := ⟨_, rfl⟩
    have hr' : (z.measure s.counters.statics (asMillis (checked - x.tm))).val = r := hr
    rw [hr, hr']
    obtain ⟨_ | w, s'⟩ := r
    · rw [Pump.settled, counters_insert_off rfl, ← hid]
      rfl
    · have hy : (x.pass received ready).on = true := (Pump.pass_on received ready).trans hon
      rw [Pump.settled, if_pos hy]
      refine (counters_insert ?_).trans rfl
      exact hy

/-- The bytes leave the counters alone: a step is the step of `Hbbr` on what it sees. -/
theorem step_counters (s : Relaying) (e : Traffic) :
    (s.step X e).val.counters = (s.counters.step X (s.seen e)).val ∧
      ((s.step X e).InRange ↔ (s.counters.step X (s.seen e)).InRange) := by
  cases e with
  | command cmd =>
    rw [step, seen, Hbbr.step, Arith.val_bind, Arith.val_bind, Arith.inRange_bind,
      Arith.inRange_bind, and_iff_left (Arith.inRange_pure _), and_iff_left (Arith.inRange_pure _)]
    have hstatics : s.counters.statics = s.statics := rfl
    rw [hstatics]
    generalize checkCmd X cmd s.statics = r
    exact ⟨rfl, Iff.rfl⟩
  | begins k id ip label now =>
    refine ⟨?_, iff_of_true (Arith.inRange_pure _) (Arith.inRange_pure _)⟩
    rw [step, seen, Hbbr.step, Arith.val_pure, Arith.val_pure]
    refine (counters_insert ?_).trans ?_
    · rfl
    · rfl
  | round k ready received checked restarted =>
    cases hx : s.pumps k with
    | none =>
      have hnone : s.counters.sessions k = none := by simp [counters, hx]
      simp only [step, seen, Hbbr.step, hx, hnone]
      exact ⟨rfl, iff_of_true (Arith.inRange_pure _) (Arith.inRange_pure _)⟩
    | some x =>
      cases hon : x.on with
      | false =>
        have hnone : s.counters.sessions k = none := by simp [counters, hx, hon]
        simp only [step, seen, Hbbr.step, hx, hnone, hon]
        exact ⟨rfl, iff_of_true (Arith.inRange_pure _) (Arith.inRange_pure _)⟩
      | true =>
        have hsome : s.counters.sessions k = some x.session := by simp [counters, hx, hon]
        exact step_counters_round hx hon hsome

theorem run_cons (X : Floats) (env : ParamVars) (e : Traffic) (past : List Traffic) :
    (run X env (e :: past)).val = ((run X env past).val.step X e).val ∧
      ((run X env (e :: past)).InRange ↔
        (run X env past).InRange ∧ ((run X env past).val.step X e).InRange) := by
  unfold run
  rw [Arith.runs, Arith.val_bind, Arith.inRange_bind]
  exact ⟨rfl, Iff.rfl⟩

/-- hbbr with its traffic refines hbbr with its counters. -/
theorem run_counters (env : ParamVars) (events : List Traffic) :
    (run X env events).val.counters = (Hbbr.run X env (seenAll X env events)).val ∧
      ((run X env events).InRange ↔ (Hbbr.run X env (seenAll X env events)).InRange) := by
  induction events with
  | nil =>
    rw [run, seenAll, Hbbr.run, Arith.runs, Arith.runs, Arith.val_bind, Arith.val_bind,
      Arith.inRange_bind, Arith.inRange_bind, and_iff_left (Arith.inRange_pure _),
      and_iff_left (Arith.inRange_pure _)]
    exact ⟨rfl, Iff.rfl⟩
  | cons e past ih =>
    obtain ⟨hval, hrange⟩ := ih
    obtain ⟨hstep, hin⟩ := step_counters (X := X) (run X env past).val e
    rw [hval] at hstep hin
    obtain ⟨hnext, hnextin⟩ := run_cons X env e past
    rw [hnext, hnextin, seenAll, Hbbr.run, Arith.runs, Arith.val_bind, Arith.inRange_bind]
    exact ⟨hstep, and_congr hrange hin⟩

end Relaying

/-! ## The bytes -/

namespace Pump

variable {x : Pump} {ready : Ready} {received : ℕ}

/-- What a side wrote that is to be sent. -/
def due (x : Pump) (side : Side) : List Bytes := (x.received side).filter fun b => !b.isEmpty

/-- What was received is what was sent to the other side, and what was lost. -/
def Passes (x : Pump) (lost : Side → List Bytes) : Prop :=
  ∀ side, x.due side = x.sent side.other ++ lost side

/-- The frame of a side, if it was not sent. -/
def unsent (ready : Ready) : Side → List Bytes :=
  match ready with
  | .recv side (some bytes) false => if bytes.isEmpty then fun _ => []
      else Function.update (fun _ => []) side [bytes]
  | _ => fun _ => []

theorem Side.other_inj {a b : Side} : a.other = b.other ↔ a = b := by
  cases a <;> cases b <;> decide

theorem Passes.pass (h : x.Passes fun _ => []) (t : ℕ) (ready : Ready) :
    (x.pass t ready).Passes (unsent ready) := by
  intro side
  have hside : x.due side = x.sent side.other := (h side).trans (List.append_nil _)
  cases ready with
  | timer => exact hside.trans (List.append_nil _).symm
  | recv from' res sent =>
    cases res with
    | none =>
      cases sent <;> exact hside.trans (List.append_nil _).symm
    | some bytes =>
      by_cases hfrom : side = from'
      · subst hfrom
        cases hempty : bytes.isEmpty <;> cases sent <;>
          simp [due, Pump.pass, unsent, hempty, ← hside]
      · have hother : ¬side.other = from'.other := fun heq => hfrom (Side.other_inj.1 heq)
        cases hempty : bytes.isEmpty <;> cases sent <;>
          simp [due, Pump.pass, unsent, hempty, hfrom, hother, ← hside]

theorem length_unsent_le (ready : Ready) :
    (unsent ready .stream).length + (unsent ready .peer).length ≤ 1 := by
  unfold unsent
  split
  · split
    · exact Nat.zero_le 1
    · next side _ _ => cases side <;> simp
  · exact Nat.zero_le 1

/-- A frame that is not sent ends the loop. -/
theorem unsent_of_some {z : Session} {t : ℕ}
    (h : (x.session.select (x.arm t ready)).val = some z) (side : Side) :
    unsent ready side = [] := by
  unfold unsent
  split
  · next from' bytes =>
    split
    · rfl
    · next hempty =>
      have hne : bytes ≠ [] := fun hnil => hempty (List.isEmpty_iff.2 hnil)
      have hnone := Session.select_failed x.session hne
      exact absurd (hnone.symm.trans h) (Option.some_ne_none z).symm
  · rfl

/-- At most one frame is lost, with which the loop ends. -/
structure LostAtEnd (x : Pump) (lost : Side → List Bytes) : Prop where
  atMostOne : (lost .stream).length + (lost .peer).length ≤ 1
  atEnd : x.on = true → ∀ side, lost side = []

theorem LostAtEnd.round {s : Statics} {checked restarted : ℕ} (h : x.Passes fun _ => []) :
    ∃ lost, (x.round s ready received checked restarted).val.1.Passes lost ∧
      (x.round s ready received checked restarted).val.1.LostAtEnd lost := by
  have hpass := h.pass received ready
  refine ⟨unsent ready, ?_⟩
  cases hsel : (x.session.select (x.arm received ready)).val with
  | none =>
    rw [(round_of_none _ _ _ hsel).1]
    exact ⟨hpass, length_unsent_le ready, fun hoff => absurd hoff Bool.false_ne_true⟩
  | some z =>
    have hlost := unsent_of_some hsel
    rw [(round_of_some _ _ _ hsel).1]
    obtain ⟨_ | w, s'⟩ := (z.measure s (asMillis (checked - x.tm))).val
    · exact ⟨hpass, length_unsent_le ready, fun _ => hlost⟩
    · exact ⟨hpass, length_unsent_le ready, fun _ => hlost⟩

end Pump

namespace Sample

/-- A session in which the parked side writes and the other one hangs up. -/
def hungUp : List Traffic :=
  [.round 0 (.recv .stream none true) 3 3 3, .round 0 (.recv .peer (some [1, 2]) true) 2 2 2,
    .begins 0 "192.0.2.1:4000" "192.0.2.1" "0123456789abcdef" 1]

theorem hungUp_isSome : ((Relaying.run floats noVars hungUp).val.pumps 0).isSome = true := by
  decide +kernel

/-- The session after that. -/
def hungUpPump : Pump := ((Relaying.run floats noVars hungUp).val.pumps 0).get hungUp_isSome

end Sample

/-- At any time of a run, each side of a session has been sent the frames of the other side that are
not empty, in order. At most one frame of the two sides is missing, and none while the session goes
on. -/
theorem relay_passes_bytes (X : Floats) (env : ParamVars) (events : List Traffic) (k : ℕ) (x : Pump)
    (h : (Relaying.run X env events).val.pumps k = some x) :
    ∃ lost : Side → List Bytes,
      (∀ side, (x.received side).filter (fun b => !b.isEmpty) = x.sent side.other ++ lost side) ∧
      (lost .stream).length + (lost .peer).length ≤ 1 ∧
      (x.on = true → ∀ side, lost side = []) := by
  suffices hlost : ∃ lost, x.Passes lost ∧ x.LostAtEnd lost by
    obtain ⟨lost, hpasses, hmost, hend⟩ := hlost
    exact ⟨lost, hpasses, hmost, hend⟩
  induction events generalizing k x with
  | nil => cases h
  | cons e past ih =>
    rw [(Relaying.run_cons X env e past).1] at h
    generalize (Relaying.run X env past).val = s at ih h
    cases e with
    | command cmd =>
      rw [Relaying.step, Arith.val_bind] at h
      exact ih k x h
    | begins j id ip label now =>
      rw [Relaying.step, Arith.val_pure] at h
      obtain ⟨-, hx⟩ | ⟨-, hx⟩ := Table.insert_eq_some.1 h
      · rw [← hx]
        exact ⟨fun _ => [], fun _ => rfl, Nat.zero_le 1, fun _ _ => rfl⟩
      · exact ih k x hx
    | round j ready received checked restarted =>
      cases hy : s.pumps j with
      | none =>
        simp only [Relaying.step, hy] at h
        exact ih k x h
      | some y =>
        cases hon : y.on with
        | false =>
          simp only [Relaying.step, hy, hon] at h
          exact ih k x h
        | true =>
          simp only [Relaying.step, hy, hon, if_true, Arith.val_bind] at h
          obtain ⟨-, rfl⟩ | ⟨-, hx⟩ := Table.insert_eq_some.1 h
          · obtain ⟨lost, hpasses, -, hend⟩ := ih j y hy
            refine Pump.LostAtEnd.round fun side => ?_
            rw [hpasses side, hend hon side]
          · exact ih k x hx

theorem relay_passes_bytes_hungUp :
    ∃ lost : Side → List Bytes,
      (∀ side, (Sample.hungUpPump.received side).filter (fun b => !b.isEmpty) =
        Sample.hungUpPump.sent side.other ++ lost side) ∧
      (lost .stream).length + (lost .peer).length ≤ 1 ∧
      (Sample.hungUpPump.on = true → ∀ side, lost side = []) :=
  relay_passes_bytes Sample.floats Sample.noVars Sample.hungUp 0 Sample.hungUpPump
    (Option.some_get Sample.hungUp_isSome).symm

end Relay

end NemoServer
