import NemoServer.Laws.Pump

/-!
# The rows of `USAGE`

While no two sessions that are relayed have the same joining side, `USAGE` and `SESSION_LABELS` have
a row for each session that is relayed and for no other, and the row has the bits that went through
the session up to its last measurement.

* `lookup_insertEntry`, `lookup_removeEntry`: the maps of hbbr.
* `Relaying.Rows`: what the rows say, and `Rows.step`.
* `usage_row_exact`: the law.
-/

set_option autoImplicit false

namespace NemoServer

namespace Relay

/-! ## Maps -/

section Maps

variable {V : Type} {l : List (String × V)} {k j : String} {v : V}

theorem lookup_cons_if (a : String) (v : V) (l : List (String × V)) (j : String) :
    ((a, v) :: l).lookup j = if j = a then some v else l.lookup j := by
  rw [List.lookup_cons]
  by_cases h : j = a
  · rw [if_pos h, beq_iff_eq.2 h]
  · rw [if_neg h, beq_eq_false_iff_ne.2 h]

theorem lookup_removeEntry (l : List (String × V)) (k j : String) :
    (removeEntry l k).lookup j = if j = k then none else l.lookup j := by
  induction l with
  | nil => simp [removeEntry]
  | cons e l ih =>
    obtain ⟨a, w⟩ := e
    unfold removeEntry at ih ⊢
    by_cases hak : a = k
    · rw [List.filter_cons_of_neg (by simp [hak]), ih, lookup_cons_if, hak]
      by_cases hjk : j = k <;> simp [hjk]
    · rw [List.filter_cons_of_pos (by simp [hak]), lookup_cons_if, lookup_cons_if, ih]
      by_cases hja : j = a
      · simp [hja, hak]
      · rw [if_neg hja, if_neg hja]

theorem lookup_concat (l : List (String × V)) (k : String) (v : V) (j : String) :
    (l ++ [(k, v)]).lookup j = (l.lookup j).or (if j = k then some v else none) := by
  induction l with
  | nil => rw [List.nil_append, lookup_cons_if, List.lookup_nil, Option.none_or]
  | cons e l ih =>
    obtain ⟨a, w⟩ := e
    rw [List.cons_append, lookup_cons_if, lookup_cons_if, ih]
    by_cases hja : j = a <;> simp [hja]

theorem lookup_replace (l : List (String × V)) (k : String) (v : V) (j : String) :
    (l.map fun e => if e.1 = k then (k, v) else e).lookup j =
      if j = k then (l.lookup k).map fun _ => v else l.lookup j := by
  induction l with
  | nil => simp
  | cons e l ih =>
    obtain ⟨a, w⟩ := e
    rw [List.map_cons, lookup_cons_if a w l k, lookup_cons_if a w l j]
    by_cases hak : a = k
    · rw [if_pos hak, lookup_cons_if, ih, hak]
      by_cases hjk : j = k <;> simp [hjk]
    · rw [if_neg hak, lookup_cons_if, ih, if_neg (Ne.symm hak)]
      by_cases hja : j = a
      · simp [hja, hak]
      · rw [if_neg hja, if_neg hja]

theorem lookup_insertEntry (l : List (String × V)) (k : String) (v : V) (j : String) :
    (insertEntry l k v).lookup j = if j = k then some v else l.lookup j := by
  unfold insertEntry
  split
  · next h =>
    obtain ⟨w, hw⟩ := Option.isSome_iff_exists.1 h
    rw [lookup_replace, hw]
    rfl
  · next h =>
    have hnone := Option.not_isSome_iff_eq_none.1 h
    rw [lookup_concat]
    by_cases hj : j = k
    · rw [if_pos hj, if_pos hj, hj, hnone]
      rfl
    · rw [if_neg hj, if_neg hj, Option.or_none]

theorem lookup_eq_none_iff : l.lookup k = none ↔ k ∉ l.map Prod.fst := by
  induction l with
  | nil => simp
  | cons e l ih =>
    obtain ⟨a, w⟩ := e
    rw [lookup_cons_if]
    by_cases h : k = a <;> simp [h, ih]

/-- The keys stay distinct. -/
theorem nodup_insertEntry (h : (l.map Prod.fst).Nodup) (k : String) (v : V) :
    ((insertEntry l k v).map Prod.fst).Nodup := by
  unfold insertEntry
  split
  · have hkeys : (l.map fun e => if e.1 = k then (k, v) else e).map Prod.fst = l.map Prod.fst := by
      rw [List.map_map]
      refine List.map_congr_left fun e _ => ?_
      by_cases he : e.1 = k <;> simp [he]
    rw [hkeys]
    exact h
  · next hk =>
    have hnone := lookup_eq_none_iff.1 (Option.not_isSome_iff_eq_none.1 hk)
    rw [List.map_append]
    refine List.nodup_append.2 ⟨h, by simp, fun a ha b hb hab => ?_⟩
    rw [List.map_singleton, List.mem_singleton] at hb
    rw [hab, hb] at ha
    exact hnone ha

theorem nodup_removeEntry (h : (l.map Prod.fst).Nodup) (k : String) :
    ((removeEntry l k).map Prod.fst).Nodup :=
  h.sublist ((List.filter_sublist).map _)

theorem mem_insertEntry {e : String × V} (h : e ∈ insertEntry l k v) : e = (k, v) ∨ e ∈ l := by
  unfold insertEntry at h
  split at h
  · obtain ⟨e', he', heq⟩ := List.mem_map.1 h
    split at heq
    · exact .inl heq.symm
    · exact .inr (heq ▸ he')
  · obtain h | h := List.mem_append.1 h
    · exact .inr h
    · exact .inl (List.mem_singleton.1 h)

theorem lookup_of_mem (h : (l.map Prod.fst).Nodup) {e : String × V} (he : e ∈ l) :
    l.lookup e.1 = some e.2 := by
  induction l with
  | nil => exact absurd he List.not_mem_nil
  | cons a l ih =>
    rw [List.map_cons, List.nodup_cons] at h
    obtain ⟨k, v⟩ := a
    rw [lookup_cons_if]
    obtain rfl | he := List.mem_cons.1 he
    · exact if_pos rfl
    · have hmem : e.1 ∈ l.map Prod.fst := List.mem_map_of_mem he
      have hne : e.1 ≠ k := fun heq => h.1 (heq ▸ hmem)
      rw [if_neg hne, ih h.2 he]

end Maps

/-! ## The counters of a session -/

theorem Session.select_counts {x z : Session} {arm : Arm} (hin : (x.select arm).InRange)
    (hz : (x.select arm).val = some z) :
    z.total = arm.bits + x.total ∧ z.totalS = arm.bits + x.totalS ∧ z.elapsed = x.elapsed := by
  cases arm with
  | received len sent =>
    simp only [Session.select, Arith.inRange_bind, Arith.inRange_natOp, Arith.inRange_pure,
      and_true] at hin
    obtain ⟨hnb, htotal, htotalS⟩ := hin
    rw [Arith.val_natOp hnb] at htotal htotalS
    simp only [Session.select, Arith.val_bind, Arith.val_pure, Arith.val_natOp hnb,
      Arith.val_natOp htotal, Arith.val_natOp htotalS] at hz
    split at hz
    · cases hz
    · rw [← Option.some.inj hz]
      exact ⟨Nat.add_comm _ _, Nat.add_comm _ _, rfl⟩
  | closed => cases hz
  | tick idle =>
    simp only [Session.select, Arith.val_pure] at hz
    split at hz
    · cases hz
    · rw [← Option.some.inj hz]
      exact ⟨(Nat.zero_add _).symm, (Nat.zero_add _).symm, rfl⟩

/-- What a measurement writes: nothing before a second is over, else the row of the session. -/
theorem Session.measure_row {z w : Session} {s s' : Statics} {millis : ℕ}
    (h : (z.measure s millis).val = (some w, s')) :
    w = z ∧ s' = s ∨ w.id = z.id ∧ w.total = z.total ∧ w.totalS = 0 ∧ ∃ peak speed,
      s' = { s with usage := insertEntry s.usage z.id (w.elapsed, z.total, peak, speed) } := by
  unfold Session.measure at h
  dsimp only at h
  split at h
  · obtain ⟨hw, hs⟩ := Prod.mk.inj h
    exact .inl ⟨(Option.some.inj hw).symm, hs.symm⟩
  · split at h
    · cases (Prod.mk.inj h).1
    · rw [Arith.val_bind] at h
      split at h
      · obtain ⟨hw, hs⟩ := Prod.mk.inj h
        rw [← Option.some.inj hw]
        exact .inr ⟨rfl, rfl, rfl, _, _, hs.symm⟩
      · obtain ⟨hw, hs⟩ := Prod.mk.inj h
        rw [← Option.some.inj hw]
        exact .inr ⟨rfl, rfl, rfl, _, _, hs.symm⟩

/-- A session is left at a measurement for the sake of the blocklist; nothing is written then. -/
theorem Session.measure_left {z : Session} {s s' : Statics} {millis : ℕ}
    (h : (z.measure s millis).val = (none, s')) : s' = s := by
  unfold Session.measure at h
  dsimp only at h
  split at h
  · cases (Prod.mk.inj h).1
  · split at h
    · exact (Prod.mk.inj h).2.symm
    · rw [Arith.val_bind] at h
      split at h
      · cases (Prod.mk.inj h).1
      · cases (Prod.mk.inj h).1

/-- The commands leave the sessions alone. -/
theorem runCmd_sessions (X : Floats) (s : Statics) (arg : Option String) (c : Cmd) :
    (runCmd X s arg c).val.2.usage = s.usage ∧
      (runCmd X s arg c).val.2.sessionLabels = s.sessionLabels := by
  have hstore : ∀ v (f : X.F → Statics), (∀ a, (f a).usage = s.usage ∧
      (f a).sessionLabels = s.sessionLabels) →
      (X.store v s f).usage = s.usage ∧ (X.store v s f).sessionLabels = s.sessionLabels := by
    intro v f hf
    unfold Floats.store
    split
    · exact hf _
    · exact ⟨rfl, rfl⟩
  cases c with
  | downgradeStartCheck =>
    cases arg with
    | none => exact ⟨rfl, rfl⟩
    | some v =>
      simp only [runCmd, Arith.val_bind, Arith.val_pure, storeStartCheck]
      split <;> exact ⟨rfl, rfl⟩
  | downgradeThreshold =>
    cases arg with
    | none => exact ⟨rfl, rfl⟩
    | some v => exact hstore v _ fun _ => ⟨rfl, rfl⟩
  | limitSpeed =>
    cases arg with
    | none => exact ⟨rfl, rfl⟩
    | some v => exact hstore v _ fun _ => ⟨rfl, rfl⟩
  | totalBandwidth =>
    cases arg with
    | none => exact ⟨rfl, rfl⟩
    | some v => exact hstore v _ fun _ => ⟨rfl, rfl⟩
  | singleBandwidth =>
    cases arg with
    | none => exact ⟨rfl, rfl⟩
    | some v => exact hstore v _ fun _ => ⟨rfl, rfl⟩
  | blacklistAdd => cases arg <;> exact ⟨rfl, rfl⟩
  | blacklistRemove => cases arg <;> exact ⟨rfl, rfl⟩
  | blocklistAdd => cases arg <;> exact ⟨rfl, rfl⟩
  | blocklistRemove => cases arg <;> exact ⟨rfl, rfl⟩
  | help => exact ⟨rfl, rfl⟩
  | blacklist => exact ⟨rfl, rfl⟩
  | blocklist => exact ⟨rfl, rfl⟩
  | usage => exact ⟨rfl, rfl⟩
  | usageJson => exact ⟨rfl, rfl⟩

theorem checkCmd_sessions (X : Floats) (cmd : String) (s : Statics) :
    (checkCmd X cmd s).val.2.usage = s.usage ∧
      (checkCmd X cmd s).val.2.sessionLabels = s.sessionLabels := by
  unfold checkCmd
  split
  · exact ⟨rfl, rfl⟩
  · exact runCmd_sessions X s _ _

theorem checkParams_sessions (X : Floats) (env : ParamVars) (s : Statics) :
    (checkParams X env s).val.usage = s.usage ∧
      (checkParams X env s).val.sessionLabels = s.sessionLabels := by
  unfold checkParams storeStartCheck
  dsimp only
  split <;> rw [Arith.val_bind] <;> split <;> dsimp only [Arith.val_bind, Arith.val_pure] <;>
    split <;> split <;> split <;> exact ⟨rfl, rfl⟩

/-- The bits that went through the session. -/
def Pump.bits (x : Pump) : ℕ :=
  8 * ((x.received .stream).flatten.length + (x.received .peer).flatten.length)

theorem Pump.bits_pass (x : Pump) (t : ℕ) (ready : Ready) :
    (x.pass t ready).bits = (x.arm t ready).bits + x.bits := by
  cases ready with
  | timer => exact (Nat.zero_add _).symm
  | recv side res sent =>
    cases res with
    | none => exact (Nat.zero_add _).symm
    | some bytes =>
      cases side <;>
        simp only [Pump.bits, Pump.pass, Pump.arm, Arm.bits, Function.update_self,
          List.flatten_append, List.length_append, List.flatten_singleton] <;> simp <;> omega

/-! ## The rows -/

namespace Relaying

variable {X : Floats}

/-- The session `x` is relayed. -/
def On (s : Relaying) (k : ℕ) (x : Pump) : Prop := s.pumps k = some x ∧ x.on = true

/-- The rows are those of the sessions that are relayed, and up to date with the last measurement. -/
structure Rows (s : Relaying) : Prop where
  keys : (s.statics.usage.map Prod.fst).Nodup
  usage : ∀ id, (s.statics.usage.lookup id).isSome = true ↔ ∃ k x, s.On k x ∧ x.session.id = id
  labels : ∀ id, (s.statics.sessionLabels.lookup id).isSome = true ↔
    ∃ k x, s.On k x ∧ x.session.id = id
  apart : ∀ j k x y, s.On j x → s.On k y → x.session.id = y.session.id → j = k
  total : ∀ k x, s.On k x → x.session.total = x.bits ∧ x.session.totalS ≤ x.session.total
  row : ∀ k x, s.On k x → ∃ peak speed, s.statics.usage.lookup x.session.id =
    some (x.session.elapsed, x.session.total - x.session.totalS, peak, speed)

theorem on_insert {statics : Statics} {pumps : Table ℕ Pump} {k j : ℕ} {y z : Pump} :
    On ⟨statics, pumps.insert k y⟩ j z ↔
      (j = k ∧ y = z ∧ y.on = true) ∨ (j ≠ k ∧ On ⟨statics, pumps⟩ j z) := by
  unfold On
  dsimp only
  rw [Table.insert_eq_some]
  constructor
  · rintro ⟨⟨hj, rfl⟩ | ⟨hj, hz⟩, hon⟩
    · exact .inl ⟨hj, rfl, hon⟩
    · exact .inr ⟨hj, hz, hon⟩
  · rintro (⟨hj, rfl, hon⟩ | ⟨hj, hz, hon⟩)
    · exact ⟨.inl ⟨hj, rfl⟩, hon⟩
    · exact ⟨.inr ⟨hj, hz⟩, hon⟩

variable {s : Relaying} {k : ℕ} {x y : Pump}

/-- A session that is left takes its rows with it. -/
theorem Rows.leave (h : s.Rows) (hx : s.On k x) (hy : y.on = false) :
    Rows ⟨forget s.statics x.session.id, s.pumps.insert k y⟩ := by
  have hon : ∀ j z, On ⟨forget s.statics x.session.id, s.pumps.insert k y⟩ j z ↔
      j ≠ k ∧ s.On j z := by
    intro j z
    rw [on_insert, hy]
    simp [On]
  have hother : ∀ j z, j ≠ k → s.On j z → z.session.id ≠ x.session.id :=
    fun j z hj hz heq => hj (h.apart j k z x hz hx heq)
  have hkeys : ∀ {V : Type} (l : List (String × V)),
      (∀ id, (l.lookup id).isSome = true ↔ ∃ k x, s.On k x ∧ x.session.id = id) → ∀ id,
      ((removeEntry l x.session.id).lookup id).isSome = true ↔
        ∃ j z, On ⟨forget s.statics x.session.id, s.pumps.insert k y⟩ j z ∧ z.session.id = id := by
    intro V l hl id
    rw [lookup_removeEntry]
    by_cases hid : id = x.session.id
    · rw [if_pos hid]
      refine iff_of_false (by simp) ?_
      rintro ⟨j, z, hz, rfl⟩
      obtain ⟨hj, hz⟩ := (hon j z).1 hz
      exact hother j z hj hz hid
    · rw [if_neg hid, hl id]
      constructor
      · rintro ⟨j, z, hz, rfl⟩
        refine ⟨j, z, (hon j z).2 ⟨?_, hz⟩, rfl⟩
        rintro rfl
        have hzx := Option.some.inj (hz.1.symm.trans hx.1)
        exact hid (congrArg (fun p => p.session.id) hzx)
      · rintro ⟨j, z, hz, rfl⟩
        exact ⟨j, z, ((hon j z).1 hz).2, rfl⟩
  refine ⟨nodup_removeEntry h.keys _, hkeys _ h.usage, hkeys _ h.labels, ?_, ?_, ?_⟩
  · intro i j z w hz hw
    exact h.apart i j z w ((hon i z).1 hz).2 ((hon j w).1 hw).2
  · exact fun j z hz => h.total j z ((hon j z).1 hz).2
  · intro j z hz
    obtain ⟨hj, hz⟩ := (hon j z).1 hz
    obtain ⟨peak, speed, hrow⟩ := h.row j z hz
    refine ⟨peak, speed, ?_⟩
    show (removeEntry s.statics.usage x.session.id).lookup z.session.id = _
    rw [lookup_removeEntry, if_neg (hother j z hj hz), hrow]

/-- A session that goes on keeps its rows, where its row of `USAGE` may be written. -/
theorem Rows.stay (h : s.Rows) (hx : s.On k x) (hid : y.session.id = x.session.id)
    {statics : Statics} (hkeys : (statics.usage.map Prod.fst).Nodup)
    (hlabels : statics.sessionLabels = s.statics.sessionLabels)
    (husage : ∀ id, id ≠ x.session.id → statics.usage.lookup id = s.statics.usage.lookup id)
    (htotal : y.session.total = y.bits ∧ y.session.totalS ≤ y.session.total)
    (hrow : ∃ peak speed, statics.usage.lookup x.session.id =
      some (y.session.elapsed, y.session.total - y.session.totalS, peak, speed))
    (hy : y.on = true) : Rows ⟨statics, s.pumps.insert k y⟩ := by
  have hon : ∀ j z, On ⟨statics, s.pumps.insert k y⟩ j z ↔
      (j = k ∧ y = z) ∨ (j ≠ k ∧ s.On j z) := by
    intro j z
    rw [on_insert]
    simp [On, hy]
  have hsame : ∀ id, (∃ j z, On ⟨statics, s.pumps.insert k y⟩ j z ∧ z.session.id = id) ↔
      ∃ j z, s.On j z ∧ z.session.id = id := by
    intro id
    constructor
    · rintro ⟨j, z, hz, rfl⟩
      obtain ⟨-, rfl⟩ | ⟨-, hz⟩ := (hon j z).1 hz
      · exact ⟨k, x, hx, hid.symm⟩
      · exact ⟨j, z, hz, rfl⟩
    · rintro ⟨j, z, hz, rfl⟩
      by_cases hj : j = k
      · subst hj
        have hzx := Option.some.inj (hz.1.symm.trans hx.1)
        exact ⟨j, y, (hon j y).2 (.inl ⟨rfl, rfl⟩),
          hid.trans (congrArg (fun p => p.session.id) hzx.symm)⟩
      · exact ⟨j, z, (hon j z).2 (.inr ⟨hj, hz⟩), rfl⟩
  have hidOf : ∀ j z, On ⟨statics, s.pumps.insert k y⟩ j z →
      ∃ w, s.On j w ∧ w.session.id = z.session.id := by
    intro j z hz
    obtain ⟨rfl, rfl⟩ | ⟨-, hz⟩ := (hon j z).1 hz
    · exact ⟨x, hx, hid.symm⟩
    · exact ⟨z, hz, rfl⟩
  refine ⟨hkeys, fun id => ?_, fun id => ?_, fun i j z w hz hw heq => ?_, fun j z hz => ?_,
    fun j z hz => ?_⟩
  · rw [hsame, ← h.usage]
    by_cases hne : id = x.session.id
    · obtain ⟨peak, speed, hlook⟩ := hrow
      obtain ⟨peak', speed', hlook'⟩ := h.row k x hx
      show (statics.usage.lookup id).isSome = true ↔ _
      rw [hne, hlook, hlook']
      exact Iff.rfl
    · show (statics.usage.lookup id).isSome = true ↔ _
      rw [husage id hne]
  · rw [hsame, ← h.labels]
    show (statics.sessionLabels.lookup id).isSome = true ↔ _
    rw [hlabels]
  · obtain ⟨z', hz', hzid⟩ := hidOf i z hz
    obtain ⟨w', hw', hwid⟩ := hidOf j w hw
    exact h.apart i j z' w' hz' hw' (hzid.trans (heq.trans hwid.symm))
  · obtain ⟨-, rfl⟩ | ⟨-, hz⟩ := (hon j z).1 hz
    · exact htotal
    · exact h.total j z hz
  · obtain ⟨-, rfl⟩ | ⟨hj, hz⟩ := (hon j z).1 hz
    · rw [hid]
      exact hrow
    · obtain ⟨peak, speed, hlook⟩ := h.row j z hz
      refine ⟨peak, speed, ?_⟩
      show statics.usage.lookup z.session.id = _
      rw [husage _ fun heq => hj (h.apart j k z x hz hx heq), hlook]

theorem Rows.round {ready : Ready} {received checked restarted : ℕ} (h : s.Rows) (hx : s.On k x)
    (hin : (x.round s.statics ready received checked restarted).InRange)
    {r : Pump × Statics} (hr : (x.round s.statics ready received checked restarted).val = r) :
    Rows ⟨if r.1.on then r.2 else forget r.2 x.session.id, s.pumps.insert k r.1⟩ := by
  cases hsel : (x.session.select (x.arm received ready)).val with
  | none =>
    rw [(Pump.round_of_none _ _ _ hsel).1] at hr
    rw [← hr]
    exact h.leave hx rfl
  | some z =>
    obtain ⟨hval, hrange⟩ := Pump.round_of_some s.statics checked restarted hsel
    rw [hval] at hr
    obtain ⟨hselin, hmeasurein⟩ := hrange.1 hin
    obtain ⟨htotal, htotalS, helapsed⟩ := Session.select_counts hselin hsel
    have hid := Session.select_id hsel
    obtain ⟨hbits, hle⟩ := h.total k x hx
    have hpass := Pump.bits_pass x received ready
    obtain ⟨peak, speed, hrow⟩ := h.row k x hx
    have hon : (x.pass received ready).on = true := (Pump.pass_on received ready).trans hx.2
    cases hm : (z.measure s.statics (asMillis (checked - x.tm))).val with
    | mk w statics =>
      rw [hm] at hr
      cases w with
      | none =>
        rw [← hr, Session.measure_left hm]
        exact h.leave hx rfl
      | some w =>
        rw [← hr]
        show Rows ⟨if (x.pass received ready).on then statics else _, _⟩
        rw [if_pos hon]
        obtain ⟨rfl, rfl⟩ | ⟨hwid, hwtotal, hwtotalS, peak', speed', rfl⟩ :=
          Session.measure_row hm
        · refine h.stay hx hid h.keys rfl (fun _ _ => rfl) ⟨?_, ?_⟩ ⟨peak, speed, ?_⟩ hon
          · show w.total = (x.pass received ready).bits
            omega
          · show w.totalS ≤ w.total
            omega
          · have hsum : w.total - w.totalS = x.session.total - x.session.totalS := by omega
            show _ = some (w.elapsed, w.total - w.totalS, peak, speed)
            rw [hsum, helapsed]
            exact hrow
        · refine h.stay hx (hwid.trans hid) (nodup_insertEntry h.keys _ _) rfl (fun j hj => ?_)
            ⟨?_, ?_⟩ ⟨peak', speed', ?_⟩ hon
          · show (insertEntry s.statics.usage z.id _).lookup j = _
            rw [lookup_insertEntry, if_neg (by rw [hid]; exact hj)]
          · show w.total = (x.pass received ready).bits
            omega
          · show w.totalS ≤ w.total
            omega
          · show (insertEntry s.statics.usage z.id _).lookup x.session.id =
              some (w.elapsed, w.total - w.totalS, peak', speed')
            rw [lookup_insertEntry, if_pos hid.symm, hwtotal, hwtotalS, Nat.sub_zero]

/-- Two connections that are open at once do not have the same remote address. -/
def Apart (s : Relaying) : Traffic → Prop
  | .begins k id _ _ _ => (∀ x, ¬s.On k x) ∧ ∀ j x, s.On j x → x.session.id ≠ id
  | _ => True

theorem Rows.begins (h : s.Rows) {id ip label : String} {now : ℕ}
    (hapart : s.Apart (.begins k id ip label now)) :
    Rows (s.step X (.begins k id ip label now)).val := by
  obtain ⟨hk, hid⟩ := hapart
  have hon : ∀ j z, On (s.step X (.begins k id ip label now)).val j z ↔
      (j = k ∧ z = Pump.start (Session.start X { s.statics with
        usage := insertEntry s.statics.usage id (0, 0, 0, 0)
        sessionLabels := insertEntry s.statics.sessionLabels id label } id ip) now) ∨ s.On j z := by
    intro j z
    rw [step, Arith.val_pure, on_insert]
    constructor
    · rintro (⟨hj, rfl, -⟩ | ⟨-, hz⟩)
      · exact .inl ⟨hj, rfl⟩
      · exact .inr hz
    · rintro (⟨hj, rfl⟩ | hz)
      · exact .inl ⟨hj, rfl, rfl⟩
      · refine .inr ⟨?_, hz⟩
        rintro rfl
        exact hk z hz
  have hkeys : ∀ {V : Type} (l : List (String × V)) (v : V),
      (∀ id, (l.lookup id).isSome = true ↔ ∃ k x, s.On k x ∧ x.session.id = id) → ∀ id',
      ((insertEntry l id v).lookup id').isSome = true ↔
        ∃ j z, On (s.step X (.begins k id ip label now)).val j z ∧ z.session.id = id' := by
    intro V l v hl id'
    rw [lookup_insertEntry]
    by_cases hid' : id' = id
    · rw [if_pos hid']
      exact iff_of_true rfl ⟨k, _, (hon k _).2 (.inl ⟨rfl, rfl⟩), hid'.symm⟩
    · rw [if_neg hid', hl id']
      constructor
      · rintro ⟨j, z, hz, heq⟩
        exact ⟨j, z, (hon j z).2 (.inr hz), heq⟩
      · rintro ⟨j, z, hz, heq⟩
        obtain ⟨-, rfl⟩ | hz := (hon j z).1 hz
        · exact absurd heq.symm hid'
        · exact ⟨j, z, hz, heq⟩
  refine ⟨nodup_insertEntry h.keys _ _, hkeys _ _ h.usage, hkeys _ _ h.labels,
    fun i j z w hz hw heq => ?_, fun j z hz => ?_, fun j z hz => ?_⟩
  · obtain ⟨hi, hz'⟩ | hz' := (hon i z).1 hz
    · obtain ⟨hj, -⟩ | hw' := (hon j w).1 hw
      · exact hi.trans hj.symm
      · rw [hz'] at heq
        exact absurd heq.symm (hid j w hw')
    · obtain ⟨-, hw'⟩ | hw' := (hon j w).1 hw
      · rw [hw'] at heq
        exact absurd heq (hid i z hz')
      · exact h.apart i j z w hz' hw' heq
  · obtain ⟨-, rfl⟩ | hz := (hon j z).1 hz
    · exact ⟨rfl, Nat.le_refl _⟩
    · exact h.total j z hz
  · obtain ⟨-, rfl⟩ | hz := (hon j z).1 hz
    · refine ⟨0, 0, ?_⟩
      show (insertEntry s.statics.usage id _).lookup id = _
      rw [lookup_insertEntry, if_pos rfl]
      rfl
    · obtain ⟨peak, speed, hrow⟩ := h.row j z hz
      refine ⟨peak, speed, ?_⟩
      show (insertEntry s.statics.usage id _).lookup z.session.id = _
      rw [lookup_insertEntry, if_neg (hid j z hz), hrow]

theorem Rows.statics (h : s.Rows) {statics : Statics} (husage : statics.usage = s.statics.usage)
    (hlabels : statics.sessionLabels = s.statics.sessionLabels) :
    Rows { s with statics := statics } := by
  refine ⟨?_, fun id => ?_, fun id => ?_, h.apart, h.total, fun k x hx => ?_⟩
  · show (statics.usage.map _).Nodup
    rw [husage]
    exact h.keys
  · show (statics.usage.lookup id).isSome = true ↔ _
    rw [husage]
    exact h.usage id
  · show (statics.sessionLabels.lookup id).isSome = true ↔ _
    rw [hlabels]
    exact h.labels id
  · show ∃ peak speed, statics.usage.lookup _ = _
    rw [husage]
    exact h.row k x hx

theorem Rows.step (h : s.Rows) {e : Traffic} (hapart : s.Apart e) (hin : (s.step X e).InRange) :
    Rows (s.step X e).val := by
  cases e with
  | command cmd =>
    obtain ⟨husage, hlabels⟩ := checkCmd_sessions X cmd s.statics
    rw [Relaying.step, Arith.val_bind]
    exact h.statics husage hlabels
  | begins k id ip label now => exact h.begins hapart
  | round k ready received checked restarted =>
    cases hx : s.pumps k with
    | none =>
      simp only [Relaying.step, hx, Arith.val_pure]
      exact h
    | some x =>
      cases hon : x.on with
      | false =>
        simp only [Relaying.step, hx, hon]
        exact h
      | true =>
        simp only [Relaying.step, hx, hon, if_true, Arith.inRange_bind] at hin
        simp only [Relaying.step, hx, hon, if_true, Arith.val_bind]
        exact h.round ⟨hx, hon⟩ hin.1 rfl

theorem rows_initial {statics : Statics} (husage : statics.usage = [])
    (hlabels : statics.sessionLabels = []) : Rows ⟨statics, Table.empty⟩ := by
  have hnone : ∀ k x, ¬On ⟨statics, Table.empty⟩ k x := by
    rintro k x ⟨hx, -⟩
    cases hx
  refine ⟨?_, fun id => ?_, fun id => ?_, fun j k x y hx => absurd hx (hnone j x),
    fun k x hx => absurd hx (hnone k x), fun k x hx => absurd hx (hnone k x)⟩
  · show (statics.usage.map _).Nodup
    rw [husage]
    exact List.nodup_nil
  · refine iff_of_false ?_ fun ⟨k, x, hx, _⟩ => hnone k x hx
    show ¬(statics.usage.lookup id).isSome = true
    rw [husage]
    exact Bool.false_ne_true
  · refine iff_of_false ?_ fun ⟨k, x, hx, _⟩ => hnone k x hx
    show ¬(statics.sessionLabels.lookup id).isSome = true
    rw [hlabels]
    exact Bool.false_ne_true

theorem rows_run (X : Floats) (env : ParamVars) {events : List Traffic}
    (hin : (run X env events).InRange)
    (hapart : ∀ e past, e :: past <:+ events → Apart (run X env past).val e) :
    Rows (run X env events).val := by
  induction events with
  | nil =>
    obtain ⟨husage, hlabels⟩ := checkParams_sessions X env Statics.initial
    exact rows_initial husage hlabels
  | cons e past ih =>
    obtain ⟨hval, hrange⟩ := run_cons X env e past
    obtain ⟨hpast, hlast⟩ := hrange.1 hin
    rw [hval]
    exact (ih hpast fun e' past' hs => hapart e' past' (hs.trans (List.suffix_cons e past))).step
      (hapart e past List.suffix_rfl) hlast

/-- Unless an operation overflows, `USAGE` and `SESSION_LABELS` have a row for each session that is
relayed and for no other. The row of `USAGE` has the time that was measured, and all bits that went
through the session but those since the last measurement. -/
theorem usage_row_exact (X : Floats) (env : ParamVars) (events : List Traffic)
    (hin : (run X env events).InRange)
    (hapart : ∀ e past, e :: past <:+ events → Apart (run X env past).val e) :
    (∀ id, (((run X env events).val.statics.usage.lookup id).isSome = true ↔
        ∃ k x, On (run X env events).val k x ∧ x.session.id = id) ∧
      (((run X env events).val.statics.sessionLabels.lookup id).isSome = true ↔
        ∃ k x, On (run X env events).val k x ∧ x.session.id = id)) ∧
      ∀ k x, On (run X env events).val k x →
        x.session.total =
          8 * ((x.received .stream).flatten.length + (x.received .peer).flatten.length) ∧
        x.session.totalS ≤ x.session.total ∧
        ∃ peak speed, (run X env events).val.statics.usage.lookup x.session.id =
          some (x.session.elapsed, x.session.total - x.session.totalS, peak, speed) := by
  have h := rows_run X env hin hapart
  refine ⟨fun id => ⟨h.usage id, h.labels id⟩, fun k x hx => ?_⟩
  obtain ⟨htotal, hle⟩ := h.total k x hx
  exact ⟨htotal, hle, h.row k x hx⟩

/-- A session whose parked side writes for two seconds. -/
def Sample.wrote : List Traffic :=
  [.round 0 (.recv .peer (some [1, 2]) true) 2000000000 2000000000 2000000000,
    .begins 0 "192.0.2.1:4000" "192.0.2.1" "0123456789abcdef" 0]

theorem usage_row_exact_wrote :
    (∀ id, (((run Sample.floats Sample.noVars Sample.wrote).val.statics.usage.lookup
          id).isSome = true ↔
        ∃ k x, On (run Sample.floats Sample.noVars Sample.wrote).val k x ∧ x.session.id = id) ∧
      (((run Sample.floats Sample.noVars Sample.wrote).val.statics.sessionLabels.lookup
          id).isSome = true ↔
        ∃ k x, On (run Sample.floats Sample.noVars Sample.wrote).val k x ∧ x.session.id = id)) ∧
      ∀ k x, On (run Sample.floats Sample.noVars Sample.wrote).val k x →
        x.session.total =
          8 * ((x.received .stream).flatten.length + (x.received .peer).flatten.length) ∧
        x.session.totalS ≤ x.session.total ∧
        ∃ peak speed,
          (run Sample.floats Sample.noVars Sample.wrote).val.statics.usage.lookup x.session.id =
            some (x.session.elapsed, x.session.total - x.session.totalS, peak, speed) := by
  refine usage_row_exact Sample.floats Sample.noVars Sample.wrote (by decide +kernel)
    fun e past hs => ?_
  obtain heq | hs := List.suffix_cons_iff.1 hs
  · obtain ⟨rfl, rfl⟩ := List.cons.inj heq
    trivial
  · obtain heq | hs := List.suffix_cons_iff.1 hs
    · obtain ⟨rfl, rfl⟩ := List.cons.inj heq
      have hnone : ∀ j x, ¬On (run Sample.floats Sample.noVars []).val j x := by
        rintro j x ⟨hx, -⟩
        cases hx
      exact ⟨hnone 0, fun j x hx => absurd hx (hnone j x)⟩
    · exact absurd (List.suffix_nil.1 hs) (List.cons_ne_nil _ _)

end Relaying

end Relay

end NemoServer
