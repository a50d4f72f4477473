import NemoServer.Foundations.Meter
import NemoServer.Management.StatsEffects
import NemoServer.Server.Sample

/-!
# The relayed bytes of the fleet

hbbr reports the bytes of each session as a cumulative count, and the fleet total is a meter of
these reports: what it holds for a session is the count in the row of the session. A session that
was not brokered here has no row, and each report of it is counted in full.

* `fleet_total_exact_iff`: the total is the sum of the last counts exactly if each report finds the
  last count of its session in its row, and is no lower.
-/

set_option autoImplicit false

namespace NemoServer

namespace Management

open Meter

/-- The labels that samples carry; one without a label is of no session. -/
def labelsOf (samples : List RelayUsageSample) : List String :=
  (samples.map (·.session)).filter (· != "")

/-- The counts that samples report, the newest first. -/
def reportsOf (samples : List RelayUsageSample) : List (String × ℕ) :=
  ((samples.filter (·.session != "")).map fun x => (x.session, x.bytes)).reverse

/-- The counts that were reported over a history. -/
def reports : List StatsStep → List (String × ℕ)
  | [] => []
  | e :: past =>
    match e.op with
    | .relayUsage samples => reportsOf samples ++ reports past
    | _ => reports past

/-- Each report carries a label once. -/
def LabelsDistinct (history : List StatsStep) : Prop :=
  ∀ e ∈ history, ∀ samples, e.op = .relayUsage samples → (labelsOf samples).Nodup

namespace NemoStatsStore

/-- The count in the row of a session; none is zero. -/
def heldBytes (s : NemoStatsStore) (session : String) : ℕ :=
  ((s.relaySessions.find? fun row => row.session == session).map (·.bytes)).getD 0

/-- The samples find the last counts of their sessions in the rows, and are no lower. -/
def Continues (s : NemoStatsStore) (rs : List (String × ℕ)) (samples : List RelayUsageSample) :
    Prop :=
  ∀ x ∈ samples, x.session ≠ "" →
    lastCount rs x.session ≤ s.heldBytes x.session ∧ lastCount rs x.session ≤ x.bytes

end NemoStatsStore

/-- At every report of a history, the samples continue what was reported before. -/
def Continuous (X : Setup) (s : NemoStatsStore) (history : List StatsStep) : Prop :=
  ∀ e past, e :: past <:+ history → ∀ samples, e.op = .relayUsage samples →
    (Recorder.after X s past).store.Continues (reports past) samples

namespace NemoStatsStore

variable {order : FinMap.Iteration String NemoPeerStats} {now : String} {s : NemoStatsStore}
  {rs : List (String × ℕ)}

/-! ## What the rows hold -/

/-- The rows hold what the meter of the fleet has counted: no more than the last count of their
session, and nothing in a row that stands behind another of its session. -/
structure Metered (s : NemoStatsStore) (rs : List (String × ℕ)) : Prop where
  behind : s.relaySessions.Pairwise fun row row' => row.session = row'.session → row'.bytes = 0
  held : ∀ row ∈ s.relaySessions, row.bytes ≤ lastCount rs row.session
  total : lastTotal rs ≤ s.totals.relayBytes

theorem heldBytes_le (h : s.Metered rs) (session : String) :
    s.heldBytes session ≤ lastCount rs session := by
  unfold heldBytes
  cases hfind : s.relaySessions.find? fun row => row.session == session with
  | none => exact Nat.zero_le _
  | some row =>
    have hsession : row.session = session := by simpa using List.find?_some hfind
    exact hsession ▸ h.held row (List.mem_of_find?_eq_some hfind)

theorem heldBytes_of_split {front back : List RelaySessionRecord} {row : RelaySessionRecord}
    (hrows : s.relaySessions = front ++ row :: back)
    (hfront : ∀ row' ∈ front, row'.session ≠ row.session) :
    s.heldBytes row.session = row.bytes := by
  unfold heldBytes
  rw [hrows, List.find?_append, List.find?_eq_none.2 fun r hr => by simp [hfront r hr],
    Option.none_or, List.find?_cons_of_pos (by simp)]
  rfl

/-- Changing the count of one row changes what is held for its session only. -/
theorem heldBytes_of_ne {s' : NemoStatsStore} {front back : List RelaySessionRecord}
    {row : RelaySessionRecord} (row' : RelaySessionRecord) (hrows : s.relaySessions = front ++ row :: back)
    (hrows' : s'.relaySessions = front ++ row' :: back) (hsession : row'.session = row.session)
    {session : String} (h : row.session ≠ session) :
    s'.heldBytes session = s.heldBytes session := by
  unfold heldBytes
  rw [hrows, hrows', List.find?_append, List.find?_append,
    List.find?_cons_of_neg (by simpa [hsession] using h), List.find?_cons_of_neg (by simpa using h)]

variable (order now) in
/-- A sample adds to the fleet what it exceeds the count in its row, and leaves the count there. -/
theorem Metered.sample (h : s.Metered rs) {x : RelayUsageSample} (hx : x.session ≠ "") :
    let s' := s.applyRelaySample order now x
    s'.Metered ((x.session, x.bytes) :: rs) ∧
      s'.totals.relayBytes = s.totals.relayBytes + (x.bytes - s.heldBytes x.session) ∧
      ∀ session, session ≠ x.session → s'.heldBytes session = s.heldBytes session := by
  have hcount := lastTotal_le_add (n := x.bytes) (heldBytes_le h x.session) h.total
  obtain ⟨hnone, heq⟩ | ⟨front, row, back, hrows, hrow, hfront, heq⟩ :=
    applyRelaySample_cases order now s hx
  · have hheld : s.heldBytes x.session = 0 := by
      unfold heldBytes
      rw [List.find?_eq_none.2 fun row hrow => by simp [hnone row hrow]]
      rfl
    rw [hheld] at hcount
    dsimp only
    rw [heq, hheld]
    refine ⟨⟨h.behind, fun row hrow => ?_, hcount⟩, rfl, fun _ _ => rfl⟩
    rw [lastCount_cons_of_ne _ _ (hnone row hrow).symm]
    exact h.held row hrow
  · rw [← hrow] at hfront
    have hheld := heldBytes_of_split hrows hfront
    rw [← hrow, hheld] at hcount
    dsimp only
    rw [heq, ← hrow, hheld]
    have hbehind := h.behind
    have hbytes := h.held
    rw [hrows] at hbehind hbytes
    refine ⟨⟨?_, ?_, hcount⟩, rfl, fun session hne => ?_⟩
    · -- no row before this one is of its session, so its count is free
      rw [List.pairwise_append, List.pairwise_cons] at hbehind ⊢
      refine ⟨hbehind.1, ⟨hbehind.2.1.1, hbehind.2.1.2⟩, fun r hr r' hr' hsame => ?_⟩
      obtain rfl | hr' := List.mem_cons.1 hr'
      · exact absurd hsame (hfront r hr)
      · exact hbehind.2.2 r hr r' (List.mem_cons_of_mem _ hr') hsame
    · intro r hr
      by_cases hsame : row.session = r.session
      · rw [hsame, lastCount_cons_self]
        obtain hr | hr := List.mem_append.1 hr
        · exact absurd hsame.symm (hfront r hr)
        · obtain rfl | hr := List.mem_cons.1 hr
          · exact le_rfl
          · rw [(List.pairwise_cons.1 (List.pairwise_append.1 hbehind).2.1).1 r hr hsame]
            exact Nat.zero_le _
      · rw [lastCount_cons_of_ne _ _ hsame]
        obtain hr | hr := List.mem_append.1 hr
        · exact hbytes r (List.mem_append_left _ hr)
        · obtain rfl | hr := List.mem_cons.1 hr
          · exact absurd rfl hsame
          · exact hbytes r (List.mem_append_right _ (List.mem_cons_of_mem _ hr))
    · exact heldBytes_of_ne (sampledRow now x row) hrows rfl rfl hne.symm

variable (order now) in
/-- The samples of a report keep the total level with the last counts exactly if it was, and they
continue what was reported. -/
theorem Metered.samples (h : s.Metered rs) {samples : List RelayUsageSample}
    (hdistinct : (labelsOf samples).Nodup) :
    let s' := samples.foldl (fun s x => s.applyRelaySample order now x) s
    s'.Metered (reportsOf samples ++ rs) ∧
      (s'.totals.relayBytes = lastTotal (reportsOf samples ++ rs) ↔
        s.totals.relayBytes = lastTotal rs ∧ s.Continues rs samples) := by
  induction samples generalizing s rs with
  | nil => exact ⟨h, (and_iff_left fun x hx => absurd hx List.not_mem_nil).symm⟩
  | cons x samples ih =>
    dsimp only
    rw [List.foldl_cons]
    by_cases hx : x.session = ""
    · have hsame : s.applyRelaySample order now x = s := by
        rw [applyRelaySample, if_pos hx]
      have hrs : reportsOf (x :: samples) = reportsOf samples := by
        simp [reportsOf, hx]
      have hlabels : labelsOf (x :: samples) = labelsOf samples := by
        simp [labelsOf, hx]
      rw [hlabels] at hdistinct
      rw [hsame, hrs]
      refine ⟨(ih h hdistinct).1, (ih h hdistinct).2.trans (and_congr_right fun _ => ?_)⟩
      unfold Continues
      rw [List.forall_mem_cons, and_iff_right fun h => absurd hx h]
    · have hrs : reportsOf (x :: samples) ++ rs =
          reportsOf samples ++ (x.session, x.bytes) :: rs := by
        simp [reportsOf, hx]
      have hlabels : labelsOf (x :: samples) = x.session :: labelsOf samples := by
        simp [labelsOf, hx]
      rw [hlabels, List.nodup_cons] at hdistinct
      obtain ⟨hmetered, htotal, hothers⟩ := h.sample order now hx
      obtain ⟨hend, hiff⟩ := ih hmetered hdistinct.2
      rw [hrs]
      refine ⟨hend, hiff.trans ?_⟩
      rw [htotal, add_eq_lastTotal_iff (heldBytes_le h x.session) h.total]
      -- the samples that follow are of other sessions
      have hrest : (s.applyRelaySample order now x).Continues ((x.session, x.bytes) :: rs) samples ↔
          s.Continues rs samples := by
        refine forall₂_congr fun y hy => imp_congr_right fun hlabel => ?_
        have hne : x.session ≠ y.session := by
          intro hsame
          refine hdistinct.1 (hsame ▸ List.mem_filter.2 ⟨List.mem_map_of_mem hy, ?_⟩)
          exact bne_iff_ne.2 hlabel
        rw [lastCount_cons_of_ne _ _ hne, hothers y.session hne.symm]
      rw [hrest]
      unfold Continues
      rw [List.forall_mem_cons, imp_iff_right hx]
      tauto

/-- Ending the sessions that were not sampled changes no count. -/
theorem Metered.endUnsampled (h : s.Metered rs) (seen : List String) :
    Metered { s with relaySessions := s.relaySessions.map (endUnsampled seen) } rs := by
  have hsame (row : RelaySessionRecord) : (NemoStatsStore.endUnsampled seen row).session =
      row.session ∧ (NemoStatsStore.endUnsampled seen row).bytes = row.bytes := by
    unfold NemoStatsStore.endUnsampled
    split
    · exact ⟨rfl, rfl⟩
    · exact ⟨rfl, rfl⟩
  refine ⟨List.pairwise_map.2 (h.behind.imp fun {row row'} hrow => ?_), fun row hrow => ?_, h.total⟩
  · rw [(hsame row).1, (hsame row').1, (hsame row').2]
    exact hrow
  · obtain ⟨row', hrow', rfl⟩ := List.mem_map.1 hrow
    rw [(hsame row').1, (hsame row').2]
    exact h.held row' hrow'

/-- A grant adds a row that holds nothing. -/
theorem Metered.grant (h : s.Metered rs) (session sourceId targetId : String) :
    (s.recordRelayGrant now session sourceId targetId).Metered rs := by
  have hsub : (evictRelaySessions s.relaySessions).Sublist s.relaySessions :=
    Capped.evict_sublist ..
  refine ⟨?_, fun row hrow => ?_, h.total⟩
  · refine List.pairwise_append.2 ⟨h.behind.sublist hsub, List.pairwise_singleton .., ?_⟩
    intro row _ row' hrow' _
    rw [List.mem_singleton.1 hrow']
  · obtain hrow | hrow := List.mem_append.1 hrow
    · exact h.held row (hsub.subset hrow)
    · rw [List.mem_singleton.1 hrow]
      exact Nat.zero_le _

end NemoStatsStore

/-! ## Runs -/

section Runs

variable {X : Setup} {s : NemoStatsStore}

theorem reports_cons_of_ne {e : StatsStep} {past : List StatsStep}
    (h : ∀ samples, e.op ≠ .relayUsage samples) : reports (e :: past) = reports past := by
  rw [reports]
  split
  · rename_i samples hop
    exact absurd hop (h samples)
  · rfl

theorem continuous_cons {e : StatsStep} {past : List StatsStep} :
    Continuous X s (e :: past) ↔ (∀ samples, e.op = .relayUsage samples →
      (Recorder.after X s past).store.Continues (reports past) samples) ∧ Continuous X s past := by
  constructor
  · intro h
    exact ⟨h e past (List.suffix_refl _),
      fun e' past' hsuf => h e' past' (hsuf.trans (List.suffix_cons e past))⟩
  · rintro ⟨hnow, hpast⟩ e' past' hsuf
    obtain heq | hsuf := List.suffix_cons_iff.1 hsuf
    · obtain ⟨rfl, rfl⟩ := List.cons.inj heq
      exact hnow
    · exact hpast e' past' hsuf

/-- Over a run, the total of the fleet is a meter of the reports. -/
theorem metered_after (history : List StatsStep) (hdistinct : LabelsDistinct history)
    (hs : s.Metered []) (htotal : s.totals.relayBytes = 0) :
    (Recorder.after X s history).store.Metered (reports history) ∧
      ((Recorder.after X s history).store.totals.relayBytes = lastTotal (reports history) ↔
        Continuous X s history) := by
  induction history with
  | nil =>
    refine ⟨hs, iff_of_true htotal fun e past hsuf => ?_⟩
    exact absurd (List.suffix_nil.1 hsuf) (List.cons_ne_nil e past)
  | cons e past ih =>
    obtain ⟨hmetered, hiff⟩ := ih fun e' he' => hdistinct e' (List.mem_cons_of_mem e he')
    rw [continuous_cons, ← hiff]
    -- what the operation does to the store left by the past
    change (Recorder.perform X _ e.now e.order (Recorder.after X s past).store e.op).Metered _ ∧ _
    by_cases husage : ∃ samples, e.op = .relayUsage samples
    · obtain ⟨samples, hop⟩ := husage
      have hnodup := hdistinct e List.mem_cons_self samples hop
      obtain ⟨hend, hlevel⟩ := hmetered.samples e.order e.now hnodup
      have hreports : reports (e :: past) = reportsOf samples ++ reports past := by
        rw [reports, hop]
      rw [hreports, Recorder.after, Recorder.step, hop]
      refine ⟨hend.endUnsampled _, hlevel.trans ?_⟩
      rw [and_comm]
      refine and_congr_left fun _ => ⟨fun h samples' heq => ?_, fun h => h samples rfl⟩
      exact StatsOp.relayUsage.inj heq ▸ h
    · have hno := not_exists.1 husage
      rw [reports_cons_of_ne hno]
      have hvacuous : ∀ samples, e.op = .relayUsage samples →
          (Recorder.after X s past).store.Continues (reports past) samples :=
        fun samples hop => absurd hop (hno samples)
      rw [and_iff_right hvacuous]
      by_cases hgrant : ∃ label sourceId targetId, e.op = .record (.relayGrant label sourceId targetId)
      · obtain ⟨label, sourceId, targetId, hop⟩ := hgrant
        rw [Recorder.after, Recorder.step, hop]
        exact ⟨hmetered.grant label sourceId targetId, Iff.rfl⟩
      · simp only [not_exists] at hgrant
        obtain ⟨hrows, hbytes⟩ := Recorder.relay_perform (X := X) hgrant hno
        rw [Recorder.after, Recorder.step]
        refine ⟨⟨?_, ?_, ?_⟩, ?_⟩
        · rw [hrows]
          exact hmetered.behind
        · rw [hrows]
          exact hmetered.held
        · rw [hbytes]
          exact hmetered.total
        · rw [hbytes]

/-- The total of the fleet is the sum, over the sessions that were ever reported, of their last
counts, exactly if each report found the last count of its session in its row and was no lower. -/
theorem fleet_total_exact_iff (X : Setup) (connHistoryLimit logHistoryLimit : ℕ)
    (stamps : Table String ℕ) (history : List StatsStep) (hdistinct : LabelsDistinct history) :
    (Recorder.after X (.start connHistoryLimit logHistoryLimit stamps)
        history).store.totals.relayBytes = lastTotal (reports history) ↔
      Continuous X (.start connHistoryLimit logHistoryLimit stamps) history :=
  (metered_after history hdistinct
    ⟨List.Pairwise.nil, fun _ hrow => absurd hrow List.not_mem_nil, le_rfl⟩ rfl).2

/-- The reports of a history each carry counts that are no lower than the last ones. -/
def CountsNondecreasing (history : List StatsStep) : Prop :=
  ∀ e past, e :: past <:+ history → ∀ samples, e.op = .relayUsage samples →
    ∀ x ∈ samples, lastCount (reports past) x.session ≤ x.bytes

end Runs

/-! ## A session that was brokered elsewhere -/

namespace Sample

/-- A report of one session. -/
def report (bytes : ℕ) : StatsStep :=
  ⟨.relayUsage [⟨"aaaa", bytes, 100, 900, 4000⟩], 10, "2026-01-01T00:00:00Z", .listed⟩

/-- A report of no session. -/
def noReport : StatsStep := ⟨.relayUsage [], 10, "2026-01-01T00:00:00Z", .listed⟩

def grant : StatsStep :=
  ⟨.record (.relayGrant "aaaa" "ctrl-1" "work-1"), 10, "2026-01-01T00:00:00Z", .listed⟩

theorem labelsDistinct_report {past : List StatsStep} (h : LabelsDistinct past) (bytes : ℕ) :
    LabelsDistinct (report bytes :: past) := by
  intro e he samples hop
  obtain rfl | he := List.mem_cons.1 he
  · cases hop
    exact List.nodup_singleton "aaaa"
  · exact h e he samples hop

theorem labelsDistinct_grant : LabelsDistinct [grant] := by
  intro e he samples hop
  rw [List.mem_singleton.1 he] at hop
  exact nomatch hop

end Sample

/-- The total is not exact for every run: a session that was brokered elsewhere is counted in full
at each of its reports. -/
theorem not_fleet_total_exact : ¬∀ (X : Setup) (history : List StatsStep),
    LabelsDistinct history → CountsNondecreasing history →
      (Recorder.after X (.start 420 500 Table.empty) history).store.totals.relayBytes =
        lastTotal (reports history) := by
  intro h
  have hdistinct : LabelsDistinct [Sample.report 70, Sample.report 70] :=
    Sample.labelsDistinct_report (Sample.labelsDistinct_report (fun _ he => absurd he
      List.not_mem_nil) 70) 70
  have hcounts : CountsNondecreasing [Sample.report 70, Sample.report 70] := by
    intro e past hsuf samples hop x hx
    obtain heq | hsuf := List.suffix_cons_iff.1 hsuf
    · obtain ⟨rfl, rfl⟩ := List.cons.inj heq
      cases hop
      rw [List.mem_singleton.1 hx]
      decide
    · obtain heq | hsuf := List.suffix_cons_iff.1 hsuf
      · obtain ⟨rfl, rfl⟩ := List.cons.inj heq
        exact Nat.zero_le _
      · exact absurd (List.suffix_nil.1 hsuf) (List.cons_ne_nil e past)
  have htotal := h (Sample.setup .offer false) [Sample.report 70, Sample.report 70] hdistinct
    hcounts
  -- the total is 140, and the session was last reported at 70
  exact absurd htotal (by decide)

/-- A session that was brokered here before its first report is counted once. -/
theorem fleet_total_exact_brokered :
    Continuous (Sample.setup .offer false) (.start 420 500 Table.empty)
      [Sample.report 2500, Sample.report 1000, Sample.grant] :=
  (fleet_total_exact_iff (Sample.setup .offer false) 420 500 Table.empty
    [Sample.report 2500, Sample.report 1000, Sample.grant]
    (Sample.labelsDistinct_report (Sample.labelsDistinct_report Sample.labelsDistinct_grant 1000)
      2500)).1 (by decide)

end Management

end NemoServer
