import NemoServer.Laws.RelayBooks
import NemoServer.Laws.UsageReport
import NemoServer.Management.UsagePoller
import NemoServer.Server.Sample

/-!
# The relayed bytes, from hbbr to the dashboard

* `fleet_total_relayed`: in every run of the two servers, the fleet total of hbbs is the sum of the
  rows, and no row has more than went through its session at hbbr.

A row never has more than the last measurement of its session, and that only grows; so what the
poller has fetched is still right when it is folded in, whatever happened in between.
-/

set_option autoImplicit false

namespace NemoServer

namespace Relay

/-! ## Measurements only grow -/

/-- The bytes that went through the session. -/
def Pump.carried (x : Pump) : ℕ :=
  (x.received .stream).flatten.length + (x.received .peer).flatten.length

/-- The bytes up to the last measurement. -/
def Pump.measured (x : Pump) : ℕ := (x.session.total - x.session.totalS) / 8

/-- What a round leaves of the counts of a session, and of what was received. -/
structure Pump.Grows (x y : Pump) : Prop where
  measured : x.measured ≤ y.measured
  total : x.session.total ≤ 8 * x.carried → y.session.total ≤ 8 * y.carried

theorem Pump.grows_round {x : Pump} {s : Statics} {ready : Ready} {received checked restarted : ℕ}
    (hin : (x.round s ready received checked restarted).InRange) :
    x.Grows (x.round s ready received checked restarted).val.1 := by
  have hbits : 8 * (x.pass received ready).carried = (x.arm received ready).bits + 8 * x.carried :=
    Pump.bits_pass x received ready
  have hpass := x.pass_session received ready
  cases hsel : (x.session.select (x.arm received ready)).val with
  | none =>
    rw [(Pump.round_of_none s checked restarted hsel).1]
    refine ⟨?_, fun h => ?_⟩
    · show x.measured ≤ (x.pass received ready).measured
      rw [Pump.measured, Pump.measured, hpass]
    · show (x.pass received ready).session.total ≤ 8 * (x.pass received ready).carried
      rw [hpass]
      omega
  | some z =>
    obtain ⟨hval, hrange⟩ := Pump.round_of_some s checked restarted hsel
    obtain ⟨hselin, -⟩ := hrange.1 hin
    obtain ⟨htotal, htotalS, -⟩ := Session.select_counts hselin hsel
    rw [hval]
    have hcounts : ∀ (w : Session), w.total = z.total → w.totalS = z.totalS ∨ w.totalS = 0 →
        (x.session.total - x.session.totalS) / 8 ≤ (w.total - w.totalS) / 8 ∧
          (x.session.total ≤ 8 * x.carried → w.total ≤ 8 * (x.pass received ready).carried) := by
      intro w hw hwS
      refine ⟨Nat.div_le_div_right ?_, fun h => ?_⟩
      · rcases hwS with hwS | hwS
        · omega
        · omega
      · omega
    cases hm : (z.measure s (asMillis (checked - x.tm))).val with
    | mk w statics =>
      cases w with
      | none =>
        obtain ⟨hmeasured, hcarried⟩ := hcounts z rfl (.inl rfl)
        exact ⟨hmeasured, hcarried⟩
      | some w =>
        obtain ⟨rfl, -⟩ | ⟨-, hwtotal, hwtotalS, -⟩ := Session.measure_row hm
        · obtain ⟨hmeasured, hcarried⟩ := hcounts w rfl (.inl rfl)
          exact ⟨hmeasured, hcarried⟩
        · obtain ⟨hmeasured, hcarried⟩ := hcounts w hwtotal (.inr hwtotalS)
          exact ⟨hmeasured, hcarried⟩

theorem Pump.grows_refl (x : Pump) : x.Grows x := ⟨Nat.le_refl _, id⟩

namespace Relaying

variable {F : Floats} {s : Relaying} {k : ℕ} {x : Pump}

/-- A session stays in the table, and its counts only grow. -/
theorem grows_step {e : Traffic} (hin : (s.step F e).InRange) (hx : s.pumps k = some x)
    (hfresh : ∀ id ip label now, e ≠ .begins k id ip label now) :
    ∃ y, (s.step F e).val.pumps k = some y ∧ x.Grows y := by
  cases e with
  | command cmd => exact ⟨x, hx, x.grows_refl⟩
  | begins j id ip label now =>
    have hj : k ≠ j := by
      rintro rfl
      exact hfresh id ip label now rfl
    refine ⟨x, ?_, x.grows_refl⟩
    rw [Relaying.step, Arith.val_pure]
    show s.pumps.insert j _ k = some x
    rw [Table.insert_apply, if_neg hj, hx]
  | round j ready received checked restarted =>
    cases hy : s.pumps j with
    | none =>
      simp only [Relaying.step, hy, Arith.val_pure]
      exact ⟨x, hx, x.grows_refl⟩
    | some y =>
      cases hon : y.on with
      | false =>
        simp only [Relaying.step, hy, hon]
        exact ⟨x, hx, x.grows_refl⟩
      | true =>
        simp only [Relaying.step, hy, hon, if_true, Arith.inRange_bind] at hin
        simp only [Relaying.step, hy, hon, if_true, Arith.val_bind, Arith.val_pure]
        by_cases hj : k = j
        · subst hj
          cases hx.symm.trans hy
          refine ⟨_, ?_, Pump.grows_round hin.1⟩
          rw [Table.insert_apply, if_pos rfl]
        · refine ⟨x, ?_, x.grows_refl⟩
          rw [Table.insert_apply, if_neg hj, hx]

/-- No session counts more than it has received. -/
def Covered (s : Relaying) : Prop :=
  ∀ k x, s.pumps k = some x → x.session.total ≤ 8 * x.carried

theorem Covered.step (h : s.Covered) {e : Traffic} (hin : (s.step F e).InRange) :
    (s.step F e).val.Covered := by
  intro k x hx
  cases e with
  | command cmd => exact h k x hx
  | begins j id ip label now =>
    rw [Relaying.step, Arith.val_pure] at hx
    obtain ⟨-, rfl⟩ | ⟨-, hx⟩ := Table.insert_eq_some.1 hx
    · exact Nat.zero_le _
    · exact h k x hx
  | round j ready received checked restarted =>
    cases hy : s.pumps j with
    | none =>
      simp only [Relaying.step, hy, Arith.val_pure] at hx
      exact h k x hx
    | some y =>
      cases hon : y.on with
      | false =>
        simp only [Relaying.step, hy, hon] at hx
        exact h k x hx
      | true =>
        simp only [Relaying.step, hy, hon, if_true, Arith.inRange_bind] at hin
        simp only [Relaying.step, hy, hon, if_true, Arith.val_bind, Arith.val_pure] at hx
        obtain ⟨-, rfl⟩ | ⟨-, hx⟩ := Table.insert_eq_some.1 hx
        · exact (Pump.grows_round hin.1).total (h j y hy)
        · exact h k x hx

/-- So many bytes were measured in the session of the label. -/
def Carried (s : Relaying) (events : List Traffic) (label : String) (n : ℕ) : Prop :=
  ∃ k x, s.pumps k = some x ∧ labelOf k events = some label ∧ n ≤ x.measured

theorem Carried.step {events : List Traffic} {label : String} {n : ℕ}
    (h : s.Carried events label n) {e : Traffic} (hin : (s.step F e).InRange)
    (hfresh : ∀ k id ip label now, e = .begins k id ip label now → s.pumps k = none) :
    Carried (s.step F e).val (e :: events) label n := by
  obtain ⟨k, x, hx, hlabel, hn⟩ := h
  have hne : ∀ id ip label now, e ≠ .begins k id ip label now := by
    intro id ip label now heq
    have hnone := hfresh k id ip label now heq
    rw [hx] at hnone
    cases hnone
  obtain ⟨y, hy, hgrows⟩ := grows_step hin hx hne
  refine ⟨k, y, hy, ?_, hn.trans hgrows.measured⟩
  cases e with
  | begins j id ip label' now =>
    have hj : j ≠ k := by
      rintro rfl
      exact hne id ip label' now rfl
    rw [labelOf, if_neg hj]
    exact hlabel
  | command cmd => exact hlabel
  | round j ready received checked restarted => exact hlabel

end Relaying

end Relay

namespace Management

/-! ## Folding samples in -/

namespace NemoStatsStore

variable {order : FinMap.Iteration String NemoPeerStats} {now : String} {s s' : NemoStatsStore}

/-- The rows are of different sessions, and the total of the fleet is their sum. -/
structure Summed (s : NemoStatsStore) : Prop where
  distinct : (s.relaySessions.map (·.session)).Nodup
  total : s.totals.relayBytes = (s.relaySessions.map (·.bytes)).sum

/-- Samples of sessions that have rows, with no less than those. -/
def Extends (s : NemoStatsStore) (samples : List RelayUsageSample) : Prop :=
  ∀ y ∈ samples, y.session ≠ "" ∧ y.session ∈ s.relaySessions.map (·.session) ∧
    ∀ row ∈ s.relaySessions, row.session = y.session → row.bytes ≤ y.bytes

/-- The samples are in their rows, and the other rows have what they had. -/
structure Folded (s s' : NemoStatsStore) (samples : List RelayUsageSample) : Prop where
  summed : s'.Summed
  sessions : s'.relaySessions.map (·.session) = s.relaySessions.map (·.session)
  rows : ∀ row ∈ s'.relaySessions, (∃ y ∈ samples, row.session = y.session ∧ row.bytes = y.bytes) ∨
    row.session ∉ samples.map (·.session) ∧
      ∃ row' ∈ s.relaySessions, row'.session = row.session ∧ row'.bytes = row.bytes

theorem Summed.sample (h : s.Summed) {y : RelayUsageSample} (hy : s.Extends [y]) :
    Folded s (s.applyRelaySample order now y) [y] := by
  obtain ⟨hlabel, hrow, hle⟩ := hy y List.mem_cons_self
  obtain ⟨hnone, -⟩ | ⟨front, row, back, hrows, hsession, hfront, heq⟩ :=
    applyRelaySample_cases order now s hlabel
  · obtain ⟨row, hmem, hsame⟩ := List.mem_map.1 hrow
    exact absurd hsame (hnone row hmem)
  · have hbytes := hle row (hrows ▸ List.mem_append_right _ List.mem_cons_self) hsession
    have hdistinct := h.distinct
    rw [hrows, List.map_append, List.map_cons] at hdistinct
    have hback : ∀ r ∈ back, r.session ≠ y.session := by
      intro r hr hsame
      rw [List.nodup_append, List.nodup_cons] at hdistinct
      exact hdistinct.2.1.1 (hsession.trans hsame.symm ▸ List.mem_map_of_mem hr)
    have hsessions : (front ++ sampledRow now y row :: back).map (·.session) =
        s.relaySessions.map (·.session) := by
      rw [hrows, List.map_append, List.map_append]
      rfl
    rw [heq]
    refine ⟨⟨?_, ?_⟩, hsessions, fun r hr => ?_⟩
    · show ((front ++ sampledRow now y row :: back).map (·.session)).Nodup
      rw [hsessions]
      exact h.distinct
    · show s.totals.relayBytes + (y.bytes - row.bytes) =
        ((front ++ sampledRow now y row :: back).map (·.bytes)).sum
      rw [h.total, hrows, sum_map_split, sum_map_split]
      show (front.map (·.bytes)).sum + (row.bytes + (back.map (·.bytes)).sum) +
        (y.bytes - row.bytes) = (front.map (·.bytes)).sum + (y.bytes + (back.map (·.bytes)).sum)
      omega
    · have hother : ∀ r, r ∈ front ∨ r ∈ back → r.session ∉ [y].map (·.session) ∧
          ∃ row' ∈ s.relaySessions, row'.session = r.session ∧ row'.bytes = r.bytes := by
        rintro r (hr | hr)
        · refine ⟨fun hin => hfront r hr (List.mem_singleton.1 hin), r, ?_, rfl, rfl⟩
          exact hrows ▸ List.mem_append_left _ hr
        · refine ⟨fun hin => hback r hr (List.mem_singleton.1 hin), r, ?_, rfl, rfl⟩
          exact hrows ▸ List.mem_append_right _ (List.mem_cons_of_mem _ hr)
      obtain hr | hr := List.mem_append.1 hr
      · exact .inr (hother r (.inl hr))
      · obtain rfl | hr := List.mem_cons.1 hr
        · exact .inl ⟨y, List.mem_cons_self, hsession, rfl⟩
        · exact .inr (hother r (.inr hr))

theorem Summed.samples (h : s.Summed) {samples : List RelayUsageSample}
    (hextends : s.Extends samples) (hdistinct : (samples.map (·.session)).Nodup) :
    Folded s (samples.foldl (fun s y => s.applyRelaySample order now y) s) samples := by
  induction samples generalizing s with
  | nil => exact ⟨h, rfl, fun row hrow => .inr ⟨List.not_mem_nil, row, hrow, rfl, rfl⟩⟩
  | cons y samples ih =>
    rw [List.map_cons, List.nodup_cons] at hdistinct
    have hsample : Folded s (s.applyRelaySample order now y) [y] := h.sample fun z hz => by
      rw [List.mem_singleton.1 hz]
      exact hextends y List.mem_cons_self
    rw [List.foldl_cons]
    have hrest := ih hsample.summed (fun z hz => ?_) hdistinct.2
    · refine ⟨hrest.summed, hrest.sessions.trans hsample.sessions, fun row hrow => ?_⟩
      obtain ⟨z, hz, hsession, hbytes⟩ | ⟨hout, row', hrow', hsession, hbytes⟩ := hrest.rows row hrow
      · exact .inl ⟨z, List.mem_cons_of_mem y hz, hsession, hbytes⟩
      · obtain ⟨z, hz, hz', hzbytes⟩ | ⟨hout', row'', hrow'', hsession', hbytes'⟩ :=
          hsample.rows row' hrow'
        · rw [List.mem_singleton.1 hz] at hz' hzbytes
          exact .inl ⟨y, List.mem_cons_self, hsession ▸ hz', hbytes ▸ hzbytes⟩
        · refine .inr ⟨?_, row'', hrow'', hsession'.trans hsession, hbytes'.trans hbytes⟩
          rw [List.map_cons, List.mem_cons, not_or]
          refine ⟨fun heq => hout' ?_, hout⟩
          rw [List.map_singleton, List.mem_singleton, hsession]
          exact heq
    · obtain ⟨hlabel, hmem, hle⟩ := hextends z (List.mem_cons_of_mem y hz)
      refine ⟨hlabel, by rw [hsample.sessions]; exact hmem, fun row hrow hsession => ?_⟩
      obtain ⟨w, hw, hsame, -⟩ | ⟨-, row', hrow', hsame, hbytes⟩ := hsample.rows row hrow
      · rw [List.mem_singleton.1 hw] at hsame
        have hyz : y.session = z.session := hsame.symm.trans hsession
        exact absurd (hyz ▸ List.mem_map_of_mem hz) hdistinct.1
      · rw [← hbytes]
        exact hle row' hrow' (hsame.trans hsession)

theorem Summed.usage (h : s.Summed) {samples : List RelayUsageSample}
    (hextends : s.Extends samples) (hdistinct : (samples.map (·.session)).Nodup) :
    Folded s (s.applyRelayUsage order now samples) samples := by
  have hfold : Folded s (samples.foldl (fun s y => s.applyRelaySample order now y) s) samples :=
    h.samples hextends hdistinct
  unfold applyRelayUsage
  dsimp only
  generalize samples.foldl (fun s y => s.applyRelaySample order now y) s = t at hfold ⊢
  generalize (samples.map (·.session)).filter (· != "") = seen
  have hkeep : ∀ row, (endUnsampled seen row).session = row.session ∧
      (endUnsampled seen row).bytes = row.bytes := by
    intro row
    unfold endUnsampled
    split
    · exact ⟨rfl, rfl⟩
    · exact ⟨rfl, rfl⟩
  have hsessions : (t.relaySessions.map (endUnsampled seen)).map (·.session) =
      t.relaySessions.map (·.session) := by
    rw [List.map_map]
    exact List.map_congr_left fun row _ => (hkeep row).1
  have hbytes : (t.relaySessions.map (endUnsampled seen)).map (·.bytes) =
      t.relaySessions.map (·.bytes) := by
    rw [List.map_map]
    exact List.map_congr_left fun row _ => (hkeep row).2
  refine ⟨⟨?_, ?_⟩, ?_, fun row hrow => ?_⟩
  · show ((t.relaySessions.map (endUnsampled seen)).map (·.session)).Nodup
    rw [hsessions]
    exact hfold.summed.distinct
  · show t.totals.relayBytes = ((t.relaySessions.map (endUnsampled seen)).map (·.bytes)).sum
    rw [hbytes]
    exact hfold.summed.total
  · exact hsessions.trans hfold.sessions
  · obtain ⟨row', hrow', rfl⟩ := List.mem_map.1 hrow
    rw [(hkeep row').1, (hkeep row').2]
    exact hfold.rows row' hrow'

end NemoStatsStore

/-! ## The two servers -/

namespace Metering

open Relay Relaying NemoStatsStore

variable {F : Floats} {X : Setup} {D : Deps} {s : Metering} {events : List MeteringEvent}

/-- The labels of the grants that hbbs recorded. -/
def grants (events : List MeteringEvent) : List String := granted (recorded events)

/-- What the other parts of the servers see to. A session of hbbr begins with a grant that hbbs has
recorded, and each grant is used once; a grant is fresh, and there is room for its row. -/
def Proper (D : Deps) (s : Metering) (past : List MeteringEvent) : MeteringEvent → Prop
  | .relay (.begins k id ip label now) => s.relaying.Apart (.begins k id ip label now) ∧
    Traffic.Named D (.begins k id ip label now) ∧ s.relaying.pumps k = none ∧
    label ∈ grants past ∧ ∀ j, labelOf j (traffic past) ≠ some label
  | .relay _ => True
  | .record e => (∀ samples, e.op ≠ .relayUsage samples) ∧
    ∀ label sourceId targetId, e.op = .record (.relayGrant label sourceId targetId) →
      label ≠ "" ∧ label ∉ grants past ∧ (grants past).length < relaySessionMemory
  | .fetch => True
  | .fold _ _ _ => True

/-- What holds between hbbr and the store of hbbs. -/
structure Agrees (s : Metering) (events : List MeteringEvent) : Prop where
  rows : s.relaying.Rows
  labelled : s.relaying.Labelled (traffic events)
  printable : s.relaying.Printable
  covered : s.relaying.Covered
  distinct : ∀ j k label, labelOf j (traffic events) = some label →
    labelOf k (traffic events) = some label → j = k
  brokered : ∀ k label, labelOf k (traffic events) = some label → label ∈ grants events
  labels : "" ∉ grants events ∧ (grants events).length ≤ relaySessionMemory
  sessions : s.recorder.store.relaySessions.map (·.session) = (grants events).reverse
  summed : s.recorder.store.Summed
  behind : ∀ row ∈ s.recorder.store.relaySessions,
    row.bytes = 0 ∨ s.relaying.Carried (traffic events) row.session row.bytes
  fetched : ∀ samples, s.fetched = some samples → (samples.map (·.session)).Nodup ∧
    s.recorder.store.Extends samples ∧
    ∀ y ∈ samples, s.relaying.Carried (traffic events) y.session y.bytes

theorem apart_of_proper {e : Traffic} (h : Proper D s events (.relay e)) :
    s.relaying.Apart e ∧ e.Named D ∧ (∀ k id ip label now, e = .begins k id ip label now →
      s.relaying.pumps k = none) := by
  cases e with
  | command cmd => exact ⟨trivial, trivial, fun _ _ _ _ _ h => by cases h⟩
  | begins k id ip label now =>
    obtain ⟨hapart, hnamed, hnone, -⟩ := h
    refine ⟨hapart, hnamed, fun j id' ip' label' now' heq => ?_⟩
    cases heq
    exact hnone
  | round k ready received checked restarted =>
    exact ⟨trivial, trivial, fun _ _ _ _ _ h => by cases h⟩

/-- Where a label comes from: an earlier event, or this one. -/
theorem labelOf_cons {e : Traffic} {past : List Traffic} {k : ℕ} {label : String}
    (h : labelOf k (e :: past) = some label) :
    labelOf k past = some label ∨ ∃ id ip now, e = .begins k id ip label now := by
  cases e with
  | begins j id ip label' now =>
    rw [labelOf] at h
    split at h
    · next hj =>
      rw [hj, Option.some.inj h]
      exact .inr ⟨id, ip, now, rfl⟩
    · exact .inl h
  | command cmd => exact .inl h
  | round j ready received checked restarted => exact .inl h

theorem Agrees.relay (h : s.Agrees events) {e : Traffic} (hproper : Proper D s events (.relay e))
    (hin : (s.relaying.step F e).InRange) :
    Agrees { s with relaying := (s.relaying.step F e).val } (.relay e :: events) := by
  obtain ⟨hapart, hnamed, hfresh⟩ := apart_of_proper hproper
  have hstep {label : String} {n : ℕ} (hc : s.relaying.Carried (traffic events) label n) :
      (s.relaying.step F e).val.Carried (e :: traffic events) label n := hc.step hin hfresh
  have hbegins : ∀ k id ip label now, e = .begins k id ip label now →
      label ∈ grants events ∧ ∀ j, labelOf j (traffic events) ≠ some label := by
    rintro k id ip label now rfl
    exact ⟨hproper.2.2.2.1, hproper.2.2.2.2⟩
  refine ⟨h.rows.step hapart hin, Labelled.step h.rows h.labelled hapart,
    h.printable.step hnamed hin, h.covered.step hin, fun j k label hj hk => ?_,
    fun k label hk => ?_, h.labels, h.sessions, h.summed, fun row hrow => ?_,
    fun samples hsamples => ?_⟩
  · obtain hjpast | ⟨id, ip, now, hj⟩ := labelOf_cons hj
    · obtain hkpast | ⟨id, ip, now, hk⟩ := labelOf_cons hk
      · exact h.distinct j k label hjpast hkpast
      · exact absurd hjpast ((hbegins k id ip label now hk).2 j)
    · obtain hkpast | ⟨id', ip', now', hk⟩ := labelOf_cons hk
      · exact absurd hkpast ((hbegins j id ip label now hj).2 k)
      · cases hj.symm.trans hk
        rfl
  · obtain hkpast | ⟨id, ip, now, hk⟩ := labelOf_cons hk
    · exact h.brokered k label hkpast
    · exact (hbegins k id ip label now hk).1
  · exact (h.behind row hrow).imp_right hstep
  · obtain ⟨hdistinct, hextends, hcarried⟩ := h.fetched samples hsamples
    exact ⟨hdistinct, hextends, fun y hy => hstep (hcarried y hy)⟩

theorem Agrees.record (h : s.Agrees events) {e : StatsStep}
    (hproper : Proper D s events (.record e)) :
    Agrees { s with recorder := s.recorder.step X e } (.record e :: events) := by
  obtain ⟨husage, hgrant⟩ := hproper
  by_cases hop : ∃ label sourceId targetId, e.op = .record (.relayGrant label sourceId targetId)
  · obtain ⟨label, sourceId, targetId, hop⟩ := hop
    obtain ⟨hlabel, hfresh, hroom⟩ := hgrant label sourceId targetId hop
    obtain ⟨op, elapsed, now, order⟩ := e
    cases hop
    have hlen : s.recorder.store.relaySessions.length = (grants events).length := by
      rw [← List.length_map (·.session), h.sessions, List.length_reverse]
    have hrows : (s.recorder.step X
        ⟨.record (.relayGrant label sourceId targetId), elapsed, now, order⟩).store.relaySessions =
        s.recorder.store.relaySessions ++
          [{ session := label, sourceId, targetId, brokeredAt := now }] := by
      show evictRelaySessions s.recorder.store.relaySessions ++ _ = _
      rw [evictRelaySessions, Capped.evict_of_le _ _ (by omega)]
    have htotals : (s.recorder.step X
        ⟨.record (.relayGrant label sourceId targetId), elapsed, now, order⟩).store.totals =
        s.recorder.store.totals := rfl
    have hsessions : (s.recorder.step X ⟨.record (.relayGrant label sourceId targetId), elapsed,
        now, order⟩).store.relaySessions.map (·.session) = (label :: grants events).reverse := by
      rw [hrows, List.map_append, h.sessions, List.reverse_cons]
      rfl
    generalize s.recorder.step X ⟨.record (.relayGrant label sourceId targetId), elapsed, now,
      order⟩ = recorder at hrows htotals hsessions
    refine ⟨h.rows, h.labelled, h.printable, h.covered, h.distinct,
      fun k l hl => List.mem_cons_of_mem label (h.brokered k l hl), ⟨?_, ?_⟩, hsessions, ⟨?_, ?_⟩,
      fun row hrow => ?_, fun samples hsamples => ?_⟩
    · exact fun hin => (List.mem_cons.1 hin).elim hlabel.symm h.labels.1
    · exact hroom
    · show (recorder.store.relaySessions.map (·.session)).Nodup
      have hdistinct := h.summed.distinct
      rw [h.sessions, List.nodup_reverse] at hdistinct
      rw [hsessions, List.nodup_reverse]
      exact List.nodup_cons.2 ⟨hfresh, hdistinct⟩
    · show recorder.store.totals.relayBytes = _
      rw [htotals, h.summed.total]
      show _ = (recorder.store.relaySessions.map (·.bytes)).sum
      rw [hrows, List.map_append, List.sum_append]
      rfl
    · have hmem : row ∈ s.recorder.store.relaySessions ++
          [{ session := label, sourceId, targetId, brokeredAt := now }] := hrows ▸ hrow
      obtain hmem | hmem := List.mem_append.1 hmem
      · exact h.behind row hmem
      · rw [List.mem_singleton.1 hmem]
        exact .inl rfl
    · obtain ⟨hdistinct, hextends, hcarried⟩ := h.fetched samples hsamples
      refine ⟨hdistinct, fun y hy => ?_, hcarried⟩
      obtain ⟨hne, hmem, hle⟩ := hextends y hy
      have hgranted : y.session ∈ grants events := by
        rw [h.sessions] at hmem
        exact List.mem_reverse.1 hmem
      refine ⟨hne, ?_, fun row hrow hsession => ?_⟩
      · show y.session ∈ recorder.store.relaySessions.map (·.session)
        rw [hsessions, List.mem_reverse]
        exact List.mem_cons_of_mem label hgranted
      · have hrow' : row ∈ s.recorder.store.relaySessions ++
            [{ session := label, sourceId, targetId, brokeredAt := now }] := hrows ▸ hrow
        obtain hrow' | hrow' := List.mem_append.1 hrow'
        · exact hle row hrow' hsession
        · rw [List.mem_singleton.1 hrow']
          exact Nat.zero_le _
  · simp only [not_exists] at hop
    obtain ⟨hrows, hbytes⟩ : (s.recorder.step X e).store.relaySessions =
        s.recorder.store.relaySessions ∧ (s.recorder.step X e).store.totals.relayBytes =
          s.recorder.store.totals.relayBytes := Recorder.relay_perform hop husage
    have hgrants : grants (.record e :: events) = grants events := by
      show granted (e :: recorded events) = granted (recorded events)
      rw [granted]
      split
      · next heq => exact absurd heq (hop _ _ _)
      · rfl
    generalize s.recorder.step X e = recorder at hrows hbytes
    refine ⟨h.rows, h.labelled, h.printable, h.covered, h.distinct, ?_, ?_, ?_, ⟨?_, ?_⟩, ?_,
      fun samples hsamples => ?_⟩
    · rw [hgrants]
      exact h.brokered
    · rw [hgrants]
      exact h.labels
    · rw [hgrants, ← h.sessions]
      exact congrArg _ hrows
    · show (recorder.store.relaySessions.map (·.session)).Nodup
      rw [hrows]
      exact h.summed.distinct
    · show recorder.store.totals.relayBytes = (recorder.store.relaySessions.map (·.bytes)).sum
      rw [hrows, hbytes]
      exact h.summed.total
    · show ∀ row ∈ recorder.store.relaySessions, _
      rw [hrows]
      exact h.behind
    · obtain ⟨hdistinct, hextends, hcarried⟩ := h.fetched samples hsamples
      refine ⟨hdistinct, ?_, hcarried⟩
      unfold Extends
      rw [hrows]
      exact hextends

theorem checkCmd_uj (statics : Statics) :
    checkCmd F "uj" statics = pure (showUsageJson statics, statics) := by
  have hread : readCmd "uj" = some (.usageJson, none) := by decide +kernel
  rw [checkCmd, hread]
  rfl

theorem step_fetch : (s.step F X .fetch).val =
    { s with fetched := readRelayUsage (showUsageJson s.relaying.statics) } := by
  rw [Metering.step, checkCmd_uj]
  rfl

theorem step_fold {samples : List RelayUsageSample} (hfetched : s.fetched = some samples)
    (elapsed : ℕ) (now : String) (order : FinMap.Iteration String NemoPeerStats) :
    (s.step F X (.fold elapsed now order)).val = { s with
      fetched := none
      recorder := s.recorder.step X ⟨.relayUsage samples, elapsed, now, order⟩ } := by
  rw [Metering.step, hfetched]
  rfl

theorem nodup_samples {statics : Statics} (h : (statics.usage.map Prod.fst).Nodup) :
    ((samples statics).map Prod.fst).Nodup := by
  have hsub : ∀ l : List (String × Usage), ((l.filterMap fun e =>
      if e.2.1 = 0 then none
      else some (e.1, RelayUsageSample.mk ((statics.sessionLabels.lookup e.1).getD "")
        (e.2.2.1 / 8) e.2.2.2.2 e.2.2.2.1 e.2.1)).map Prod.fst).Sublist (l.map Prod.fst) := by
    intro l
    induction l with
    | nil => exact List.Sublist.slnil
    | cons e l ih =>
      rw [List.filterMap_cons, List.map_cons]
      split
      · exact ih.cons _
      · next b hb =>
        split at hb
        · cases hb
        · cases hb
          exact ih.cons_cons _
  exact h.sublist (hsub statics.usage)

/-- What is fetched is carried, and no row is ahead of it. -/
theorem Agrees.fetch (h : s.Agrees events) :
    Agrees { s with fetched := readRelayUsage (showUsageJson s.relaying.statics) }
      (.fetch :: events) := by
  refine ⟨h.rows, h.labelled, h.printable, h.covered, h.distinct, h.brokered, h.labels, h.sessions,
    h.summed, h.behind, fun report hreport => ?_⟩
  rw [readRelayUsage_showUsageJson h.printable.legible] at hreport
  cases hreport
  have hof : ∀ e ∈ samples s.relaying.statics, ∃ k x label, s.relaying.On k x ∧
      x.session.id = e.1 ∧ labelOf k (traffic events) = some label ∧ SampleOf x label e.2 := by
    intro e he
    obtain ⟨k, x, label, hx, hid, -, hlabel, hsample⟩ := exists_of_mem_samples h.rows h.labelled he
    exact ⟨k, x, label, hx, hid, hlabel, hsample⟩
  refine ⟨?_, fun y hy => ?_, fun y hy => ?_⟩
  · rw [List.map_map]
    have hkeys := nodup_samples h.rows.keys
    rw [List.Nodup, List.pairwise_map] at hkeys ⊢
    refine hkeys.imp_of_mem fun {e e'} he he' hne hsame => hne ?_
    obtain ⟨k, x, label, hx, hid, hlabel, hsample⟩ := hof e he
    obtain ⟨k', x', label', hx', hid', hlabel', hsample'⟩ := hof e' he'
    have heq : label = label' := hsample.session.symm.trans (hsame.trans hsample'.session)
    obtain rfl := h.distinct k k' label hlabel (heq ▸ hlabel')
    cases hx.1.symm.trans hx'.1
    exact hid.symm.trans hid'
  · obtain ⟨e, he, rfl⟩ := List.mem_map.1 hy
    obtain ⟨k, x, label, hx, -, hlabel, hsample⟩ := hof e he
    have hgranted := h.brokered k label hlabel
    refine ⟨?_, ?_, fun row hrow hsession => ?_⟩
    · rw [hsample.session]
      rintro rfl
      exact h.labels.1 hgranted
    · show e.2.session ∈ s.recorder.store.relaySessions.map (·.session)
      rw [h.sessions, List.mem_reverse, hsample.session]
      exact hgranted
    · rw [hsample.bytes]
      obtain hzero | ⟨k', x', hx', hlabel', hle⟩ := h.behind row hrow
      · omega
      · rw [hsession, hsample.session] at hlabel'
        obtain rfl := h.distinct k k' label hlabel hlabel'
        cases hx.1.symm.trans hx'
        exact hle
  · obtain ⟨e, he, rfl⟩ := List.mem_map.1 hy
    obtain ⟨k, x, label, hx, -, hlabel, hsample⟩ := hof e he
    exact ⟨k, x, hx.1, hsample.session ▸ hlabel, Nat.le_of_eq hsample.bytes⟩

/-- What is folded in is carried still. -/
theorem Agrees.fold (h : s.Agrees events) {samples : List RelayUsageSample}
    (hfetched : s.fetched = some samples) (elapsed : ℕ) (now : String)
    (order : FinMap.Iteration String NemoPeerStats) :
    Agrees { s with
        fetched := none
        recorder := s.recorder.step X ⟨.relayUsage samples, elapsed, now, order⟩ }
      (.fold elapsed now order :: events) ∧
    ∀ row ∈ (s.recorder.step X ⟨.relayUsage samples, elapsed, now, order⟩).store.relaySessions,
      ∀ y ∈ samples, row.session = y.session → row.bytes = y.bytes := by
  obtain ⟨hdistinct, hextends, hcarried⟩ := h.fetched samples hfetched
  have hfold : Folded s.recorder.store
      (s.recorder.step X ⟨.relayUsage samples, elapsed, now, order⟩).store samples :=
    h.summed.usage hextends hdistinct
  generalize s.recorder.step X ⟨.relayUsage samples, elapsed, now, order⟩ = recorder at hfold ⊢
  refine ⟨⟨h.rows, h.labelled, h.printable, h.covered, h.distinct, h.brokered, h.labels,
    hfold.sessions.trans h.sessions, hfold.summed, fun row hrow => ?_,
    fun samples' hsamples' => by cases hsamples'⟩, fun row hrow y hy hsession => ?_⟩
  · obtain ⟨y, hy, hsession, hbytes⟩ | ⟨-, row', hrow', hsession, hbytes⟩ := hfold.rows row hrow
    · rw [hsession, hbytes]
      exact .inr (hcarried y hy)
    · rw [← hsession, ← hbytes]
      exact h.behind row' hrow'
  · obtain ⟨z, hz, hzsession, hbytes⟩ | ⟨hout, -⟩ := hfold.rows row hrow
    · have hsame : z = y :=
        List.inj_on_of_nodup_map hdistinct hz hy (hzsession.symm.trans hsession)
      rw [hbytes, hsame]
    · exact absurd (hsession ▸ List.mem_map_of_mem hy) hout

theorem run_cons (F : Floats) (X : Setup) (env : ParamVars) (store : NemoStatsStore)
    (e : MeteringEvent) (past : List MeteringEvent) :
    (run F X env store (e :: past)).val = ((run F X env store past).val.step F X e).val ∧
      ((run F X env store (e :: past)).InRange ↔ (run F X env store past).InRange ∧
        ((run F X env store past).val.step F X e).InRange) := by
  unfold run
  rw [Arith.runs, Arith.val_bind, Arith.inRange_bind]
  exact ⟨rfl, Iff.rfl⟩

theorem Agrees.step (h : s.Agrees events) {e : MeteringEvent} (hproper : Proper D s events e)
    (hin : (s.step F X e).InRange) : Agrees (s.step F X e).val (e :: events) := by
  cases e with
  | relay e =>
    rw [Metering.step, Arith.inRange_bind] at hin
    exact h.relay hproper hin.1
  | record e => exact h.record hproper
  | fetch =>
    rw [step_fetch]
    exact h.fetch
  | fold elapsed now order =>
    cases hfetched : s.fetched with
    | none =>
      simp only [Metering.step, hfetched, Arith.val_pure]
      exact ⟨h.rows, h.labelled, h.printable, h.covered, h.distinct, h.brokered, h.labels,
        h.sessions, h.summed, h.behind, h.fetched⟩
    | some samples =>
      rw [step_fold hfetched]
      exact (h.fold hfetched elapsed now order).1

theorem agrees_run (F : Floats) (X : Setup) (env : ParamVars)
    (connHistoryLimit logHistoryLimit : ℕ) (stamps : Table String ℕ)
    {events : List MeteringEvent}
    (hin : (run F X env (.start connHistoryLimit logHistoryLimit stamps) events).InRange)
    (hproper : ∀ e past, e :: past <:+ events →
      Proper D (run F X env (.start connHistoryLimit logHistoryLimit stamps) past).val past e) :
    Agrees (run F X env (.start connHistoryLimit logHistoryLimit stamps) events).val events := by
  induction events with
  | nil =>
    unfold run Arith.runs at hin ⊢
    rw [Arith.inRange_bind] at hin
    rw [Arith.val_bind, Arith.val_pure]
    have hnone : ∀ e past, e :: past <:+ ([] : List Traffic) →
        Relaying.Apart (Relaying.run F env past).val e :=
      fun e past hs => absurd (List.suffix_nil.1 hs) (List.cons_ne_nil e past)
    refine ⟨rows_run F env hin.1 hnone, labelled_run F env hin.1 hnone,
      printable_run (D := D) F env hin.1 fun e he => absurd he List.not_mem_nil,
      fun k x hx => (by cases hx), fun j k label hj => (by cases hj),
      fun k label hk => (by cases hk), ⟨List.not_mem_nil, Nat.zero_le _⟩, rfl,
      ⟨List.nodup_nil, rfl⟩, fun row hrow => absurd hrow List.not_mem_nil,
      fun samples hsamples => (by cases hsamples)⟩
  | cons e past ih =>
    obtain ⟨hval, hrange⟩ := run_cons F X env (.start connHistoryLimit logHistoryLimit stamps) e past
    obtain ⟨hpast, hlast⟩ := hrange.1 hin
    rw [hval]
    exact (ih hpast fun e' past' hs => hproper e' past' (hs.trans (List.suffix_cons e past))).step
      (hproper e past List.suffix_rfl) hlast

/-! ## A session that is polled once -/

namespace Sample

/-- The label of its grant. -/
def label : String := (NemoServer.Sample.setup .offer false).relaySessionLabel "grant"

def granted : MeteringEvent :=
  .record ⟨.record (.relayGrant label "ctrl-1" "work-1"), 10, "2026-01-01T00:00:00Z", .listed⟩

/-- Its parked side writes three bytes in two seconds. -/
def wrote : List MeteringEvent :=
  [.relay (.round 0 (.recv .peer (some [1, 2, 3]) true) 2000000000 2000000000 2000000000),
    .relay (.begins 0 "192.0.2.1:4000" "192.0.2.1" label 0), granted]

def polled : List MeteringEvent := .fold 10 "2026-01-01T00:00:05Z" .listed :: .fetch :: wrote

/-- The two servers after the events. -/
abbrev after (events : List MeteringEvent) : Arith Metering :=
  run Relay.Sample.floats (NemoServer.Sample.setup .offer false) Relay.Sample.noVars
    (.start 420 500 Table.empty) events

theorem proper_begins : Proper (NemoServer.Sample.setup .offer false).toDeps (after [granted]).val
    [granted] (.relay (.begins 0 "192.0.2.1:4000" "192.0.2.1" label 0)) := by
  have hnone : ∀ k, (after [granted]).val.relaying.pumps k = none := fun k => rfl
  have hoff : ∀ k x, ¬(after [granted]).val.relaying.On k x := by
    rintro k x ⟨hx, -⟩
    rw [hnone] at hx
    cases hx
  refine ⟨⟨hoff 0, fun j x hx => absurd hx (hoff j x)⟩,
    ⟨.v4 ⟨192, 0, 2, 1⟩ 4000, "grant", by decide, by decide, rfl⟩, hnone 0, List.mem_cons_self,
    fun j hj => ?_⟩
  cases hj

theorem proper_wrote (e : MeteringEvent) (past : List MeteringEvent) (h : e :: past <:+ wrote) :
    Proper (NemoServer.Sample.setup .offer false).toDeps (after past).val past e := by
  obtain heq | h := List.suffix_cons_iff.1 h
  · cases heq
    trivial
  · obtain heq | h := List.suffix_cons_iff.1 h
    · cases heq
      exact proper_begins
    · obtain heq | h := List.suffix_cons_iff.1 h
      · cases heq
        refine ⟨fun samples hop => (by cases hop), fun l sourceId targetId hop => ?_⟩
        cases hop
        exact ⟨by decide +kernel, List.not_mem_nil, by decide⟩
      · exact absurd (List.suffix_nil.1 h) (List.cons_ne_nil _ _)

theorem proper_polled (e : MeteringEvent) (past : List MeteringEvent) (h : e :: past <:+ polled) :
    Proper (NemoServer.Sample.setup .offer false).toDeps (after past).val past e := by
  obtain heq | h := List.suffix_cons_iff.1 h
  · cases heq
    trivial
  · obtain heq | h := List.suffix_cons_iff.1 h
    · cases heq
      trivial
    · exact proper_wrote e past h

theorem wrote_isSome : ((after wrote).val.relaying.pumps 0).isSome = true := by
  decide +kernel

/-- The session after that. -/
def pump : Pump := ((after wrote).val.relaying.pumps 0).get wrote_isSome

end Sample

/-- At any time of a run of hbbr and hbbs, whatever happened between an answer of hbbr and its
folding in, there is a row for each grant, the total of the fleet is the sum of the rows, and no row
has more bytes than went through its session. -/
theorem fleet_total_relayed (F : Floats) (X : Setup) (D : Deps) (env : ParamVars)
    (connHistoryLimit logHistoryLimit : ℕ) (stamps : Table String ℕ)
    (events : List MeteringEvent)
    (hin : (run F X env (.start connHistoryLimit logHistoryLimit stamps) events).InRange)
    (hproper : ∀ e past, e :: past <:+ events →
      Proper D (run F X env (.start connHistoryLimit logHistoryLimit stamps) past).val past e) :
    let s := (run F X env (.start connHistoryLimit logHistoryLimit stamps) events).val
    s.recorder.store.relaySessions.map (·.session) = (grants events).reverse ∧
      s.recorder.store.totals.relayBytes =
        (s.recorder.store.relaySessions.map (·.bytes)).sum ∧
      ∀ row ∈ s.recorder.store.relaySessions, row.bytes = 0 ∨ ∃ k x,
        s.relaying.pumps k = some x ∧ labelOf k (traffic events) = some row.session ∧
        row.bytes ≤ (x.received .stream).flatten.length + (x.received .peer).flatten.length := by
  have h := agrees_run (D := D) F X env connHistoryLimit logHistoryLimit stamps hin hproper
  refine ⟨h.sessions, h.summed.total, fun row hrow => ?_⟩
  refine (h.behind row hrow).imp_right fun ⟨k, x, hx, hlabel, hle⟩ => ⟨k, x, hx, hlabel, ?_⟩
  have hcovered := h.covered k x hx
  unfold Pump.measured at hle
  unfold Pump.carried at hcovered
  omega

theorem fleet_total_relayed_polled :
    let s := (Sample.after Sample.polled).val
    s.recorder.store.relaySessions.map (·.session) = (grants Sample.polled).reverse ∧
      s.recorder.store.totals.relayBytes =
        (s.recorder.store.relaySessions.map (·.bytes)).sum ∧
      ∀ row ∈ s.recorder.store.relaySessions, row.bytes = 0 ∨ ∃ k x,
        s.relaying.pumps k = some x ∧ labelOf k (traffic Sample.polled) = some row.session ∧
        row.bytes ≤ (x.received .stream).flatten.length + (x.received .peer).flatten.length :=
  fleet_total_relayed Relay.Sample.floats (NemoServer.Sample.setup .offer false)
    (NemoServer.Sample.setup .offer false).toDeps Relay.Sample.noVars 420 500 Table.empty
    Sample.polled (by decide +kernel) Sample.proper_polled

/-- When an answer is folded in before anything else happens, the row of each session that has been
measured has all bytes that went through it up to its last measurement. -/
theorem polled_rows_measured (F : Floats) (X : Setup) (D : Deps) (env : ParamVars)
    (connHistoryLimit logHistoryLimit : ℕ) (stamps : Table String ℕ)
    (events : List MeteringEvent) (elapsed : ℕ) (now : String)
    (order : FinMap.Iteration String NemoPeerStats)
    (hin : (run F X env (.start connHistoryLimit logHistoryLimit stamps) events).InRange)
    (hproper : ∀ e past, e :: past <:+ events →
      Proper D (run F X env (.start connHistoryLimit logHistoryLimit stamps) past).val past e)
    (k : ℕ) (x : Pump)
    (hx : (run F X env (.start connHistoryLimit logHistoryLimit stamps)
      events).val.relaying.On k x) (hpos : 0 < x.session.elapsed) :
    ∃ label, labelOf k (traffic events) = some label ∧
      ∃ row ∈ (run F X env (.start connHistoryLimit logHistoryLimit stamps)
        (.fold elapsed now order :: .fetch :: events)).val.recorder.store.relaySessions,
        row.session = label ∧ row.bytes = (x.session.total - x.session.totalS) / 8 := by
  have h := agrees_run (D := D) F X env connHistoryLimit logHistoryLimit stamps hin hproper
  rw [(run_cons ..).1, (run_cons ..).1]
  generalize (run F X env (.start connHistoryLimit logHistoryLimit stamps) events).val = s at h hx ⊢
  have hread := readRelayUsage_showUsageJson h.printable.legible
  obtain ⟨label, hlabel, e, he, -, hsample⟩ := exists_mem_samples h.rows h.labelled hx hpos
  have hfetch := h.fetch
  rw [hread] at hfetch
  have hfold := (hfetch.fold (X := X) rfl elapsed now order).2
  rw [step_fetch, hread, step_fold rfl]
  have hsessions := (hfetch.fold (X := X) rfl elapsed now order).1.sessions
  have hmem : label ∈ (s.recorder.step X ⟨.relayUsage ((samples s.relaying.statics).map Prod.snd),
      elapsed, now, order⟩).store.relaySessions.map (·.session) := by
    refine hsessions.symm ▸ List.mem_reverse.2 ?_
    exact h.brokered k label hlabel
  obtain ⟨row, hrow, hsession⟩ := List.mem_map.1 hmem
  refine ⟨label, hlabel, row, hrow, hsession, ?_⟩
  rw [hfold row hrow e.2 (List.mem_map_of_mem he) (hsession.trans hsample.session.symm)]
  exact hsample.bytes

theorem polled_rows_measured_wrote : ∃ label, labelOf 0 (traffic Sample.wrote) = some label ∧
    ∃ row ∈ (Sample.after (.fold 10 "2026-01-01T00:00:05Z" .listed :: .fetch ::
        Sample.wrote)).val.recorder.store.relaySessions,
      row.session = label ∧
        row.bytes = (Sample.pump.session.total - Sample.pump.session.totalS) / 8 :=
  polled_rows_measured Relay.Sample.floats (NemoServer.Sample.setup .offer false)
    (NemoServer.Sample.setup .offer false).toDeps Relay.Sample.noVars 420 500 Table.empty
    Sample.wrote 10 "2026-01-01T00:00:05Z" .listed (by decide +kernel) Sample.proper_wrote 0
    Sample.pump ⟨(Option.some_get _).symm, by decide +kernel⟩ (by decide +kernel)

end Metering

end Management

end NemoServer
