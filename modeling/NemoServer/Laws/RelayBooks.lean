import Mathlib.Algebra.BigOperators.Group.List.Basic
import Mathlib.Algebra.GroupWithZero.Nat
import NemoServer.Laws.RelayTotal

/-!
# The books of the relayed bytes

Over a run of grants and of reports on the sessions they broker, the three places where relayed
bytes are kept agree: the rows of the sessions, the entries of the peers at their ends, and the
total of the fleet.

* `relay_books_balance`: each peer has the bytes of the rows it is an end of, the fleet those of all
  rows, and a row is live exactly while it is reported.
-/

set_option autoImplicit false

namespace NemoServer

namespace Management

open Meter

/-- The labels that were granted over a history, the newest first. -/
def granted : List StatsStep → List String
  | [] => []
  | e :: past =>
    match e.op with
    | .record (.relayGrant label _ _) => label :: granted past
    | _ => granted past

/-- The labels of the newest report of a history. -/
def latestLabels : List StatsStep → List String
  | [] => []
  | e :: past =>
    match e.op with
    | .relayUsage samples => samples.map (·.session)
    | _ => latestLabels past

/-- A run of grants, each of a fresh label while there is room for its row, and of reports, each of
sessions that were granted and with counts no lower than the last. -/
def Brokered : List StatsStep → Prop
  | [] => True
  | e :: past => Brokered past ∧
    match e.op with
    | .record (.relayGrant label _ _) =>
      label ≠ "" ∧ label ∉ granted past ∧ (granted past).length < relaySessionMemory
    | .relayUsage samples => (samples.map (·.session)).Nodup ∧ ∀ x ∈ samples,
      x.session ∈ granted past ∧ lastCount (reports past) x.session ≤ x.bytes
    | _ => False

/-- What a row has for a peer: its bytes, once for each end that the peer is. -/
def endBytes (id : String) (row : RelaySessionRecord) : ℕ :=
  (if row.sourceId = id then row.bytes else 0) + if row.targetId = id then row.bytes else 0

/-- The books of a history balance: there is a row for each session that was granted, with its last
count. -/
structure Balanced (history : List StatsStep) (s : NemoStatsStore) : Prop where
  sessions : s.relaySessions.map (·.session) = (granted history).reverse
  counts : ∀ row ∈ s.relaySessions, row.bytes = lastCount (reports history) row.session
  peers : ∀ id, id ≠ "" →
    (s.peerStats id).relayBytes = (s.relaySessions.map (endBytes id)).sum
  nameless : "" ∉ s.peers
  total : s.totals.relayBytes = (s.relaySessions.map (·.bytes)).sum
  live : ∀ row ∈ s.relaySessions, row.live = true ↔ row.session ∈ latestLabels history

namespace NemoStatsStore

variable {order : FinMap.Iteration String NemoPeerStats} {now : String} {s : NemoStatsStore}
  {rs : List (String × ℕ)}

/-! ## Charging the ends of a session -/

theorem lookup_peerStatsMut {peers : PeerTable} {id j : String}
    {f : NemoPeerStats → NemoPeerStats} (h : peers.size < maxPeerStats) :
    AList.lookup j (peers.peerStatsMut order id f) =
      if j = id then some (f ((AList.lookup id peers).getD {})) else AList.lookup j peers := by
  unfold PeerTable.peerStatsMut PeerTable.makeRoom
  rw [if_neg fun hfull => absurd hfull.1 (Nat.not_le.2 h)]
  split
  · rename_i heq
    rw [heq, AList.lookup_insert]
  · rename_i hne
    rw [AList.lookup_insert_ne hne]

variable (order) in
theorem size_peerStatsMut_le_succ {peers : PeerTable} (id : String)
    {f : NemoPeerStats → NemoPeerStats} (h : peers.size < maxPeerStats) :
    (peers.peerStatsMut order id f).size ≤ peers.size + 1 := by
  unfold PeerTable.peerStatsMut PeerTable.makeRoom
  rw [if_neg fun hfull => absurd hfull.1 (Nat.not_le.2 h), FinMap.size_insert]
  split <;> omega

variable (order s) in
/-- While there is room, the ends that are named get the bytes, once each time they are named, and
nothing else changes in the count of any peer. -/
theorem relayBytes_chargeEnds (delta : ℕ) (ends : List String) {id : String} (hid : id ≠ "")
    (hroom : s.peers.size + ends.length ≤ maxPeerStats) :
    ((s.chargeEnds order delta ends).peerStats id).relayBytes =
      (s.peerStats id).relayBytes + (ends.map fun e => if e = id then delta else 0).sum := by
  induction ends generalizing s with
  | nil => rfl
  | cons e ends ih =>
    rw [List.length_cons] at hroom
    rw [chargeEnds, List.foldl_cons, ← chargeEnds, List.map_cons, List.sum_cons]
    by_cases he : e = ""
    · have hne : e ≠ id := fun h => hid (h ▸ he)
      rw [if_pos he, ih s (by omega), if_neg hne, Nat.zero_add]
    · have hlt : s.peers.size < maxPeerStats := by omega
      rw [if_neg he, ih]
      · unfold peerStats peerStatsMut
        dsimp only
        rw [lookup_peerStatsMut hlt]
        by_cases heq : id = e
        · rw [if_pos heq, if_pos heq.symm, heq, Option.getD_some]
          dsimp only
          omega
        · rw [if_neg heq, if_neg fun h => heq h.symm, Nat.zero_add]
      · have := size_peerStatsMut_le_succ order e
          (f := fun peer => { peer with relayBytes := peer.relayBytes + delta }) hlt
        unfold peerStatsMut
        dsimp only
        omega

/-! ## One sample -/

/-- The books balance for the reports `rs` on the sessions of the labels, in the order they were
granted, and there is room for every end in the map of the peers. -/
structure Books (s : NemoStatsStore) (rs : List (String × ℕ)) (labels : List String) : Prop where
  sessions : s.relaySessions.map (·.session) = labels
  distinct : labels.Nodup
  room : labels.length ≤ relaySessionMemory
  counts : ∀ row ∈ s.relaySessions, row.bytes = lastCount rs row.session
  peers : ∀ id, id ≠ "" →
    (s.peerStats id).relayBytes = (s.relaySessions.map (endBytes id)).sum
  nameless : "" ∉ s.peers
  ends : ∀ id ∈ s.peers, ∃ row ∈ s.relaySessions, id = row.sourceId ∨ id = row.targetId
  total : s.totals.relayBytes = (s.relaySessions.map (·.bytes)).sum

variable {labels : List String}

/-- Two peers to a row, the peers are far from their bound. -/
theorem Books.size_le (h : s.Books rs labels) : s.peers.size ≤ 2 * relaySessionMemory := by
  have hsub : s.peers.keys ⊆ s.relaySessions.flatMap fun row => [row.sourceId, row.targetId] := by
    intro id hid
    obtain ⟨row, hrow, hend⟩ := h.ends id (AList.mem_keys.2 hid)
    exact List.mem_flatMap.2 ⟨row, hrow, by simpa using hend⟩
  have hlen := (List.subperm_of_subset s.peers.keys_nodup hsub).length_le
  rw [FinMap.length_keys, List.length_flatMap] at hlen
  have hsessions := h.sessions ▸ h.room
  rw [List.length_map] at hsessions
  simp only [List.length_cons, List.length_nil, List.map_const', List.sum_replicate_nat] at hlen
  omega

theorem sum_map_split (f : RelaySessionRecord → ℕ) (front back : List RelaySessionRecord)
    (row : RelaySessionRecord) : ((front ++ row :: back).map f).sum =
      (front.map f).sum + (f row + (back.map f).sum) := by
  rw [List.map_append, List.sum_append, List.map_cons, List.sum_cons]

variable (order now s) in
/-- A sample of a session that has one row: the row is brought to its count, and its ends and the
fleet are charged what was missing. -/
structure Sampled (x : RelayUsageSample) (front : List RelaySessionRecord)
    (row : RelaySessionRecord) (back : List RelaySessionRecord) : Prop where
  rows : s.relaySessions = front ++ row :: back
  session : row.session = x.session
  others : ∀ r, r ∈ front ∨ r ∈ back → r.session ≠ x.session
  after : s.applyRelaySample order now x = { s with
    relaySessions := front ++ sampledRow now x row :: back
    totals := { s.totals with relayBytes := s.totals.relayBytes + (x.bytes - row.bytes) }
    peers := s.peers.touchAll order
      (endTouches (x.bytes - row.bytes) [row.sourceId, row.targetId]) }

variable (order now) in
theorem Books.exists_sampled (h : s.Books rs labels) {x : RelayUsageSample} (hx : x.session ≠ "")
    (hlabel : x.session ∈ labels) : ∃ front row back, s.Sampled order now x front row back := by
  obtain ⟨hnone, -⟩ | ⟨front, row, back, hrows, hrow, hfront, heq⟩ :=
    applyRelaySample_cases order now s hx
  · rw [← h.sessions] at hlabel
    obtain ⟨row, hmem, hrow⟩ := List.mem_map.1 hlabel
    exact absurd hrow (hnone row hmem)
  · refine ⟨front, row, back, hrows, hrow, ?_, heq⟩
    have hnodup := h.sessions ▸ h.distinct
    rw [hrows, List.map_append, List.map_cons, List.nodup_append, List.nodup_cons] at hnodup
    rintro r (hr | hr)
    · exact hfront r hr
    · exact fun hsame => hnodup.2.1.1 (hrow.trans hsame.symm ▸ List.mem_map_of_mem hr)

namespace Sampled

variable {x : RelayUsageSample} {front back : List RelaySessionRecord} {row : RelaySessionRecord}

theorem mem (hs : s.Sampled order now x front row back) {r : RelaySessionRecord} :
    r ∈ s.relaySessions ↔ r = row ∨ r ∈ front ∨ r ∈ back := by
  rw [hs.rows, List.mem_append, List.mem_cons, or_left_comm]

theorem mem_after (hs : s.Sampled order now x front row back) {r : RelaySessionRecord} :
    r ∈ (s.applyRelaySample order now x).relaySessions ↔
      r = sampledRow now x row ∨ r ∈ front ∨ r ∈ back := by
  rw [hs.after]
  dsimp only
  rw [List.mem_append, List.mem_cons, or_left_comm]

/-- The row of the session is live, and all others are what they were. -/
theorem rows_after (hs : s.Sampled order now x front row back) :
    (∀ r ∈ (s.applyRelaySample order now x).relaySessions,
      r.session = x.session → r.live = true) ∧
    ∀ r, r.session ≠ x.session →
      (r ∈ (s.applyRelaySample order now x).relaySessions ↔ r ∈ s.relaySessions) := by
  refine ⟨fun r hr hsame => ?_, fun r hne => ?_⟩
  · obtain rfl | hr := hs.mem_after.1 hr
    · rfl
    · exact absurd hsame (hs.others r hr)
  · have hrow : r ≠ row := fun heq => hne (heq ▸ hs.session)
    have hsampled : r ≠ sampledRow now x row := fun heq => hne (heq ▸ hs.session)
    rw [hs.mem_after, hs.mem, or_iff_right hsampled, or_iff_right hrow]

/-- Each row has the last count of its session. -/
theorem counts_after (hs : s.Sampled order now x front row back) (h : s.Books rs labels) :
    ∀ r ∈ (s.applyRelaySample order now x).relaySessions,
      r.bytes = lastCount ((x.session, x.bytes) :: rs) r.session := by
  intro r hr
  obtain rfl | hr := hs.mem_after.1 hr
  · rw [show (sampledRow now x row).session = x.session from hs.session, lastCount_cons_self]
    rfl
  · rw [lastCount_cons_of_ne _ _ (hs.others r hr).symm]
    exact h.counts r (hs.mem.2 (.inr hr))

/-- Each peer has the bytes of the rows it is an end of. -/
theorem peers_after (hs : s.Sampled order now x front row back) (h : s.Books rs labels)
    (hbytes : row.bytes ≤ x.bytes) {id : String} (hid : id ≠ "") :
    ((s.applyRelaySample order now x).peerStats id).relayBytes =
      ((s.applyRelaySample order now x).relaySessions.map (endBytes id)).sum := by
  have hroom : s.peers.size + [row.sourceId, row.targetId].length ≤ maxPeerStats := by
    have := h.size_le
    unfold relaySessionMemory at this
    unfold maxPeerStats
    rw [List.length_cons, List.length_singleton]
    omega
  have hcharge := relayBytes_chargeEnds order s (x.bytes - row.bytes)
    [row.sourceId, row.targetId] hid hroom
  rw [chargeEnds_eq] at hcharge
  have hends : endBytes id (sampledRow now x row) = endBytes id row +
      ([row.sourceId, row.targetId].map fun e => if e = id then x.bytes - row.bytes else 0).sum := by
    unfold endBytes sampledRow
    simp only [List.map_cons, List.map_nil, List.sum_cons, List.sum_nil]
    split <;> split <;> omega
  rw [hs.after]
  refine hcharge.trans ?_
  dsimp only
  rw [h.peers id hid, hs.rows, sum_map_split, sum_map_split, hends]
  omega

/-- A peer that is counted is an end of some row. -/
theorem ends_after (hs : s.Sampled order now x front row back) (h : s.Books rs labels) :
    ∀ id ∈ (s.applyRelaySample order now x).peers,
      ∃ r ∈ (s.applyRelaySample order now x).relaySessions, id = r.sourceId ∨ id = r.targetId := by
  intro id hin
  rw [hs.after] at hin
  by_cases hids : id ∈ (endTouches (x.bytes - row.bytes) [row.sourceId, row.targetId]).map Prod.fst
  · obtain ⟨t, ht, rfl⟩ := List.mem_map.1 hids
    obtain ⟨id, hid, rfl⟩ := List.mem_map.1 ht
    have hend := (List.mem_filter.1 hid).1
    rw [List.mem_cons, List.mem_singleton] at hend
    exact ⟨sampledRow now x row, hs.mem_after.2 (.inl rfl), hend⟩
  · obtain ⟨r, hr, hend⟩ := h.ends id (PeerTable.mem_of_mem_touchAll hin hids)
    obtain rfl | hr := hs.mem.1 hr
    · exact ⟨sampledRow now x r, hs.mem_after.2 (.inl rfl), hend⟩
    · exact ⟨r, hs.mem_after.2 (.inr hr), hend⟩

end Sampled

variable (order now) in
/-- A sample of a session that was granted brings its row, its ends and the fleet to its count. -/
theorem Books.sample (h : s.Books rs labels) {x : RelayUsageSample} (hx : x.session ≠ "")
    (hlabel : x.session ∈ labels) (hcount : lastCount rs x.session ≤ x.bytes) :
    let s' := s.applyRelaySample order now x
    s'.Books ((x.session, x.bytes) :: rs) labels ∧
      (∀ row ∈ s'.relaySessions, row.session = x.session → row.live = true) ∧
      ∀ row, row.session ≠ x.session → (row ∈ s'.relaySessions ↔ row ∈ s.relaySessions) := by
  obtain ⟨front, row, back, hs⟩ := h.exists_sampled order now hx hlabel
  have hbytes : row.bytes ≤ x.bytes := by
    rw [h.counts row (hs.mem.2 (.inl rfl)), hs.session]
    exact hcount
  refine ⟨⟨?_, h.distinct, h.room, hs.counts_after h, fun id hid => hs.peers_after h hbytes hid,
    fun hin => ?_, hs.ends_after h, ?_⟩, hs.rows_after⟩
  · rw [hs.after, ← h.sessions, hs.rows, List.map_append, List.map_append]
    rfl
  · -- an end without a name is not charged
    rw [hs.after] at hin
    refine h.nameless (PeerTable.mem_of_mem_touchAll hin fun hids => ?_)
    obtain ⟨t, ht, hempty⟩ := List.mem_map.1 hids
    obtain ⟨id, hid, rfl⟩ := List.mem_map.1 ht
    exact absurd hempty (bne_iff_ne.1 (List.mem_filter.1 hid).2)
  · rw [hs.after]
    dsimp only
    rw [h.total, hs.rows, sum_map_split, sum_map_split]
    change _ = _ + (x.bytes + _)
    omega

/-! ## A report -/

variable (order now) in
/-- The samples of a report keep the books; the rows they name are live, and the others are what
they were. -/
theorem Books.samples (h : s.Books rs labels) {samples : List RelayUsageSample}
    (hsamples : ∀ x ∈ samples, x.session ≠ "" ∧ x.session ∈ labels ∧
      lastCount rs x.session ≤ x.bytes) (hdistinct : (samples.map (·.session)).Nodup) :
    let s' := samples.foldl (fun s x => s.applyRelaySample order now x) s
    s'.Books (reportsOf samples ++ rs) labels ∧
      (∀ row ∈ s'.relaySessions, row.session ∈ samples.map (·.session) → row.live = true) ∧
      (∀ row ∈ s.relaySessions, row.session ∉ samples.map (·.session) → row ∈ s'.relaySessions) ∧
      ∀ row ∈ s'.relaySessions, row.session ∉ samples.map (·.session) →
        row ∈ s.relaySessions := by
  induction samples generalizing s rs with
  | nil =>
    exact ⟨h, fun _ _ hin => absurd hin List.not_mem_nil, fun _ hrow _ => hrow,
      fun _ hrow _ => hrow⟩
  | cons x samples ih =>
    obtain ⟨hlabel, hgranted, hcount⟩ := hsamples x List.mem_cons_self
    rw [List.map_cons, List.nodup_cons] at hdistinct
    obtain ⟨hbooks, hlive, hothers⟩ := h.sample order now hlabel hgranted hcount
    have hrest : ∀ y ∈ samples, y.session ≠ "" ∧ y.session ∈ labels ∧
        lastCount ((x.session, x.bytes) :: rs) y.session ≤ y.bytes := by
      intro y hy
      have hne : x.session ≠ y.session := fun hsame => hdistinct.1 (hsame ▸ List.mem_map_of_mem hy)
      rw [lastCount_cons_of_ne _ _ hne]
      exact hsamples y (List.mem_cons_of_mem x hy)
    obtain ⟨ihbooks, ihlive, ihkeeps, ihfrom⟩ := ih hbooks hrest hdistinct.2
    have hrs : reportsOf (x :: samples) ++ rs = reportsOf samples ++ (x.session, x.bytes) :: rs := by
      simp [reportsOf, hlabel]
    dsimp only
    rw [hrs, List.foldl_cons, List.map_cons]
    refine ⟨ihbooks, fun row hrow hin => ?_, fun row hrow hout => ?_, fun row hrow hout => ?_⟩
    · by_cases hlater : row.session ∈ samples.map (·.session)
      · exact ihlive row hrow hlater
      · have hsame := (List.mem_cons.1 hin).resolve_right hlater
        exact hlive row (ihfrom row hrow hlater) hsame
    · rw [List.mem_cons, not_or] at hout
      exact ihkeeps row ((hothers row hout.1).2 hrow) hout.2
    · rw [List.mem_cons, not_or] at hout
      exact (hothers row hout.1).1 (ihfrom row hrow hout.2)

/-- Rows that keep their sessions, ends and counts keep the books. -/
theorem Books.map (h : s.Books rs labels) {f : RelaySessionRecord → RelaySessionRecord}
    (hf : ∀ row, (f row).brokered = row.brokered ∧ (f row).bytes = row.bytes) :
    Books { s with relaySessions := s.relaySessions.map f } rs labels := by
  have hsession (row : RelaySessionRecord) : (f row).session = row.session :=
    congrArg BrokeredSession.session (hf row).1
  have hsource (row : RelaySessionRecord) : (f row).sourceId = row.sourceId :=
    congrArg BrokeredSession.sourceId (hf row).1
  have htarget (row : RelaySessionRecord) : (f row).targetId = row.targetId :=
    congrArg BrokeredSession.targetId (hf row).1
  have hends (id : String) : endBytes id ∘ f = endBytes id := by
    funext row
    unfold endBytes
    rw [Function.comp_apply, hsource, htarget, (hf row).2]
  refine ⟨?_, h.distinct, h.room, ?_, fun id hid => ?_, h.nameless, fun id hid => ?_, ?_⟩
  · rw [List.map_map, ← h.sessions]
    exact List.map_congr_left fun row _ => hsession row
  · intro row' hrow'
    obtain ⟨row, hrow, rfl⟩ := List.mem_map.1 hrow'
    rw [hsession, (hf row).2]
    exact h.counts row hrow
  · rw [List.map_map, hends]
    exact h.peers id hid
  · obtain ⟨row, hrow, hend⟩ := h.ends id hid
    refine ⟨f row, List.mem_map_of_mem hrow, ?_⟩
    rw [hsource, htarget]
    exact hend
  · rw [List.map_map, show RelaySessionRecord.bytes ∘ f = RelaySessionRecord.bytes from
      funext fun row => (hf row).2]
    exact h.total

theorem endUnsampled_spec (seen : List String) (row : RelaySessionRecord) :
    (endUnsampled seen row).brokered = row.brokered ∧
      (endUnsampled seen row).bytes = row.bytes := by
  unfold endUnsampled
  split
  · exact ⟨rfl, rfl⟩
  · exact ⟨rfl, rfl⟩

/-- A row that has ended shows no rate. -/
def Quiet (s : NemoStatsStore) : Prop := ∀ row ∈ s.relaySessions, row.live = false → row.kbps = 0

variable (order now) in
/-- A report keeps the books, its sessions are the live ones, and the rows of the others end as they
are. -/
theorem Books.usage (h : s.Books rs labels) (hquiet : s.Quiet) {samples : List RelayUsageSample}
    (hsamples : ∀ x ∈ samples, x.session ≠ "" ∧ x.session ∈ labels ∧
      lastCount rs x.session ≤ x.bytes) (hdistinct : (samples.map (·.session)).Nodup) :
    let s' := s.applyRelayUsage order now samples
    s'.Books (reportsOf samples ++ rs) labels ∧ s'.Quiet ∧
      (∀ row ∈ s'.relaySessions, row.live = true ↔ row.session ∈ samples.map (·.session)) ∧
      ∀ row ∈ s.relaySessions, row.session ∉ samples.map (·.session) →
        { row with live := false, kbps := 0 } ∈ s'.relaySessions := by
  obtain ⟨hbooks, hlive, hkeeps, hfrom⟩ :=
    h.samples order now hsamples hdistinct
  -- every label of the report is one
  have hseen : (samples.map (·.session)).filter (· != "") = samples.map (·.session) := by
    refine List.filter_eq_self.2 fun l hl => ?_
    obtain ⟨x, hx, rfl⟩ := List.mem_map.1 hl
    exact bne_iff_ne.2 (hsamples x hx).1
  unfold applyRelayUsage
  dsimp only
  rw [hseen]
  -- what becomes of a row that is not named, and of one that is
  have hout (row : RelaySessionRecord) (hrow : row.session ∉ samples.map (·.session))
      (hq : row.live = false → row.kbps = 0) :
      endUnsampled (samples.map (·.session)) row = { row with live := false, kbps := 0 } := by
    unfold endUnsampled
    rw [List.contains_eq_mem, decide_eq_false hrow, Bool.not_false, Bool.and_true]
    split
    · rfl
    · rename_i hnot
      have hdead : row.live = false := Bool.eq_false_iff.2 hnot
      rw [← hdead, ← hq hdead]
  have hin (row : RelaySessionRecord) (hrow : row.session ∈ samples.map (·.session)) :
      endUnsampled (samples.map (·.session)) row = row := by
    unfold endUnsampled
    rw [List.contains_eq_mem, decide_eq_true hrow, Bool.not_true, Bool.and_false]
    rfl
  refine ⟨hbooks.map (endUnsampled_spec _), ?_, ?_, ?_⟩
  · intro row' hrow' hdead
    obtain ⟨row, hrow, rfl⟩ := List.mem_map.1 hrow'
    by_cases hmem : row.session ∈ samples.map (·.session)
    · rw [hin row hmem, hlive row hrow hmem] at hdead
      exact Bool.noConfusion hdead
    · rw [hout row hmem (hquiet row (hfrom row hrow hmem))]
  · intro row' hrow'
    obtain ⟨row, hrow, rfl⟩ := List.mem_map.1 hrow'
    by_cases hmem : row.session ∈ samples.map (·.session)
    · rw [hin row hmem]
      exact iff_of_true (hlive row hrow hmem) hmem
    · rw [hout row hmem (hquiet row (hfrom row hrow hmem))]
      exact iff_of_false Bool.false_ne_true hmem
  · intro row hrow hmem
    rw [← hout row hmem (hquiet row hrow)]
    exact List.mem_map_of_mem (hkeeps row hrow hmem)

variable (now) in
/-- A grant of a fresh label adds a row at the end. -/
theorem Books.grant (h : s.Books rs labels) {session : String}
    (sourceId targetId : String) (hfresh : session ∉ labels) (hroom : labels.length < relaySessionMemory)
    (hcount : lastCount rs session = 0) :
    (s.recordRelayGrant now session sourceId targetId).Books rs (labels ++ [session]) ∧
      (s.recordRelayGrant now session sourceId targetId).relaySessions =
        s.relaySessions ++ [{ session, sourceId, targetId, brokeredAt := now }] := by
  have hlen : s.relaySessions.length = labels.length := by
    rw [← h.sessions, List.length_map]
  have hrows : (s.recordRelayGrant now session sourceId targetId).relaySessions =
      s.relaySessions ++ [{ session, sourceId, targetId, brokeredAt := now }] := by
    unfold recordRelayGrant evictRelaySessions
    dsimp only
    rw [Capped.evict_of_le _ _ (by omega)]
  have hsum (f : RelaySessionRecord → ℕ)
      (hf : f { session, sourceId, targetId, brokeredAt := now } = 0) :
      ((s.relaySessions ++ [({ session, sourceId, targetId, brokeredAt := now } :
        RelaySessionRecord)]).map f).sum = (s.relaySessions.map f).sum := by
    rw [List.map_append, List.sum_append, List.map_singleton, List.sum_singleton, hf, Nat.add_zero]
  refine ⟨⟨?_, ?_, ?_, ?_, fun id hid => ?_, h.nameless, fun id hid => ?_, ?_⟩, hrows⟩
  · rw [hrows, List.map_append, h.sessions]
    rfl
  · rw [List.nodup_append]
    refine ⟨h.distinct, List.nodup_singleton session, fun l hl l' hl' heq => ?_⟩
    rw [List.mem_singleton.1 hl'] at heq
    exact hfresh (heq ▸ hl)
  · rw [List.length_append, List.length_singleton]
    exact hroom
  · intro row hrow
    rw [hrows] at hrow
    obtain hrow | hrow := List.mem_append.1 hrow
    · exact h.counts row hrow
    · rw [List.mem_singleton.1 hrow, hcount]
  · rw [hrows, hsum]
    · exact h.peers id hid
    · unfold endBytes
      simp only [ite_self, Nat.add_zero]
  · obtain ⟨row, hrow, hend⟩ := h.ends id hid
    rw [hrows]
    exact ⟨row, List.mem_append_left _ hrow, hend⟩
  · rw [hrows, hsum (·.bytes) rfl]
    exact h.total

end NemoStatsStore

/-! ## Runs -/

/-- A session that was reported was granted. -/
theorem Brokered.reported {history : List StatsStep} (h : Brokered history) :
    (∀ r ∈ reports history, r.1 ∈ granted history) ∧
      ∀ label ∈ latestLabels history, label ∈ granted history := by
  induction history with
  | nil => exact ⟨fun _ hr => absurd hr List.not_mem_nil, fun _ hl => absurd hl List.not_mem_nil⟩
  | cons e past ih =>
    obtain ⟨hpast, hop⟩ := h
    obtain ⟨ihreports, ihlatest⟩ := ih hpast
    unfold reports latestLabels granted
    split at hop
    · rename_i heq
      rw [heq]
      exact ⟨fun r hr => List.mem_cons_of_mem _ (ihreports r hr),
        fun l hl => List.mem_cons_of_mem _ (ihlatest l hl)⟩
    · rename_i samples heq
      rw [heq]
      refine ⟨fun r hr => ?_, fun l hl => ?_⟩
      · obtain hr | hr := List.mem_append.1 hr
        · obtain ⟨x, hx, rfl⟩ := List.mem_map.1 (List.mem_reverse.1 hr)
          exact (hop.2 x (List.mem_filter.1 hx).1).1
        · exact ihreports r hr
      · obtain ⟨x, hx, rfl⟩ := List.mem_map.1 hl
        exact (hop.2 x hx).1
    · exact hop.elim

section Runs

variable {X : Setup} {s : NemoStatsStore}

open NemoStatsStore

/-- No label is empty. -/
theorem Brokered.labelled {history : List StatsStep} (h : Brokered history) :
    "" ∉ granted history := by
  induction history with
  | nil => exact List.not_mem_nil
  | cons e past ih =>
    obtain ⟨hpast, hop⟩ := h
    unfold granted
    split at hop
    · rename_i heq
      rw [heq, List.mem_cons, not_or]
      exact ⟨hop.1.symm, ih hpast⟩
    · rename_i heq
      rw [heq]
      exact ih hpast
    · exact hop.elim

/-- Over a run of grants and reports the books are kept, the sessions of the newest report are the
live ones, and the others show no rate. -/
theorem books_after {history : List StatsStep} (h : Brokered history) (hs : s.Books [] [])
    (hempty : s.relaySessions = []) :
    let s' := (Recorder.after X s history).store
    s'.Books (reports history) (granted history).reverse ∧ s'.Quiet ∧
      (∀ row ∈ s'.relaySessions, row.live = true ↔ row.session ∈ latestLabels history) ∧
      ∀ e past samples, e :: past = history → e.op = .relayUsage samples →
        ∀ row ∈ (Recorder.after X s past).store.relaySessions,
          row.session ∉ samples.map (·.session) →
            { row with live := false, kbps := 0 } ∈ s'.relaySessions := by
  induction history with
  | nil =>
    refine ⟨hs, fun row hrow => ?_, fun row hrow => ?_, fun e past _ hnil => ?_⟩
    · exact absurd (hempty ▸ hrow) List.not_mem_nil
    · exact absurd (hempty ▸ hrow) List.not_mem_nil
    · exact absurd hnil (List.cons_ne_nil e past)
  | cons e past ih =>
    have hlabelled := Brokered.labelled h.1
    obtain ⟨hreported, hlatest⟩ := Brokered.reported h.1
    obtain ⟨hpast, hop⟩ := h
    obtain ⟨hbooks, hquiet, hlive, -⟩ := ih hpast
    rw [Recorder.after, Recorder.step]
    dsimp only
    split at hop
    · -- a grant: the new row holds nothing and is not live
      rename_i label sourceId targetId heq
      obtain ⟨-, hfresh, hroom⟩ := hop
      have hzero : lastCount (reports past) label = 0 := lastCount_of_not_mem fun hin => by
        obtain ⟨r, hr, rfl⟩ := List.mem_map.1 hin
        exact hfresh (hreported r hr)
      obtain ⟨hnext, hrows⟩ := hbooks.grant e.now sourceId targetId
        (fun hin => hfresh (List.mem_reverse.1 hin))
        (by rw [List.length_reverse]; exact hroom) hzero
      have hreports : reports (e :: past) = reports past := by
        rw [reports, heq]
      have hgranted : granted (e :: past) = label :: granted past := by
        rw [granted, heq]
      have hlabels : latestLabels (e :: past) = latestLabels past := by
        rw [latestLabels, heq]
      rw [heq, hreports, hgranted, hlabels, List.reverse_cons]
      refine ⟨hnext, fun row hrow hdead => ?_, fun row hrow => ?_, ?_⟩
      · obtain hrow | hrow := List.mem_append.1 (hrows ▸ hrow)
        · exact hquiet row hrow hdead
        · rw [List.mem_singleton.1 hrow]
      · obtain hrow | hrow := List.mem_append.1 (hrows ▸ hrow)
        · exact hlive row hrow
        · rw [List.mem_singleton.1 hrow]
          exact iff_of_false Bool.false_ne_true fun hin => hfresh (hlatest label hin)
      · intro e' past' samples hcons husage
        obtain ⟨rfl, rfl⟩ := List.cons.inj hcons
        rw [heq] at husage
        cases husage
    · -- a report
      rename_i samples heq
      obtain ⟨hdistinct, hsamples⟩ := hop
      have hsessions : ∀ x ∈ samples, x.session ≠ "" ∧ x.session ∈ (granted past).reverse ∧
          lastCount (reports past) x.session ≤ x.bytes := by
        intro x hx
        obtain ⟨hin, hcount⟩ := hsamples x hx
        exact ⟨fun hempty => hlabelled (hempty ▸ hin), List.mem_reverse.2 hin, hcount⟩
      obtain ⟨hnext, hstill, hnow, hends⟩ :=
        hbooks.usage e.order e.now hquiet hsessions hdistinct
      have hreports : reports (e :: past) = reportsOf samples ++ reports past := by
        rw [reports, heq]
      have hgranted : granted (e :: past) = granted past := by
        rw [granted, heq]
      have hlabels : latestLabels (e :: past) = samples.map (·.session) := by
        rw [latestLabels, heq]
      rw [heq, hreports, hgranted, hlabels]
      refine ⟨hnext, hstill, hnow, ?_⟩
      intro e' past' samples' hcons husage row hrow hout
      obtain ⟨rfl, rfl⟩ := List.cons.inj hcons
      rw [heq] at husage
      obtain rfl := StatsOp.relayUsage.inj husage
      exact hends row hrow hout
    · exact hop.elim

/-- Over every run of grants and of reports on the sessions they broker, each peer has the bytes of
the rows it is an end of, the fleet has those of all rows, and a row is live exactly if its session
was in the newest report; a row that a report leaves out ends with the count and the duration it
had, and shows no rate. -/
theorem relay_books_balance (X : Setup) (connHistoryLimit logHistoryLimit : ℕ)
    (stamps : Table String ℕ) (history : List StatsStep) (h : Brokered history) :
    Balanced history
      (Recorder.after X (.start connHistoryLimit logHistoryLimit stamps) history).store ∧
    ∀ e past samples, e :: past = history → e.op = .relayUsage samples →
      ∀ row ∈ (Recorder.after X (.start connHistoryLimit logHistoryLimit stamps)
        past).store.relaySessions, row.session ∉ samples.map (·.session) →
          { row with live := false, kbps := 0 } ∈
            (Recorder.after X (.start connHistoryLimit logHistoryLimit stamps)
              history).store.relaySessions := by
  have hstart : (NemoStatsStore.start connHistoryLimit logHistoryLimit stamps).Books [] [] := by
    refine ⟨rfl, List.nodup_nil, Nat.zero_le _, ?_, fun _ _ => rfl, ?_, ?_, rfl⟩
    · exact fun _ hrow => absurd hrow List.not_mem_nil
    · exact AList.notMem_empty ""
    · exact fun id hid => absurd hid (AList.notMem_empty id)
  obtain ⟨hbooks, -, hlive, hends⟩ := books_after (X := X) h hstart rfl
  exact ⟨⟨hbooks.sessions, hbooks.counts, hbooks.peers, hbooks.nameless, hbooks.total, hlive⟩,
    hends⟩

/-- A session that is brokered, reported twice, and gone from the third report. -/
theorem relay_books_balance_ended :
    Balanced [Sample.noReport, Sample.report 2500, Sample.report 1000, Sample.grant]
      (Recorder.after (NemoServer.Sample.setup .offer false) (.start 420 500 Table.empty)
        [Sample.noReport, Sample.report 2500, Sample.report 1000, Sample.grant]).store :=
  (relay_books_balance (NemoServer.Sample.setup .offer false) 420 500 Table.empty
    [Sample.noReport, Sample.report 2500, Sample.report 1000, Sample.grant]
    ⟨⟨⟨⟨trivial, by decide, by decide, by decide⟩, by decide, by decide⟩, by decide, by decide⟩,
      by decide, by decide⟩).1

end Runs

end Management

end NemoServer
