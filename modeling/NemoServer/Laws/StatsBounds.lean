import NemoServer.Management.StatsEffects
import NemoServer.Server.Sample

/-!
# What the statistics keep

The containers of the statistics stay within their bounds, whatever is recorded, and an operation
keeps what it has just recorded, but for one case: a report of hbbr charges the two ends of a
session one after the other, and a peer that is charged for the first time has no last event. It
counts as the least recently active of all, and goes if the second end finds the map full.

* `bounded_after`: the bounds hold after every history.
* `keeps_after_iff`: every operation of a history keeps what it recorded exactly if none of its
  calls of `peer_stats_mut` prunes a peer that an earlier call of it touched.
-/

set_option autoImplicit false

namespace NemoServer

namespace Management

/-! ## What an operation records -/

namespace StatsOp

/-- The events it logs. -/
def logged (now : String) (s : NemoStatsStore) : StatsOp → List NemoEvent
  | .record e => (loggedEvent now e).toList
  | .logEvent kind peerId remoteAddr detail =>
    [⟨now, kind, peerId, remoteAddr.map SocketAddr.toText, detail⟩]
  | .relayUsage _ => []
  | .updateConnHistoryLimit limit => [⟨now, "policy-update", none, none,
      "connection_history_limit=" ++ toString (max 1 (min limit maxConnHistoryLimit))⟩]
  | .updateLogHistoryLimit limit => [⟨now, "policy-update", none, none,
      "log_history_limit=" ++ toString (max 1 (min limit maxLogHistoryLimit))⟩]
  | .deletePeer id => [⟨now, "peer-delete", some id, none, "deleted"⟩]
  | .endSessions _ kind id detail => [⟨now, kind, some id, none, detail⟩]
  | .terminateSessions clock controllers cutEntry =>
    (s.toStatistics.terminateSessionsFromControllers clock controllers).1.map
      (NemoStatsStore.cutEvent cutEntry)

/-- The peers whose statistics it writes. -/
def touched (now : String) (s : NemoStatsStore) : StatsOp → List String
  | .record e => ((loggedEvent now e).bind (·.peerId)).toList
  | .logEvent _ peerId _ _ => peerId.toList
  | .relayUsage samples =>
    NemoStatsStore.chargedPeers (s.relaySessions.map (·.brokered)) samples
  | .updateConnHistoryLimit _ => []
  | .updateLogHistoryLimit _ => []
  | .deletePeer id => [id]
  | .endSessions _ _ id _ => [id]
  | .terminateSessions clock controllers _ =>
    (s.toStatistics.terminateSessionsFromControllers clock controllers).1

end StatsOp

/-- A connection row that shows a negotiation of this instant. -/
def ConnectionRecord.Shows (X : Setup) (instant : ℕ) (c : ConnectionRecord) : Event → Prop
  | .connectionNegotiation id source sourceField addr peerAddr natType forcedRelay sameIntranet
      relayServer =>
    c.sourceId = controllerSourceId X source sourceField ∧ c.targetId = id ∧
      c.sourceAddr = addr.toText ∧ c.targetAddr = peerAddr.toText ∧
      c.path = (if forcedRelay then "relay" else if sameIntranet then "direct-local"
        else "direct-punch") ∧
      c.relayServer = relayServer ∧ c.natType = natTypeName natType ∧ c.lastSeen = instant
  | _ => False

/-! ## The laws -/

/-- The containers are within their bounds, and no pair has two rows. -/
structure NemoStatsStore.Bounded (s : NemoStatsStore) : Prop where
  events : s.events.length ≤ s.logHistoryLimit
  connections : s.connections.length ≤ s.connHistoryLimit
  pairs : (s.connections.map fun c => (c.sourceId, c.targetId)).Nodup
  peers : s.peers.size ≤ maxPeerStats
  relaySessions : s.relaySessions.length ≤ relaySessionMemory

/-- What an operation has just recorded is there, and a live session goes only where all are
live. -/
structure Recorder.Keeps (X : Setup) (r : Recorder) (e : StatsStep) (r' : Recorder) : Prop where
  /-- The events are at the end of the log, as many of them as it may hold. -/
  logged : Capped.trim r'.store.logHistoryLimit (e.op.logged e.now r.store) <:+ r'.store.events
  touched : ∀ id ∈ e.op.touched e.now r.store, id ∈ r'.store.peers
  negotiated : ∀ id source sourceField addr peerAddr natType forcedRelay sameIntranet relayServer,
    e.op = .record (.connectionNegotiation id source sourceField addr peerAddr natType forcedRelay
      sameIntranet relayServer) →
    ∃ c ∈ r'.store.connections, c.Shows X r'.instant (.connectionNegotiation id source sourceField
      addr peerAddr natType forcedRelay sameIntranet relayServer)
  granted : ∀ label sourceId targetId, e.op = .record (.relayGrant label sourceId targetId) →
    ({ session := label, sourceId, targetId, brokeredAt := e.now } : RelaySessionRecord) ∈
      r'.store.relaySessions
  charged : ∀ samples, e.op = .relayUsage samples → ∀ row ∈ r.store.relaySessions,
    row.session ∈ samples.map (·.session) →
      row.brokered ∈ r'.store.relaySessions.map (·.brokered)
  live : (∃ row ∈ r.store.relaySessions, row.live = false) →
    ((r.store.relaySessions.filter (·.live)).map (·.brokered)).Sublist
      (r'.store.relaySessions.map (·.brokered))

/-- No call of `peer_stats_mut` prunes a peer that an earlier call of the operation touched, unless
a later call touches it again. Only reports and revocations touch more than one peer. -/
def NemoStatsStore.Spared (s : NemoStatsStore) (e : StatsStep) : Prop :=
  match e.op with
  | .relayUsage samples =>
    PeerTable.Spares e.order s.peers [] (NemoStatsStore.usageTouches e.order e.now s samples)
  | .terminateSessions clock controllers cutEntry =>
    PeerTable.Spares e.order s.peers [] (NemoStatsStore.cutTouches cutEntry
      (s.toStatistics.terminateSessionsFromControllers clock controllers).1)
  | _ => True

/-! ## Connection rows -/

namespace Statistics

variable {s : Statistics} {instant : ℕ}

/-- Trimming the rows is an eviction by when they were last seen. -/
theorem trimConnections_eq (limit fuel : ℕ) (connections : List ConnectionRecord) :
    trimConnections limit fuel connections =
      Capped.evict (fun c => c.1.lastSeen) limit fuel connections := by
  induction fuel generalizing connections with
  | zero => rfl
  | succ fuel ih =>
    rw [trimConnections, Capped.evict, show oldestSeen connections =
      Capped.leastAt (fun c => c.1.lastSeen) connections from rfl]
    cases Capped.leastAt (fun c : ConnectionRecord × ℕ => c.1.lastSeen) connections with
    | none => rfl
    | some i => simp only [ih]

/-- What holds of the rows at an instant. -/
structure Ordered (s : Statistics) (instant : ℕ) : Prop where
  room : 0 < s.connHistoryLimit
  length : s.connections.length ≤ s.connHistoryLimit
  pairs : (s.connections.map fun c => (c.sourceId, c.targetId)).Nodup
  seen : ∀ c ∈ s.connections, c.lastSeen ≤ instant

theorem Ordered.later (h : s.Ordered instant) (elapsed : ℕ) : s.Ordered (instant + elapsed) :=
  ⟨h.room, h.length, h.pairs, fun c hc => (h.seen c hc).trans (Nat.le_add_right ..)⟩

/-- Rows that go leave the others as they were. -/
theorem Ordered.sublist {s' : Statistics} (h : s.Ordered instant)
    (hlimit : s'.connHistoryLimit = s.connHistoryLimit)
    (hsub : s'.connections.Sublist s.connections) : s'.Ordered instant := by
  refine ⟨hlimit ▸ h.room, ?_, h.pairs.sublist (hsub.map _), fun c hc => h.seen c (hsub.subset hc)⟩
  rw [hlimit]
  exact hsub.length_le.trans h.length

theorem Ordered.setConnHistoryLimit (h : s.Ordered instant) (limit : ℕ) :
    (s.setConnHistoryLimit limit).Ordered instant := by
  unfold Statistics.setConnHistoryLimit
  simp only [trimConnections_eq]
  have hsub := Capped.evict_sublist (fun c : ConnectionRecord × ℕ => c.1.lastSeen)
    (max 1 (min limit maxConnHistoryLimit)) s.connections.length s.connections
  refine ⟨?_, ?_, h.pairs.sublist (hsub.map _), fun c hc => h.seen c (hsub.subset hc)⟩
  · exact Nat.lt_of_lt_of_le Nat.one_pos (Nat.le_max_left ..)
  · exact Capped.length_evict_le _ _ (Nat.le_add_left ..)

theorem Ordered.endSessionsInto (h : s.Ordered instant) (clock : ℕ) (id : String) :
    (s.endSessionsInto clock id).Ordered instant :=
  h.sublist rfl List.filter_sublist

theorem connHistoryLimit_foldl (clock : ℕ) (targets : List String) :
    (targets.foldl (fun s t => s.setPeerTerminate clock t) s).connHistoryLimit =
      s.connHistoryLimit := by
  induction targets generalizing s with
  | nil => rfl
  | cons t ts ih => exact ih (s := s.setPeerTerminate clock t)

theorem Ordered.terminate (h : s.Ordered instant) (clock : ℕ) (controllers : List String) :
    (s.terminateSessionsFromControllers clock controllers).2.Ordered instant := by
  unfold terminateSessionsFromControllers
  split
  · exact h
  · refine h.sublist (connHistoryLimit_foldl clock _) ?_
    dsimp only
    rw [connections_foldl]
    exact List.filter_sublist

/-- A new row is the one seen last, so it is not the one that goes. -/
theorem Ordered.add (h : s.Ordered instant) {row : ConnectionRecord} (hseen : row.lastSeen = instant)
    (hnew : ∀ c ∈ s.connections, (c.sourceId, c.targetId) ≠ (row.sourceId, row.targetId)) :
    let connections := trimConnections s.connHistoryLimit (s.connections ++ [row]).length
      (s.connections ++ [row])
    Ordered { s with connections } instant ∧ row ∈ connections := by
  dsimp only
  rw [trimConnections_eq]
  have hlength := Capped.length_evict_le (fun c : ConnectionRecord × ℕ => c.1.lastSeen)
    s.connHistoryLimit (Nat.le_add_left (s.connections ++ [row]).length s.connHistoryLimit)
  obtain ⟨rest, heq, hsub⟩ := Capped.evict_concat s.connHistoryLimit
    (fun c : ConnectionRecord => c.lastSeen) (s.connections ++ [row]).length h.room
    fun c hc => hseen ▸ h.seen c hc
  rw [heq] at hlength ⊢
  refine ⟨⟨h.room, hlength, ?_, fun c hc => ?_⟩, List.mem_append_right _ (List.mem_singleton_self _)⟩
  · rw [List.map_append, List.map_singleton, List.nodup_append]
    refine ⟨h.pairs.sublist (hsub.map _), List.nodup_singleton _, fun pair hpair pair' hpair' => ?_⟩
    obtain ⟨c, hc, rfl⟩ := List.mem_map.1 hpair
    rw [List.mem_singleton.1 hpair']
    exact hnew c (hsub.subset hc)
  · obtain hc | hc := List.mem_append.1 hc
    · exact h.seen c (hsub.subset hc)
    · rw [List.mem_singleton.1 hc]
      exact hseen.le

/-- Refreshing the row of a pair, or adding one, keeps the rows in order, and the row is there. -/
theorem Ordered.upsert (h : s.Ordered instant) (sourceId targetId : String)
    (fromAddr toAddr : SocketAddr) (path relayServer natType : String) :
    let s' := s.upsertConnection instant sourceId targetId fromAddr toAddr path relayServer natType
    s'.Ordered instant ∧ ∃ c ∈ s'.connections, c.sourceId = sourceId ∧ c.targetId = targetId ∧
      c.sourceAddr = fromAddr.toText ∧ c.targetAddr = toAddr.toText ∧ c.path = path ∧
      c.relayServer = relayServer ∧ c.natType = natType ∧ c.lastSeen = instant := by
  unfold upsertConnection
  cases hfind : s.connections.findIdx? fun c => c.sourceId == sourceId && c.targetId == targetId with
  | some i =>
    obtain ⟨hi, hrow, -⟩ := List.findIdx?_eq_some_iff_getElem.1 hfind
    rw [Bool.and_eq_true, beq_iff_eq, beq_iff_eq] at hrow
    dsimp only
    have hsplit := List.take_append_drop i s.connections
    rw [List.drop_eq_getElem_cons hi] at hsplit
    rw [List.modify_eq_take_cons_drop hi]
    refine ⟨⟨h.room, ?_, ?_, fun c hc => ?_⟩, _, List.mem_append_right _ List.mem_cons_self, hrow.1,
      hrow.2, rfl, rfl, rfl, rfl, rfl, rfl⟩
    · have hlength := h.length
      rw [← hsplit, List.length_append, List.length_cons] at hlength
      rw [List.length_append, List.length_cons]
      exact hlength
    · -- the refreshed row is of the pair it was of
      have hpairs := h.pairs
      rw [← hsplit, List.map_append, List.map_cons] at hpairs
      rw [List.map_append, List.map_cons]
      exact hpairs
    · obtain hc | hc := List.mem_append.1 hc
      · exact h.seen c (List.mem_of_mem_take hc)
      · obtain rfl | hc := List.mem_cons.1 hc
        · exact le_rfl
        · exact h.seen c (List.mem_of_mem_drop hc)
  | none =>
    dsimp only
    have hnew : ∀ c ∈ s.connections, (c.sourceId, c.targetId) ≠ (sourceId, targetId) := by
      intro c hc hsame
      have hnone := List.findIdx?_eq_none_iff.1 hfind c hc
      rw [(Prod.mk.inj hsame).1, (Prod.mk.inj hsame).2, beq_self_eq_true, beq_self_eq_true] at hnone
      exact Bool.noConfusion hnone
    obtain ⟨hordered, hmem⟩ := Ordered.add h (rfl : (⟨sourceId, targetId, fromAddr.toText,
      toAddr.toText, path, relayServer, natType, instant, instant, 1⟩ :
        ConnectionRecord).lastSeen = instant) hnew
    exact ⟨hordered, _, hmem, rfl, rfl, rfl, rfl, rfl, rfl, rfl, rfl⟩

end Statistics

/-! ## One operation -/

namespace Recorder

open NemoStatsStore

variable {X : Setup} {instant : ℕ} {now : String} {order : FinMap.Iteration String NemoPeerStats}
  {s : NemoStatsStore}

/-- The rows are observed, limited or ended by the operation; the others leave them alone. -/
theorem ordered_perform (h : s.toStatistics.Ordered instant) (op : StatsOp) :
    (perform X instant now order s op).toStatistics.Ordered instant := by
  cases op with
  | record e =>
    obtain ⟨label, sourceId, targetId, rfl⟩ | ⟨_, _, _, _, _, _, heq, -⟩ :=
      record_cases order now s X instant e
    · exact h
    · rw [perform, heq]
      cases e with
      | connectionNegotiation => exact (h.upsert ..).1
      | _ => exact h
  | logEvent kind peerId remoteAddr detail =>
    rw [perform, recordEvent_eq]
    exact h
  | relayUsage samples =>
    obtain ⟨-, -, -, hstats, -⟩ := foldl_applyRelaySample order now s samples
    change (samples.foldl (fun s sample => s.applyRelaySample order now sample)
      s).toStatistics.Ordered instant
    rw [hstats]
    exact h
  | updateConnHistoryLimit limit => exact h.setConnHistoryLimit limit
  | updateLogHistoryLimit limit => exact h
  | deletePeer id => exact h
  | endSessions clock kind id detail => exact h.endSessionsInto clock id
  | terminateSessions clock controllers cutEntry =>
    obtain ⟨events, heq, -⟩ := terminateSessions_eq order s clock controllers cutEntry
    rw [perform, heq]
    exact h.terminate clock controllers

/-- The log is what it was and what the operation logs, trimmed to the limit it leaves, which is
never zero. -/
theorem log_perform (hroom : 0 < s.logHistoryLimit) (h : s.events.length ≤ s.logHistoryLimit)
    (op : StatsOp) :
    let s' := perform X instant now order s op
    0 < s'.logHistoryLimit ∧
      s'.events = Capped.trim s'.logHistoryLimit (s.events ++ op.logged now s) := by
  have hsame : s.events = Capped.trim s.logHistoryLimit (s.events ++ []) := by
    rw [List.append_nil, Capped.trim_of_le h]
  cases op with
  | record e =>
    obtain ⟨label, sourceId, targetId, rfl⟩ | ⟨count, touch, kind, id, addr, detail, heq, hlog, -⟩ :=
      record_cases order now s X instant e
    · exact ⟨hroom, hsame⟩
    · dsimp only
      rw [perform, heq, StatsOp.logged, hlog]
      exact ⟨hroom, rfl⟩
  | logEvent kind peerId remoteAddr detail =>
    dsimp only
    rw [perform, recordEvent_eq]
    exact ⟨hroom, rfl⟩
  | relayUsage samples =>
    obtain ⟨-, -, -, -, hevents, hlimit⟩ := foldl_applyRelaySample order now s samples
    dsimp only
    rw [perform, applyRelayUsage]
    dsimp only
    rw [hevents, hlimit]
    exact ⟨hroom, hsame⟩
  | updateConnHistoryLimit limit => exact ⟨hroom, rfl⟩
  | updateLogHistoryLimit limit =>
    exact ⟨Nat.lt_of_lt_of_le Nat.one_pos (Nat.le_max_left ..), Capped.trim_trim_append _ _⟩
  | deletePeer id => exact ⟨hroom, rfl⟩
  | endSessions clock kind id detail => exact ⟨hroom, rfl⟩
  | terminateSessions clock controllers cutEntry =>
    obtain ⟨events, heq, hevents⟩ := terminateSessions_eq order s clock controllers cutEntry
    dsimp only
    rw [perform, heq]
    exact ⟨hroom, hevents h⟩

/-- The peers of the operation are touched one after the other, and are all there at its end exactly
if no call prunes one of them. -/
theorem peers_perform (h : s.peers.size ≤ maxPeerStats) (e : StatsStep) :
    (perform X instant e.now e.order s e.op).peers.size ≤ maxPeerStats ∧
      ((∀ id ∈ e.op.touched e.now s, id ∈ (perform X instant e.now e.order s e.op).peers) ↔
        s.Spared e) := by
  obtain ⟨op, elapsed, now, order⟩ := e
  dsimp only
  -- a single peer is there after the last call for it
  have hone (id : String) (f : NemoPeerStats → NemoPeerStats) (peers : PeerTable) :
      (∀ j ∈ [id], j ∈ peers.peerStatsMut order id f) ↔ True := by
    refine iff_true_intro fun j hj => PeerTable.mem_peerStatsMut.2 (.inl ?_)
    exact List.mem_singleton.1 hj
  have hnone (peers : PeerTable) : (∀ j ∈ ([] : List String), j ∈ peers) ↔ True :=
    iff_true_intro fun j hj => absurd hj List.not_mem_nil
  cases op with
  | record e =>
    obtain ⟨label, sourceId, targetId, rfl⟩ | ⟨count, touch, kind, id, addr, detail, heq, hlog, -⟩ :=
      record_cases order now s X instant e
    · exact ⟨h, hnone _⟩
    · rw [perform, heq, StatsOp.touched, hlog]
      exact ⟨PeerTable.size_peerStatsMut_le (PeerTable.size_peerStatsMut_le h), hone ..⟩
  | logEvent kind peerId remoteAddr detail =>
    cases peerId with
    | none => exact ⟨h, hnone _⟩
    | some id => exact ⟨PeerTable.size_peerStatsMut_le h, hone ..⟩
  | relayUsage samples =>
    obtain ⟨hpeers, hids, -⟩ := foldl_applyRelaySample order now s samples
    rw [perform, applyRelayUsage, StatsOp.touched]
    dsimp only
    rw [hpeers, ← hids]
    exact ⟨PeerTable.size_touchAll_le h, PeerTable.mem_touchAll_iff
      fun id hid => absurd hid List.not_mem_nil⟩
  | updateConnHistoryLimit limit => exact ⟨h, hnone _⟩
  | updateLogHistoryLimit limit => exact ⟨h, hnone _⟩
  | deletePeer id =>
    have herase := (FinMap.size_erase_le s.peers id).trans h
    exact ⟨PeerTable.size_peerStatsMut_le herase, hone ..⟩
  | endSessions clock kind id detail => exact ⟨PeerTable.size_peerStatsMut_le h, hone ..⟩
  | terminateSessions clock controllers cutEntry =>
    obtain ⟨events, heq, -⟩ := terminateSessions_eq order s clock controllers cutEntry
    rw [perform, heq, StatsOp.touched, Spared]
    dsimp only
    generalize (s.toStatistics.terminateSessionsFromControllers clock controllers).1 = targets
    have hids : (cutTouches cutEntry targets).map Prod.fst = targets := by
      unfold cutTouches
      rw [List.map_map]
      exact List.map_id _
    have hiff : (∀ id ∈ [] ++ (cutTouches cutEntry targets).map Prod.fst,
        id ∈ s.peers.touchAll order (cutTouches cutEntry targets)) ↔ _ :=
      PeerTable.mem_touchAll_iff fun id hid => absurd hid List.not_mem_nil
    rw [hids] at hiff
    exact ⟨PeerTable.size_touchAll_le h, hiff⟩

/-- A grant adds its row, and takes out one at most, which is live only where all are; a report
takes out none. -/
theorem sessions_perform (h : s.relaySessions.length ≤ relaySessionMemory) (op : StatsOp) :
    let s' := perform X instant now order s op
    s'.relaySessions.length ≤ relaySessionMemory ∧
      (∀ label sourceId targetId, op = .record (.relayGrant label sourceId targetId) →
        ({ session := label, sourceId, targetId, brokeredAt := now } : RelaySessionRecord) ∈
          s'.relaySessions) ∧
      (∀ samples, op = .relayUsage samples →
        s'.relaySessions.map (·.brokered) = s.relaySessions.map (·.brokered)) ∧
      ((∃ row ∈ s.relaySessions, row.live = false) →
        ((s.relaySessions.filter (·.live)).map (·.brokered)).Sublist
          (s'.relaySessions.map (·.brokered))) := by
  dsimp only
  have hstays : ((s.relaySessions.filter (·.live)).map (·.brokered)).Sublist
      (s.relaySessions.map (·.brokered)) := List.filter_sublist.map _
  by_cases hgrant : ∃ label sourceId targetId, op = .record (.relayGrant label sourceId targetId)
  · obtain ⟨label, sourceId, targetId, rfl⟩ := hgrant
    have hrows : (perform X instant now order s
        (.record (.relayGrant label sourceId targetId))).relaySessions =
        evictRelaySessions s.relaySessions ++
          [{ session := label, sourceId, targetId, brokeredAt := now }] := rfl
    rw [hrows]
    refine ⟨?_, ?_, fun samples hop => ?_, fun hended => ?_⟩
    · have := Capped.length_evict_le evictionKey (relaySessionMemory - 1)
        (Nat.le_add_left s.relaySessions.length (relaySessionMemory - 1))
      rw [List.length_append, List.length_singleton]
      exact Nat.add_le_of_le_sub (by decide) this
    · intro label' sourceId' targetId' hop
      cases hop
      exact List.mem_append_right _ (List.mem_singleton_self _)
    · cases hop
    · -- an ended row stands below every live one
      have hkeep := Capped.filter_evict evictionKey (relaySessionMemory - 1) (·.live) h
        (fun a b i j ha hb => by
          unfold evictionKey
          rw [Prod.Lex.toLex_lt_toLex]
          refine .inl ?_
          dsimp only
          rw [ha, hb]
          decide) hended s.relaySessions.length
      rw [← hkeep, List.map_append]
      exact (List.filter_sublist.map _).trans (List.sublist_append_left _ _)
  · simp only [not_exists] at hgrant
    by_cases husage : ∃ samples, op = .relayUsage samples
    · obtain ⟨samples, rfl⟩ := husage
      have hrows : (perform X instant now order s (.relayUsage samples)).relaySessions.map
          (·.brokered) = s.relaySessions.map (·.brokered) := by
        obtain ⟨-, -, hbrokered, -⟩ := foldl_applyRelaySample order now s samples
        rw [perform, applyRelayUsage, List.map_map]
        rw [← hbrokered]
        exact List.map_congr_left fun row _ => brokered_endUnsampled _ row
      refine ⟨?_, fun label sourceId targetId hop => absurd hop (hgrant label sourceId targetId),
        fun _ _ => hrows, fun _ => ?_⟩
      · have := congrArg List.length hrows
        rw [List.length_map, List.length_map] at this
        exact this ▸ h
      · rw [hrows]
        exact hstays
    · have hno := not_exists.1 husage
      have hrows : (perform X instant now order s op).relaySessions = s.relaySessions :=
        (relay_perform hgrant hno).1
      rw [hrows]
      exact ⟨h, fun label sourceId targetId hop => absurd hop (hgrant label sourceId targetId),
        fun samples hop => absurd hop (hno samples), fun _ => hstays⟩

/-! ## Runs -/

/-- What holds of the recorder after every history. -/
structure Sound (r : Recorder) : Prop where
  room : 0 < r.store.logHistoryLimit
  events : r.store.events.length ≤ r.store.logHistoryLimit
  rows : r.store.toStatistics.Ordered r.instant
  peers : r.store.peers.size ≤ maxPeerStats
  relaySessions : r.store.relaySessions.length ≤ relaySessionMemory

theorem Sound.bounded {r : Recorder} (h : r.Sound) : r.store.Bounded :=
  ⟨h.events, h.rows.length, h.rows.pairs, h.peers, h.relaySessions⟩

variable (X) in
/-- An operation keeps the bounds, and what it recorded exactly if it spares the peers it touches. -/
theorem Sound.step {r : Recorder} (h : r.Sound) (e : StatsStep) :
    (r.step X e).Sound ∧ (r.Keeps X e (r.step X e) ↔ r.store.Spared e) := by
  have hrows : (r.step X e).store.toStatistics.Ordered (r.instant + e.elapsed) :=
    ordered_perform (h.rows.later e.elapsed) e.op
  obtain ⟨hroom, hevents⟩ : 0 < (r.step X e).store.logHistoryLimit ∧ (r.step X e).store.events =
      Capped.trim (r.step X e).store.logHistoryLimit (r.store.events ++ e.op.logged e.now r.store) :=
    log_perform h.room h.events e.op
  obtain ⟨hpeers, htouched⟩ : (r.step X e).store.peers.size ≤ maxPeerStats ∧
      ((∀ id ∈ e.op.touched e.now r.store, id ∈ (r.step X e).store.peers) ↔ r.store.Spared e) :=
    peers_perform h.peers e
  obtain ⟨hlength, hgranted, hcharged, hlive⟩ :=
    sessions_perform (X := X) h.relaySessions e.op
  refine ⟨⟨hroom, ?_, hrows, hpeers, hlength⟩, fun hkeeps => htouched.1 hkeeps.touched,
    fun hspared => ⟨?_, htouched.2 hspared, ?_, hgranted, ?_, hlive⟩⟩
  · rw [hevents]
    exact Capped.length_trim_le _
  · -- the newest of the log are the newest of what was just logged
    rw [hevents]
    exact Capped.trim_suffix_trim_append _ _
  · intro id source sourceField addr peerAddr natType forcedRelay sameIntranet relayServer hop
    rw [Recorder.step, hop]
    exact ((h.rows.later e.elapsed).upsert ..).2
  · intro samples hop row hrow _
    rw [Recorder.step, hcharged samples hop]
    exact List.mem_map_of_mem hrow

variable (X) in
theorem Sound.start (connHistoryLimit logHistoryLimit : ℕ) (stamps : Table String ℕ) :
    (Recorder.mk 0 (.start connHistoryLimit logHistoryLimit stamps)).Sound := by
  have hone (n : ℕ) : 0 < max 1 n := Nat.lt_of_lt_of_le Nat.one_pos (Nat.le_max_left ..)
  refine ⟨hone _, Nat.zero_le _, ⟨hone _, Nat.zero_le _, List.nodup_nil, ?_⟩, Nat.zero_le _,
    Nat.zero_le _⟩
  exact fun c hc => absurd hc List.not_mem_nil

/-- The bounds hold after every history. -/
theorem sound_after {s : NemoStatsStore} (h : (Recorder.mk 0 s).Sound) (history : List StatsStep) :
    (after X s history).Sound := by
  induction history with
  | nil => exact h
  | cons e past ih => exact (ih.step X e).1

end Recorder

/-- After every operation of a history the containers are within their bounds and what it recorded
is there, exactly if every operation spared the peers that it touched. -/
theorem keeps_after_iff (X : Setup) (connHistoryLimit logHistoryLimit : ℕ) (stamps : Table String ℕ)
    (history : List StatsStep) :
    (∀ e past, e :: past <:+ history →
      let r := Recorder.after X (.start connHistoryLimit logHistoryLimit stamps) past
      let r' := Recorder.after X (.start connHistoryLimit logHistoryLimit stamps) (e :: past)
      r'.store.Bounded ∧ r.Keeps X e r') ↔
    ∀ e past, e :: past <:+ history → (Recorder.after X
      (.start connHistoryLimit logHistoryLimit stamps) past).store.Spared e := by
  refine forall₂_congr fun e past => imp_congr_right fun _ => ?_
  have hpast := Recorder.sound_after (X := X)
    (Recorder.Sound.start connHistoryLimit logHistoryLimit stamps) past
  obtain ⟨hsound, hiff⟩ := hpast.step X e
  exact (and_iff_right hsound.bounded).trans hiff

/-! ## A peer that is charged for the first time -/

namespace PeerTable

variable {order : FinMap.Iteration String NemoPeerStats} {peers : PeerTable} {id : String}

/-- While there is room, a call only sets the entry of its peer. -/
theorem peerStatsMut_of_room (h : peers.size < maxPeerStats) (f : NemoPeerStats → NemoPeerStats) :
    peers.peerStatsMut order id f =
      AList.insert id (f ((AList.lookup id peers).getD {})) peers := by
  unfold peerStatsMut makeRoom
  rw [if_neg fun hfull => absurd hfull.1 (Nat.not_le.2 h)]

/-- The peer whose last event is the earliest of all goes. -/
theorem mem_pruned_of_earliest {p : NemoPeerStats} (hid : AList.lookup id peers = some p)
    (hsize : maxPeerStats * 3 / 4 < peers.size)
    (h : ∀ j q, AList.lookup j peers = some q → j ≠ id →
      p.lastEventAt.getD "" < q.lastEventAt.getD "") : id ∈ pruned order peers := by
  unfold pruned
  dsimp only
  rw [List.map_take]
  generalize haged : ((order.entries peers).map fun e => (e.1, e.2.lastEventAt.getD "")) = aged
  have hmem : ∀ a ∈ aged, ∃ q, AList.lookup a.1 peers = some q ∧ q.lastEventAt.getD "" = a.2 := by
    intro a ha
    rw [← haged] at ha
    obtain ⟨e, he, rfl⟩ := List.mem_map.1 ha
    exact ⟨e.2, FinMap.lookup_eq_some_iff.2 ((order.perm peers).subset he), rfl⟩
  have hin : (id, p.lastEventAt.getD "") ∈ aged := by
    rw [← haged]
    exact List.mem_map.2 ⟨⟨id, p⟩, (order.perm peers).symm.subset (FinMap.lookup_eq_some_iff.1 hid),
      rfl⟩
  have hsorted : (aged.mergeSort fun a b => decide (a.2 ≤ b.2)).Pairwise
      fun a b => decide (a.2 ≤ b.2) = true := by
    refine List.pairwise_mergeSort (fun a b c hab hbc => ?_) (fun a b => ?_) aged
    · exact decide_eq_true (le_trans (of_decide_eq_true hab) (of_decide_eq_true hbc))
    · rw [Bool.or_eq_true, decide_eq_true_eq, decide_eq_true_eq]
      exact le_total a.2 b.2
  cases hlist : aged.mergeSort fun a b => decide (a.2 ≤ b.2) with
  | nil => exact absurd (hlist ▸ List.mem_mergeSort.2 hin) List.not_mem_nil
  | cons a rest =>
    rw [hlist] at hsorted
    -- the one that comes first is of this peer, or it would be earlier
    have hfirst : a.1 = id := by
      by_contra hne
      obtain ⟨q, hq, hqa⟩ := hmem a (List.mem_mergeSort.1 (hlist ▸ List.mem_cons_self))
      have hlt := h a.1 q hq hne
      rw [hqa] at hlt
      have hlater : (id, p.lastEventAt.getD "") ∈ a :: rest :=
        hlist ▸ List.mem_mergeSort.2 hin
      obtain heq | hlater := List.mem_cons.1 hlater
      · exact hne (congrArg Prod.fst heq).symm
      · exact absurd hlt (not_lt.2 (of_decide_eq_true ((List.pairwise_cons.1 hsorted).1 _ hlater)))
    obtain ⟨n, hn⟩ : ∃ n, peers.size - maxPeerStats * 3 / 4 = n + 1 :=
      ⟨peers.size - maxPeerStats * 3 / 4 - 1, by omega⟩
    rw [hn, List.map_cons, List.take_succ_cons, hfirst]
    exact List.mem_cons_self

end PeerTable

namespace Sample

/-- The ids of devices are numbers. -/
def deviceId (n : ℕ) : String := toString (100000000 + n)

theorem deviceId_injective : Function.Injective deviceId := by
  intro m n h
  unfold deviceId at h
  rw [Nat.toString_eq_repr, Nat.toString_eq_repr] at h
  have hdigits := congrArg (fun s => Nat.ofDigitChars 10 s.toList 0) h
  simpa [Nat.repr_eq_ofList_toDigits] using hdigits

/-- The first devices register, one after the other. -/
def arrivals : ℕ → List StatsStep
  | 0 => []
  | n + 1 => ⟨.record (.peerSeen (deviceId n) (.v4 ⟨10, 0, 0, 1⟩ 50000)), 1, "2026-01-01T00:00:00Z",
      .listed⟩ :: arrivals n

/-- The store of a server that has just started. -/
abbrev fresh : NemoStatsStore := .start 420 500 Table.empty

variable (X : Setup)

/-- While there is room for one more, each device that arrived has its statistics, with an event. -/
theorem peers_arrivals {n : ℕ} (h : n < maxPeerStats) :
    let s := (Recorder.after X fresh (arrivals n)).store
    s.peers.size = n ∧ (∀ i, deviceId i ∈ s.peers → i < n) ∧
      (∀ id p, AList.lookup id s.peers = some p →
        p.lastEventAt = some "2026-01-01T00:00:00Z") ∧ s.relaySessions = [] := by
  induction n with
  | zero =>
    refine ⟨rfl, fun i hi => absurd hi (AList.notMem_empty _), fun id p hp => ?_, rfl⟩
    rw [show (Recorder.after X fresh (arrivals 0)).store.peers = ∅ from rfl,
      AList.lookup_empty] at hp
    exact absurd hp (Option.some_ne_none p).symm
  | succ n ih =>
    obtain ⟨hsize, hids, hevents, hsessions⟩ := ih (Nat.lt_of_succ_lt h)
    obtain ⟨f, hpeers⟩ : ∃ f : NemoPeerStats → NemoPeerStats,
        (Recorder.after X fresh (arrivals (n + 1))).store.peers =
          ((Recorder.after X fresh (arrivals n)).store.peers.peerStatsMut .listed (deviceId n)
            f).peerStatsMut .listed (deviceId n)
            fun p => { p with lastEventAt := some "2026-01-01T00:00:00Z" } := ⟨_, rfl⟩
    have hrows : (Recorder.after X fresh (arrivals (n + 1))).store.relaySessions =
      (Recorder.after X fresh (arrivals n)).store.relaySessions := rfl
    generalize (Recorder.after X fresh (arrivals n)).store = s at *
    have hnew : deviceId n ∉ s.peers := fun hin => Nat.lt_irrefl n (hids n hin)
    have hroom : s.peers.size < maxPeerStats := by omega
    rw [PeerTable.peerStatsMut_of_room hroom] at hpeers
    have hsize' : FinMap.size (AList.insert (deviceId n)
        (f ((AList.lookup (deviceId n) s.peers).getD {})) s.peers) = n + 1 := by
      rw [FinMap.size_insert, if_neg hnew, hsize]
    rw [PeerTable.peerStatsMut_of_room (hsize'.trans_lt h)] at hpeers
    dsimp only
    rw [hpeers]
    refine ⟨?_, fun i hi => ?_, fun id p hp => ?_, hrows.trans hsessions⟩
    · rw [FinMap.size_insert, if_pos ((AList.mem_insert _).2 (.inl rfl)), hsize']
    · rw [AList.mem_insert, AList.mem_insert] at hi
      obtain heq | heq | hi := hi
      · exact deviceId_injective heq ▸ Nat.lt_succ_self i
      · exact deviceId_injective heq ▸ Nat.lt_succ_self i
      · exact Nat.lt_succ_of_lt (hids i hi)
    · rw [FinMap.lookup_insert_eq_some] at hp
      obtain ⟨-, rfl⟩ | ⟨hne, hp⟩ := hp
      · rfl
      · rw [FinMap.lookup_insert_eq_some] at hp
        obtain ⟨heq, -⟩ | ⟨-, hp⟩ := hp
        · exact absurd heq hne
        · exact hevents id p hp

/-- A session between two devices that have not arrived. -/
def firstGrant : StatsStep :=
  ⟨.record (.relayGrant "aaaa" (deviceId 4999) (deviceId 5000)), 10, "2026-01-01T00:00:50Z",
    .listed⟩

def firstReport : StatsStep :=
  ⟨.relayUsage [⟨"aaaa", 70, 100, 900, 4000⟩], 10, "2026-01-01T00:01:00Z", .listed⟩

variable {X}

/-- The first report on the session charges its ends, the controller first. -/
theorem spared_firstReport {r : Recorder} (h : r.store.relaySessions = []) :
    (r.step X firstGrant).store.Spared firstReport ↔
      PeerTable.Spares .listed r.store.peers []
        (NemoStatsStore.endTouches 70 [deviceId 4999, deviceId 5000]) := by
  have hrows : (r.step X firstGrant).store.relaySessions =
      [{ session := "aaaa", sourceId := deviceId 4999, targetId := deviceId 5000,
         brokeredAt := "2026-01-01T00:00:50Z" }] := by
    change NemoStatsStore.evictRelaySessions r.store.relaySessions ++ _ = _
    rw [h]
    rfl
  have htouches : NemoStatsStore.usageTouches .listed firstReport.now (r.step X firstGrant).store
      [⟨"aaaa", 70, 100, 900, 4000⟩] =
        NemoStatsStore.endTouches 70 [deviceId 4999, deviceId 5000] := by
    rw [NemoStatsStore.usageTouches, NemoStatsStore.usageTouches, List.append_nil,
      NemoStatsStore.sampleTouches, hrows]
    rfl
  change PeerTable.Spares .listed r.store.peers [] (NemoStatsStore.usageTouches .listed
    firstReport.now (r.step X firstGrant).store [⟨"aaaa", 70, 100, 900, 4000⟩]) ↔ _
  rw [htouches]

/-- With room for one peer more, the first end is pruned for the second. -/
theorem not_keeps_firstReport {past : List StatsStep}
    (hsize : (Recorder.after X fresh past).store.peers.size = 4999)
    (hids : ∀ i, deviceId i ∈ (Recorder.after X fresh past).store.peers → i < 4999)
    (hevents : ∀ id p, AList.lookup id (Recorder.after X fresh past).store.peers = some p →
      p.lastEventAt = some "2026-01-01T00:00:00Z")
    (hsessions : (Recorder.after X fresh past).store.relaySessions = []) :
    ¬(Recorder.after X fresh (firstGrant :: past)).Keeps X firstReport
      (Recorder.after X fresh (firstReport :: firstGrant :: past)) := by
  intro hkeeps
  have hsound := Recorder.sound_after (X := X) (Recorder.Sound.start 420 500 Table.empty)
    (firstGrant :: past)
  have hspared := (spared_firstReport hsessions).1 ((hsound.step X firstReport).2.1 hkeeps)
  generalize (Recorder.after X fresh past).store = s at *
  have hroom : s.peers.size < maxPeerStats := by
    rw [hsize]
    decide
  have hfirst : deviceId 4999 ∉ s.peers := fun hin => Nat.lt_irrefl 4999 (hids 4999 hin)
  obtain ⟨-, hsecond, -⟩ := hspared
  dsimp only at hsecond
  rw [PeerTable.peerStatsMut_of_room hroom] at hsecond
  have hlookup : (AList.lookup (deviceId 4999) s.peers).getD {} = {} := by
    rw [AList.lookup_eq_none.2 hfirst]
    rfl
  rw [hlookup] at hsecond
  refine absurd (hsecond ?_ ?_ (deviceId 4999) (List.mem_singleton_self _) ?_) List.not_mem_nil
  · rw [FinMap.size_insert, if_neg hfirst, hsize]
    decide
  · rw [AList.mem_insert, not_or]
    refine ⟨fun heq => ?_, fun hin => ?_⟩
    · exact absurd (deviceId_injective heq) (by decide)
    · exact absurd (hids 5000 hin) (by decide)
  · refine PeerTable.mem_pruned_of_earliest (AList.lookup_insert _) ?_ fun j q hq hne => ?_
    · rw [FinMap.size_insert, if_neg hfirst, hsize]
      decide
    · rw [AList.lookup_insert_ne hne] at hq
      rw [hevents j q hq]
      decide

end Sample

/-- An operation may lose what it has just recorded: the first end of a session is charged, and
pruned when the second end finds the map full. -/
theorem not_keeps_after : ¬∀ (X : Setup) (connHistoryLimit logHistoryLimit : ℕ)
    (stamps : Table String ℕ) (history : List StatsStep), ∀ e past, e :: past <:+ history →
      let r := Recorder.after X (.start connHistoryLimit logHistoryLimit stamps) past
      let r' := Recorder.after X (.start connHistoryLimit logHistoryLimit stamps) (e :: past)
      r'.store.Bounded ∧ r.Keeps X e r' := by
  intro h
  obtain ⟨hsize, hids, hevents, hsessions⟩ :=
    Sample.peers_arrivals (Sample.setup .offer false) (show 4999 < maxPeerStats by decide)
  exact Sample.not_keeps_firstReport hsize hids hevents hsessions
    (h (Sample.setup .offer false) 420 500 Table.empty
      (Sample.firstReport :: Sample.firstGrant :: Sample.arrivals 4999) Sample.firstReport
      (Sample.firstGrant :: Sample.arrivals 4999) (List.suffix_refl _)).2

end Management

end NemoServer
