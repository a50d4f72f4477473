import NemoServer.Management.StatsStore

/-!
# What the operations do to the statistics store

Each part of the store is changed by few of the operations. The peers are changed by one function
alone: `touchAll` is a series of its calls, and `mem_touchAll_iff` says when all the peers of a
series are in the map at its end.
-/

set_option autoImplicit false

namespace NemoServer

namespace Management

/-! ## Peers -/

namespace PeerTable

variable {order : FinMap.Iteration String NemoPeerStats} {peers : PeerTable} {id : String}

/-- A call of `peer_stats_mut`: the peer, and what is done to its entry. -/
abbrev Touch := String × (NemoPeerStats → NemoPeerStats)

/-- The calls of `peer_stats_mut` one after the other. -/
def touchAll (order : FinMap.Iteration String NemoPeerStats) (touches : List Touch)
    (peers : PeerTable) : PeerTable :=
  touches.foldl (fun peers t => peers.peerStatsMut order t.1 t.2) peers

@[simp] theorem touchAll_nil : touchAll order [] peers = peers := rfl

@[simp] theorem touchAll_cons (t : Touch) (ts : List Touch) :
    touchAll order (t :: ts) peers = touchAll order ts (peers.peerStatsMut order t.1 t.2) := rfl

theorem touchAll_append (ts ts' : List Touch) :
    touchAll order (ts ++ ts') peers = touchAll order ts' (touchAll order ts peers) :=
  List.foldl_append

variable (order peers) in
/-- Pruning removes peers of the map, each once, and as many as it says. -/
theorem pruned_spec : (pruned order peers).Nodup ∧ (∀ id ∈ pruned order peers, id ∈ peers) ∧
    (pruned order peers).length = peers.size - maxPeerStats * 3 / 4 := by
  -- the ids in the order of their age are the keys of the map in another order
  have hperm : (((order.entries peers).map fun e => (e.1, e.2.lastEventAt.getD "")).mergeSort
      fun a b => decide (a.2 ≤ b.2)).map Prod.fst |>.Perm peers.keys := by
    refine ((List.mergeSort_perm _ _).map _).trans ?_
    rw [List.map_map]
    exact (order.perm peers).map _
  unfold pruned
  dsimp only
  rw [List.map_take]
  refine ⟨(hperm.nodup_iff.2 peers.keys_nodup).sublist (List.take_sublist ..), fun id hid => ?_, ?_⟩
  · exact AList.mem_keys.2 (hperm.subset (List.mem_of_mem_take hid))
  · rw [List.length_take, hperm.length_eq, FinMap.length_keys]
    omega

theorem mem_makeRoom {j : String} : j ∈ makeRoom order peers id ↔
    j ∈ peers ∧ ¬(maxPeerStats ≤ peers.size ∧ id ∉ peers ∧ j ∈ pruned order peers) := by
  unfold makeRoom
  split
  · rename_i hprune
    rw [prunePeerStats, FinMap.mem_eraseAll, and_comm]
    simp only [hprune.1, hprune.2, not_false_eq_true, true_and]
  · rename_i hroom
    rw [← and_assoc, not_and, iff_self_and]
    exact fun _ h => absurd h hroom

theorem mem_peerStatsMut {f : NemoPeerStats → NemoPeerStats} {j : String} :
    j ∈ peers.peerStatsMut order id f ↔
      j = id ∨ j ∈ peers ∧ ¬(maxPeerStats ≤ peers.size ∧ id ∉ peers ∧ j ∈ pruned order peers) := by
  unfold peerStatsMut
  rw [AList.mem_insert, mem_makeRoom]

/-- The map stays within its bound. -/
theorem size_peerStatsMut_le {f : NemoPeerStats → NemoPeerStats} (h : peers.size ≤ maxPeerStats) :
    (peers.peerStatsMut order id f).size ≤ maxPeerStats := by
  unfold peerStatsMut makeRoom
  dsimp only
  rw [FinMap.size_insert]
  split <;> split
  · rename_i hfull hid
    exact absurd (FinMap.mem_eraseAll.1 hid).2 hfull.2
  · rename_i hfull hid
    obtain ⟨hnodup, hmem, hlen⟩ := pruned_spec order peers
    have hsize := FinMap.size_eraseAll hnodup hmem
    unfold prunePeerStats maxPeerStats at *
    omega
  · exact h
  · rename_i hroom hid
    rw [not_and_or, not_not] at hroom
    have := hroom.resolve_right hid
    omega

theorem size_touchAll_le {ts : List Touch} (h : peers.size ≤ maxPeerStats) :
    (touchAll order ts peers).size ≤ maxPeerStats := by
  induction ts generalizing peers with
  | nil => exact h
  | cons t ts ih => exact ih (size_peerStatsMut_le h)

theorem mem_of_mem_touchAll {ts : List Touch} {j : String} (h : j ∈ touchAll order ts peers)
    (hj : j ∉ ts.map Prod.fst) : j ∈ peers := by
  induction ts generalizing peers with
  | nil => exact h
  | cons t ts ih =>
    rw [List.map_cons, List.mem_cons, not_or] at hj
    exact ((mem_peerStatsMut.1 (ih h hj.2)).resolve_left hj.1).1

/-- A call that prunes the map takes none of the peers touched already, unless one is touched again
later. -/
def Spares (order : FinMap.Iteration String NemoPeerStats) :
    PeerTable → List String → List Touch → Prop
  | _, _, [] => True
  | peers, touched, t :: ts =>
    (maxPeerStats ≤ peers.size → t.1 ∉ peers →
      ∀ id ∈ touched, id ∈ pruned order peers → id ∈ ts.map Prod.fst) ∧
    Spares order (peers.peerStatsMut order t.1 t.2) (t.1 :: touched) ts

/-- All the peers of a series are in the map at its end exactly if no call prunes one of them. -/
theorem mem_touchAll_iff {ts : List Touch} {touched : List String}
    (h : ∀ id ∈ touched, id ∈ peers ∨ id ∈ ts.map Prod.fst) :
    (∀ id ∈ touched ++ ts.map Prod.fst, id ∈ touchAll order ts peers) ↔
      Spares order peers touched ts := by
  induction ts generalizing peers touched with
  | nil =>
    refine ⟨fun _ => trivial, fun _ id hid => ?_⟩
    rw [List.map_nil, List.append_nil] at hid
    exact (h id hid).resolve_right List.not_mem_nil
  | cons t ts ih =>
    rw [Spares, touchAll_cons]
    -- what is touched so far is in the map, or will be, unless the call prunes it
    have hnext (hspare : maxPeerStats ≤ peers.size → t.1 ∉ peers →
        ∀ id ∈ touched, id ∈ pruned order peers → id ∈ ts.map Prod.fst) :
        ∀ id ∈ t.1 :: touched, id ∈ peers.peerStatsMut order t.1 t.2 ∨ id ∈ ts.map Prod.fst := by
      intro id hid
      rw [mem_peerStatsMut]
      obtain rfl | hid := List.mem_cons.1 hid
      · exact .inl (.inl rfl)
      · have hin := h id hid
        rw [List.map_cons, List.mem_cons] at hin
        obtain hin | rfl | hin := hin
        · by_cases hpruned : maxPeerStats ≤ peers.size ∧ t.1 ∉ peers ∧ id ∈ pruned order peers
          · exact .inr (hspare hpruned.1 hpruned.2.1 id hid hpruned.2.2)
          · exact .inl (.inr ⟨hin, hpruned⟩)
        · exact .inl (.inl rfl)
        · exact .inr hin
    have hiff : (∀ id ∈ touched ++ (t :: ts).map Prod.fst,
        id ∈ touchAll order ts (peers.peerStatsMut order t.1 t.2)) ↔
        ∀ id ∈ t.1 :: touched ++ ts.map Prod.fst,
          id ∈ touchAll order ts (peers.peerStatsMut order t.1 t.2) := by
      refine forall_congr' fun id => imp_congr_left ?_
      rw [List.map_cons, List.mem_append, List.mem_cons, List.cons_append, List.mem_cons,
        List.mem_append, or_left_comm]
    rw [hiff]
    constructor
    · intro hall
      have hspare : maxPeerStats ≤ peers.size → t.1 ∉ peers →
          ∀ id ∈ touched, id ∈ pruned order peers → id ∈ ts.map Prod.fst := by
        intro hfull ht id hid hpruned
        by_contra hlater
        have hmem := mem_of_mem_touchAll
          (hall id (List.mem_append_left _ (List.mem_cons_of_mem _ hid))) hlater
        rw [mem_peerStatsMut] at hmem
        obtain rfl | hmem := hmem
        · exact ht ((pruned_spec _ _).2.1 _ hpruned)
        · exact hmem.2 ⟨hfull, ht, hpruned⟩
      exact ⟨hspare, (ih (hnext hspare)).1 hall⟩
    · rintro ⟨hspare, hrest⟩
      exact (ih (hnext hspare)).2 hrest

end PeerTable

/-! ## What is logged -/

/-- The event that an entry of hbbs logs; a relay grant logs none. -/
def loggedEvent (now : String) : Event → Option NemoEvent
  | .policyRejection id addr reason =>
    some ⟨now, "policy-rejection", some id, some addr.toText, reason⟩
  | .peerSeen id addr =>
    some ⟨now, "register-peer", some id, some addr.toText, "peer registered rendezvous address"⟩
  | .registerPk id addr accepted =>
    some ⟨now, "register-pk", some id, some addr.toText,
      if accepted then "public key accepted" else "public key rejected"⟩
  | .connectionNegotiation id _ _ addr peerAddr natType forcedRelay sameIntranet relayServer =>
    some ⟨now, "connection-negotiation", some id, some addr.toText,
      "target=" ++ peerAddr.toText ++ ", nat=" ++ natTypeName natType ++ ", forced_relay=" ++
        toString forcedRelay ++ ", same_intranet=" ++ toString sameIntranet ++ ", relay=" ++
        relayServer⟩
  | .relayRequest id addr forwarded =>
    some ⟨now, "relay-request", some id, some addr.toText,
      if forwarded then "forwarded to target peer" else "target peer was not available"⟩
  | .relayGrant .. => none
  | .relayResponse id addr relayServer =>
    some ⟨now, "relay-response", some id, some addr.toText, "relay=" ++ relayServer⟩
  | .punchResponse id addr relayServer natType =>
    some ⟨now, "punch-response", some id, some addr.toText,
      "nat=" ++ natTypeName natType ++ ", relay=" ++ relayServer⟩
  | .localAddrResponse id addr relayServer =>
    some ⟨now, "local-addr-response", some id, some addr.toText, "relay=" ++ relayServer⟩

/-- What an entry of hbbs does to the connection rows: a negotiation refreshes one. -/
def Statistics.observe (X : Setup) (instant : ℕ) (stats : Statistics) : Event → Statistics
  | .connectionNegotiation id source sourceField addr peerAddr natType forcedRelay sameIntranet
      relayServer =>
    stats.recordConnectionNegotiation X instant id source sourceField addr peerAddr natType
      forcedRelay sameIntranet relayServer
  | _ => stats

/-- What of a relayed session does not change while its row is kept. -/
structure BrokeredSession where
  session : String
  sourceId : String
  targetId : String
  brokeredAt : String
  deriving DecidableEq

def RelaySessionRecord.brokered (row : RelaySessionRecord) : BrokeredSession :=
  ⟨row.session, row.sourceId, row.targetId, row.brokeredAt⟩

namespace NemoStatsStore

variable {order : FinMap.Iteration String NemoPeerStats} {now : String} {s : NemoStatsStore}

/-- What logging an event does to the peer it names. -/
def logTouches (now : String) (peerId : Option String) : List PeerTable.Touch :=
  peerId.toList.map fun id => (id, fun peer => { peer with lastEventAt := some now })

theorem recordEvent_eq (kind : String) (peerId : Option String) (remoteAddr : Option SocketAddr)
    (detail : String) : s.recordEvent order now kind peerId remoteAddr detail = { s with
      peers := s.peers.touchAll order (logTouches now peerId)
      events := Capped.trim s.logHistoryLimit
        (s.events ++ [⟨now, kind, peerId, remoteAddr.map SocketAddr.toText, detail⟩]) } := by
  cases peerId <;> rfl

variable {X : Setup} {instant : ℕ} {e : Event}

/-- The entry counts, touches one peer, logs its event and observes the connection; it counts no
relayed byte. -/
def Counts (order : FinMap.Iteration String NemoPeerStats) (now : String) (s : NemoStatsStore)
    (X : Setup) (instant : ℕ) (e : Event) : Prop :=
  ∃ count touch kind id addr detail,
    s.record order now X instant e =
      { s.recordPeer order now count touch kind id addr detail with
        toStatistics := s.toStatistics.observe X instant e } ∧
    loggedEvent now e = some ⟨now, kind, some id, some addr.toText, detail⟩ ∧
    ∀ t : NemoTotals, (count t).relayBytes = t.relayBytes

/-- Recording at a peer leaves the connection rows alone. -/
theorem Counts.of_recordPeer {count : NemoTotals → NemoTotals}
    {touch : NemoPeerStats → NemoPeerStats} {kind id : String} {addr : SocketAddr} {detail : String}
    (hrecord : s.record order now X instant e =
      s.recordPeer order now count touch kind id addr detail)
    (hobserve : s.toStatistics.observe X instant e = s.toStatistics)
    (hlogged : loggedEvent now e = some ⟨now, kind, some id, some addr.toText, detail⟩)
    (hcount : ∀ t : NemoTotals, (count t).relayBytes = t.relayBytes) :
    Counts order now s X instant e := by
  refine ⟨count, touch, kind, id, addr, detail, ?_, hlogged, hcount⟩
  rw [hrecord, hobserve]
  rfl

variable (order now s X instant) in
/-- An entry of hbbs is a relay grant, or it counts. -/
theorem record_cases (e : Event) :
    (∃ label sourceId targetId, e = .relayGrant label sourceId targetId) ∨
      Counts order now s X instant e := by
  cases e with
  | relayGrant label sourceId targetId => exact .inl ⟨label, sourceId, targetId, rfl⟩
  | policyRejection id addr reason =>
    have h : s.record order now X instant (.policyRejection id addr reason) =
        s.recordPolicyRejection order now id addr reason := rfl
    exact .inr (.of_recordPeer h rfl rfl fun _ => rfl)
  | peerSeen id addr =>
    have h : s.record order now X instant (.peerSeen id addr) =
        s.recordPeerSeen order now id addr := rfl
    exact .inr (.of_recordPeer h rfl rfl fun _ => rfl)
  | registerPk id addr accepted =>
    have h : s.record order now X instant (.registerPk id addr accepted) =
        s.recordRegisterPk order now id addr accepted := rfl
    exact .inr (.of_recordPeer h rfl rfl fun _ => rfl)
  | connectionNegotiation id source sourceField addr peerAddr natType forcedRelay sameIntranet
      relayServer =>
    exact .inr ⟨_, _, _, id, addr, _, rfl, rfl, fun _ => rfl⟩
  | relayRequest id addr forwarded =>
    have h : s.record order now X instant (.relayRequest id addr forwarded) =
        s.recordRelayRequest order now id addr forwarded := rfl
    exact .inr (.of_recordPeer h rfl rfl fun _ => rfl)
  | relayResponse id addr relayServer =>
    have h : s.record order now X instant (.relayResponse id addr relayServer) =
        s.recordRelayResponse order now id addr relayServer := rfl
    exact .inr (.of_recordPeer h rfl rfl fun _ => rfl)
  | punchResponse id addr relayServer natType =>
    have h : s.record order now X instant (.punchResponse id addr relayServer natType) =
        s.recordPunchResponse order now id addr relayServer natType := rfl
    exact .inr (.of_recordPeer h rfl rfl fun _ => rfl)
  | localAddrResponse id addr relayServer =>
    have h : s.record order now X instant (.localAddrResponse id addr relayServer) =
        s.recordLocalAddrResponse order now id addr relayServer := rfl
    exact .inr (.of_recordPeer h rfl rfl fun _ => rfl)

/-- What cutting the sessions into machines does to their peers. -/
def cutTouches (cutEntry : String → String × String) (targets : List String) :
    List PeerTable.Touch :=
  targets.map fun t => (t, fun peer => { peer with lastEventAt := some (cutEntry t).1 })

/-- The event of a cut. -/
def cutEvent (cutEntry : String → String × String) (target : String) : NemoEvent :=
  ⟨(cutEntry target).1, "connection-cut", some target, none, (cutEntry target).2⟩

variable (order s) in
theorem cuts_eq (cutEntry : String → String × String) (targets : List String) :
    ∃ events, targets.foldl (fun s target => s.recordCut order cutEntry target) s = { s with
      peers := s.peers.touchAll order (cutTouches cutEntry targets)
      events := events } ∧ (s.events.length ≤ s.logHistoryLimit →
        events = Capped.trim s.logHistoryLimit (s.events ++ targets.map (cutEvent cutEntry))) := by
  induction targets generalizing s with
  | nil =>
    refine ⟨s.events, rfl, fun h => ?_⟩
    rw [List.map_nil, List.append_nil, Capped.trim_of_le h]
  | cons t ts ih =>
    obtain ⟨events, heq, hevents⟩ := ih (s := s.recordCut order cutEntry t)
    refine ⟨events, ?_, fun _ => ?_⟩
    · rw [List.foldl_cons, heq]
      rfl
    · rw [hevents (Capped.length_trim_le _)]
      unfold recordCut
      rw [recordEvent_eq]
      dsimp only
      rw [Capped.trim_trim_append, List.append_assoc]
      rfl

variable (order s) in
theorem terminateSessions_eq (clock : ℕ) (controllers : List String)
    (cutEntry : String → String × String) :
    let cut := s.toStatistics.terminateSessionsFromControllers clock controllers
    ∃ events, s.terminateSessions order clock controllers cutEntry = { s with
      toStatistics := cut.2
      peers := s.peers.touchAll order (cutTouches cutEntry cut.1)
      events := events } ∧ (s.events.length ≤ s.logHistoryLimit →
        events = Capped.trim s.logHistoryLimit (s.events ++ cut.1.map (cutEvent cutEntry))) := by
  obtain ⟨events, heq, hevents⟩ := cuts_eq order s cutEntry
    (s.toStatistics.terminateSessionsFromControllers clock controllers).1
  refine ⟨events, ?_, hevents⟩
  unfold terminateSessions
  dsimp only
  rw [heq]

/-! ## Relayed sessions -/

/-- What a count of relayed bytes does to the ends of its session. -/
def endTouches (delta : ℕ) (ends : List String) : List PeerTable.Touch :=
  (ends.filter (· != "")).map fun id =>
    (id, fun peer => { peer with relayBytes := peer.relayBytes + delta })

theorem chargeEnds_eq (delta : ℕ) (ends : List String) : s.chargeEnds order delta ends =
    { s with peers := s.peers.touchAll order (endTouches delta ends) } := by
  induction ends generalizing s with
  | nil => rfl
  | cons id ends ih =>
    rw [chargeEnds, List.foldl_cons, ← chargeEnds, ih]
    by_cases hid : id = ""
    · simp [hid, endTouches]
    · simp [hid, endTouches, peerStatsMut]

variable (order now s) in
/-- A sample is of a session with a row, whose row and ends it updates, or of none, and then counts
for the fleet. -/
theorem applyRelaySample_cases {sample : RelayUsageSample} (hlabel : sample.session ≠ "") :
    ((∀ row ∈ s.relaySessions, row.session ≠ sample.session) ∧
      s.applyRelaySample order now sample = { s with totals := { s.totals with
        relayBytes := s.totals.relayBytes + sample.bytes } }) ∨
    ∃ front row back, s.relaySessions = front ++ row :: back ∧ row.session = sample.session ∧
      (∀ row' ∈ front, row'.session ≠ sample.session) ∧
      s.applyRelaySample order now sample = { s with
        relaySessions := front ++ sampledRow now sample row :: back
        totals := { s.totals with
          relayBytes := s.totals.relayBytes + (sample.bytes - row.bytes) }
        peers := s.peers.touchAll order
          (endTouches (sample.bytes - row.bytes) [row.sourceId, row.targetId]) } := by
  unfold applyRelaySample
  rw [if_neg hlabel]
  cases hidx : s.relaySessions.findIdx? fun row => row.session == sample.session with
  | none =>
    refine .inl ⟨fun row hrow heq => ?_, rfl⟩
    have := List.findIdx?_eq_none_iff.1 hidx row hrow
    rw [heq, beq_self_eq_true] at this
    exact Bool.noConfusion this
  | some idx =>
    obtain ⟨hlt, hrow, hfirst⟩ := List.findIdx?_eq_some_iff_getElem.1 hidx
    have hsplit := List.take_append_drop idx s.relaySessions
    rw [List.drop_eq_getElem_cons hlt] at hsplit
    refine .inr ⟨_, _, _, hsplit.symm, eq_of_beq hrow, fun row hmem => ?_, ?_⟩
    · obtain ⟨j, hj, rfl⟩ := List.getElem_of_mem hmem
      rw [List.length_take] at hj
      have := hfirst j (by omega)
      rw [List.getElem_take]
      exact fun heq => this (beq_iff_eq.2 heq)
    · dsimp only
      rw [List.getElem?_eq_getElem hlt]
      dsimp only
      rw [chargeEnds_eq, List.set_eq_take_append_cons_drop, if_pos hlt]

/-- The touches of a sample: those of the ends of its row. -/
def sampleTouches (s : NemoStatsStore) (sample : RelayUsageSample) : List PeerTable.Touch :=
  if sample.session = "" then []
  else
    match s.relaySessions.find? fun row => row.session == sample.session with
    | some row => endTouches (sample.bytes - row.bytes) [row.sourceId, row.targetId]
    | none => []

/-- The touches of the samples, in their order. -/
def usageTouches (order : FinMap.Iteration String NemoPeerStats) (now : String) :
    NemoStatsStore → List RelayUsageSample → List PeerTable.Touch
  | _, [] => []
  | s, sample :: samples =>
    s.sampleTouches sample ++ usageTouches order now (s.applyRelaySample order now sample) samples

/-- The ends of the first row of a session that are named. -/
def namedEnds (rows : List BrokeredSession) (session : String) : List String :=
  match rows.find? fun row => row.session == session with
  | some row => [row.sourceId, row.targetId].filter (· != "")
  | none => []

/-- The peers the samples charge. -/
def chargedPeers (rows : List BrokeredSession) (samples : List RelayUsageSample) : List String :=
  samples.flatMap fun sample => if sample.session = "" then [] else namedEnds rows sample.session

variable (order now s) in
/-- A sample changes the peers by its touches, and no row but in what was measured. -/
theorem applyRelaySample_spec (sample : RelayUsageSample) :
    let s' := s.applyRelaySample order now sample
    s'.peers = s.peers.touchAll order (s.sampleTouches sample) ∧
      s'.relaySessions.map (·.brokered) = s.relaySessions.map (·.brokered) ∧
      s'.toStatistics = s.toStatistics ∧ s'.events = s.events ∧
      s'.logHistoryLimit = s.logHistoryLimit := by
  dsimp only
  unfold sampleTouches
  by_cases hlabel : sample.session = ""
  · rw [applyRelaySample, if_pos hlabel, if_pos hlabel]
    exact ⟨rfl, rfl, rfl, rfl, rfl⟩
  · rw [if_neg hlabel]
    obtain ⟨hnone, heq⟩ | ⟨front, row, back, hrows, hrow, hfront, heq⟩ :=
      applyRelaySample_cases order now s hlabel
    · have hfind : s.relaySessions.find? (fun row => row.session == sample.session) = none :=
        List.find?_eq_none.2 fun row hrow => by simp [hnone row hrow]
      rw [heq, hfind]
      exact ⟨rfl, rfl, rfl, rfl, rfl⟩
    · have hfind : s.relaySessions.find? (fun row => row.session == sample.session) = some row := by
        rw [hrows, List.find?_append, List.find?_eq_none.2 fun r hr => by simp [hfront r hr],
          Option.none_or, List.find?_cons_of_pos (by simp [hrow])]
      rw [heq, hfind]
      refine ⟨rfl, ?_, rfl, rfl, rfl⟩
      rw [hrows, List.map_append, List.map_append]
      rfl

theorem sampleTouches_ids (sample : RelayUsageSample) : (s.sampleTouches sample).map Prod.fst =
    if sample.session = "" then []
    else namedEnds (s.relaySessions.map (·.brokered)) sample.session := by
  unfold sampleTouches namedEnds
  split
  · rfl
  · have hmap : (s.relaySessions.map (·.brokered)).find? (fun row => row.session == sample.session) =
        (s.relaySessions.find? fun row => row.session == sample.session).map (·.brokered) :=
      List.find?_map
    rw [hmap]
    cases s.relaySessions.find? fun row => row.session == sample.session with
    | none => rfl
    | some row =>
      unfold endTouches
      rw [List.map_map]
      exact List.map_id _

variable (order now s) in
/-- The samples of a report change the peers by their touches, which are of the ends of their rows,
and no row but in what was measured. -/
theorem foldl_applyRelaySample (samples : List RelayUsageSample) :
    let s' := samples.foldl (fun s sample => s.applyRelaySample order now sample) s
    s'.peers = s.peers.touchAll order (usageTouches order now s samples) ∧
      (usageTouches order now s samples).map Prod.fst =
        chargedPeers (s.relaySessions.map (·.brokered)) samples ∧
      s'.relaySessions.map (·.brokered) = s.relaySessions.map (·.brokered) ∧
      s'.toStatistics = s.toStatistics ∧ s'.events = s.events ∧
      s'.logHistoryLimit = s.logHistoryLimit := by
  induction samples generalizing s with
  | nil => exact ⟨rfl, rfl, rfl, rfl, rfl, rfl⟩
  | cons sample samples ih =>
    obtain ⟨hpeers, hrows, hstats, hevents, hlimit⟩ :=
      applyRelaySample_spec order now s sample
    obtain ⟨ihpeers, ihids, ihrows, ihstats, ihevents, ihlimit⟩ :=
      ih (s := s.applyRelaySample order now sample)
    dsimp only
    rw [List.foldl_cons]
    refine ⟨?_, ?_, ihrows.trans hrows, ihstats.trans hstats, ihevents.trans hevents,
      ihlimit.trans hlimit⟩
    · rw [ihpeers, hpeers, usageTouches, PeerTable.touchAll_append]
    · rw [usageTouches, List.map_append, ihids, hrows, sampleTouches_ids]
      rfl

/-- Ending the sessions that were not sampled changes no row but in its state. -/
theorem brokered_endUnsampled (seen : List String) (row : RelaySessionRecord) :
    (endUnsampled seen row).brokered = row.brokered := by
  unfold endUnsampled
  split <;> rfl

end NemoStatsStore

namespace Recorder

open NemoStatsStore

/-- Only grants and samples change the relayed sessions and the relayed bytes of the fleet. -/
theorem relay_perform {X : Setup} {instant : ℕ} {now : String}
    {order : FinMap.Iteration String NemoPeerStats} {s : NemoStatsStore} {op : StatsOp}
    (hgrant : ∀ label sourceId targetId, op ≠ .record (.relayGrant label sourceId targetId))
    (husage : ∀ samples, op ≠ .relayUsage samples) :
    (perform X instant now order s op).relaySessions = s.relaySessions ∧
      (perform X instant now order s op).totals.relayBytes = s.totals.relayBytes := by
  cases op with
  | record e =>
    obtain ⟨label, sourceId, targetId, rfl⟩ | ⟨_, _, _, _, _, _, heq, -, hcount⟩ :=
      record_cases order now s X instant e
    · exact absurd rfl (hgrant label sourceId targetId)
    · rw [perform, heq]
      exact ⟨rfl, hcount s.totals⟩
  | logEvent kind peerId remoteAddr detail =>
    rw [perform, recordEvent_eq]
    exact ⟨rfl, rfl⟩
  | relayUsage samples => exact absurd rfl (husage samples)
  | updateConnHistoryLimit limit => exact ⟨rfl, rfl⟩
  | updateLogHistoryLimit limit => exact ⟨rfl, rfl⟩
  | deletePeer id => exact ⟨rfl, rfl⟩
  | endSessions clock kind id detail => exact ⟨rfl, rfl⟩
  | terminateSessions clock controllers cutEntry =>
    obtain ⟨events, heq, -⟩ :=
      terminateSessions_eq order s clock controllers cutEntry
    rw [perform, heq]
    exact ⟨rfl, rfl⟩

end Recorder

end Management

end NemoServer
