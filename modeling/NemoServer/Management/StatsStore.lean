import Mathlib.Data.Prod.Lex
import Mathlib.Data.String.Basic
import NemoServer.Foundations.Capped
import NemoServer.Foundations.FinMap
import NemoServer.Management.Statistics
import NemoServer.Server.Ops

/-!
# The statistics store

What the management API keeps of the traffic (`nemo_management.rs`): the counters of the fleet and
of each peer, the log of events, the connection rows of `Statistics`, and the relayed sessions as
hbbr measures them. Each container has its own bound and its own choice of what goes: the peers
that were least recently active go in bulk, the oldest events go at the front, the connection that
was seen longest ago goes alone, and of the relayed sessions the ended ones go first.

An operation is what a handler does under one hold of the lock of the store. The order in which the
map of the peers is looped over, which decides between peers of equal age, and the text of the
clock are arguments of each. Counters are natural numbers.
-/

set_option autoImplicit false

namespace NemoServer

namespace Management

structure NemoTotals where
  relayBytes : ℕ := 0
  registeredMessages : ℕ := 0
  registerPkMessages : ℕ := 0
  directAttempts : ℕ := 0
  localAddrAttempts : ℕ := 0
  relayForced : ℕ := 0
  relayRequests : ℕ := 0
  relayResponses : ℕ := 0
  punchResponses : ℕ := 0
  localAddrResponses : ℕ := 0
  policyRejections : ℕ := 0
  deriving DecidableEq

structure NemoPeerStats where
  relayBytes : ℕ := 0
  registeredMessages : ℕ := 0
  registerPkMessages : ℕ := 0
  directAttempts : ℕ := 0
  localAddrAttempts : ℕ := 0
  relayForced : ℕ := 0
  relayRequests : ℕ := 0
  relayResponses : ℕ := 0
  punchResponses : ℕ := 0
  localAddrResponses : ℕ := 0
  policyRejections : ℕ := 0
  lastEventAt : Option String := none
  lastPublicAddr : Option String := none
  lastPunchFromAddr : Option String := none
  lastPunchToAddr : Option String := none
  lastNatType : Option String := none
  lastRelayServer : Option String := none
  lastForcedRelay : Bool := false
  lastSameIntranet : Bool := false
  deriving DecidableEq

structure NemoEvent where
  occurredAt : String
  kind : String
  peerId : Option String
  remoteAddr : Option String
  detail : String
  deriving DecidableEq

/-- A relayed session; `session` is the label of its grant. -/
structure RelaySessionRecord where
  session : String
  sourceId : String
  targetId : String
  brokeredAt : String
  /-- Cumulative, as hbbr last reported it. -/
  bytes : ℕ := 0
  kbps : ℕ := 0
  peakKbps : ℕ := 0
  seconds : ℕ := 0
  lastSampleAt : Option String := none
  live : Bool := false
  deriving DecidableEq

/-- What hbbr reports of one session. -/
structure RelayUsageSample where
  session : String
  bytes : ℕ
  kbps : ℕ
  peakKbps : ℕ
  ms : ℕ
  deriving DecidableEq

abbrev PeerTable := FinMap String NemoPeerStats

structure NemoStatsStore extends Statistics where
  totals : NemoTotals
  peers : PeerTable
  events : List NemoEvent
  relaySessions : List RelaySessionRecord
  /-- `LOG_HISTORY_LIMIT`. -/
  logHistoryLimit : ℕ

def relaySessionMemory : ℕ := 256
def maxPeerStats : ℕ := 5000
def maxLogHistoryLimit : ℕ := 100000

/-! ## Peers -/

namespace PeerTable

variable (order : FinMap.Iteration String NemoPeerStats) (peers : PeerTable)

/-- The peers `prune_peer_stats` removes: those of the earliest last event, down to three quarters
of the bound. A peer of no event counts as the earliest. -/
def pruned : List String :=
  let aged := (order.entries peers).map fun e => (e.1, e.2.lastEventAt.getD "")
  let aged := aged.mergeSort fun a b => decide (a.2 ≤ b.2)
  let target := maxPeerStats * 3 / 4
  (aged.take (peers.size - target)).map Prod.fst

def prunePeerStats : PeerTable := peers.eraseAll (pruned order peers)

/-- A peer that is not in the full map makes room for itself. -/
def makeRoom (id : String) : PeerTable :=
  if maxPeerStats ≤ peers.size ∧ id ∉ peers then prunePeerStats order peers else peers

/-- `peer_stats_mut`, with what its caller does to the entry. -/
def peerStatsMut (id : String) (f : NemoPeerStats → NemoPeerStats) : PeerTable :=
  let peers := makeRoom order peers id
  AList.insert id (f ((AList.lookup id peers).getD {})) peers

end PeerTable

namespace NemoStatsStore

/-- The store of a server that has just started, with the limits an operator left. -/
def start (connHistoryLimit logHistoryLimit : ℕ) (stamps : Table String ℕ) : NemoStatsStore where
  connections := []
  connHistoryLimit := max 1 (min connHistoryLimit maxConnHistoryLimit)
  peerTerminate := stamps
  totals := {}
  peers := ∅
  events := []
  relaySessions := []
  logHistoryLimit := max 1 (min logHistoryLimit maxLogHistoryLimit)

variable (order : FinMap.Iteration String NemoPeerStats) (now : String) (s : NemoStatsStore)

def peerStats (id : String) : NemoPeerStats := (AList.lookup id s.peers).getD {}

def peerStatsMut (id : String) (f : NemoPeerStats → NemoPeerStats) : NemoStatsStore :=
  { s with peers := s.peers.peerStatsMut order id f }

/-! ## Events -/

/-- `record_event_locked`. -/
def recordEvent (kind : String) (peerId : Option String) (remoteAddr : Option SocketAddr)
    (detail : String) : NemoStatsStore :=
  let s := match peerId with
    | some id => s.peerStatsMut order id fun peer => { peer with lastEventAt := some now }
    | none => s
  let events := s.events ++ [⟨now, kind, peerId, remoteAddr.map SocketAddr.toText, detail⟩]
  { s with events := Capped.trim s.logHistoryLimit events }

/-- What most of the `record_*` functions do: count in the totals and at the peer, and log. -/
def recordPeer (count : NemoTotals → NemoTotals) (touch : NemoPeerStats → NemoPeerStats)
    (kind id : String) (addr : SocketAddr) (detail : String) : NemoStatsStore :=
  let s := { s with totals := count s.totals }
  (s.peerStatsMut order id touch).recordEvent order now kind (some id) (some addr) detail

def recordPeerSeen (id : String) (addr : SocketAddr) : NemoStatsStore :=
  s.recordPeer order now
    (fun t => { t with registeredMessages := t.registeredMessages + 1 })
    (fun p => { p with
      registeredMessages := p.registeredMessages + 1
      lastPublicAddr := some addr.toText })
    "register-peer" id addr "peer registered rendezvous address"

def recordRegisterPk (id : String) (addr : SocketAddr) (accepted : Bool) : NemoStatsStore :=
  s.recordPeer order now
    (fun t => { t with registerPkMessages := t.registerPkMessages + 1 })
    (fun p => { p with
      registerPkMessages := p.registerPkMessages + 1
      lastPublicAddr := some addr.toText })
    "register-pk" id addr (if accepted then "public key accepted" else "public key rejected")

def recordRelayRequest (id : String) (addr : SocketAddr) (forwarded : Bool) : NemoStatsStore :=
  s.recordPeer order now
    (fun t => { t with relayRequests := t.relayRequests + 1 })
    (fun p => { p with relayRequests := p.relayRequests + 1 })
    "relay-request" id addr
    (if forwarded then "forwarded to target peer" else "target peer was not available")

def recordRelayResponse (id : String) (addr : SocketAddr) (relayServer : String) :
    NemoStatsStore :=
  s.recordPeer order now
    (fun t => { t with relayResponses := t.relayResponses + 1 })
    (fun p => { p with
      relayResponses := p.relayResponses + 1
      lastRelayServer := if relayServer = "" then p.lastRelayServer else some relayServer })
    "relay-response" id addr ("relay=" ++ relayServer)

def recordPunchResponse (id : String) (addr : SocketAddr) (relayServer : String)
    (natType : NatType) : NemoStatsStore :=
  s.recordPeer order now
    (fun t => { t with punchResponses := t.punchResponses + 1 })
    (fun p => { p with
      punchResponses := p.punchResponses + 1
      lastNatType := some (natTypeName natType)
      lastRelayServer := if relayServer = "" then p.lastRelayServer else some relayServer })
    "punch-response" id addr ("nat=" ++ natTypeName natType ++ ", relay=" ++ relayServer)

def recordLocalAddrResponse (id : String) (addr : SocketAddr) (relayServer : String) :
    NemoStatsStore :=
  s.recordPeer order now
    (fun t => { t with localAddrResponses := t.localAddrResponses + 1 })
    (fun p => { p with
      localAddrResponses := p.localAddrResponses + 1
      lastRelayServer := if relayServer = "" then p.lastRelayServer else some relayServer })
    "local-addr-response" id addr ("relay=" ++ relayServer)

def recordPolicyRejection (id : String) (addr : SocketAddr) (reason : String) : NemoStatsStore :=
  s.recordPeer order now
    (fun t => { t with policyRejections := t.policyRejections + 1 })
    (fun p => { p with policyRejections := p.policyRejections + 1 })
    "policy-rejection" id addr reason

/-- `record_connection_negotiation`; `instant` is the monotonic clock. -/
def recordNegotiation (X : Setup) (instant : ℕ) (id : String) (proto : Option NemoSource)
    (sourceField : String) (fromAddr toAddr : SocketAddr) (natType : NatType)
    (forcedRelay sameIntranet : Bool) (relayServer : String) : NemoStatsStore :=
  let s := s.recordPeer order now
    (fun t => { t with
      directAttempts := t.directAttempts + 1
      relayForced := t.relayForced + forcedRelay.toNat
      localAddrAttempts := t.localAddrAttempts + sameIntranet.toNat })
    (fun p => { p with
      directAttempts := p.directAttempts + 1
      lastPunchFromAddr := some fromAddr.toText
      lastPunchToAddr := some toAddr.toText
      lastNatType := some (natTypeName natType)
      lastForcedRelay := forcedRelay
      lastSameIntranet := sameIntranet
      relayForced := p.relayForced + forcedRelay.toNat
      localAddrAttempts := p.localAddrAttempts + sameIntranet.toNat
      lastRelayServer := if relayServer = "" then none else some relayServer })
    "connection-negotiation" id fromAddr
    ("target=" ++ toAddr.toText ++ ", nat=" ++ natTypeName natType ++ ", forced_relay=" ++
      toString forcedRelay ++ ", same_intranet=" ++ toString sameIntranet ++ ", relay=" ++
      relayServer)
  let stats := s.toStatistics.recordConnectionNegotiation X instant id proto sourceField fromAddr
    toAddr natType forcedRelay sameIntranet relayServer
  { s with toStatistics := stats }

/-! ## Relayed sessions -/

/-- What the row that makes room for a grant is the least in: ended rows before live ones, then by
when they were brokered. -/
def evictionKey (e : RelaySessionRecord × ℕ) : Bool ×ₗ String ×ₗ ℕ :=
  toLex (e.1.live, toLex (e.1.brokeredAt, e.2))

/-- Rows go while there is no room for one more. -/
def evictRelaySessions (rows : List RelaySessionRecord) : List RelaySessionRecord :=
  Capped.evict evictionKey (relaySessionMemory - 1) rows.length rows

def recordRelayGrant (session sourceId targetId : String) : NemoStatsStore :=
  { s with relaySessions := evictRelaySessions s.relaySessions ++
      [{ session, sourceId, targetId, brokeredAt := now }] }

/-- The row of a session after a sample of it. -/
def sampledRow (sample : RelayUsageSample) (row : RelaySessionRecord) : RelaySessionRecord :=
  { row with
    bytes := sample.bytes
    kbps := sample.kbps
    peakKbps := sample.peakKbps
    seconds := sample.ms / 1000
    lastSampleAt := some now
    live := true }

/-- Charge the bytes to the ends that are named. -/
def chargeEnds (delta : ℕ) (ends : List String) : NemoStatsStore :=
  ends.foldl (fun s id =>
    if id = "" then s
    else s.peerStatsMut order id fun peer => { peer with relayBytes := peer.relayBytes + delta }) s

/-- One sample of `apply_relay_usage`. -/
def applyRelaySample (sample : RelayUsageSample) : NemoStatsStore :=
  if sample.session = "" then s
  else
    match s.relaySessions.findIdx? fun row => row.session == sample.session with
    -- a session that was not brokered here, or whose row is gone: counted for the fleet only
    | none => { s with totals := { s.totals with
        relayBytes := s.totals.relayBytes + sample.bytes } }
    | some idx =>
      match s.relaySessions[idx]? with
      | none => s
      | some row =>
        let delta := sample.bytes - row.bytes
        let s := { s with
          relaySessions := s.relaySessions.set idx (sampledRow now sample row)
          totals := { s.totals with relayBytes := s.totals.relayBytes + delta } }
        s.chargeEnds order delta [row.sourceId, row.targetId]

/-- A row that is live and was not sampled has ended. -/
def endUnsampled (seen : List String) (row : RelaySessionRecord) : RelaySessionRecord :=
  if row.live && !seen.contains row.session then { row with live := false, kbps := 0 } else row

def applyRelayUsage (samples : List RelayUsageSample) : NemoStatsStore :=
  let seen := (samples.map (·.session)).filter (· != "")
  let s := samples.foldl (fun s sample => s.applyRelaySample order now sample) s
  { s with relaySessions := s.relaySessions.map (endUnsampled seen) }

/-! ## Limits and removals -/

/-- `update_policy` with `connection_history_limit`. -/
def updateConnHistoryLimit (limit : ℕ) : NemoStatsStore :=
  let s := { s with toStatistics := s.toStatistics.setConnHistoryLimit limit }
  s.recordEvent order now "policy-update" none none
    ("connection_history_limit=" ++ toString s.connHistoryLimit)

/-- `update_policy` with `log_history_limit`. -/
def updateLogHistoryLimit (limit : ℕ) : NemoStatsStore :=
  let limit := max 1 (min limit maxLogHistoryLimit)
  let s := { s with
    logHistoryLimit := limit
    events := Capped.trim limit s.events }
  s.recordEvent order now "policy-update" none none ("log_history_limit=" ++ toString limit)

/-- The part of `delete_peer_ids` for one peer that was registered. -/
def deletePeer (id : String) : NemoStatsStore :=
  { s with peers := AList.erase id s.peers }.recordEvent order now "peer-delete" (some id) none
    "deleted"

/-- The part of `block_peer` and `cut_connection` after the policy is set: the rows into the machine
go, and the log says so. -/
def endSessions (clock : ℕ) (kind id detail : String) : NemoStatsStore :=
  { s with toStatistics := s.toStatistics.endSessionsInto clock id }.recordEvent order now kind
    (some id) none detail

/-- Log that the sessions into a machine were cut; `cutEntry` has the time and the text. -/
def recordCut (cutEntry : String → String × String) (target : String) : NemoStatsStore :=
  s.recordEvent order (cutEntry target).1 "connection-cut" (some target) none (cutEntry target).2

/-- `terminate_sessions_from_controllers`. -/
def terminateSessions (clock : ℕ) (controllers : List String)
    (cutEntry : String → String × String) : NemoStatsStore :=
  let (targets, stats) := s.toStatistics.terminateSessionsFromControllers clock controllers
  let s := targets.foldl (fun s target => s.recordCut order cutEntry target) s
  { s with toStatistics := stats }

/-! ## Operations -/

/-- An entry that hbbs makes. -/
def record (X : Setup) (instant : ℕ) : Event → NemoStatsStore
  | .policyRejection id addr reason => s.recordPolicyRejection order now id addr reason
  | .peerSeen id addr => s.recordPeerSeen order now id addr
  | .registerPk id addr accepted => s.recordRegisterPk order now id addr accepted
  | .connectionNegotiation id source sourceField addr peerAddr natType forcedRelay sameIntranet
      relayServer =>
    s.recordNegotiation order now X instant id source sourceField addr peerAddr natType forcedRelay
      sameIntranet relayServer
  | .relayRequest id addr forwarded => s.recordRelayRequest order now id addr forwarded
  | .relayGrant label sourceId targetId => s.recordRelayGrant now label sourceId targetId
  | .relayResponse id addr relayServer => s.recordRelayResponse order now id addr relayServer
  | .punchResponse id addr relayServer natType =>
    s.recordPunchResponse order now id addr relayServer natType
  | .localAddrResponse id addr relayServer =>
    s.recordLocalAddrResponse order now id addr relayServer

end NemoStatsStore

/-- What is done under one hold of the lock of the statistics. -/
inductive StatsOp
  | record (e : Event)
  /-- An event that a route of the management API logs, with nothing else. -/
  | logEvent (kind : String) (peerId : Option String) (remoteAddr : Option SocketAddr)
      (detail : String)
  | relayUsage (samples : List RelayUsageSample)
  | updateConnHistoryLimit (limit : ℕ)
  | updateLogHistoryLimit (limit : ℕ)
  | deletePeer (id : String)
  | endSessions (clock : ℕ) (kind id detail : String)
  | terminateSessions (clock : ℕ) (controllers : List String)
      (cutEntry : String → String × String)

/-- An operation, with how long after the one before it is done, the time it reads, and the order
in which it loops over the peers. -/
structure StatsStep where
  op : StatsOp
  elapsed : ℕ
  now : String
  order : FinMap.Iteration String NemoPeerStats

/-- The store and the monotonic clock. -/
structure Recorder where
  instant : ℕ
  store : NemoStatsStore

namespace Recorder

variable (X : Setup)

def perform (instant : ℕ) (now : String) (order : FinMap.Iteration String NemoPeerStats)
    (s : NemoStatsStore) : StatsOp → NemoStatsStore
  | .record e => s.record order now X instant e
  | .logEvent kind peerId remoteAddr detail =>
    s.recordEvent order now kind peerId remoteAddr detail
  | .relayUsage samples => s.applyRelayUsage order now samples
  | .updateConnHistoryLimit limit => s.updateConnHistoryLimit order now limit
  | .updateLogHistoryLimit limit => s.updateLogHistoryLimit order now limit
  | .deletePeer id => s.deletePeer order now id
  | .endSessions clock kind id detail => s.endSessions order now clock kind id detail
  | .terminateSessions clock controllers cutEntry =>
    s.terminateSessions order clock controllers cutEntry

def step (r : Recorder) (e : StatsStep) : Recorder :=
  let instant := r.instant + e.elapsed
  ⟨instant, perform X instant e.now e.order r.store e.op⟩

/-- The recorder after a history, the newest operation first. -/
def after (s : NemoStatsStore) : List StatsStep → Recorder
  | [] => ⟨0, s⟩
  | e :: history => (after s history).step X e

end Recorder

end Management

end NemoServer
