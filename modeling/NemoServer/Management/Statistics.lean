import Mathlib.Data.List.MinMax
import NemoServer.Foundations.Table
import NemoServer.Management.Policy

/-!
# The connections the server has seen, and revocation

The rows of the statistics that say who was brokered to whom, and the revocation stamps
(`nemo_management.rs`): a stamp orders a machine to end every session it has, as of a second. The
operations on them are the recording of a negotiation, the two ways to block a machine, and the
revocation of controllers.

The counters of the statistics and their log of events are read by no decision and left out.
-/

set_option autoImplicit false

namespace NemoServer

namespace Management

structure ConnectionRecord where
  sourceId : String
  targetId : String
  sourceAddr : String
  targetAddr : String
  path : String
  relayServer : String
  natType : String
  firstSeen : ℕ
  lastSeen : ℕ
  negotiations : ℕ
  deriving DecidableEq

/-- The statistics, as far as revocation reads them. -/
structure Statistics where
  connections : List ConnectionRecord
  /-- `CONN_HISTORY_LIMIT`. -/
  connHistoryLimit : ℕ
  /-- `PEER_TERMINATE`. -/
  peerTerminate : Table String ℕ

def maxConnHistoryLimit : ℕ := 100000

def natTypeName : NatType → String
  | .asymmetric => "ASYMMETRIC"
  | .symmetric => "SYMMETRIC"
  | _ => "UNKNOWN_NAT"

namespace Statistics

variable (s : Statistics)

/-! ## Stamps -/

def peerTerminateBefore (id : String) : ℕ := (s.peerTerminate id).getD 0

/-- Order a machine to end its sessions as of the second `clock`; a stamp never goes back. -/
def setPeerTerminate (clock : ℕ) (id : String) : Statistics :=
  let slot := s.peerTerminateBefore id
  { s with peerTerminate := s.peerTerminate.insert id (if slot < clock then clock else slot) }

theorem peerTerminateBefore_set (clock : ℕ) (id t : String) :
    (s.setPeerTerminate clock id).peerTerminateBefore t =
      if t = id then max (s.peerTerminateBefore t) clock else s.peerTerminateBefore t := by
  unfold setPeerTerminate peerTerminateBefore
  by_cases h : t = id
  · subst h
    simp only [Table.insert_apply, if_true, Option.getD_some]
    split <;> omega
  · simp only [Table.insert_apply, if_neg h]

@[simp] theorem connections_setPeerTerminate (clock : ℕ) (id : String) :
    (s.setPeerTerminate clock id).connections = s.connections := rfl

/-! ## Rows -/

/-- The place of the row that was seen longest ago, the first of them. -/
def oldestSeen (connections : List ConnectionRecord) : Option ℕ :=
  (connections.zipIdx.argmin fun c => c.1.lastSeen).map (·.2)

/-- Keep at most `limit` rows. -/
def trimConnections (limit : ℕ) : ℕ → List ConnectionRecord → List ConnectionRecord
  | 0, connections => connections
  | fuel + 1, connections =>
    if limit < connections.length then
      match oldestSeen connections with
      | some idx => trimConnections limit fuel (connections.eraseIdx idx)
      | none => connections
    else connections

/-- Refresh the row of the pair, or add one. -/
def upsertConnection (now : ℕ) (sourceId targetId : String) (fromAddr toAddr : SocketAddr)
    (path relayServer natType : String) : Statistics :=
  match s.connections.findIdx? fun c => c.sourceId == sourceId && c.targetId == targetId with
  | some i => { s with connections := s.connections.modify i fun existing => { existing with
      lastSeen := now
      negotiations := existing.negotiations + 1
      path := path
      sourceAddr := fromAddr.toText
      targetAddr := toAddr.toText
      relayServer := relayServer
      natType := natType } }
  | none =>
    let connections := s.connections ++ [⟨sourceId, targetId, fromAddr.toText, toAddr.toText, path,
      relayServer, natType, now, now, 1⟩]
    { s with connections :=
        trimConnections s.connHistoryLimit connections.length connections }

/-- The row part of `record_connection_negotiation`; the source is what the request says it is. -/
def recordConnectionNegotiation (X : Setup) (now : ℕ) (id : String) (proto : Option NemoSource)
    (sourceField : String) (fromAddr toAddr : SocketAddr) (natType : NatType)
    (forcedRelay sameIntranet : Bool) (relayServer : String) : Statistics :=
  let path := if forcedRelay then "relay" else if sameIntranet then "direct-local"
    else "direct-punch"
  s.upsertConnection now (controllerSourceId X proto sourceField) id fromAddr toAddr path
    relayServer (natTypeName natType)

/-- `CONN_HISTORY_LIMIT` changed from the dashboard. -/
def setConnHistoryLimit (limit : ℕ) : Statistics :=
  let limit := max 1 (min limit maxConnHistoryLimit)
  { s with
    connHistoryLimit := limit
    connections := trimConnections limit s.connections.length s.connections }

/-! ## Revocation -/

/-- The targets the rows show the controllers connected to, each once. -/
def targetsOf (controllers : List String) : List ConnectionRecord → List String → List String
  | [], targets => targets
  | c :: cs, targets =>
    targetsOf controllers cs
      (if controllers.contains c.sourceId && !targets.contains c.targetId then
        targets ++ [c.targetId] else targets)

/-- End the sessions the controllers hold: stamp every target their rows name, and drop the rows. -/
def terminateSessionsFromControllers (clock : ℕ) (controllers : List String) :
    List String × Statistics :=
  if controllers = [] then ([], s)
  else
    let targets := targetsOf controllers s.connections []
    let s' := targets.foldl (fun s t => s.setPeerTerminate clock t) s
    (targets, { s' with
      connections := s'.connections.filter fun c => !controllers.contains c.sourceId })

/-- Stamp a machine, and drop the rows of the sessions into it: the common end of `block_peer` and
`cut_connection`. -/
def endSessionsInto (clock : ℕ) (id : String) : Statistics :=
  let s := s.setPeerTerminate clock id
  { s with connections := s.connections.filter fun c => c.targetId != id }

/-- `block_peer`, once its status query has answered `updated`: an error of the database and a peer
that is not registered are reported, and change nothing here. -/
def blockPeer (clock : ℕ) (id : String) (updated : Option Bool) : Option Statistics :=
  match updated with
  | some true => some (s.endSessionsInto clock id)
  | _ => none

/-- `cut_connection` does the same to its target. -/
def cutConnection (clock : ℕ) (targetId : String) (updated : Option Bool) : Option Statistics :=
  match updated with
  | some true => some (s.endSessionsInto clock targetId)
  | _ => none

/-! ## What the operations change -/

theorem mem_targetsOf {controllers targets : List String} {connections : List ConnectionRecord}
    {t : String} : t ∈ targetsOf controllers connections targets ↔
      t ∈ targets ∨ ∃ c ∈ connections, c.sourceId ∈ controllers ∧ c.targetId = t := by
  induction connections generalizing targets with
  | nil => simp [targetsOf]
  | cons c cs ih =>
    rw [targetsOf, ih]
    by_cases hc : c.sourceId ∈ controllers
    · by_cases ht : c.targetId ∈ targets
      · simp only [List.contains_eq_mem, hc, ht]
        grind
      · simp only [List.contains_eq_mem, hc, ht]
        grind
    · simp only [List.contains_eq_mem, hc]
      grind

theorem peerTerminateBefore_foldl (clock : ℕ) (targets : List String) (t : String) :
    (targets.foldl (fun s t => s.setPeerTerminate clock t) s).peerTerminateBefore t =
      if t ∈ targets then max (s.peerTerminateBefore t) clock else s.peerTerminateBefore t := by
  induction targets generalizing s with
  | nil => simp
  | cons u us ih =>
    rw [List.foldl_cons, ih, peerTerminateBefore_set]
    by_cases hu : t = u
    · simp [hu]
    · simp [hu]

theorem connections_foldl (clock : ℕ) (targets : List String) :
    (targets.foldl (fun s t => s.setPeerTerminate clock t) s).connections = s.connections := by
  induction targets generalizing s with
  | nil => rfl
  | cons u us ih => rw [List.foldl_cons, ih, connections_setPeerTerminate]

/-- A revocation stamps the targets of the rows its controllers have, and no other machine. -/
theorem peerTerminateBefore_terminate (clock : ℕ) (controllers : List String) (t : String) :
    (s.terminateSessionsFromControllers clock controllers).2.peerTerminateBefore t =
      if ∃ c ∈ s.connections, c.sourceId ∈ controllers ∧ c.targetId = t then
        max (s.peerTerminateBefore t) clock else s.peerTerminateBefore t := by
  unfold terminateSessionsFromControllers
  by_cases hempty : controllers = []
  · simp [hempty]
  · have h := s.peerTerminateBefore_foldl clock (targetsOf controllers s.connections []) t
    simp only [mem_targetsOf, List.not_mem_nil, false_or] at h
    simp only [if_neg hempty]
    exact h

/-- Blocking a machine stamps that machine, and no other. -/
theorem peerTerminateBefore_endSessionsInto (clock : ℕ) (id t : String) :
    (s.endSessionsInto clock id).peerTerminateBefore t =
      if t = id then max (s.peerTerminateBefore t) clock else s.peerTerminateBefore t :=
  s.peerTerminateBefore_set clock id t

/-- The statistics a server can have: no row at the start, and stamps from an earlier run. -/
inductive Reachable (X : Setup) : Statistics → Prop
  | start (limit : ℕ) (stamps : Table String ℕ) : Reachable X ⟨[], limit, stamps⟩
  | negotiated {s : Statistics} (h : Reachable X s) (now : ℕ) (id : String)
      (proto : Option NemoSource) (sourceField : String) (fromAddr toAddr : SocketAddr)
      (natType : NatType) (forcedRelay sameIntranet : Bool) (relayServer : String) :
      Reachable X (s.recordConnectionNegotiation X now id proto sourceField fromAddr toAddr natType
        forcedRelay sameIntranet relayServer)
  | limited {s : Statistics} (h : Reachable X s) (limit : ℕ) :
      Reachable X (s.setConnHistoryLimit limit)
  | revoked {s : Statistics} (h : Reachable X s) (clock : ℕ) (controllers : List String) :
      Reachable X (s.terminateSessionsFromControllers clock controllers).2
  | blocked {s s' : Statistics} (h : Reachable X s) (clock : ℕ) (id : String)
      (hs : s.blockPeer clock id (some true) = some s') : Reachable X s'

end Statistics

end Management

end NemoServer
