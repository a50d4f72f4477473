import NemoServer.Management.Statistics
import NemoServer.Server.System

/-!
# hbbs with its statistics

A run of hbbs together with what the management API keeps of it: each negotiation that hbbs records
refreshes a row of the statistics, an operator's revocation reads the rows and stamps the targets,
and a restart loses the rows and keeps the stamps, which are in a file.
-/

set_option autoImplicit false

namespace NemoServer

open Management

/-- A server and its statistics. -/
structure Watched where
  server : Server
  stats : Statistics

/-- What an operator does to the statistics; each takes their lock once. -/
inductive AdminEvent
  /-- The end of `delete_device_key`, with the key that was removed. -/
  | deviceKeyDeleted (removed : DeviceKey)
  /-- The end of `put_permissions` and `set_ldap_user`, with the keys that proved the sessions that
  were evicted. -/
  | permissionsChanged (evictedKeys : List String)
  /-- `set_peer_terminate`, as `block_peer` and `cut_connection` start with it. -/
  | stampPeer (id : String)
  /-- The rows of the sessions into a machine are dropped, as they go on. -/
  | dropRowsInto (id : String)
  | setConnHistoryLimit (limit : ℕ)
  deriving DecidableEq

/-- The controllers whose sessions an event ends. -/
def AdminEvent.controllers (e : AdminEvent) (s : Server) : List String :=
  match e with
  | .deviceKeyDeleted removed => if removed.peerId = "" then [] else [removed.peerId]
  | .permissionsChanged evictedKeys =>
    Integration.peerIdsForDeviceKeys s.cfg.deviceKeys evictedKeys
  | _ => []

namespace Watched

variable (X : Setup) (s : Watched)

/-- What an operation of hbbs leaves in the statistics. -/
def observe : Op → Statistics
  | .record (.connectionNegotiation id source sourceField addr peerAddr natType forcedRelay
      sameIntranet relayServer) =>
    s.stats.recordConnectionNegotiation X s.server.now id source sourceField addr peerAddr natType
      forcedRelay sameIntranet relayServer
  | _ => s.stats

def administer : AdminEvent → Statistics
  | .stampPeer id => s.stats.setPeerTerminate s.server.clock id
  | .dropRowsInto id =>
    { s.stats with connections := s.stats.connections.filter fun c => c.targetId != id }
  | .setConnHistoryLimit limit => s.stats.setConnHistoryLimit limit
  | e => (s.stats.terminateSessionsFromControllers s.server.clock (e.controllers s.server)).2

/-- The rows are lost. -/
def reboot : Watched := ⟨s.server.reboot, { s.stats with connections := [] }⟩

/-- A server that starts has no row yet. -/
structure Booted : Prop where
  server : s.server.Booted
  rows : s.stats.connections = []

end Watched

/-- hbbs, watched. -/
def watched (X : Setup) : System Op Op.Res Watched Job (Env ⊕ AdminEvent) where
  sem o s := ((Op.sem X o s.server).1, ⟨(Op.sem X o s.server).2, s.observe X o⟩)
  code := Job.code X
  start j s := (Server.beginJob j s.server).map fun server => ⟨server, s.stats⟩
  env e s := match e with
    | .inl e => (Server.act X e s.server).map fun server => ⟨server, s.stats⟩
    | .inr e => some ⟨s.server, s.administer e⟩
  reboot := Watched.reboot

/-- What an action is to hbbs, if it is one of its own environment. -/
def AdminEvent.seen : Env ⊕ AdminEvent → Option Env
  | .inl e => some e
  | .inr _ => none

/-- hbbs does not notice that it is watched. -/
theorem watched_projects (X : Setup) :
    System.Projects Watched.server AdminEvent.seen (watched X) (hbbs X) where
  answer _ _ := rfl
  effect _ _ := rfl
  code := rfl
  start j s s' h := by
    obtain ⟨server, hserver, rfl⟩ := Option.map_eq_some_iff.1 h
    exact hserver
  seen e e' s s' h hseen := by
    cases e with
    | inl e =>
      obtain ⟨server, hserver, rfl⟩ := Option.map_eq_some_iff.1 h
      rw [← Option.some.inj hseen]
      exact hserver
    | inr e => cases hseen
  unseen e s s' h hseen := by
    cases e with
    | inl e => cases hseen
    | inr e => rw [← Option.some.inj h]
  reboot _ := rfl

abbrev WatchedStep := Item Op Watched Job (Env ⊕ AdminEvent)
abbrev WatchedPool := Pool Op Op.Res Watched Job

/-! ## Rows -/

namespace Management

namespace Statistics

variable {s : Statistics} {src target : String}

/-- There is a row of the pair. -/
def HasRow (s : Statistics) (src target : String) : Prop :=
  ∃ c ∈ s.connections, c.sourceId = src ∧ c.targetId = target

theorem trimConnections_of_le {limit fuel : ℕ} {connections : List ConnectionRecord}
    (h : connections.length ≤ limit) : trimConnections limit fuel connections = connections := by
  cases fuel with
  | zero => rfl
  | succ fuel => rw [trimConnections, if_neg (Nat.not_lt.2 h)]

/-- Changing one row in place, its pair apart, changes no pair. -/
theorem hasRow_modify {i : ℕ} {f : ConnectionRecord → ConnectionRecord}
    (hf : ∀ c, (f c).sourceId = c.sourceId ∧ (f c).targetId = c.targetId) :
    HasRow { s with connections := s.connections.modify i f } src target ↔ s.HasRow src target := by
  unfold HasRow
  dsimp only
  generalize s.connections = connections
  induction connections generalizing i with
  | nil => simp
  | cons c cs ih =>
    cases i with
    | zero => simp [hf]
    | succ i => simp [ih]

/-- A negotiation that finds room leaves a row of its pair, and every other row. -/
theorem hasRow_recordConnectionNegotiation {X : Setup} {now : ℕ} {id : String}
    {proto : Option NemoSource} {sourceField : String} {fromAddr toAddr : SocketAddr}
    {natType : NatType} {forcedRelay sameIntranet : Bool} {relayServer : String}
    (h : s.HasRow (controllerSourceId X proto sourceField) id ∨
      s.connections.length < s.connHistoryLimit) :
    (s.recordConnectionNegotiation X now id proto sourceField fromAddr toAddr natType forcedRelay
      sameIntranet relayServer).HasRow src target ↔
      controllerSourceId X proto sourceField = src ∧ id = target ∨ s.HasRow src target := by
  unfold recordConnectionNegotiation upsertConnection
  generalize controllerSourceId X proto sourceField = source at h
  dsimp only
  cases hfind : s.connections.findIdx? fun c => c.sourceId == source && c.targetId == id with
  | some i =>
    refine (hasRow_modify fun c => ?_).trans ⟨.inr, ?_⟩
    · exact ⟨rfl, rfl⟩
    rintro (⟨rfl, rfl⟩ | hrow)
    · obtain ⟨hlt, hpair, -⟩ := List.findIdx?_eq_some_iff_getElem.1 hfind
      rw [Bool.and_eq_true, beq_iff_eq, beq_iff_eq] at hpair
      exact ⟨_, List.getElem_mem hlt, hpair⟩
    · exact hrow
  | none =>
    have hnone : ¬s.HasRow source id := by
      rintro ⟨c, hc, hsrc, htarget⟩
      have := List.findIdx?_eq_none_iff.1 hfind c hc
      simp [hsrc, htarget] at this
    have hroom : s.connections.length < s.connHistoryLimit := h.resolve_left hnone
    dsimp only
    rw [trimConnections_of_le (by rw [List.length_append]; exact hroom)]
    unfold HasRow
    simp only [List.mem_append, List.mem_singleton]
    constructor
    · rintro ⟨c, hc | rfl, hpair⟩
      · exact .inr ⟨c, hc, hpair⟩
      · exact .inl hpair
    · rintro (hpair | ⟨c, hc, hpair⟩)
      · exact ⟨_, .inr rfl, hpair⟩
      · exact ⟨c, .inl hc, hpair⟩

theorem hasRow_terminate {clock : ℕ} {controllers : List String} :
    (s.terminateSessionsFromControllers clock controllers).2.HasRow src target ↔
      src ∉ controllers ∧ s.HasRow src target := by
  unfold terminateSessionsFromControllers
  by_cases hempty : controllers = []
  · simp [hempty]
  · simp only [if_neg hempty, HasRow, connections_foldl, List.mem_filter, Bool.not_eq_true',
      List.contains_eq_mem, decide_eq_false_iff_not]
    constructor
    · rintro ⟨c, ⟨hc, hsrc⟩, rfl, htarget⟩
      exact ⟨hsrc, c, hc, rfl, htarget⟩
    · rintro ⟨hsrc, c, hc, rfl, htarget⟩
      exact ⟨c, ⟨hc, hsrc⟩, rfl, htarget⟩

end Statistics

end Management

end NemoServer
