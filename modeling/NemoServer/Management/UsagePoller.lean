import NemoServer.Management.RelayUsage
import NemoServer.Relay.Pump

/-!
# The poller of the relayed bytes

hbbr, the statistics of hbbs, and between them the task of `spawn_relay_usage_poller`
(`nemo_management.rs`), which sends `uj` to the admin channel of hbbr, reads the answer, and folds
it into the statistics. The three run side by side: sessions go on, and hbbs records grants, also
between the answer and its folding in.
-/

set_option autoImplicit false

namespace NemoServer

namespace Management

open Relay (Floats ParamVars Relaying Traffic)

structure Metering where
  relaying : Relaying
  recorder : Recorder
  /-- What `fetch_relay_usage` returned, if it is not folded in yet. -/
  fetched : Option (List RelayUsageSample)

inductive MeteringEvent
  /-- hbbr takes a step. -/
  | relay (e : Traffic)
  /-- hbbs records something. -/
  | record (e : StatsStep)
  /-- hbbr answers the poller. -/
  | fetch
  /-- The poller holds the lock of the store. -/
  | fold (elapsed : ℕ) (now : String) (order : FinMap.Iteration String NemoPeerStats)

namespace Metering

variable (F : Floats) (X : Setup)

def step (s : Metering) : MeteringEvent → Arith Metering
  | .relay e => do
    let relaying ← s.relaying.step F e
    pure { s with relaying := relaying }
  | .record e => pure { s with recorder := s.recorder.step X e }
  | .fetch => do
    let r ← Relay.checkCmd F "uj" s.relaying.statics
    pure { s with fetched := readRelayUsage r.1 }
  | .fold elapsed now order =>
    match s.fetched with
    | none => pure s
    | some samples => pure { s with
        fetched := none
        recorder := s.recorder.step X ⟨.relayUsage samples, elapsed, now, order⟩ }

/-- The two servers after the events, the newest first; the store is the one hbbs starts with. -/
def run (env : ParamVars) (store : NemoStatsStore) (events : List MeteringEvent) :
    Arith Metering :=
  Arith.runs (step F X) (do
    let relaying ← Relaying.run F env []
    pure ⟨relaying, ⟨0, store⟩, none⟩) events

/-- What hbbr sees of a run. -/
def traffic : List MeteringEvent → List Traffic
  | [] => []
  | .relay e :: past => e :: traffic past
  | _ :: past => traffic past

/-- What hbbs recorded. -/
def recorded : List MeteringEvent → List StatsStep
  | [] => []
  | .record e :: past => e :: recorded past
  | _ :: past => recorded past

end Metering

end Management

end NemoServer
