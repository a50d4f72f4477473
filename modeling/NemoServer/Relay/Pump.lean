import NemoServer.Relay.Admin

/-!
# The bytes of a relayed session

The loop of `relay` (`relay_server.rs`) with the frames it passes between the two connections, on
top of the counters of `Session`. When the loop runs, neither connection has a cipher or a framing
of its own any more (`clear_key`, `set_raw`): what is received is what the client wrote.
-/

set_option autoImplicit false

namespace NemoServer

namespace Relay

/-- The connection that came second (`stream`), and the one that was parked (`peer`). -/
inductive Side
  | stream
  | peer
  deriving DecidableEq

def Side.other : Side → Side
  | .stream => .peer
  | .peer => .stream

/-- What `tokio::select!` finds ready. -/
inductive Ready
  /-- Bytes of one side, or its end or failure (`none`); whether the other side takes them. -/
  | recv (side : Side) (res : Option Bytes) (sent : Bool)
  | timer

/-- The variables of `relay`, and what has gone through the connections, the oldest first. -/
structure Pump where
  session : Session
  /-- The loop is not left. -/
  on : Bool
  /-- Instants, in nanoseconds. -/
  tm : ℕ
  lastRecvTime : ℕ
  received : Side → List Bytes
  /-- What was sent to each side. -/
  sent : Side → List Bytes

namespace Pump

def start (session : Session) (now : ℕ) : Pump where
  session := session
  on := true
  tm := now
  lastRecvTime := now
  received _ := []
  sent _ := []

variable (x : Pump)

/-- What the counters see of an arm that is ready at the instant `t`. -/
def arm (t : ℕ) : Ready → Arm
  | .recv _ (some bytes) sent => .received bytes.length sent
  | .recv _ none _ => .closed
  | .timer => .tick (asSecs (t - x.lastRecvTime))

/-- What an arm does with the bytes; empty ones are not sent. -/
def pass (t : ℕ) : Ready → Pump
  | .recv side (some bytes) sent =>
    { x with
      lastRecvTime := t
      received := Function.update x.received side (x.received side ++ [bytes])
      sent := if bytes.isEmpty || !sent then x.sent
        else Function.update x.sent side.other (x.sent side.other ++ [bytes]) }
  | .recv _ none _ => x
  | .timer => x

/-- A round of the loop: an arm is ready at `received`, the time is looked at at `checked`, and taken
again at `restarted` if a second is over. -/
def round (s : Statics) (ready : Ready) (received checked restarted : ℕ) :
    Arith (Pump × Statics) := do
  let y := x.pass received ready
  match ← x.session.select (x.arm received ready) with
  | none => pure ({ y with on := false }, s)
  | some session => do
    let millis := asMillis (checked - x.tm)
    let r ← session.measure s millis
    match r with
    | (none, s) => pure ({ y with session := session, on := false }, s)
    | (some session, s) =>
      pure ({ y with
        session := session
        tm := if millis % 2 ^ 64 < 1000 then x.tm else restarted }, s)

end Pump

/-! ## hbbr with its traffic -/

structure Relaying where
  statics : Statics
  /-- The sessions, also those that are over. -/
  pumps : Table ℕ Pump

inductive Traffic
  | command (cmd : String)
  /-- Two connections are paired at the instant `now`, and their session is labelled. -/
  | begins (k : ℕ) (id ip label : String) (now : ℕ)
  | round (k : ℕ) (ready : Ready) (received checked restarted : ℕ)

namespace Relaying

variable (X : Floats)

/-- What `make_pair_` does when `relay` returns. -/
def forget (statics : Statics) (id : String) : Statics :=
  { statics with
    usage := removeEntry statics.usage id
    sessionLabels := removeEntry statics.sessionLabels id }

def step (s : Relaying) : Traffic → Arith Relaying
  | .command cmd => do
    let r ← checkCmd X cmd s.statics
    pure { s with statics := r.2 }
  | .begins k id ip label now =>
    let statics := { s.statics with
      usage := insertEntry s.statics.usage id (0, 0, 0, 0)
      sessionLabels := insertEntry s.statics.sessionLabels id label }
    pure ⟨statics, s.pumps.insert k (Pump.start (Session.start X statics id ip) now)⟩
  | .round k ready received checked restarted =>
    match s.pumps k with
    | none => pure s
    | some x =>
      if x.on then do
        let r ← x.round s.statics ready received checked restarted
        let statics := if r.1.on then r.2 else forget r.2 x.session.id
        pure ⟨statics, s.pumps.insert k r.1⟩
      else pure s

/-- hbbr after the events, the newest first. -/
def run (env : ParamVars) (events : List Traffic) : Arith Relaying :=
  Arith.runs (step X) (do
    let statics ← checkParams X env Statics.initial
    pure ⟨statics, Table.empty⟩) events

/-! ## The counters alone -/

/-- The sessions that are relayed, without their bytes. -/
def counters (s : Relaying) : Hbbr where
  statics := s.statics
  sessions k := ((s.pumps k).filter (·.on)).map (·.session)

/-- What the counters see of an event. -/
def seen (s : Relaying) : Traffic → Event
  | .command cmd => .command cmd
  | .begins k id ip label _ => .begins k id ip label
  | .round k ready received checked _ =>
    match s.pumps k with
    | none => .round k .closed 0
    | some x => .round k (x.arm received ready) (asMillis (checked - x.tm))

/-- What they see of a run. -/
def seenAll (env : ParamVars) : List Traffic → List Event
  | [] => []
  | e :: past => seen (run X env past).val e :: seenAll env past

end Relaying

end Relay

end NemoServer
