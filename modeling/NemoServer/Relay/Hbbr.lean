import NemoServer.Foundations.Ledger
import NemoServer.Relay.Grant
import NemoServer.Server.State

/-!
# hbbr as a system of jobs

Each connection to hbbr is one task (`relay_server.rs`): it reads a `RequestRelay`, checks it,
and looks its session id up in `PEERS`. If another connection is parked there the two are joined;
if not, the connection is parked, and its task sleeps for 30 seconds and then clears the id.
The lookup, the parking and the clearing take the lock of `PEERS` one at a time, so other tasks
run in between.
-/

set_option autoImplicit false

namespace NemoServer

namespace Relay

/-- A connection of hbbr. -/
abbrev StreamId := ℕ

/-- What hbbr reads of a `RequestRelay`. -/
structure RequestRelay where
  uuid : String
  licenceKey : String
  deriving DecidableEq

/-- The counters of a session: elapsed time, total bytes, highest and current speed. -/
abbrev Usage := ℕ × ℕ × ℕ × ℕ

structure State where
  now : ℕ
  clock : ℕ
  /-- `PEERS`. -/
  peers : Table String StreamId
  /-- `USAGE`. -/
  usage : Table String Usage
  /-- `SESSION_LABELS`. -/
  labels : Table String String
  nextStream : StreamId

inductive Op
  | wallClock
  | lookup (uuid : String)
  | park (uuid : String) (c : StreamId)
  | instantNow
  /-- The end of a sleep until `deadline`, and the clearing of the id. -/
  | expire (uuid : String) (deadline : ℕ)
  | insertUsage (id : String)
  | insertLabel (id label : String)
  /-- The whole life of a relayed session: bytes between the two connections. -/
  | relay (id : String) (c peer : StreamId)
  | removeUsage (id : String)
  | removeLabel (id : String)
  deriving DecidableEq

@[reducible] def Op.Res : Op → Type
  | .wallClock => ℕ
  | .lookup _ => Option StreamId
  | .instantNow => ℕ
  | _ => Unit

abbrev Handler := Prog Op Op.Res

abbrev perform (o : Op) : Handler o.Res := Prog.op o

/-- The answer of an operation, and the state after it. -/
def Op.sem : (o : Op) → State → o.Res × State
  | .wallClock, s => (s.clock, s)
  | .lookup uuid, s => (s.peers uuid, { s with peers := s.peers.remove uuid })
  | .park uuid c, s => ((), { s with peers := s.peers.insert uuid c })
  | .instantNow, s => (s.now, s)
  | .expire uuid _, s => ((), { s with peers := s.peers.remove uuid })
  | .insertUsage id, s => ((), { s with usage := s.usage.insert id (0, 0, 0, 0) })
  | .insertLabel id label, s => ((), { s with labels := s.labels.insert id label })
  | .relay _ _ _, s => ((), s)
  | .removeUsage id, s => ((), { s with usage := s.usage.remove id })
  | .removeLabel id, s => ((), { s with labels := s.labels.remove id })

variable (X : Setup)

/-- The session is on; its counters go by the address of the side that came second. -/
def join (c peer : StreamId) (addr : SocketAddr) (uuid : String) : Handler Unit := do
  let id := addr.ip.toText ++ ":" ++ toString addr.port.toNat
  perform (.insertUsage id)
  perform (.insertLabel id (X.relaySessionLabel uuid))
  perform (.relay id c peer)
  perform (.removeUsage id)
  perform (.removeLabel id)

/-- `sleep(30.)`. -/
def parkWindow : ℕ := secsToNanos 30

/-- The task of an accepted request: pair with the parked connection, or park and expire. -/
def pairOrPark (c : StreamId) (addr : SocketAddr) (uuid : String) : Handler Unit := do
  match ← perform (.lookup uuid) with
  | some peer => join X c peer addr uuid
  | none =>
    perform (.park uuid c)
    let t ← perform .instantNow
    perform (.expire uuid (t + parkWindow))

/-- The frame is `none` if none came in time, or it was not a `RequestRelay`. -/
def makePair_ (c : StreamId) (addr : SocketAddr) (frame : Option RequestRelay) : Handler Unit :=
  match frame with
  | none => pure ()
  | some rf =>
    if X.key ≠ "" ∧ rf.licenceKey ≠ X.key then pure ()
    else match X.sk with
      | none => pure ()
      | some sk => do
        let now ← perform .wallClock
        match relayGrantVerify X (X.publicKey sk) rf.uuid now with
        | .error _ => pure ()
        | .ok () => if rf.uuid = "" then pure () else pairOrPark X c addr rf.uuid

/-- A connection: its number, the address of the client, and what the client does. -/
structure Job where
  stream : StreamId
  addr : SocketAddr
  ws : Bool
  /-- The client completes the key exchange, which hbbr only offers if it has a key. -/
  exchanges : Bool
  frame : Option RequestRelay
  deriving DecidableEq

/-- `make_pair`. -/
def Job.code (j : Job) : Handler Unit :=
  if j.ws then pure ()
  else if X.sk.isSome && j.exchanges then makePair_ X j.stream j.addr j.frame
  else pure ()

/-- Connections are numbered as they are accepted. -/
def beginJob (j : Job) (s : State) : Option State :=
  if j.stream = s.nextStream then some { s with nextStream := s.nextStream + 1 } else none

/-- The environment moves the clocks. -/
inductive Env
  | tick (nanos : ℕ)
  | setClock (secs : ℕ)

def act : Env → State → Option State
  | .tick nanos, s => some { s with now := s.now + nanos }
  | .setClock secs, s => some { s with clock := secs }

/-- hbbr has just started. -/
structure Started (s : State) : Prop where
  peers : s.peers = Table.empty
  usage : s.usage = Table.empty
  labels : s.labels = Table.empty

end Relay

/-- hbbr. -/
def hbbr (X : Relay.Setup) : System Relay.Op Relay.Op.Res Relay.State Relay.Job Relay.Env where
  sem := Relay.Op.sem
  code := Relay.Job.code X
  start := Relay.beginJob
  env := Relay.act
  reboot s := { s with peers := Table.empty, usage := Table.empty, labels := Table.empty }

namespace Relay

abbrev Step := Item Op State Job Env
abbrev Past := List (Call Op State)

/-- The run is one of a single process, and no sleep ends before its time. -/
def Timely (_ : List Step) (p : Pool Op Op.Res State Job) : Choice Job Env → Prop
  | .start _ => True
  | .step n => ∀ j past uuid deadline k,
      p.live n = some ⟨j, past, .call (.expire uuid deadline) k⟩ → deadline ≤ p.shared.now
  | .env _ => True
  | .crash => False

end Relay

end NemoServer
