import NemoServer.Foundations.Arith
import NemoServer.Relay.Hbbr
import NemoServer.Std.Search

/-!
# The settings of hbbr and what it does with them

The statics that `check_params` sets from the environment and `check_cmd` from the lines an
operator sends, and the loop of `relay`, which adds up the traffic of a session and downgrades it
when it exceeds a threshold made of two of them (`relay_server.rs`). The integer operations are
those of `Arith`; what floating-point numbers do is a parameter.
-/

set_option autoImplicit false

namespace NemoServer

namespace Relay

open Str

/-- The floating-point numbers. -/
structure Floats where
  F : Type
  /-- `str::parse::<f64>`. -/
  parse : String → Option F
  /-- `v > 0.` -/
  positive : F → Bool
  /-- The whole part of `v * 100.`; for an infinity any number that `usize` does not hold. -/
  hundredfold : F → ℕ
  /-- The whole part of `v * 1024. * 1024.`, likewise. -/
  mebi : F → ℕ
  /-- The whole part of `sb as f64 * t as f64 / 100. / 1000.` -/
  bitsPerMilli : ℕ → ℕ → ℕ
  /-- The text of `n as f64 / 100.` -/
  showHundredth : ℕ → String
  /-- The text of `n as f64 / 1024. / 1024.` -/
  showMebi : ℕ → String
  /-- `n as f64 / 1024. / 1024. / 8.` with two digits after the point. -/
  showMegabytes : ℕ → String

/-- `as usize`, which saturates. -/
def asUsize (n : ℕ) : ℕ := min n (2 ^ 64 - 1)

/-- An operation on `usize`. -/
abbrev usize (n : ℕ) : Arith ℕ := Arith.natOp 64 n

/-- The statics; maps and sets in the order in which they are iterated. -/
structure Statics where
  downgradeThreshold100 : ℕ
  /-- In milliseconds. -/
  downgradeStartCheck : ℕ
  /-- These in bits a second. -/
  limitSpeed : ℕ
  totalBandwidth : ℕ
  singleBandwidth : ℕ
  blacklist : List String
  blocklist : List String
  usage : List (String × Usage)
  sessionLabels : List (String × String)

/-- The statics at the start. -/
def Statics.initial : Statics where
  downgradeThreshold100 := 66
  downgradeStartCheck := 1800000
  limitSpeed := 32 * 1024 * 1024
  totalBandwidth := 1024 * 1024 * 1024
  singleBandwidth := 128 * 1024 * 1024
  blacklist := []
  blocklist := []
  usage := []
  sessionLabels := []

/-- Insert into a map. -/
def insertEntry {V : Type} (l : List (String × V)) (k : String) (v : V) : List (String × V) :=
  if (l.lookup k).isSome then l.map fun e => if e.1 = k then (k, v) else e else l ++ [(k, v)]

def removeEntry {V : Type} (l : List (String × V)) (k : String) : List (String × V) :=
  l.filter fun e => e.1 ≠ k

variable (X : Floats)

/-! ## The environment -/

/-- The variables `check_params` reads. -/
structure ParamVars where
  downgradeThreshold : Option String
  downgradeStartCheck : Option String
  limitSpeed : Option String
  totalBandwidth : Option String
  singleBandwidth : Option String

/-- A number that is positive. -/
def Floats.parsePositive (v : String) : Option X.F := (X.parse v).filter X.positive

/-- `tmp * 1000` is stored if `tmp > 0`. -/
def storeStartCheck (s : Statics) (tmp : ℕ) : Arith Statics :=
  if 0 < tmp then do
    let millis ← usize (tmp * 1000)
    pure { s with downgradeStartCheck := millis }
  else pure s

def checkParams (env : ParamVars) (s : Statics) : Arith Statics := do
  let s := match env.downgradeThreshold.bind X.parsePositive with
    | some v => { s with downgradeThreshold100 := asUsize (X.hundredfold v) }
    | none => s
  let s ← storeStartCheck s ((env.downgradeStartCheck.bind parseU64).getD 0)
  let s := match env.limitSpeed.bind X.parsePositive with
    | some v => { s with limitSpeed := asUsize (X.mebi v) }
    | none => s
  let s := match env.totalBandwidth.bind X.parsePositive with
    | some v => { s with totalBandwidth := asUsize (X.mebi v) }
    | none => s
  pure (match env.singleBandwidth.bind X.parsePositive with
    | some v => { s with singleBandwidth := asUsize (X.mebi v) }
    | none => s)

/-! ## Commands -/

inductive Cmd
  | help
  | blacklistAdd
  | blacklistRemove
  | blacklist
  | blocklistAdd
  | blocklistRemove
  | blocklist
  | downgradeThreshold
  | downgradeStartCheck
  | limitSpeed
  | totalBandwidth
  | singleBandwidth
  | usage
  | usageJson
  deriving DecidableEq

/-- The names of the commands, and their short forms. -/
def cmdNames : List (String × Cmd) :=
  [("h", .help), ("blacklist-add", .blacklistAdd), ("ba", .blacklistAdd),
    ("blacklist-remove", .blacklistRemove), ("br", .blacklistRemove),
    ("blacklist", .blacklist), ("b", .blacklist), ("blocklist-add", .blocklistAdd),
    ("Ba", .blocklistAdd), ("blocklist-remove", .blocklistRemove), ("Br", .blocklistRemove),
    ("blocklist", .blocklist), ("B", .blocklist), ("downgrade-threshold", .downgradeThreshold),
    ("dt", .downgradeThreshold), ("downgrade-start-check", .downgradeStartCheck),
    ("t", .downgradeStartCheck), ("limit-speed", .limitSpeed), ("ls", .limitSpeed),
    ("total-bandwidth", .totalBandwidth), ("tb", .totalBandwidth),
    ("single-bandwidth", .singleBandwidth), ("sb", .singleBandwidth), ("usage", .usage),
    ("u", .usage), ("usage-json", .usageJson), ("uj", .usageJson)]

def helpText : String :=
  "blacklist-add(ba) <ip>\nblacklist-remove(br) <ip>\nblacklist(b) <ip>\n" ++
  "blocklist-add(Ba) <ip>\nblocklist-remove(Br) <ip>\nblocklist(B) <ip>\n" ++
  "downgrade-threshold(dt) [value]\ndowngrade-start-check(t) [value(second)]\n" ++
  "limit-speed(ls) [value(Mb/s)]\ntotal-bandwidth(tb) [value(Mb/s)]\n" ++
  "single-bandwidth(sb) [value(Mb/s)]\nusage(u)\nusage-json(uj)\n"

/-- One line for each. -/
def lines (l : List String) : String := String.join (l.map fun s => s ++ "\n")

/-- A set with the parts of `ips` in it. -/
def addIps (l : List String) (ips : String) : List String :=
  (split '|' ips).foldl (fun l ip => if l.contains ip then l else l ++ [ip]) l

def removeIps (l : List String) (ips : String) : List String :=
  if ips = "all" then [] else l.filter fun ip => !(split '|' ips).contains ip

/-- The answer about one address, or all of them. -/
def showIps (l : List String) : Option String → String
  | some ip => (if l.contains ip then "true" else "false") ++ "\n"
  | none => lines l

/-- The sessions that relayed anything, the one with the highest total first. -/
def showUsage (l : List (String × Usage)) : String :=
  let l := l.mergeSort fun a b => decide (b.2.2.1 ≤ a.2.2.1)
  String.join (l.map fun (ip, elapsed, total, highest, speed) =>
    if elapsed = 0 then ""
    else ip ++ ": " ++ toString (elapsed / 1000) ++ "s " ++ X.showMegabytes total ++ "MB " ++
      toString highest ++ "kb/s " ++ toString (total / elapsed) ++ "kb/s " ++ toString speed ++
      "kb/s\n")

/-- The same for the poller of hbbs, in bytes. -/
def showUsageJson (s : Statics) : String :=
  let rows := s.usage.filterMap fun (addr, elapsed, totalBits, highestKbps, kbps) =>
    if elapsed = 0 then none
    else some ("\x7b\"session\":\"" ++ (s.sessionLabels.lookup addr).getD "" ++ "\",\"addr\":\"" ++
      addr ++ "\",\"ms\":" ++ toString elapsed ++ ",\"bytes\":" ++ toString (totalBits / 8) ++
      ",\"kbps\":" ++ toString kbps ++ ",\"peak_kbps\":" ++ toString highestKbps ++ "\x7d")
  "[" ++ ",".intercalate rows ++ "]\n"

/-- Store what is made of a positive number. -/
def Floats.store (v : String) (s : Statics) (f : X.F → Statics) : Statics :=
  match X.parsePositive v with
  | some v => f v
  | none => s

/-- A command with its first argument. -/
def runCmd (s : Statics) (arg : Option String) : Cmd → Arith (String × Statics)
  | .help => pure (helpText, s)
  | .blacklistAdd =>
    pure ("", arg.elim s fun ips => { s with blacklist := addIps s.blacklist ips })
  | .blacklistRemove =>
    pure ("", arg.elim s fun ips => { s with blacklist := removeIps s.blacklist ips })
  | .blacklist => pure (showIps s.blacklist arg, s)
  | .blocklistAdd =>
    pure ("", arg.elim s fun ips => { s with blocklist := addIps s.blocklist ips })
  | .blocklistRemove =>
    pure ("", arg.elim s fun ips => { s with blocklist := removeIps s.blocklist ips })
  | .blocklist => pure (showIps s.blocklist arg, s)
  | .downgradeThreshold =>
    match arg with
    | none => pure (X.showHundredth s.downgradeThreshold100 ++ "\n", s)
    | some v => pure ("", X.store v s fun v =>
        { s with downgradeThreshold100 := asUsize (X.hundredfold v) })
  | .downgradeStartCheck =>
    match arg with
    | none => pure (toString (s.downgradeStartCheck / 1000) ++ "s\n", s)
    | some v => do
      let s ← storeStartCheck s ((parseU64 v).getD 0)
      pure ("", s)
  | .limitSpeed =>
    match arg with
    | none => pure (X.showMebi s.limitSpeed ++ "Mb/s\n", s)
    | some v => pure ("", X.store v s fun v => { s with limitSpeed := asUsize (X.mebi v) })
  | .totalBandwidth =>
    match arg with
    | none => pure (X.showMebi s.totalBandwidth ++ "Mb/s\n", s)
    | some v => pure ("", X.store v s fun v => { s with totalBandwidth := asUsize (X.mebi v) })
  | .singleBandwidth =>
    match arg with
    | none => pure (X.showMebi s.singleBandwidth ++ "Mb/s\n", s)
    | some v => pure ("", X.store v s fun v => { s with singleBandwidth := asUsize (X.mebi v) })
  | .usage => pure (showUsage X s.usage, s)
  | .usageJson => pure (showUsageJson s, s)

/-- The command that is named first in a line, and its first argument. -/
def readCmd (cmd : String) : Option (Cmd × Option String) :=
  match split ' ' (trim cmd) with
  | [] => none
  | name :: args => (cmdNames.lookup name).map fun c => (c, args.head?)

def checkCmd (cmd : String) (s : Statics) : Arith (String × Statics) :=
  match readCmd cmd with
  | none => pure ("", s)
  | some (c, arg) => runCmd X s arg c

/-! ## A session -/

/-- The variables of `relay`. -/
structure Session where
  /-- `ip:port` of the joining side. -/
  id : String
  ip : String
  /-- In milliseconds. -/
  elapsed : ℕ
  /-- In bits. -/
  total : ℕ
  /-- In bits, since the last measurement. -/
  totalS : ℕ
  highestS : ℕ
  downgrade : Bool
  blacked : Bool
  /-- In bits a millisecond. -/
  downgradeThreshold : ℕ

def Session.start (s : Statics) (id ip : String) : Session where
  id := id
  ip := ip
  elapsed := 0
  total := 0
  totalS := 0
  highestS := 0
  downgrade := false
  blacked := false
  downgradeThreshold := asUsize (X.bitsPerMilli s.singleBandwidth s.downgradeThreshold100)

/-- What the loop waits for. -/
inductive Arm
  /-- `len` bytes from one of the two sides, and whether they could be sent to the other. -/
  | received (len : ℕ) (sent : Bool)
  | closed
  /-- The timer, `idle` seconds after the last bytes. -/
  | tick (idle : ℕ)

/-- `tokio::select!`; `none` if the loop is left. -/
def Session.select (x : Session) : Arm → Arith (Option Session)
  | .received len sent => do
    let nb ← usize (len * 8)
    let total ← usize (x.total + nb)
    let totalS ← usize (x.totalS + nb)
    pure (if len ≠ 0 ∧ sent = false then none
      else some { x with total := total, totalS := totalS })
  | .closed => pure none
  | .tick idle => pure (if 30 < idle then none else some x)

/-- What follows, `millis` milliseconds after the last measurement. -/
def Session.measure (s : Statics) (x : Session) (millis : ℕ) :
    Arith (Option Session × Statics) :=
  let n := millis % 2 ^ 64
  if n < 1000 then pure (some x, s)
  else if s.blocklist.contains x.ip then pure (none, s)
  else do
    let speed := x.totalS / n
    let highestS := max x.highestS speed
    let elapsed ← usize (x.elapsed + n)
    let s := { s with usage := insertEntry s.usage x.id (elapsed, x.total, highestS, speed) }
    let x := { x with
      blacked := s.blacklist.contains x.ip
      highestS := highestS
      elapsed := elapsed
      totalS := 0 }
    if s.downgradeStartCheck < elapsed ∧ x.downgrade = false then
      let bound ← usize (elapsed * x.downgradeThreshold)
      pure (some { x with downgrade := decide (bound < x.total) }, s)
    else pure (some x, s)

/-! ## A run of hbbr -/

structure Hbbr where
  statics : Statics
  /-- The sessions that are relayed. -/
  sessions : Table ℕ Session

inductive Event
  | command (cmd : String)
  /-- The connections of a grant are paired, and their session is labelled. -/
  | begins (k : ℕ) (id ip label : String)
  /-- One round of the loop of a session. -/
  | round (k : ℕ) (arm : Arm) (millis : ℕ)

/-- A session that is left is no longer counted. -/
def Hbbr.leave (s : Hbbr) (k : ℕ) (x : Session) : Hbbr where
  statics := { s.statics with
    usage := removeEntry s.statics.usage x.id
    sessionLabels := removeEntry s.statics.sessionLabels x.id }
  sessions := s.sessions.remove k

/-- After a measurement a session goes on, or is left. -/
def Hbbr.settle (s : Hbbr) (k : ℕ) (x : Session) : Option Session × Statics → Hbbr
  | (none, statics) => Hbbr.leave { s with statics := statics } k x
  | (some x, statics) => ⟨statics, s.sessions.insert k x⟩

def Hbbr.step (s : Hbbr) : Event → Arith Hbbr
  | .command cmd => do
    let r ← checkCmd X cmd s.statics
    pure { s with statics := r.2 }
  | .begins k id ip label =>
    let statics := { s.statics with
      usage := insertEntry s.statics.usage id (0, 0, 0, 0)
      sessionLabels := insertEntry s.statics.sessionLabels id label }
    pure ⟨statics, s.sessions.insert k (Session.start X statics id ip)⟩
  | .round k arm millis =>
    match s.sessions k with
    | none => pure s
    | some x => do
      match ← x.select arm with
      | none => pure (s.leave k x)
      | some x => do
        let r ← x.measure s.statics millis
        pure (s.settle k x r)

/-- hbbr after the events, the newest first. -/
def Hbbr.run (env : ParamVars) (events : List Event) : Arith Hbbr :=
  Arith.runs (Hbbr.step X) (do
    let statics ← checkParams X env Statics.initial
    pure ⟨statics, Table.empty⟩) events

end Relay

end NemoServer
