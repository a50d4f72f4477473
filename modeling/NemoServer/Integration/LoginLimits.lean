import Mathlib.Data.Finset.Card
import NemoServer.Foundations.FinMap
import NemoServer.Integration.Ldap

/-!
# The limits of failed logins

`nemo_integration.rs`: the spray limiter (`SPRAY_BY_IP`, `SPRAY_GLOBAL`), which counts the distinct
names that failed from a source and refuses before the directory is asked, and the counters behind
the backoff of a name (`LOGIN_FAILURES`). Each function reads the clock once, and each lock is held
by one of them at a time; what a login does is a sequence of calls, between which other logins make
theirs. The instants are those of the wall clock, in seconds.
-/

set_option autoImplicit false

namespace NemoServer

/-! ## Spraying -/

def sprayIpWindowSecs : ℕ := 300
def sprayIpMaxUsers : ℕ := 10
def sprayIpCooldownSecs : ℕ := 60
def sprayGlobalWindowSecs : ℕ := 60
def sprayGlobalMaxUsers : ℕ := 30
def sprayGlobalCooldownSecs : ℕ := 120
def sprayMaxTrackedIps : ℕ := 4096

structure SprayWindow where
  users : Finset String
  started : ℕ
  blockedUntil : ℕ

namespace SprayWindow

/-- The window of a source that is new in the table. -/
def new (now : ℕ) : SprayWindow := ⟨∅, now, 0⟩

/-- Start a fresh counting window once the current one has aged out. -/
def roll (w : SprayWindow) (now window : ℕ) : SprayWindow :=
  if window ≤ now - w.started then { w with users := ∅, started := now } else w

def trip (w : SprayWindow) (now cooldown : ℕ) : Bool × SprayWindow :=
  if now < w.blockedUntil then (false, w)
  else (true, ⟨∅, now, now + cooldown⟩)

/-- What a failure does to a window, the global one or that of its source. -/
def count (w : SprayWindow) (now : ℕ) (user : String) (window maxUsers cooldown : ℕ) :
    Bool × SprayWindow :=
  let w := w.roll now window
  let w := { w with users := insert user w.users }
  if maxUsers < w.users.card then w.trip now cooldown else (false, w)

end SprayWindow

/-- `SPRAY_BY_IP` and `SPRAY_GLOBAL`. -/
structure SprayState where
  byIp : FinMap String SprayWindow
  global : SprayWindow

namespace Integration

/-- Some reason: the login is refused without contacting the directory. -/
def loginSprayBlock (sourceIp : Option String) (now : ℕ) (s : SprayState) :
    Option String × SprayState :=
  if now < s.global.blockedUntil then
    (some "too many failed sign-ins on this server right now; try again shortly", s)
  else
    let s := { s with global := s.global.roll now sprayGlobalWindowSecs }
    match sourceIp with
    | none => (none, s)
    | some ip =>
      match s.byIp.lookup ip with
      | none => (none, s)
      | some w =>
        if now < w.blockedUntil then
          (some "too many failed sign-ins from your network; try again shortly", s)
        else (none, s)

/-- A check rolls the global window at most. -/
theorem byIp_loginSprayBlock (sourceIp : Option String) (now : ℕ) (s : SprayState) :
    (loginSprayBlock sourceIp now s).2.byIp = s.byIp := by
  unfold loginSprayBlock
  split
  · rfl
  · cases sourceIp with
    | none => rfl
    | some ip =>
      cases hw : s.byIp.lookup ip with
      | none => simp only [hw]
      | some w =>
        by_cases hblocked : now < w.blockedUntil
        · simp only [hw, if_pos hblocked]
        · simp only [hw, if_neg hblocked]

/-- An address is refused until its deadline. -/
theorem loginSprayBlock_of_lt {ip : String} {now : ℕ} {s : SprayState} {w : SprayWindow}
    (hw : s.byIp.lookup ip = some w) (h : now < w.blockedUntil) :
    (loginSprayBlock (some ip) now s).1.isSome := by
  unfold loginSprayBlock
  split
  · rfl
  · simp only [hw, if_pos h]
    rfl

/-- The entries that `note_login_spray` keeps. -/
def sprayLive (now : ℕ) (w : SprayWindow) : Bool :=
  decide (now < w.blockedUntil) || decide (now - w.started < sprayIpWindowSecs)

/-- The part of `note_login_spray` that counts against the source. -/
def noteSource (ip user : String) (now : ℕ) (byIp : FinMap String SprayWindow) :
    Bool × FinMap String SprayWindow :=
  let byIp := byIp.retain fun _ w => sprayLive now w
  if sprayMaxTrackedIps ≤ byIp.size ∧ ip ∉ byIp then (false, byIp)
  else
    let w := (byIp.lookup ip).getD (.new now)
    let counted := w.count now user sprayIpWindowSecs sprayIpMaxUsers sprayIpCooldownSecs
    (counted.1, AList.insert ip counted.2 byIp)

variable (X : Setup)

/-- Record a failed login against its source; true if a cooldown began. -/
def noteLoginSpray (sourceIp : Option String) (username : String) (now : ℕ) (s : SprayState) :
    Bool × SprayState :=
  let user := normalizeLookupUsername X username
  if user = "" then (false, s)
  else
    let counted := s.global.count now user sprayGlobalWindowSecs sprayGlobalMaxUsers
      sprayGlobalCooldownSecs
    match sourceIp with
    | none => (counted.1, { s with global := counted.2 })
    | some ip =>
      let noted := noteSource ip user now s.byIp
      (counted.1 || noted.1, ⟨noted.2, counted.2⟩)

/-! ## Guessing -/

def loginFailureWindowSecs : ℕ := 900
def loginBackoffBaseMs : ℕ := 250
def loginBackoffMaxMs : ℕ := 30000

end Integration

/-- `LOGIN_FAILURES`: how often a name failed in a row, and when it did last. -/
abbrev LoginFailures := Table String (ℕ × ℕ)

namespace Integration

variable (X : Setup)

/-- Record a failed login; the number of failures in a row, this one included. -/
def noteLoginFailure (username : String) (now : ℕ) (t : LoginFailures) : ℕ × LoginFailures :=
  let key := normalizeLookupUsername X username
  let t := t.retain fun _ entry => decide (now - entry.2 < loginFailureWindowSecs)
  let entry := (t key).getD (0, now)
  let entry := if loginFailureWindowSecs ≤ now - entry.2 then (0, now) else entry
  -- the counter is a `u32` that saturates
  let count := min (entry.1 + 1) (2 ^ 32 - 1)
  (count, t.insert key (count, now))

def clearLoginFailures (username : String) (t : LoginFailures) : LoginFailures :=
  t.remove (normalizeLookupUsername X username)

/-- The delay of a failed login in milliseconds. -/
def loginBackoffMs (failures : ℕ) : ℕ :=
  if failures = 0 then 0
  else min (loginBackoffBaseMs * 2 ^ min (failures - 1) 12) loginBackoffMaxMs

end Integration

/-! ## What logins do to the limits -/

structure LoginLimits where
  spray : SprayState
  failures : LoginFailures

/-- The calls of a login. -/
inductive LimitOp
  | loginSprayBlock (sourceIp : Option String)
  | noteLoginSpray (sourceIp : Option String) (username : String)
  | noteLoginFailure (username : String)
  | clearLoginFailures (username : String)
  deriving DecidableEq

/-- A call, and what it reads off the clock. -/
structure LimitStep where
  now : ℕ
  op : LimitOp
  deriving DecidableEq

namespace LoginLimits

open Integration

/-- The limits of a server that has just started. -/
def initial : LoginLimits := ⟨⟨∅, ⟨∅, 0, 0⟩⟩, Table.empty⟩

variable (X : Setup)

def perform (L : LoginLimits) (e : LimitStep) : LoginLimits :=
  match e.op with
  | .loginSprayBlock sourceIp => { L with spray := (loginSprayBlock sourceIp e.now L.spray).2 }
  | .noteLoginSpray sourceIp username =>
    { L with spray := (noteLoginSpray X sourceIp username e.now L.spray).2 }
  | .noteLoginFailure username =>
    { L with failures := (noteLoginFailure X username e.now L.failures).2 }
  | .clearLoginFailures username =>
    { L with failures := clearLoginFailures X username L.failures }

/-- The limits after the calls of a history. -/
def run (L : LoginLimits) (history : List LimitStep) : LoginLimits := history.foldl (perform X) L

@[simp] theorem run_nil (L : LoginLimits) : L.run X [] = L := rfl

@[simp] theorem run_cons (L : LoginLimits) (e : LimitStep) (history : List LimitStep) :
    L.run X (e :: history) = (L.perform X e).run X history := rfl

theorem run_append (L : LoginLimits) (past history : List LimitStep) :
    L.run X (past ++ history) = (L.run X past).run X history :=
  List.foldl_append

end LoginLimits

/-- How `api_login` answers. -/
inductive LoginResult
  | err (reason : String)
  | ok (user : LdapUser)
  /-- The answer waits for the backoff. -/
  | failed (reason : String) (delayMs : ℕ)

namespace Integration

open LoginLimits

variable (X : Setup)

/-- The calls of `api_login` once the directory has answered. -/
def answeredOps (sourceIp : Option String) (username : String) :
    Except String LdapUser → List LimitOp
  | .ok user => [.clearLoginFailures user.username]
  | .error _ => [.noteLoginSpray sourceIp username, .noteLoginFailure username]

/-- `api_login` from the check of the two fields on, when no other login comes in between:
`answer` is what `authenticate_ldap` returns if it is asked, and the clock stands at `asked` before
and at `answered` after that. -/
def apiLogin (sourceIp : Option String) (username password : String)
    (answer : Except String LdapUser) (asked answered : ℕ) (L : LoginLimits) :
    LoginResult × LoginLimits :=
  if username = "" ∨ password = "" then (.err "Username and password required", L)
  else
    let blocked := loginSprayBlock sourceIp asked L.spray
    let L := { L with spray := blocked.2 }
    match blocked.1 with
    | some reason => (.err reason, L)
    | none =>
      match answer with
      | .ok user => (.ok user, { L with failures := clearLoginFailures X user.username L.failures })
      | .error reason =>
        let L := { L with spray := (noteLoginSpray X sourceIp username answered L.spray).2 }
        let noted := noteLoginFailure X username answered L.failures
        (.failed reason (loginBackoffMs noted.1), { L with failures := noted.2 })

/-- A login that asks the directory makes its calls one after the other. -/
theorem apiLogin_limits {sourceIp : Option String} {username password : String}
    {answer : Except String LdapUser} {asked answered : ℕ} {L : LoginLimits}
    (hfields : ¬ (username = "" ∨ password = ""))
    (hpass : (loginSprayBlock sourceIp asked L.spray).1 = none) :
    (apiLogin X sourceIp username password answer asked answered L).2 =
      (L.perform X ⟨asked, .loginSprayBlock sourceIp⟩).run X
        ((answeredOps sourceIp username answer).map (LimitStep.mk answered)) := by
  unfold apiLogin
  simp only [if_neg hfields, hpass]
  cases answer with
  | ok user => rfl
  | error reason => rfl

end Integration

end NemoServer
