import NemoServer.Foundations.Arith
import NemoServer.Server.Sem
import NemoServer.Std.Search

/-!
# The lists an operator can page through

The arms `ip-blocker` and `ip-changes` of `check_cmd` (`rendezvous_server.rs`), which drop what is
outdated, look one entry up or remove it, or show ten entries from a number on. The other arms of
the function take no part in this and touch neither list.
-/

set_option autoImplicit false

namespace NemoServer

namespace Rendezvous

open Str

/-- The changes of address of a device: since when, and how often each address was seen. -/
structure IpChanges where
  tm : ℕ
  ips : List (String × ℕ)

/-- `IP_BLOCKER` and `IP_CHANGES` in the order in which they are iterated, and the clock. -/
structure AdminLists where
  now : ℕ
  ipBlocker : List (String × IpBlock)
  ipChanges : List (String × IpChanges)

def ipChangeDurX2 : ℕ := 180 * 2

/-- `tm.elapsed().as_secs()`. -/
def AdminLists.elapsedSecs (s : AdminLists) (tm : ℕ) : ℕ := asSecs (s.now - tm)

/-- The entries that the loop shows: it goes through the numbers from `i` to `bound` and the
entries side by side, and skips the numbers before `start`. -/
def page {α : Type} (start bound : ℤ) : ℤ → List α → List α
  | _, [] => []
  | i, x :: l =>
    if bound ≤ i then []
    else if i < start then page start bound (i + 1) l
    else x :: page start bound (i + 1) l

/-- The text of an entry of `IP_BLOCKER`. -/
def showBlock (s : AdminLists) (b : IpBlock) : String :=
  toString b.count ++ "/" ++ toString (s.elapsedSecs b.countTime) ++ "s " ++
    toString b.ids.length ++ "/" ++ toString (s.elapsedSecs b.idsTime) ++ "s"

/-- The text of a map, as `{:?}` has it. -/
def debugIps (ips : List (String × ℕ)) : String :=
  "\x7b" ++ ", ".intercalate (ips.map fun e => "\"" ++ e.1 ++ "\": " ++ toString e.2) ++ "\x7d"

/-- The text of an entry of `IP_CHANGES`. -/
def showChanges (s : AdminLists) (c : IpChanges) : String :=
  toString (s.elapsedSecs c.tm) ++ "s " ++ debugIps c.ips

/-- `x.parse::<i32>().unwrap_or(-1)`; without an argument `-1` too. -/
def startOf (arg : Option String) : ℤ := (arg.bind parseI32).getD (-1)

/-- Ten entries from the number `start` on. -/
def showPage {α : Type} (l : List (String × α)) (render : α → String) (start : ℤ) :
    Arith String :=
  if 0 ≤ start then do
    let bound ← Arith.op (.signed 32) (start + 10)
    pure (String.join ((page start bound 0 l).map fun e => e.1 ++ ": " ++ render e.2 ++ "\n"))
  else pure ""

/-- What both arms do, of a list that is up to date: `byName` says whether the argument is the
name of an entry. -/
def listArm {α : Type} (l : List (String × α)) (render : α → String) (byName : ℤ → Bool)
    (arg flag : Option String) : Arith (String × List (String × α)) := do
  let res := toString l.length ++ "\n"
  let start := startOf arg
  let named := byName start
  let res := match arg with
    | some k =>
      if named then res ++ ((l.lookup k).elim "" fun v => render v ++ "\n") else res
    | none => res
  let l' := match arg with
    | some k => if named && flag == some "-" then l.filter fun e => e.1 ≠ k else l
    | none => l
  let rows ← showPage l' render (if named && arg.isNone then 0 else start)
  pure (res ++ rows, l')

/-- The entries of `IP_BLOCKER` that are kept. -/
def keptBlocks (s : AdminLists) : List (String × IpBlock) :=
  s.ipBlocker.filter fun e => decide (s.elapsedSecs e.2.countTime ≤ Server.ipBlockDur) ||
    decide (s.elapsedSecs e.2.idsTime ≤ Server.daySeconds)

/-- The entries of `IP_CHANGES` that are kept. -/
def keptChanges (s : AdminLists) : List (String × IpChanges) :=
  s.ipChanges.filter fun e => decide (s.elapsedSecs e.2.tm < ipChangeDurX2) &&
    decide (1 < e.2.ips.length)

/-- A line of an operator; the answer is `none` in the arms that are not modelled. -/
def checkCmd (cmd : String) (s : AdminLists) : Arith (Option String × AdminLists) :=
  match split ' ' (trim cmd) with
  | [] => pure (none, s)
  | name :: args =>
    if name = "ip-blocker" ∨ name = "ib" then do
      let (res, l) ← listArm (keptBlocks s) (showBlock s) (fun start => start < 0)
        args.head? args.tail.head?
      pure (some res, { s with ipBlocker := l })
    else if name = "ip-changes" ∨ name = "ic" then do
      let (res, l) ← listArm (keptChanges s) (showChanges s)
        (fun start => !decide (0 ≤ start ∧ start ≤ 10000000)) args.head? args.tail.head?
      pure (some res, { s with ipChanges := l })
    else pure (none, s)

end Rendezvous

end NemoServer
