import NemoServer.Management.Statistics
import NemoServer.Server.Sample

/-!
# What blocking a machine ends

A machine that is blocked ends the sessions into it: its stamp is set. The sessions it holds into
other machines end only where the stamp of the other machine happens to be as late already: no
stamp but its own is set, unlike where the controllers are revoked whose key was removed.
-/

set_option autoImplicit false

namespace NemoServer

namespace Management

open Statistics

/-- The rows of sessions a machine takes part in. -/
def TakesPart (id : String) (row : ConnectionRecord) : Prop :=
  row.sourceId = id ∨ row.targetId = id

theorem blockPeer_some {s s' : Statistics} {clock : ℕ} {id : String} {updated : Option Bool}
    (h : s.blockPeer clock id updated = some s') :
    updated = some true ∧ s' = s.endSessionsInto clock id := by
  unfold blockPeer at h
  split at h
  · exact ⟨rfl, (Option.some.inj h).symm⟩
  · cases h

/-- Blocking a machine ends every session it takes part in exactly if no session it holds into
another machine is still to be ended. -/
theorem block_ends_sessions_iff (X : Setup) (sv : Server) (s s' : Statistics) (id : String)
    (h : s.blockPeer sv.clock id (Op.sem X (.dbSetPeerStatus id (some 0) none) sv).1 = some s') :
    (∀ row ∈ s.connections, TakesPart id row → sv.clock ≤ s'.peerTerminateBefore row.targetId) ↔
    ∀ row ∈ s.connections, row.sourceId = id → row.targetId ≠ id →
      sv.clock ≤ s.peerTerminateBefore row.targetId := by
  obtain ⟨-, rfl⟩ := blockPeer_some h
  simp only [peerTerminateBefore_endSessionsInto]
  constructor
  · intro hends row hrow hsource hne
    have := hends row hrow (.inl hsource)
    rwa [if_neg hne] at this
  · intro hother row hrow hpart
    by_cases htarget : row.targetId = id
    · rw [if_pos htarget]
      omega
    · rw [if_neg htarget]
      exact hother row hrow (hpart.resolve_right htarget) htarget

namespace Sample

open NemoServer.Sample

/-- A server that knows one machine. -/
def oneMachine : Server :=
  { server [] with db := [⟨0, "source1", [1], [1], "", none, none, none⟩] }

/-- The machine was brokered to another one. -/
def outgoing : Statistics :=
  recordConnectionNegotiation ⟨[], 420, Table.empty⟩ (setup .offer false) 0 "target1"
    (some ⟨"source1", [1], ""⟩) "" .unspecified .unspecified .asymmetric false false ""

/-- Another machine was brokered to it. -/
def incoming : Statistics :=
  recordConnectionNegotiation ⟨[], 420, Table.empty⟩ (setup .offer false) 0 "source1"
    (some ⟨"target1", [1], ""⟩) "" .unspecified .unspecified .asymmetric false false ""

end Sample

/-- A machine with a session into it, and no other, is blocked. -/
theorem block_ends_sessions_incoming : ∃ s',
    Sample.incoming.blockPeer Sample.oneMachine.clock "source1" (Op.sem
      (NemoServer.Sample.setup .offer false) (.dbSetPeerStatus "source1" (some 0) none)
      Sample.oneMachine).1 = some s' ∧
    ∀ row ∈ Sample.incoming.connections, TakesPart "source1" row →
      Sample.oneMachine.clock ≤ s'.peerTerminateBefore row.targetId := by
  have hblock : ∃ s', Sample.incoming.blockPeer Sample.oneMachine.clock "source1" (Op.sem
      (NemoServer.Sample.setup .offer false) (.dbSetPeerStatus "source1" (some 0) none)
      Sample.oneMachine).1 = some s' := Option.isSome_iff_exists.1 (by decide +kernel)
  obtain ⟨s', hs'⟩ := hblock
  refine ⟨s', hs', (block_ends_sessions_iff _ _ _ _ _ hs').2 ?_⟩
  have hinto : ∀ row ∈ Sample.incoming.connections, row.sourceId ≠ "source1" := by decide +kernel
  exact fun row hrow hsource => absurd hsource (hinto row hrow)

/-- The session of a blocked machine into another machine is not ended. -/
theorem not_block_ends_sessions : ¬∀ (X : Setup) (sv : Server) (s s' : Statistics) (id : String),
    Reachable X s →
    s.blockPeer sv.clock id (Op.sem X (.dbSetPeerStatus id (some 0) none) sv).1 = some s' →
    ∀ row ∈ s.connections, TakesPart id row → sv.clock ≤ s'.peerTerminateBefore row.targetId := by
  intro h
  have hblock : ∃ s', Sample.outgoing.blockPeer Sample.oneMachine.clock "source1" (Op.sem
      (NemoServer.Sample.setup .offer false) (.dbSetPeerStatus "source1" (some 0) none)
      Sample.oneMachine).1 = some s' := Option.isSome_iff_exists.1 (by decide +kernel)
  obtain ⟨s', hs'⟩ := hblock
  have hreach : Reachable (NemoServer.Sample.setup .offer false) Sample.outgoing :=
    .negotiated (.start _ _) ..
  have hends := h _ _ _ s' "source1" hreach hs'
  have hrow : ∃ row ∈ Sample.outgoing.connections, row.sourceId = "source1" ∧
      row.targetId = "target1" := by decide +kernel
  obtain ⟨row, hmem, hsource, htarget⟩ := hrow
  have hle := hends row hmem (.inl hsource)
  obtain ⟨-, rfl⟩ := blockPeer_some hs'
  rw [htarget, peerTerminateBefore_endSessionsInto] at hle
  revert hle
  decide +kernel

end Management

end NemoServer
