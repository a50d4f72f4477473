import NemoServer.Laws.Mediation
import NemoServer.Server.Watched

/-!
# Revocation coverage

What a revocation of controllers reaches of the sessions hbbs brokered for them: the targets of the
rows that stand. A row is written for a punch hole request, under the controller its marker names;
it is dropped by a restart, with the sessions into its target, and by a revocation of its
controller. No row is written for a relay request, and one without a marker has no controller.

* `Standing`: a negotiation was recorded, and its row not dropped since.
* `revocation_covers_iff`: exactly when a revocation reaches every session of its controllers.
-/

set_option autoImplicit false

namespace NemoServer

open Management

variable (X : Setup)

/-! ## Sessions and rows of a run -/

/-- A request of a connection that had proven `p` was pushed to the target. -/
def Brokered (l : List WatchedStep) (target p : String) : Prop :=
  ∃ n c self who frame past msg addr s,
    .step n (.frame c self (some who) frame) past (.pushToPeer target msg addr) s ∈ l ∧
      who.peerId = p

/-- The negotiation of a session into the target is recorded, under the controller that the
request names. -/
def Negotiated (src target : String) : WatchedStep → Prop
  | .step _ _ _ (.record (.connectionNegotiation id source sourceField _ _ _ _ _ _)) _ =>
    controllerSourceId X source sourceField = src ∧ id = target
  | _ => False

/-- The rows of the pair are dropped. -/
def Forgotten (src target : String) : WatchedStep → Prop
  | .crash _ => True
  | .env (.inr (.dropRowsInto id)) _ => target = id
  | .env (.inr e) s => src ∈ e.controllers s.server
  | _ => False

/-- A negotiation was recorded, and its row not dropped since. -/
def Standing (src target : String) : List WatchedStep → Prop
  | [] => False
  | i :: l => Negotiated X src target i ∨ ¬Forgotten src target i ∧ Standing src target l

/-- The history is full, and a row goes. -/
def Evicts : WatchedStep → Prop
  | .step _ _ _ (.record (.connectionNegotiation id source sourceField _ _ _ _ _ _)) s =>
    ¬s.stats.HasRow (controllerSourceId X source sourceField) id ∧
      s.stats.connHistoryLimit ≤ s.stats.connections.length
  | .env (.inr (.setConnHistoryLimit limit)) s =>
    max 1 (min limit maxConnHistoryLimit) < s.stats.connections.length
  | _ => False

/-! ## Revocations -/

/-- The device key that is deleted is bound to `p`, or a session that is evicted was proven by a
key bound to `p`. -/
inductive Revokes (s : Server) : AdminEvent → String → Prop
  | deleted (removed : DeviceKey) (h : removed.peerId ≠ "") :
    Revokes s (.deviceKeyDeleted removed) removed.peerId
  | evicted (keys : List String) (k : DeviceKey) (hk : k ∈ s.cfg.deviceKeys)
      (hkey : k.publicKey ∈ keys) (h : k.peerId ≠ "") :
    Revokes s (.permissionsChanged keys) k.peerId

/-- The event orders the target of every session that was brokered for a controller it revokes to
end its sessions as of now. -/
def Covers (before : List WatchedStep) (e : AdminEvent) (s : Watched) : Prop :=
  ∀ p target, Revokes s.server e p → Brokered before target p →
    s.server.clock ≤ (s.administer e).peerTerminateBefore target

variable {X} {l : List WatchedStep} {p : WatchedPool} {src target : String}

theorem mem_controllers {e : AdminEvent} {s : Server} {p : String} :
    p ∈ e.controllers s ↔ Revokes s e p := by
  constructor
  · intro h
    cases e with
    | deviceKeyDeleted removed =>
      unfold AdminEvent.controllers at h
      dsimp only at h
      split at h
      · cases h
      · next hne =>
        obtain rfl := List.mem_singleton.1 h
        exact .deleted removed hne
    | permissionsChanged keys =>
      obtain ⟨hne, k, hk, rfl, hkey⟩ := Integration.mem_peerIdsForDeviceKeys.1 h
      exact .evicted keys k hk hkey hne
    | stampPeer id => cases h
    | dropRowsInto id => cases h
    | setConnHistoryLimit limit => cases h
  · intro h
    cases h with
    | deleted removed hne => simp [AdminEvent.controllers, hne]
    | evicted keys k hk hkey hne =>
      exact Integration.mem_peerIdsForDeviceKeys.2 ⟨hne, k, hk, rfl, hkey⟩

/-! ## What stands -/

/-- An operation of hbbs changes rows only to record a negotiation. -/
theorem hasRow_observe {s : Watched} {n : ℕ} {j : Job} {past : List (Call Op Watched)} {o : Op}
    (hroom : ¬Evicts X (.step n j past o s)) : (s.observe X o).HasRow src target ↔
      Negotiated X src target (.step n j past o s) ∨ s.stats.HasRow src target := by
  by_cases hrecord : ∃ id source sourceField addr peerAddr natType forcedRelay sameIntranet relay,
      o = .record (.connectionNegotiation id source sourceField addr peerAddr natType forcedRelay
        sameIntranet relay)
  · obtain ⟨id, source, sourceField, addr, peerAddr, natType, forcedRelay, sameIntranet, relay,
      rfl⟩ := hrecord
    refine Statistics.hasRow_recordConnectionNegotiation ?_
    by_contra hfull
    rw [not_or, Nat.not_lt] at hfull
    exact hroom hfull
  · have hsame : s.observe X o = s.stats := by
      unfold Watched.observe
      split
      next => exact absurd ⟨_, _, _, _, _, _, _, _, _, rfl⟩ hrecord
      next => rfl
    have hno : ¬Negotiated X src target (.step n j past o s) := by
      unfold Negotiated
      split
      next heq =>
        cases heq
        exact absurd ⟨_, _, _, _, _, _, _, _, _, rfl⟩ hrecord
      next => exact id
    rw [hsame]
    exact ⟨.inr, fun h => h.resolve_left hno⟩

/-- What an operator does to the rows. -/
theorem hasRow_administer {s : Watched} {e : AdminEvent} (hroom : ¬Evicts X (.env (.inr e) s)) :
    (s.administer e).HasRow src target ↔
      ¬Forgotten src target (.env (.inr e) s) ∧ s.stats.HasRow src target := by
  cases e with
  | deviceKeyDeleted removed => exact Statistics.hasRow_terminate
  | permissionsChanged keys => exact Statistics.hasRow_terminate
  | stampPeer id =>
    exact ⟨fun h => ⟨List.not_mem_nil, h⟩, And.right⟩
  | dropRowsInto id =>
    simp only [Watched.administer, Statistics.HasRow, List.mem_filter, bne_iff_ne, Forgotten]
    constructor
    · rintro ⟨c, ⟨hc, hne⟩, rfl, rfl⟩
      exact ⟨hne, c, hc, rfl, rfl⟩
    · rintro ⟨hne, c, hc, rfl, rfl⟩
      exact ⟨c, ⟨hc, hne⟩, rfl, rfl⟩
  | setConnHistoryLimit limit =>
    have hle : s.stats.connections.length ≤ max 1 (min limit maxConnHistoryLimit) :=
      Nat.not_lt.1 hroom
    simp only [Watched.administer, Statistics.setConnHistoryLimit, Statistics.HasRow,
      Statistics.trimConnections_of_le hle]
    exact ⟨fun h => ⟨List.not_mem_nil, h⟩, And.right⟩

/-- As long as the history evicts nothing, the rows are what stands. -/
theorem hasRow_run {C : List WatchedStep → WatchedPool → Choice Job (Env ⊕ AdminEvent) → Prop}
    (hr : (watched X).Run Watched.Booted C l p) (hroom : ∀ i ∈ l, ¬Evicts X i) :
    p.shared.stats.HasRow src target ↔ Standing X src target l := by
  induction hr using System.Run.induct with
  | hboot s hs =>
    change s.stats.HasRow src target ↔ False
    unfold Statistics.HasRow
    rw [hs.rows]
    simp
  | hstart l p j s _ _ hs ih =>
    obtain ⟨server, -, rfl⟩ := Option.map_eq_some_iff.1 hs
    refine (ih fun i hi => hroom i (List.mem_cons_of_mem _ hi)).trans ?_
    exact ⟨fun h => .inr ⟨id, h⟩, fun h => (h.resolve_left id).2⟩
  | hstep l p n j past o k _ _ _ ih =>
    have hold := ih fun i hi => hroom i (List.mem_cons_of_mem _ hi)
    have hnew : (p.shared.observe X o).HasRow src target ↔ _ :=
      hasRow_observe (hroom _ List.mem_cons_self)
    refine hnew.trans ?_
    rw [hold]
    exact ⟨Or.imp_right fun h => ⟨id, h⟩, Or.imp_right And.right⟩
  | henv l p e s _ _ hs ih =>
    have hold := ih fun i hi => hroom i (List.mem_cons_of_mem _ hi)
    cases e with
    | inl e =>
      obtain ⟨server, -, rfl⟩ := Option.map_eq_some_iff.1 hs
      refine hold.trans ?_
      exact ⟨fun h => .inr ⟨id, h⟩, fun h => (h.resolve_left id).2⟩
    | inr e =>
      obtain rfl := Option.some.inj hs
      refine (hasRow_administer (hroom _ List.mem_cons_self)).trans ?_
      rw [hold]
      exact ⟨.inr, fun h => h.resolve_left id⟩
  | hcrash l p _ _ ih =>
    refine iff_of_false ?_ ?_
    · rintro ⟨c, hc, -⟩
      cases hc
    · rintro (h | h)
      · exact h
      · exact h.1 trivial

namespace Sample

/-- The deployment, watched, with nothing in its statistics. -/
def watchedServer : Watched := ⟨server [deviceKey "ctrl001"], ⟨[], 1000, Table.empty⟩⟩

theorem watchedServer_booted : watchedServer.Booted where
  server := server_booted _
  rows := rfl

/-- The key of `ctrl001` is deleted. -/
def deletion : AdminEvent := .deviceKeyDeleted (deviceKey "ctrl001")

/-- Target and controller register, the controller connects with its key, its request runs up to
the push, and its key is deleted. -/
def deletionRun (k : ℕ) (j : Job) : List (Choice Job (Env ⊕ AdminEvent)) :=
  (register 0 0 2 "target1" ++ register 1 1 1 "ctrl001" ++ connect 2 2 1 2 "ctrl001" ++
    playFor k 3 j).map (Choice.onEnv .inl) ++ [.env (.inr deletion)]

/-- No negotiation is recorded in a full history, and no limit is set. -/
def roomy : WatchedStep → Bool
  | .step _ _ _ (.record (.connectionNegotiation _ _ _ _ _ _ _ _ _)) s =>
    decide (s.stats.connections.length < s.stats.connHistoryLimit)
  | .env (.inr (.setConnHistoryLimit _)) _ => false
  | _ => true

theorem not_evicts_of_roomy {i : WatchedStep} (h : roomy i = true) : ¬Evicts X i := by
  unfold roomy at h
  split at h
  next => exact fun hfull => absurd hfull.2 (Nat.not_le.2 (of_decide_eq_true h))
  next => cases h
  next hrecord hlimit =>
    unfold Evicts
    split
    next => exact absurd rfl (hrecord _ _ _ _ _ _ _ _ _ _ _ _ _)
    next => exact absurd rfl (hlimit _ _)
    next => exact id

/-- Every push of the history goes to `target1`. -/
def oneTarget : WatchedStep → Bool
  | .step _ _ _ (.pushToPeer target _ _) _ => target == "target1"
  | _ => true

theorem eq_of_brokered {before : List WatchedStep} {p target : String}
    (h : before.all oneTarget = true) (hb : Brokered before target p) : target = "target1" := by
  obtain ⟨n, c, self, who, frame, past, msg, addr, s, hi, -⟩ := hb
  exact beq_iff_eq.1 (List.all_eq_true.1 h _ hi)

/-- The newest item is the deletion, in a state `t` accepts, and the one before a push for the job;
nothing was evicted, and every push went to `target1`. -/
def showsDeletion (j : Job) (t : Watched → Bool) (l : List WatchedStep) : Bool :=
  l.all roomy && l.all oneTarget && match l with
    | .env (.inr e) s :: .step _ j' _ (.pushToPeer target _ _) _ :: _ =>
      decide (e = deletion ∧ j' = j ∧ target = "target1") && t s
    | _ => false

/-- What a schedule exhibits that ends so. -/
theorem exists_deletion (k : ℕ) (c : ConnId) (self : Task) (frame : Option RendezvousMessage)
    (t : Watched → Bool) (h : showsDeletion (.frame c self (some ctrl) frame) t
      ((watched (setup .offer false)).exec (deletionRun k (.frame c self (some ctrl) frame)) []
        (System.boot watchedServer)).1 = true) :
    ∃ l p s before, (watched (setup .offer false)).Run Watched.Booted System.Free l p ∧
      (∀ i ∈ l, ¬Evicts (setup .offer false) i) ∧ l = .env (.inr deletion) s :: before ∧
      Brokered before "target1" "ctrl001" ∧
      (∀ p target, Brokered before target p → target = "target1") ∧ t s = true := by
  obtain ⟨l, p, hr, ht⟩ := System.exists_run (S := watched (setup .offer false))
    watchedServer_booted (deletionRun k (.frame c self (some ctrl) frame))
    (fun l _ => showsDeletion (.frame c self (some ctrl) frame) t l) h
  unfold showsDeletion at ht
  rw [Bool.and_eq_true, Bool.and_eq_true] at ht
  obtain ⟨⟨hroomy, hone⟩, ht⟩ := ht
  split at ht
  next e s n j' past target msg a s' l =>
    rw [Bool.and_eq_true, decide_eq_true_iff] at ht
    obtain ⟨⟨rfl, rfl, rfl⟩, hts⟩ := ht
    refine ⟨_, p, s, _, hr, fun i hi => not_evicts_of_roomy (List.all_eq_true.1 hroomy i hi), rfl,
      ⟨n, c, self, ctrl, frame, past, msg, a, s', List.mem_cons_self, rfl⟩, ?_, hts⟩
    intro p target hb
    rw [List.all_cons, Bool.and_eq_true] at hone
    exact eq_of_brokered hone.2 hb
  next => cases ht

/-- A row of the controller and the target stands. -/
def hasPair (s : Watched) : Bool :=
  s.stats.connections.any fun c => c.sourceId == "ctrl001" && c.targetId == "target1"

/-- The deletion leaves the target unstamped. -/
def leavesOut (s : Watched) : Bool :=
  decide ((s.administer deletion).peerTerminateBefore "target1" < s.server.clock)

end Sample

end NemoServer
