import NemoServer.Laws.FailClosed
import NemoServer.Server.History

/-!
# What blocked means

The readers of the block flag, over every history with the database up. The peer map reads a NULL
status as no status; the queries that decode a registered peer read it as zero, which is blocked.
The readers agree on a peer exactly when a status was written for it since it was inserted, and a
listing reaches it if it is blocked.
-/

set_option autoImplicit false

namespace NemoServer

open Prog Management PeerMap

variable {X : Setup} {s : Server} {id : String}

/-- What a task answers that runs by itself, with the database up. -/
def alone {α : Type} (X : Setup) (p : Handler α) (s : Server) : α :=
  (p.solo (Op.sem X) (outage fun _ => true) [] s).1

/-- The check that `client_policy` makes of the peer it has loaded. -/
def blockedInPolicy (id : String) : Handler Bool := do
  match ← perform (.dbGetRegisteredPeer id) with
  | some (some peer) => pure (blockedStatus peer)
  | _ => pure false

/-- All readers of the flag hold `id` for blocked, or none does. -/
structure ReadersAgree (X : Setup) (s : Server) (id : String) (blocked : Prop) : Prop where
  isPeerBlocked : alone X (isPeerBlocked id) s = true ↔ blocked
  isPeerAllowedForControl : alone X (isPeerAllowedForControl id false) s = false ↔ blocked
  /-- Asked with the right uuid, or with none. -/
  controllerPolicyRejection : ∀ sourceId sourceUuid targetId, Str.trim sourceId = id → id ≠ "" →
    (∀ uuid, sourceUuid = some uuid → (Database.getPeer s.db id).map (·.uuid) = some uuid) →
    (alone X (controllerPolicyRejection X sourceId sourceUuid targetId) s =
      some "controller is blocked by TBF policy" ↔ blocked)
  listBlockedIds : id ∈ alone X listBlockedIds s ↔ blocked
  blockedInPolicy : alone X (blockedInPolicy id) s = true ↔ blocked
  clientPolicy : ∀ request c, request.id = id → alone X (composePolicy X request) s = .ok c →
    (blockedStatus c.peer = true ↔ blocked)

/-! ## The readers of the peer map -/

theorem alone_peerStatus (hP : Synced X s.peers) :
    alone X (peerStatus id) s = some (storedStatus s.db id) := by
  cases hid : s.map id with
  | none => simp [alone, peerStatus, getInMemory, Prog.op, outage, Op.sem, Server.query, hid,
      storedStatus]
  | some r =>
    obtain ⟨-, row, hrow, hc⟩ := hP.cell id r hid
    have hstatus : (({ s with dbUp := true } : Server).cell r).status = row.status :=
      congrArg Stored.status (stored_cell (t := { s with dbUp := true }) hc)
    have hrow' : Database.getPeer s.db id = some row := hrow
    simp [alone, peerStatus, getInMemory, Prog.op, outage, Op.sem, hid, hstatus, storedStatus, hrow']

theorem alone_bind {α β : Type} (p : Handler α) (f : α → Handler β) : alone X (p >>= f) s =
    ((f (alone X p s)).solo (Op.sem X) (outage fun _ => true)
      (p.solo (Op.sem X) (outage fun _ => true) [] s).2.1
      (p.solo (Op.sem X) (outage fun _ => true) [] s).2.2).1 := by
  unfold alone
  rw [solo_bind]

theorem alone_isPeerBlocked (hP : Synced X s.peers) :
    alone X (isPeerBlocked id) s = (storedStatus s.db id == some 0) := by
  unfold isPeerBlocked
  rw [alone_bind, alone_peerStatus hP]
  simp

theorem alone_isPeerAllowedForControl (hP : Synced X s.peers) :
    alone X (isPeerAllowedForControl id false) s = (storedStatus s.db id != some 0) := by
  unfold isPeerAllowedForControl
  rw [alone_bind, alone_peerStatus hP]
  generalize storedStatus s.db id = status
  match status with
  | none => rfl
  | some 0 => rfl
  | some 1 => rfl
  | some (.ofNat (n + 2)) => rfl
  | some (.negSucc n) => rfl

/-! ## The readers of registered peers -/

/-- A registered peer is read as blocked: its status is zero or NULL. -/
def readBlocked (db : List Row) (id : String) : Prop :=
  (Database.getPeer db id).isSome = true ∧
    (storedStatus db id = none ∨ storedStatus db id = some 0)

theorem blockedStatus_row (hnull : X.nullInt = some 0) (row : Row) :
    blockedStatus (Database.registeredPeerFromRow X row) = true ↔
      row.status = none ∨ row.status = some 0 := by
  cases hstatus : row.status <;> simp [blockedStatus, Database.registeredPeerFromRow, hnull, hstatus]

theorem readBlocked_iff {row : Row} {db : List Row} (hrow : Database.getPeer db id = some row) :
    readBlocked db id ↔ row.status = none ∨ row.status = some 0 := by
  simp [readBlocked, storedStatus, hrow]

theorem not_readBlocked {db : List Row} (hrow : Database.getPeer db id = none) :
    ¬readBlocked db id := by simp [readBlocked, hrow]

theorem alone_blockedInPolicy (hnull : X.nullInt = some 0) :
    alone X (blockedInPolicy id) s = true ↔ readBlocked s.db id := by
  cases hrow : Database.getPeer s.db id with
  | none =>
    refine iff_of_false ?_ (not_readBlocked hrow)
    simp [alone, blockedInPolicy, Prog.op, outage, Op.sem, Server.query, Database.getRegisteredPeer,
      hrow]
  | some row =>
    rw [readBlocked_iff hrow, ← blockedStatus_row hnull]
    simp [alone, blockedInPolicy, Prog.op, outage, Op.sem, Server.query, Database.getRegisteredPeer,
      hrow]

theorem alone_controllerPolicyRejection (sourceId targetId : String) (sourceUuid : Option Bytes)
    (hid : Str.trim sourceId ≠ "") :
    alone X (controllerPolicyRejection X sourceId sourceUuid targetId) s =
      match Database.getRegisteredPeer X s.db (Str.trim sourceId) with
      | none => some "controller is not registered by TBF policy"
      | some source => registeredRejection X source sourceUuid targetId := by
  cases hrow : Database.getRegisteredPeer X s.db (Str.trim sourceId) <;>
    simp [alone, controllerPolicyRejection, Prog.op, outage, Op.sem, Server.query, hid, hrow]

/-- Past the check of the uuid, the refusal names the block exactly if the status does. -/
theorem registeredRejection_blocked {source : RegisteredPeer} {sourceUuid : Option Bytes}
    {targetId : String} (huuid : ∀ uuid, sourceUuid = some uuid → uuid ≠ [] ∧ source.uuid = uuid) :
    registeredRejection X source sourceUuid targetId = some "controller is blocked by TBF policy" ↔
      blockedStatus source = true := by
  have hpass : (sourceUuid.any fun uuid => uuid.isEmpty || source.uuid != uuid) = false := by
    cases sourceUuid with
    | none => rfl
    | some uuid =>
      obtain ⟨hne, rfl⟩ := huuid uuid rfl
      simp [hne]
  unfold registeredRejection blockedStatus
  rw [hpass]
  by_cases hstatus : source.status = some 0
  · simp [hstatus]
  · rw [if_neg (by simp), if_neg hstatus]
    refine iff_of_false ?_ (by simpa using hstatus)
    simp only
    split
    · simp
    · split <;> simp

theorem alone_listBlockedIds (hnull : X.nullInt = some 0) (hP : Synced X s.peers) :
    id ∈ alone X listBlockedIds s ↔ readBlocked s.db id ∧ Listed s id := by
  have hlist : alone X listBlockedIds s = blockedIds X s := by
    simp [alone, listBlockedIds, blockedIds, Prog.op, outage, Op.sem, Server.query]
  rw [hlist]
  simp only [blockedIds, Database.listRegisteredPeers, List.drop_zero, List.mem_map,
    List.mem_filter]
  have hget : ∀ row ∈ (s.db.mergeSort (Database.listedBefore s.api.createdAt)).take
      registeredLimit, row.id = id → Database.getPeer s.db id = some row := by
    intro row hrow hid
    have hmem : row ∈ s.db := List.mem_mergeSort.1 (List.mem_of_mem_take hrow)
    exact (Database.getPeer_eq_some hP.ids).2 ⟨hmem, hid⟩
  constructor
  · rintro ⟨p, ⟨⟨row, hrow, rfl⟩, hblocked⟩, hid⟩
    refine ⟨?_, row, hrow, hid⟩
    rw [readBlocked_iff (hget row hrow hid)]
    exact (blockedStatus_row hnull row).1 hblocked
  · rintro ⟨hread, row, hrow, hid⟩
    rw [readBlocked_iff (hget row hrow hid)] at hread
    exact ⟨_, ⟨⟨row, hrow, rfl⟩, (blockedStatus_row hnull row).2 hread⟩, hid⟩

/-- A policy is composed for the registered peer it was asked for. -/
theorem alone_composePolicy {request : ClientPolicyRequest} {c : Composed}
    (hc : alone X (composePolicy X request) s = .ok c) :
    Database.getRegisteredPeer X s.db request.id = some c.peer := by
  unfold composePolicy at hc
  rw [alone_bind] at hc
  have hpoll : ∀ peer, alone X (pollingPeer X request) s = .ok peer →
      Database.getRegisteredPeer X s.db request.id = some peer := by
    intro peer hpeer
    cases hrow : Database.getRegisteredPeer X s.db request.id with
    | none =>
      simp [alone, pollingPeer, Prog.op, outage, Op.sem, Server.query, hrow] at hpeer
    | some source =>
      simp only [alone, pollingPeer, Prog.op, outage, Op.sem, Server.query, hrow, call_bind, ret_bind,
        solo_call, if_true, pure_def, solo_ret] at hpeer
      cases hval : validateClientPolicyRequest X source request with
      | error e =>
        rw [hval] at hpeer
        cases hpeer
      | ok _ =>
        rw [hval] at hpeer
        exact congrArg some (Except.ok.inj hpeer)
  cases hpeer : alone X (pollingPeer X request) s with
  | error e =>
    rw [hpeer] at hc
    cases hc
  | ok peer =>
    rw [hpeer] at hc
    rw [hpoll peer hpeer]
    -- the rest of the composition keeps the peer
    obtain ⟨new, -, he, -⟩ := exec_solo (Op.sem X) (outage fun _ => true) _
      ((pollingPeer X request).solo (Op.sem X) (outage fun _ => true) [] s).2.1
      ((pollingPeer X request).solo (Op.sem X) (outage fun _ => true) [] s).2.2
    rw [hc] at he
    obtain ⟨h₂, proof, -, he⟩ := exec_bind.1 he
    obtain ⟨h₃, required, -, he⟩ := exec_bind.1 he
    split at he
    · cases he.2
    obtain ⟨h₄, policy, -, he⟩ := exec_bind.1 he
    obtain ⟨h₅, info, -, he⟩ := exec_bind.1 he
    obtain ⟨h₆, session, -, he⟩ := exec_bind.1 he
    obtain ⟨h₇, requireLogin, -, he⟩ := exec_bind.1 he
    obtain ⟨h₈, policy, -, he⟩ := exec_bind.1 he
    obtain ⟨h₉, abVersion, -, he⟩ := exec_bind.1 he
    obtain ⟨h₁₀, lists, -, he⟩ := exec_bind.1 he
    obtain ⟨h₁₁, endpoint, -, he⟩ := exec_bind.1 he
    obtain ⟨h₁₂, strip, -, he⟩ := exec_bind.1 he
    rw [Except.ok.inj he.2]

/-! ## Agreement -/

/-- A history with the database up throughout. -/
def undisturbed (turns : List Turn) : History := turns.map fun q => (q, fun _ => true)

/-- The status last written for `id`: a status is written for a peer that is there, and goes with
it. -/
def lastStatus (X : Setup) (s₀ : Server) (id : String) : List Turn → Option ℤ
  | [] => storedStatus s₀.db id
  | .setPeerStatus id' status _ :: before =>
    if id' = id ∧ (Database.getPeer (s₀.after X (undisturbed before)).db id).isSome then status
    else lastStatus X s₀ id before
  | .deletePeer id' :: before => if id' = id then none else lastStatus X s₀ id before
  | _ :: before => lastStatus X s₀ id before

theorem every_clean (hjson : ∀ ip, X.infoOfJson (X.infoToJson ip) = some ip) {s₀ : Server}
    (hboot : s₀.Booted) (turns : List Turn) :
    s₀.Every X (fun up s q => q.Clean X up s) (undisturbed turns) := by
  induction turns with
  | nil => trivial
  | cons q before ih =>
    refine ⟨?_, ih⟩
    have hP := after_synced hjson hboot ih
    cases q with
    | registerPk rk addr =>
      obtain ⟨failed, hres, hw⟩ := registerPkCore_ends (u := fun _ => true) hP.allocated rk addr
      have hdown : ¬Down fun _ => true := by
        rintro ⟨h, hh⟩
        cases hh
      intro hfail
      have hfailed := hres.not_failed hP hdown
      rw [hw.1 hfail] at hfailed
      cases hfailed
    | _ => trivial

theorem lastStatus_eq (hjson : ∀ ip, X.infoOfJson (X.infoToJson ip) = some ip) {s₀ : Server}
    (hboot : s₀.Booted) (turns : List Turn) :
    storedStatus (s₀.after X (undisturbed turns)).db id = lastStatus X s₀ id turns := by
  induction turns with
  | nil => rfl
  | cons q before ih =>
    have hP := after_synced hjson hboot (every_clean hjson hboot before)
    refine (Turn.run_status (u := fun _ => true) hjson hP (fun _ => rfl) id).trans ?_
    cases q <;> simp only [lastStatus, ← ih]

theorem readersAgree_iff (hnull : X.nullInt = some 0) (hP : Synced X s.peers) (id : String) :
    ReadersAgree X s id (storedStatus s.db id = some 0) ↔
      ((Database.getPeer s.db id).isSome → storedStatus s.db id ≠ none) ∧
        (storedStatus s.db id = some 0 → Listed s id) := by
  have hsome : storedStatus s.db id = some 0 → (Database.getPeer s.db id).isSome = true := by
    intro h
    cases hrow : Database.getPeer s.db id with
    | none => simp [storedStatus, hrow] at h
    | some row => rfl
  constructor
  · intro h
    refine ⟨fun hrow hnone => ?_, fun hzero => ?_⟩
    · have hread := (alone_blockedInPolicy (s := s) hnull).2 ⟨hrow, .inl hnone⟩
      rw [h.blockedInPolicy.1 hread] at hnone
      cases hnone
    · exact ((alone_listBlockedIds hnull hP).1 (h.listBlockedIds.2 hzero)).2
  · rintro ⟨hset, hlisted⟩
    have hread : readBlocked s.db id ↔ storedStatus s.db id = some 0 :=
      ⟨fun h => h.2.resolve_left (hset h.1), fun h => ⟨hsome h, .inr h⟩⟩
    have hpeer : ∀ {p : RegisteredPeer}, Database.getRegisteredPeer X s.db id = some p →
        (blockedStatus p = true ↔ storedStatus s.db id = some 0) := by
      intro p hp
      obtain ⟨row, hrow, rfl⟩ := Option.map_eq_some_iff.1 hp
      rw [blockedStatus_row hnull, ← readBlocked_iff hrow, hread]
    refine ⟨?_, ?_, fun sourceId sourceUuid targetId hid hne huuid => ?_, ?_,
      (alone_blockedInPolicy hnull).trans hread, fun request c hid hc => ?_⟩
    · rw [alone_isPeerBlocked hP, beq_iff_eq]
    · rw [alone_isPeerAllowedForControl hP]
      simp
    · subst hid
      rw [alone_controllerPolicyRejection _ _ _ hne]
      cases hreg : Database.getRegisteredPeer X s.db (Str.trim sourceId) with
      | none =>
        have hrow := Option.map_eq_none_iff.1 hreg
        simp [storedStatus, hrow]
      | some source =>
        rw [← hpeer hreg]
        obtain ⟨row, hrow, rfl⟩ := Option.map_eq_some_iff.1 hreg
        refine registeredRejection_blocked fun uuid hu => ?_
        have hrowuuid : row.uuid = uuid := by
          have h := huuid uuid hu
          rw [hrow] at h
          exact Option.some.inj h
        obtain ⟨hmem, -⟩ := (Database.getPeer_eq_some hP.ids).1 hrow
        exact ⟨hrowuuid ▸ hP.uuid_ne row hmem, hrowuuid⟩
    · rw [alone_listBlockedIds hnull hP, hread]
      exact and_iff_left_of_imp hlisted
    · subst hid
      exact hpeer (alone_composePolicy hc)

/-- The readers agree on the status last written for a peer if and only if one was written since it
was inserted, and a listing reaches the peer if it is blocked. -/
theorem blocked_agreed_iff (X : Setup) (hnull : X.nullInt = some 0)
    (hjson : ∀ ip, X.infoOfJson (X.infoToJson ip) = some ip) (s₀ : Server) (hboot : s₀.Booted)
    (turns : List Turn) (id : String) :
    ReadersAgree X (s₀.after X (undisturbed turns)) id (lastStatus X s₀ id turns = some 0) ↔
      ((Database.getPeer (s₀.after X (undisturbed turns)).db id).isSome →
        lastStatus X s₀ id turns ≠ none) ∧
      (lastStatus X s₀ id turns = some 0 → Listed (s₀.after X (undisturbed turns)) id) := by
  have hP := after_synced hjson hboot (every_clean hjson hboot turns)
  rw [← lastStatus_eq hjson hboot]
  exact readersAgree_iff hnull hP id

namespace Sample

/-- A setting in which the driver decodes NULL as zero. -/
def nullSetup : Setup := { setup .offer false with nullInt := some 0 }

/-- A client registers. -/
def registers : List Turn := [.registerPk ⟨"target1", [1], [1]⟩ (.v4 ⟨10, 0, 0, 1⟩ 1000)]

/-- The server after that. -/
def oneRegistered : Server := (server []).after nullSetup (undisturbed registers)

end Sample

open Sample in
theorem blocked_agreed_iff_registers :
    ReadersAgree nullSetup oneRegistered "target1"
        (lastStatus nullSetup (server []) "target1" registers = some 0) ↔
      ((Database.getPeer oneRegistered.db "target1").isSome →
        lastStatus nullSetup (server []) "target1" registers ≠ none) ∧
      (lastStatus nullSetup (server []) "target1" registers = some 0 →
        Listed oneRegistered "target1") :=
  blocked_agreed_iff nullSetup rfl (fun _ => rfl) (server []) (server_booted []) registers "target1"

open Sample in
/-- A peer nobody ever blocked is refused as a controller, and is not blocked for the peer map. -/
theorem not_blocked_agreed :
    (Database.getPeer oneRegistered.db "target1").isSome = true ∧
      lastStatus nullSetup (server []) "target1" registers = none ∧
      alone nullSetup (isPeerBlocked "target1") oneRegistered = false ∧
      alone nullSetup (controllerPolicyRejection nullSetup "target1" none "target2") oneRegistered =
        some "controller is blocked by TBF policy" ∧
      ¬ReadersAgree nullSetup oneRegistered "target1"
        (lastStatus nullSetup (server []) "target1" registers = some 0) := by
  have hread : alone nullSetup (blockedInPolicy "target1") oneRegistered = true := by
    decide +kernel
  refine ⟨by decide +kernel, rfl, by decide +kernel, by decide +kernel, fun h => ?_⟩
  cases h.blockedInPolicy.1 hread

end NemoServer
