import NemoServer.Laws.FailClosed

/-!
# Direct endpoints and the controller gate

A poll tells a controller the direct addresses its composed policy lets it dial. The gate of hbbs
reads the policy that is stored for the machine, and its status. The two agree exactly if the
stored policy lets the controller out to every machine whose address the composed one discloses.
-/

set_option autoImplicit false

namespace NemoServer

open Prog Management Str

variable (X : Setup)

/-- The answer of a handler in the state `s`. -/
abbrev answerIn {α : Type} (s : Server) (p : Handler α) : α := p.answer (Op.sem X) s

/-- Every operation answered as it would in the state `s`. -/
def AnswersAs (s : Server) (calls : Past) : Prop :=
  ∀ x ∈ calls, (Op.sem X x.op x.pre).1 = (Op.sem X x.op s).1

/-- The gate lets a controller that has proven itself out to the target. -/
def Gated (s : Server) (sourceId targetId : String) : Prop :=
  answerIn X s (controllerPolicyRejection X sourceId none targetId) = none

/-- The user a poll is made for: the session of its token, if the user is enabled and the session
may be spent from this machine. -/
def pollingUser (s : Server) (request : ClientPolicyRequest) : Option Session :=
  let proof := answerIn X s (verifyDeviceKey X request)
  (answerIn X s (enabledSession (resolveAccessToken X request))).filter fun t =>
    sessionDeviceBindingOk t.deviceKeyPub (if proof.ok then request.deviceKeyPub else none)

/-- The outbound targets of the composed policy: those of the user, or of the device where nobody
is signed in, over the defaults. -/
def composedTargets (s : Server) (peer : RegisteredPeer) (user : Option Session) : Option String :=
  let base := withOptions s.api.globalPolicy fun options =>
    applyApiTlsDefaults options s.api.certInfo
  (answerIn X s (identityPolicy X peer user base)).options.lookup optionNemoOutboundTargets

/-- The controller is registered and not blocked, and the policy stored for it lets it out to the
target. -/
def LetsOut (s : Server) (sourceId targetId : String) : Prop :=
  trim sourceId ≠ "" ∧ ∃ source,
    Database.getRegisteredPeer X s.db (trim sourceId) = some source ∧ source.status ≠ some 0 ∧
    (managementPolicyFromPeer X source.managementPolicy).options.lookup optionNemoOutboundEnabled ≠
      some "N" ∧
    targetAllowedByControllerPolicy ((managementPolicyFromPeer X source.managementPolicy).options.lookup
      optionNemoOutboundTargets) targetId = true

/-- A configured endpoint of a machine that is not blocked and that the composed policy of the poll
allows. -/
def Dialable (s : Server) (request : ClientPolicyRequest) (e : String × String) : Prop :=
  e ∈ s.api.peerEndpoints ∧ e.1 ∉ blockedIds X s ∧
    ∀ peer, Database.getRegisteredPeer X s.db request.id = some peer →
      targetAllowedByControllerPolicy (composedTargets X s peer (pollingUser X s request)) e.1 = true

variable {X}

/-! ## The gate -/

/-- When a registered controller that has proven itself passes. -/
theorem registeredRejection_eq_none {source : RegisteredPeer} {targetId : String} :
    registeredRejection X source none targetId = none ↔ source.status ≠ some 0 ∧
      (managementPolicyFromPeer X source.managementPolicy).options.lookup
        optionNemoOutboundEnabled ≠ some "N" ∧
      targetAllowedByControllerPolicy
        ((managementPolicyFromPeer X source.managementPolicy).options.lookup
          optionNemoOutboundTargets) targetId = true := by
  simp only [registeredRejection, Option.any_none, Bool.false_eq_true, if_false]
  generalize (managementPolicyFromPeer X source.managementPolicy).options = options
  by_cases hstatus : source.status = some 0
  · simp [hstatus]
  · have hany : (options.lookup optionNemoOutboundEnabled).any (· == "N") = true ↔
        options.lookup optionNemoOutboundEnabled = some "N" := by
      cases options.lookup optionNemoOutboundEnabled with
      | none => simp
      | some v => simp
    by_cases hout : options.lookup optionNemoOutboundEnabled = some "N"
    · simp [hstatus, hout]
    · simp only [if_neg hstatus, if_neg (hany.not.2 hout)]
      simp [hstatus, hout]

theorem gated_iff {s : Server} (hup : s.dbUp = true) {sourceId targetId : String} :
    Gated X s sourceId targetId ↔ LetsOut X s sourceId targetId := by
  unfold Gated LetsOut controllerPolicyRejection
  by_cases hempty : trim sourceId = ""
  · simp [hempty]
  · simp only [if_neg hempty, answer_bind, perform, Prog.op, answer_call, answer_ret, Op.sem,
      Server.query, hup, if_true]
    cases hsource : Database.getRegisteredPeer X s.db (trim sourceId) with
    | none => simp
    | some source =>
      simp only [pure_def, answer_ret, registeredRejection_eq_none, Option.some.injEq,
        exists_eq_left', hempty, ne_eq, not_false_eq_true, true_and]

/-! ## The composition -/

theorem getRegisteredPeer_id {db : List Row} {id : String} {peer : RegisteredPeer}
    (h : Database.getRegisteredPeer X db id = some peer) : peer.id = id := by
  obtain ⟨row, hrow, rfl⟩ := Option.map_eq_some_iff.1 h
  change row.id = id
  simpa using List.find?_some hrow

theorem answer_pollingPeer {s : Server} {request : ClientPolicyRequest} {peer : RegisteredPeer}
    (h : answerIn X s (pollingPeer X request) = .ok peer) :
    s.dbUp = true ∧ Database.getRegisteredPeer X s.db request.id = some peer := by
  unfold pollingPeer at h
  cases hup : s.dbUp with
  | false =>
    simp only [answer_bind, perform, Prog.op, answer_call, answer_ret, Op.sem, Server.query, hup,
      Bool.false_eq_true, if_false] at h
    cases h
  | true =>
    simp only [answer_bind, perform, Prog.op, answer_call, answer_ret, Op.sem, Server.query, hup,
      if_true] at h
    refine ⟨rfl, ?_⟩
    cases hpeer : Database.getRegisteredPeer X s.db request.id with
    | none =>
      rw [hpeer] at h
      cases h
    | some peer' =>
      rw [hpeer] at h
      simp only [pure_def, answer_ret] at h
      cases hvalid : validateClientPolicyRequest X peer' request with
      | error e =>
        rw [hvalid] at h
        cases h
      | ok u =>
        rw [hvalid] at h
        exact congrArg some (Except.ok.inj h)

theorem answer_policyLists {s : Server} (hup : s.dbUp = true) (targets : Option String) :
    (answerIn X s (policyLists targets)).endpoints =
      dialable (blockedIds X s) targets s.api.peerEndpoints := by
  simp only [answerIn, policyLists, listBlockedIds, peerKeyMap, directEndpointMap, answer_bind,
    perform, Prog.op, answer_call, answer_ret, Op.sem, Server.query, hup, if_true, pure_def]
  rfl

/-- The flags every client must learn leave the outbound targets as they are. -/
theorem lookup_flags (policy : ManagementPolicy) (requireLogin : Bool) (abVersion : String) :
    (withOptions (withOptions policy (if requireLogin then insertOption "nemo-require-login" "Y"
      else removeOption "nemo-require-login")) (insertOption "nemo-ab-version" abVersion)).options.lookup
        optionNemoOutboundTargets = policy.options.lookup optionNemoOutboundTargets := by
  simp only [withOptions]
  rw [lookup_insertOption (by decide)]
  cases requireLogin with
  | true => exact lookup_insertOption (by decide) _ _
  | false => exact lookup_removeOption (by decide) _

/-- The peer a policy is composed for, and the endpoints it discloses. -/
theorem answer_composePolicy {s : Server} {request : ClientPolicyRequest} {c : Composed}
    (h : answerIn X s (composePolicy X request) = .ok c) : s.dbUp = true ∧
      Database.getRegisteredPeer X s.db request.id = some c.peer ∧
      c.lists.endpoints = dialable (blockedIds X s)
        (composedTargets X s c.peer (pollingUser X s request)) s.api.peerEndpoints := by
  simp only [answerIn, composePolicy, answer_bind] at h
  cases hpeer : (pollingPeer X request).answer (Op.sem X) s with
  | error e =>
    rw [hpeer] at h
    cases h
  | ok peer =>
    obtain ⟨hup, hrow⟩ := answer_pollingPeer hpeer
    rw [hpeer] at h
    simp only [answer_bind] at h
    split at h
    · cases h
    · simp only [answer_bind, pure_def, answer_ret, Except.ok.injEq] at h
      obtain rfl := h
      refine ⟨hup, hrow, ?_⟩
      change (answerIn X s (policyLists _)).endpoints = _
      rw [answer_policyLists hup, lookup_flags]
      rfl

/-- The endpoints a policy discloses. -/
theorem mem_endpoints {s : Server} {request : ClientPolicyRequest} {c : Composed}
    (h : answerIn X s (composePolicy X request) = .ok c) (e : String × String) :
    e ∈ c.lists.endpoints ↔ Dialable X s request e := by
  obtain ⟨-, hrow, hends⟩ := answer_composePolicy h
  rw [hends]
  unfold dialable Dialable
  rw [List.mem_mergeSort, List.mem_filter, Bool.and_eq_true, hrow]
  simp

namespace Sample

/-- Two machines, and the direct address of the second; the first may be blocked. -/
def directServer (status : Option ℤ) : Server := { server [] with
  db := [⟨0, "source1", [1], [1], "", status, none, none⟩,
    ⟨1, "target1", [2], [2], "", none, none, none⟩]
  api := { (server []).api with peerEndpoints := [("target1", "203.0.113.5:21118")] } }

/-- The poll of the first machine. -/
def directPoll : ClientPolicyRequest :=
  ⟨"source1", textOfBytes [1], none, none, none, none, none⟩

theorem directPoll_exec (status : Option ℤ)
    (h : (answerIn (setup .offer false) (directServer status)
      (composePolicy (setup .offer false) directPoll)).isOk = true) : ∃ new c,
      (composePolicy (setup .offer false) directPoll).Exec (Op.sem (setup .offer false)) []
        (new ++ []) (.ok c) ∧ AnswersAs (setup .offer false) (directServer status) new := by
  obtain ⟨new, -, he, hpre⟩ := exec_solo (Op.sem (setup .offer false))
    (fun _ _ => directServer status) (composePolicy (setup .offer false) directPoll) []
    (directServer status)
  have hs : AnswersAs (setup .offer false) (directServer status) new := by
    intro x hx
    obtain ⟨-, -, heq⟩ := hpre x hx
    rw [heq]
  have hanswer := he.eq_answer hs
  rw [hanswer] at he
  unfold answerIn at h
  cases hres : (composePolicy (setup .offer false) directPoll).answer (Op.sem (setup .offer false))
      (directServer status) with
  | error e =>
    rw [hres] at h
    cases h
  | ok c =>
    rw [hres] at he
    exact ⟨new, c, he, hs⟩

/-- The first machine may dial the second as far as its composed policy goes. -/
theorem direct_dialable (status : Option ℤ) : Dialable (setup .offer false) (directServer status)
    directPoll ("target1", "203.0.113.5:21118") := by
  refine ⟨List.mem_cons_self, fun hmem => ?_, fun peer hpeer => ?_⟩
  · simp only [blockedIds, Database.listRegisteredPeers, List.drop_zero, List.mem_map,
      List.mem_filter] at hmem
    obtain ⟨q, ⟨⟨row, hrow, rfl⟩, hblocked⟩, hid⟩ := hmem
    have hmem := List.mem_mergeSort.1 (List.mem_of_mem_take hrow)
    simp only [directServer, List.mem_cons, List.not_mem_nil, or_false] at hmem
    obtain rfl | rfl := hmem
    · change "source1" = "target1" at hid
      exact absurd hid (by decide)
    · exact absurd hblocked (by decide)
  · obtain rfl : peer = ⟨"source1", [1], [1], status, none⟩ := by
      simp only [Database.getRegisteredPeer, Database.getPeer, directServer, directPoll] at hpeer
      cases status with
      | none => exact (Option.some.inj hpeer).symm
      | some n => exact (Option.some.inj hpeer).symm
    rfl

end Sample

end NemoServer
