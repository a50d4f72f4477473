import NemoServer.Management.ClientPolicy
import NemoServer.Server.Sample

/-!
# The block list when reads fail

What the readers of the block flag make of a read of the database that fails. The two checks of
the peer map take an error for a peer that is not blocked (`isPeerAllowedForControl` only while
the server is not in company-only mode), and the client policy is composed with an empty block
list. Each is wrong about a blocked peer in exactly these cases.
-/

set_option autoImplicit false

namespace NemoServer

open Prog Management PeerMap

variable {X : Setup}

/-- The only row of `id` says that the peer is blocked. -/
def StoredBlocked (s : Server) (id : String) : Prop :=
  ∃ row ∈ s.db, row.id = id ∧ row.status = some 0 ∧ ∀ row' ∈ s.db, row'.id = id → row' = row

/-- A cached entry hides the row. -/
def CachedOtherwise (s : Server) (id : String) : Prop :=
  ∃ r, s.map id = some r ∧ (s.cell r).status ≠ some 0

/-- Nothing but the reachability of the database changes while the calls are made. -/
def FailuresOnly (s : Server) (calls : Past) : Prop := ∀ x ∈ calls, ∃ up, x.pre = { s with dbUp := up }

/-- A read of the row of `id` failed. -/
def ReadFailed (id : String) (calls : Past) : Prop :=
  ∃ s, ⟨.dbGetPeer id, s⟩ ∈ calls ∧ s.dbUp = false

theorem StoredBlocked.getPeer {s : Server} {id : String} (h : StoredBlocked s id) :
    ∃ row, Database.getPeer s.db id = some row ∧ row.status = some 0 := by
  obtain ⟨row, hmem, hid, hstatus, huniq⟩ := h
  have hsome : (Database.getPeer s.db id).isSome = true :=
    List.find?_isSome.2 ⟨row, hmem, by simp [hid]⟩
  obtain ⟨row', hrow'⟩ := Option.isSome_iff_exists.1 hsome
  have hid' := List.find?_some hrow'
  have hsame := huniq row' (List.mem_of_find?_eq_some hrow') (by simpa using hid')
  exact ⟨row', hrow', hsame ▸ hstatus⟩

/-! ## The peer map -/

/-- What the status of a blocked peer is read as. -/
theorem peerStatus_exec {s : Server} {id : String} (hs : StoredBlocked s id) {past new : Past}
    {status : Option (Option ℤ)} (hf : FailuresOnly s new)
    (he : (peerStatus id).Exec (Op.sem X) past (new ++ past) status) :
    (∃ r, s.map id = some r ∧ status = some (s.cell r).status ∧ ¬ReadFailed id new) ∨
      s.map id = none ∧ (status = some (some 0) ∧ ¬ReadFailed id new ∨
        status = none ∧ ReadFailed id new) := by
  unfold peerStatus getInMemory at he
  obtain ⟨s₁, he⟩ := he
  simp only [Op.sem, bind_eq, ret_bind] at he
  split at he
  · next r hr =>
    obtain ⟨s₂, hcalls, hst⟩ := he
    simp only [Op.sem] at hst
    obtain rfl : new = [⟨.readPeer r, s₂⟩, ⟨.mapGet id, s₁⟩] :=
      List.append_cancel_right hcalls
    obtain ⟨up₁, rfl⟩ := hf ⟨.mapGet id, s₁⟩ (by simp)
    obtain ⟨up₂, rfl⟩ := hf ⟨.readPeer r, s₂⟩ (by simp)
    exact .inl ⟨r, hr, hst, by simp [ReadFailed]⟩
  · next hnone =>
    obtain ⟨s₂, he⟩ := he
    simp only [Op.sem, Server.query] at he
    obtain rfl : new = [⟨.dbGetPeer id, s₂⟩, ⟨.mapGet id, s₁⟩] := by
      split at he <;> exact List.append_cancel_right he.1
    obtain ⟨up₁, rfl⟩ := hf ⟨.mapGet id, s₁⟩ (by simp)
    obtain ⟨up₂, rfl⟩ := hf ⟨.dbGetPeer id, s₂⟩ (by simp)
    obtain ⟨row, hrow, hstatus⟩ := hs.getPeer
    refine .inr ⟨hnone, ?_⟩
    cases up₂ with
    | true =>
      simp only [if_true, hrow] at he
      exact .inl ⟨by simp [he.2, hstatus], by simp [ReadFailed]⟩
    | false =>
      simp only [Bool.false_eq_true, if_false] at he
      exact .inr ⟨he.2, _, List.mem_cons_self, rfl⟩

/-- A blocked peer is found blocked, unless a cached entry says otherwise, exactly when no read
failed. -/
theorem isPeerBlocked_iff {s : Server} {id : String} (hs : StoredBlocked s id) {past new : Past}
    {blocked : Bool} (hf : FailuresOnly s new)
    (he : (isPeerBlocked id).Exec (Op.sem X) past (new ++ past) blocked) :
    blocked = true ∨ CachedOtherwise s id ↔ ¬ReadFailed id new := by
  obtain ⟨h₁, status, hstat, hh, rfl⟩ := exec_bind.1 he
  subst hh
  obtain ⟨r, hr, rfl, hno⟩ | ⟨hnone, ⟨rfl, hno⟩ | ⟨rfl, hyes⟩⟩ := peerStatus_exec hs hf hstat
  · refine iff_of_true ?_ hno
    by_cases hst : (s.cell r).status = some 0
    · exact .inl (by simp [hst])
    · exact .inr ⟨r, hr, hst⟩
  · exact iff_of_true (.inl (by simp)) hno
  · refine iff_of_false ?_ (not_not.2 hyes)
    rintro (h | ⟨r, hr, -⟩)
    · simp at h
    · rw [hnone] at hr
      cases hr

/-- A blocked peer is not allowed, unless a cached entry says otherwise, exactly when no read
failed or in company-only mode. -/
theorem isPeerAllowedForControl_iff {s : Server} {id : String} (hs : StoredBlocked s id)
    {companyOnly : Bool} {past new : Past} {allowed : Bool} (hf : FailuresOnly s new)
    (he : (isPeerAllowedForControl id companyOnly).Exec (Op.sem X) past (new ++ past) allowed) :
    allowed = false ∨ CachedOtherwise s id ↔ ¬ReadFailed id new ∨ companyOnly = true := by
  obtain ⟨h₁, status, he, hret⟩ := exec_bind.1 he
  obtain ⟨r, hr, hstatus, hno⟩ | ⟨hnone, ⟨rfl, hno⟩ | ⟨rfl, hyes⟩⟩ :
      (∃ r, s.map id = some r ∧ status = some (s.cell r).status ∧ ¬ReadFailed id new) ∨
      s.map id = none ∧ (status = some (some 0) ∧ ¬ReadFailed id new ∨
        status = none ∧ ReadFailed id new) := by
    have hh : h₁ = new ++ past := by split at hret <;> exact hret.1.symm
    exact peerStatus_exec hs hf (hh ▸ he)
  · refine iff_of_true ?_ (.inl hno)
    by_cases hst : (s.cell r).status = some 0
    · subst hstatus
      rw [hst] at hret
      exact .inl hret.2
    · exact .inr ⟨r, hr, hst⟩
  · exact iff_of_true (.inl hret.2) (.inl hno)
  · obtain ⟨-, rfl⟩ := hret
    cases companyOnly with
    | true => exact iff_of_true (.inl rfl) (.inr rfl)
    | false =>
      refine iff_of_false ?_ ?_
      · rintro (h | ⟨r, hr, -⟩)
        · cases h
        · rw [hnone] at hr
          cases hr
      · rintro (h | h)
        · exact h hyes
        · cases h

/-! ## The client policy -/

/-- The row of `id` is among those a listing covers. -/
def Listed (s : Server) (id : String) : Prop :=
  ∃ row ∈ (s.db.mergeSort (Database.listedBefore s.api.createdAt)).take registeredLimit, row.id = id

/-- The ids the block list of a server has, when it can be read. -/
def blockedIds (X : Setup) (s : Server) : List String :=
  ((Database.listRegisteredPeers X s.api.createdAt s.db registeredLimit 0).filter blockedStatus).map
    (·.id)

theorem listBlockedIds_exec {past h' : Past} {blocked : List String}
    (he : listBlockedIds.Exec (Op.sem X) past h' blocked) :
    ∃ s, h' = ⟨.dbListRegistered registeredLimit 0, s⟩ :: past ∧
      blocked = if s.dbUp then blockedIds X s else [] := by
  unfold listBlockedIds at he
  obtain ⟨s, he⟩ := he
  simp only [Op.sem, Server.query, bind_eq, ret_bind] at he
  refine ⟨s, ?_, ?_⟩
  · split at he <;> exact he.1
  · cases hup : s.dbUp with
    | true =>
      rw [hup] at he
      exact he.2
    | false =>
      rw [hup] at he
      exact he.2

theorem mem_blockedIds {s : Server} {id : String} (hs : StoredBlocked s id) :
    id ∈ blockedIds X s ↔ Listed s id := by
  obtain ⟨row, -, hid, hstatus, huniq⟩ := hs
  simp only [blockedIds, Database.listRegisteredPeers, List.drop_zero, List.mem_map,
    List.mem_filter]
  constructor
  · rintro ⟨p, ⟨⟨row', hrow', rfl⟩, -⟩, hp⟩
    exact ⟨row', hrow', hp⟩
  · rintro ⟨row', hrow', hid'⟩
    have hmem : row' ∈ s.db := List.mem_mergeSort.1 (List.mem_of_mem_take hrow')
    obtain rfl := huniq row' hmem hid'
    refine ⟨_, ⟨⟨row', hrow', rfl⟩, ?_⟩, hid'⟩
    simp [blockedStatus, Database.registeredPeerFromRow, hstatus]

theorem policyLists_exec {targets : Option String} {past h' : Past} {lists : PolicyLists}
    (he : (policyLists targets).Exec (Op.sem X) past h' lists) :
    (∃ h₁, listBlockedIds.Exec (Op.sem X) past h₁ lists.blocked ∧ h₁ <:+ h') ∧
      ∀ e ∈ lists.endpoints, e.1 ∉ lists.blocked := by
  unfold policyLists at he
  obtain ⟨h₁, blocked, hblocked, he⟩ := exec_bind.1 he
  obtain ⟨h₂, peerKeys, hkeys, he⟩ := exec_bind.1 he
  obtain ⟨h₃, endpoints, hend, he⟩ := exec_bind.1 he
  obtain ⟨rfl, rfl⟩ := he
  refine ⟨⟨h₁, hblocked, hkeys.suffix.trans hend.suffix⟩, fun e hmem => ?_⟩
  obtain ⟨s, -, rfl⟩ := hend
  exact mem_dialable hmem

/-- A policy that was composed, from the reading of its lists on. -/
theorem composePolicy_exec {request : ClientPolicyRequest} {past h' : Past} {c : Composed}
    (he : (composePolicy X request).Exec (Op.sem X) past h' (.ok c)) :
    ∃ targets h₁ h₂ policy hasEndpoint strip,
      (policyLists targets).Exec (Op.sem X) h₁ h₂ c.lists ∧ past <:+ h₁ ∧ h₂ <:+ h' ∧
      c.policy = finishPolicy c.peer hasEndpoint c.sealThis strip
        (withOptions policy (insertLists X c.lists)) := by
  unfold composePolicy at he
  obtain ⟨h₁, polled, hpolled, he⟩ := exec_bind.1 he
  split at he
  · cases he.2
  obtain ⟨h₂, proof, hproof, he⟩ := exec_bind.1 he
  obtain ⟨h₃, required, hrequired, he⟩ := exec_bind.1 he
  split at he
  · cases he.2
  obtain ⟨h₄, policy, hglobal, he⟩ := exec_bind.1 he
  obtain ⟨h₅, info, hinfo, he⟩ := exec_bind.1 he
  obtain ⟨h₆, session, hsession, he⟩ := exec_bind.1 he
  obtain ⟨h₇, requireLogin, hlogin, he⟩ := exec_bind.1 he
  obtain ⟨h₈, policy, hpolicy, he⟩ := exec_bind.1 he
  obtain ⟨h₉, abVersion, hab, he⟩ := exec_bind.1 he
  obtain ⟨h₁₀, lists, hlists, he⟩ := exec_bind.1 he
  obtain ⟨h₁₁, endpoint, hend, he⟩ := exec_bind.1 he
  obtain ⟨h₁₂, strip, hstrip, he⟩ := exec_bind.1 he
  obtain ⟨rfl, hc⟩ := he
  obtain rfl := Except.ok.inj hc
  have hpast : past <:+ h₃ := (hpolled.suffix.trans hproof.suffix).trans hrequired.suffix
  have hmid : h₃ <:+ h₆ := (hglobal.suffix.trans hinfo.suffix).trans hsession.suffix
  have hlast : h₆ <:+ h₉ := (hlogin.suffix.trans hpolicy.suffix).trans hab.suffix
  exact ⟨_, h₉, h₁₀, _, _, strip, hlists, (hpast.trans hmid).trans hlast,
    hend.suffix.trans hstrip.suffix, rfl⟩

/-- A policy that was composed holds the block list that was read for it, under its option. -/
theorem composePolicy_options {request : ClientPolicyRequest} {past h' : Past} {c : Composed}
    (he : (composePolicy X request).Exec (Op.sem X) past h' (.ok c)) :
    (c.lists.blocked ≠ [] → c.policy.options.lookup "nemo-blocked-ids" =
      some (",".intercalate c.lists.blocked)) ∧
    (c.lists.endpoints ≠ [] → c.policy.options.lookup "nemo-direct-endpoints" =
      some (";".intercalate (c.lists.endpoints.map endpointRow))) := by
  obtain ⟨targets, h₁, h₂, policy, hasEndpoint, strip, -, -, -, hpolicy⟩ := composePolicy_exec he
  rw [hpolicy, lookup_finishPolicy (by decide) (by decide) (by decide),
    lookup_finishPolicy (by decide) (by decide) (by decide)]
  exact ⟨fun h => lookup_insertLists_blocked X h _, fun h => lookup_insertLists_endpoints X h _⟩

/-- When the readers of the block flag fail closed. A blocked peer, unless a cached entry says
otherwise, is found blocked exactly when no read failed, and is not allowed exactly when no read
failed or in company-only mode; a policy that is composed keeps it in the block list and out of the
direct endpoints exactly when the block list was read, as far as a listing goes. -/
theorem block_list_closed_iff (X : Setup) :
    (∀ s id past new blocked, StoredBlocked s id → FailuresOnly s new →
      (isPeerBlocked id).Exec (Op.sem X) past (new ++ past) blocked →
      (blocked = true ∨ CachedOtherwise s id ↔ ¬ReadFailed id new)) ∧
    (∀ s id companyOnly past new allowed, StoredBlocked s id → FailuresOnly s new →
      (isPeerAllowedForControl id companyOnly).Exec (Op.sem X) past (new ++ past) allowed →
      (allowed = false ∨ CachedOtherwise s id ↔ ¬ReadFailed id new ∨ companyOnly = true)) ∧
    (∀ request past h' c, (composePolicy X request).Exec (Op.sem X) past h' (.ok c) →
      ∃ s mid, past <:+ mid ∧ (⟨.dbListRegistered registeredLimit 0, s⟩ :: mid) <:+ h' ∧
        ∀ id, StoredBlocked s id →
          ((s.dbUp = false → id ∈ c.lists.blocked ∧ ∀ e ∈ c.lists.endpoints, e.1 ≠ id) ↔
            s.dbUp = true) ∧
          (id ∈ c.lists.blocked ∧ (∀ e ∈ c.lists.endpoints, e.1 ≠ id) ↔
            s.dbUp = true ∧ Listed s id)) := by
  refine ⟨fun s id past new blocked hs hf he => isPeerBlocked_iff hs hf he,
    fun s id companyOnly past new allowed hs hf he => isPeerAllowedForControl_iff hs hf he, ?_⟩
  intro request past h' c he
  obtain ⟨targets, h₁, h₂, -, -, -, hlists, hpast, hs₂, -⟩ := composePolicy_exec he
  obtain ⟨⟨h₃, hblocked, hs₃⟩, hend⟩ := policyLists_exec hlists
  obtain ⟨s, rfl, hb⟩ := listBlockedIds_exec hblocked
  refine ⟨s, h₁, hpast, hs₃.trans hs₂, fun id hs => ?_⟩
  have hmem : id ∈ c.lists.blocked ↔ s.dbUp = true ∧ Listed s id := by
    rw [hb, ← mem_blockedIds (X := X) hs]
    cases s.dbUp <;> simp
  have hout : id ∈ c.lists.blocked → ∀ e ∈ c.lists.endpoints, e.1 ≠ id := by
    rintro hid e he rfl
    exact hend e he hid
  refine ⟨⟨fun h => ?_, fun hup hdown => ?_⟩, ⟨fun h => hmem.1 h.1, fun h => ?_⟩⟩
  · by_contra hdown
    exact hdown (hmem.1 (h (Bool.not_eq_true _ ▸ hdown)).1).1
  · rw [hup] at hdown
    cases hdown
  · exact ⟨hmem.2 h, hout (hmem.2 h)⟩

namespace Sample

/-- A database with a blocked peer and a controller. -/
def blockServer (up : Bool) : Server := { server [] with
  db := [⟨0, "target1", [1], [1], "", some 0, none, none⟩,
    ⟨1, "source1", [2], [2], "", none, none, none⟩]
  dbUp := up }

theorem target_blocked (up : Bool) : StoredBlocked (blockServer up) "target1" :=
  ⟨_, List.mem_cons_self, rfl, rfl, by simp [blockServer]⟩

/-- The database can be reached for the calls that `up` says. -/
def blockOutage (up : ℕ → Bool) (h : Past) (_ : Server) : Server := blockServer (up h.length)

theorem failuresOnly {up : ℕ → Bool} {new : Past}
    (h : ∀ x ∈ new, ∃ h' s', x.pre = blockOutage up h' s') : FailuresOnly (blockServer true) new := by
  intro x hx
  obtain ⟨h', s', hpre⟩ := h x hx
  exact ⟨up h'.length, hpre⟩

/-- The poll of the controller. -/
def poll : ClientPolicyRequest :=
  ⟨"source1", textOfBytes [2], none, none, none, none, none⟩

end Sample

open Sample in
/-- A failed read clears a blocked peer, lets it be reached, and leaves it out of a policy. -/
theorem not_block_list_closed :
    StoredBlocked (blockServer true) "target1" ∧ ¬CachedOtherwise (blockServer true) "target1" ∧
    (¬∀ new blocked, FailuresOnly (blockServer true) new →
      (isPeerBlocked "target1").Exec (Op.sem (setup .offer false)) [] (new ++ []) blocked →
      blocked = true) ∧
    (¬∀ new allowed, FailuresOnly (blockServer true) new →
      (isPeerAllowedForControl "target1" false).Exec (Op.sem (setup .offer false)) [] (new ++ [])
        allowed → allowed = false) ∧
    ¬∀ new c, FailuresOnly (blockServer true) new →
      (composePolicy (setup .offer false) poll).Exec (Op.sem (setup .offer false)) [] (new ++ [])
        (.ok c) → "target1" ∈ c.lists.blocked := by
  refine ⟨target_blocked true, ?_, fun h => ?_, fun h => ?_, fun h => ?_⟩
  · rintro ⟨r, hr, -⟩
    cases hr
  · obtain ⟨new, -, he, hst⟩ := exec_solo (Op.sem (setup .offer false))
      (blockOutage fun _ => false) (isPeerBlocked "target1") [] (blockServer true)
    exact absurd (h new _ (failuresOnly hst) he) (by decide +kernel)
  · obtain ⟨new, -, he, hst⟩ := exec_solo (Op.sem (setup .offer false))
      (blockOutage fun _ => false) (isPeerAllowedForControl "target1" false) [] (blockServer true)
    exact absurd (h new _ (failuresOnly hst) he) (by decide +kernel)
  · -- the controller is read, and then the database is gone
    obtain ⟨new, -, he, hst⟩ := exec_solo (Op.sem (setup .offer false))
      (blockOutage (· == 0)) (composePolicy (setup .offer false) poll) [] (blockServer true)
    have hempty : ((composePolicy (setup .offer false) poll).solo (Op.sem (setup .offer false))
        (blockOutage (· == 0)) [] (blockServer true)).1.toOption.map (·.lists.blocked) = some [] := by
      decide +kernel
    obtain ⟨c, hc, hblocked⟩ := Option.map_eq_some_iff.1 hempty
    cases hres : ((composePolicy (setup .offer false) poll).solo (Op.sem (setup .offer false))
        (blockOutage (· == 0)) [] (blockServer true)).1 with
    | error e =>
      rw [hres] at hc
      cases hc
    | ok c' =>
    rw [hres] at hc he
    obtain rfl := Option.some.inj hc
    have hmem := h new _ (failuresOnly hst) he
    rw [hblocked] at hmem
    cases hmem

open Sample in
/-- With the database up, the blocked peer is found blocked. -/
theorem block_list_closed_iff_up : ∃ new blocked,
    (isPeerBlocked "target1").Exec (Op.sem (setup .offer false)) [] (new ++ []) blocked ∧
      blocked = true := by
  obtain ⟨new, -, he, hst⟩ := exec_solo (Op.sem (setup .offer false))
    (blockOutage fun _ => true) (isPeerBlocked "target1") [] (blockServer true)
  have hf := failuresOnly hst
  have hno : ¬ReadFailed "target1" new := by
    rintro ⟨s, hs, hdown⟩
    obtain ⟨h', s', hpre⟩ := hst _ hs
    simp only at hpre
    rw [hpre] at hdown
    cases hdown
  obtain h | ⟨r, hr, -⟩ := ((block_list_closed_iff (setup .offer false)).1 (blockServer true)
    "target1" [] new _ (target_blocked true) hf he).2 hno
  · exact ⟨new, _, he, h⟩
  · cases hr

end NemoServer
