import Mathlib.Data.List.Forall2
import NemoServer.Laws.Unsealed
import NemoServer.Management.PolicyRoutes

/-!
# Which routes mask secrets

Two servers that differ only in which texts their secrets are, none of them empty, are asked the
same by an operator. The routes that mask secrets answer alike. Five of the routes do not, and these
answer alike exactly if the secrets they show are the same: they show them as they are stored.
-/

set_option autoImplicit false

namespace NemoServer

namespace Management

open Prog Str

variable {X : Setup}

/-- Values a mask does not tell apart. -/
def Undisclosed (v v' : String) : Prop := v = v' ∨ v ≠ "" ∧ v' ≠ ""

/-- The policy of a peer, as every reader of the row has it. -/
def PolicyAlike (X : Setup) (text text' : Option String) : Prop :=
  Alike Undisclosed (managementPolicyFromPeer X text) (managementPolicyFromPeer X text')

/-- Two servers that differ only in the texts of secrets that are not empty. -/
abbrev Masked (X : Setup) : Server → Server → Prop := AlikeServer X Undisclosed (PolicyAlike X)

/-! ## Masks -/

/-- An option as it is answered, where the values under `keys` are masked. -/
def maskIn (keys : List String) (o : String × String) : String × String :=
  if o.1 ∈ keys ∧ o.2 ≠ "" then (o.1, managedSecretMask) else o

theorem foldl_maskOption (keys : List String) (options : List (String × String)) :
    keys.foldl (fun os key => maskOption key os) options = options.map (maskIn keys) := by
  induction keys generalizing options with
  | nil =>
    have hid : maskIn [] = id := by
      funext o
      simp [maskIn]
    rw [hid, List.map_id, List.foldl_nil]
  | cons key keys ih =>
    rw [List.foldl_cons, ih, maskOption, List.map_map]
    refine List.map_congr_left fun o _ => ?_
    dsimp only [Function.comp_apply, maskIn]
    by_cases ho : o.1 = key ∧ o.2 ≠ ""
    · have hmem : o.1 ∈ key :: keys := List.mem_cons.2 (.inl ho.1)
      rw [if_pos ho, if_pos (c := o.1 ∈ key :: keys ∧ o.2 ≠ "") ⟨hmem, ho.2⟩]
      split <;> rfl
    · rw [if_neg ho]
      refine if_congr ⟨fun h => ⟨List.mem_cons_of_mem _ h.1, h.2⟩, fun h => ⟨?_, h.2⟩⟩ rfl rfl
      exact (List.mem_cons.1 h.1).resolve_left fun hkey => ho ⟨hkey, h.2⟩

theorem AlikeOption.mask {o o' : String × String} (h : AlikeOption Undisclosed o o') :
    maskIn secretPolicyKeys o = maskIn secretPolicyKeys o' := by
  by_cases hkey : o.1 ∈ secretPolicyKeys
  · obtain heq | ⟨hne, hne'⟩ := h.secret hkey
    · rw [Prod.ext h.key heq]
    · have hkey' : o'.1 ∈ secretPolicyKeys := h.key ▸ hkey
      rw [maskIn, maskIn, if_pos ⟨hkey, hne⟩, if_pos ⟨hkey', hne'⟩, h.key]
  · rw [Prod.ext h.key (h.value hkey)]

/-- A mask does not tell policies apart that are alike. -/
theorem Alike.mask {policy policy' : ManagementPolicy} (h : Alike Undisclosed policy policy') :
    maskSecretPolicy policy = maskSecretPolicy policy' := by
  obtain ⟨override, options⟩ := policy
  obtain ⟨override', options'⟩ := policy'
  obtain ⟨hoverride, hoptions⟩ := h
  dsimp only at hoverride hoptions
  have hmap : options.map (maskIn secretPolicyKeys) = options'.map (maskIn secretPolicyKeys) := by
    induction hoptions with
    | nil => rfl
    | cons ho _ ih => rw [List.map_cons, List.map_cons, ho.mask, ih]
  unfold maskSecretPolicy withOptions
  dsimp only
  rw [foldl_maskOption, foldl_maskOption, hmap, hoverride]

/-! ## What masks stand for -/

theorem lookup_removeOption_self (key : String) (options : List (String × String)) :
    (removeOption key options).lookup key = none := by
  unfold removeOption
  induction options with
  | nil => rfl
  | cons o options ih =>
    by_cases ho : o.1 = key
    · rw [List.filter_cons_of_neg (by simp [ho]), ih]
    · have hne : (key == o.1) = false := beq_eq_false_iff_ne.2 fun h => ho h.symm
      rw [List.filter_cons_of_pos (by simp [ho]), List.lookup_cons, hne, ih]

theorem lookup_restoreOption {key key' : String} (h : key' ≠ key) (current : ManagementPolicy)
    (options : List (String × String)) :
    (restoreOption current options key).lookup key' = options.lookup key' := by
  unfold restoreOption
  split
  · split
    · exact lookup_insertOption h _ _
    · exact lookup_removeOption h _
  · rfl

theorem lookup_restoreOption_self (key : String) (current : ManagementPolicy)
    (options : List (String × String)) :
    (restoreOption current options key).lookup key =
      if options.lookup key = some managedSecretMask then current.options.lookup key
      else options.lookup key := by
  unfold restoreOption
  split
  · split
    · next v hv => rw [lookup_insertOption_self, hv]
    · next hv => rw [lookup_removeOption_self, hv]
  · rfl

/-- Each mask of the request is looked up once, whatever was put for the others. -/
theorem lookup_restored {keys : List String} (hkeys : keys.Nodup) (current : ManagementPolicy)
    (options : List (String × String)) (key : String) :
    (keys.foldl (restoreOption current) options).lookup key =
      if key ∈ keys ∧ options.lookup key = some managedSecretMask then current.options.lookup key
      else options.lookup key := by
  induction keys generalizing options with
  | nil => simp
  | cons k keys ih =>
    obtain ⟨hk, hkeys⟩ := List.nodup_cons.1 hkeys
    rw [List.foldl_cons, ih hkeys]
    by_cases hkey : key = k
    · subst hkey
      rw [if_neg fun h => hk h.1, lookup_restoreOption_self]
      exact if_congr ⟨fun h => ⟨List.mem_cons_self, h⟩, And.right⟩ rfl rfl
    · rw [lookup_restoreOption hkey]
      refine if_congr (and_congr_left fun _ => ?_) rfl rfl
      rw [List.mem_cons, or_iff_right hkey]

/-- The request is completed alike by policies with the same values where it has masks. -/
theorem restored_congr {keys : List String} (hkeys : keys.Nodup) {current current' : ManagementPolicy}
    (options : List (String × String))
    (h : ∀ key ∈ keys, options.lookup key = some managedSecretMask →
      current.options.lookup key = current'.options.lookup key) :
    keys.foldl (restoreOption current) options = keys.foldl (restoreOption current') options := by
  induction keys generalizing options with
  | nil => rfl
  | cons k keys ih =>
    obtain ⟨hk, hkeys⟩ := List.nodup_cons.1 hkeys
    have hhead : restoreOption current options k = restoreOption current' options k := by
      unfold restoreOption
      split
      · next hmask => rw [h k List.mem_cons_self hmask]
      · rfl
    rw [List.foldl_cons, List.foldl_cons, hhead]
    refine ih hkeys _ fun key hkey hmask => h key (List.mem_cons_of_mem _ hkey) ?_
    have hne : key ≠ k := by
      rintro rfl
      exact hk hkey
    rwa [lookup_restoreOption hne] at hmask

theorem secretPolicyKeys_nodup : secretPolicyKeys.Nodup := by decide

/-- What is stored under a secret that the request leaves masked decides what is saved. -/
theorem restoreMaskedSecretsFrom_eq_iff {policy current current' : ManagementPolicy} :
    restoreMaskedSecretsFrom policy current = restoreMaskedSecretsFrom policy current' ↔
      ∀ key ∈ secretPolicyKeys, policy.options.lookup key = some managedSecretMask →
        current.options.lookup key = current'.options.lookup key := by
  constructor
  · intro heq key hkey hmask
    have hlookup := congrArg (fun p : ManagementPolicy => p.options.lookup key) heq
    simp only [restoreMaskedSecretsFrom, withOptions] at hlookup
    rw [lookup_restored secretPolicyKeys_nodup, lookup_restored secretPolicyKeys_nodup,
      if_pos ⟨hkey, hmask⟩, if_pos ⟨hkey, hmask⟩] at hlookup
    exact hlookup
  · intro h
    unfold restoreMaskedSecretsFrom withOptions
    dsimp only
    rw [restored_congr secretPolicyKeys_nodup policy.options h]

section Restored

variable {V : String → String → Prop}

theorem AlikeOptions.lookup {options options' : List (String × String)}
    (h : AlikeOptions V options options') {key : String} (hkey : key ∈ secretPolicyKeys) :
    Option.Rel V (options.lookup key) (options'.lookup key) := by
  induction h with
  | nil => exact .none
  | @cons o o' options options' ho _ ih =>
    rw [List.lookup_cons, List.lookup_cons, ← ho.key]
    cases hk : key == o.1 with
    | true =>
      have heq : key = o.1 := beq_iff_eq.1 hk
      exact .some (ho.secret (heq ▸ hkey))
    | false => exact ih

theorem AlikeOptions.remove {options options' : List (String × String)}
    (h : AlikeOptions V options options') (key : String) :
    AlikeOptions V (removeOption key options) (removeOption key options') := by
  unfold removeOption
  induction h with
  | nil => exact .nil
  | @cons o o' options options' ho _ ih =>
    rw [List.filter_cons, List.filter_cons, ← ho.key]
    split
    · exact .cons ho ih
    · exact ih

/-- Alike requests, with the same masks, are completed alike by alike policies. -/
theorem AlikeOptions.restored {keys : List String} (hkeys : keys.Nodup)
    (hsecret : keys ⊆ secretPolicyKeys) {current current' : ManagementPolicy}
    (hcurrent : AlikeOptions V current.options current'.options)
    {options options' : List (String × String)} (h : AlikeOptions V options options')
    (hmasks : ∀ key ∈ keys, options.lookup key = options'.lookup key) :
    AlikeOptions V (keys.foldl (restoreOption current) options)
      (keys.foldl (restoreOption current') options') := by
  induction keys generalizing options options' with
  | nil => exact h
  | cons k keys ih =>
    obtain ⟨hk, hkeys⟩ := List.nodup_cons.1 hkeys
    have hksecret : k ∈ secretPolicyKeys := hsecret List.mem_cons_self
    rw [List.foldl_cons, List.foldl_cons]
    refine ih hkeys (fun key hkey => hsecret (List.mem_cons_of_mem _ hkey)) ?_ fun key hkey => ?_
    · have hvalue := hcurrent.lookup hksecret
      unfold restoreOption
      rw [← hmasks k List.mem_cons_self]
      split
      · generalize current.options.lookup k = v, current'.options.lookup k = v' at hvalue
        cases hvalue with
        | none => exact h.remove k
        | some hv => exact .cons ⟨rfl, fun hnot => absurd hksecret hnot, fun _ => hv⟩ (h.remove k)
      · exact h
    · have hne : key ≠ k := by
        rintro rfl
        exact hk hkey
      rw [lookup_restoreOption hne, lookup_restoreOption hne]
      exact hmasks key (List.mem_cons_of_mem _ hkey)

end Restored

theorem AlikeOptions.refl (options : List (String × String)) :
    AlikeOptions Undisclosed options options :=
  List.forall₂_same.2 fun _ _ => ⟨rfl, fun _ => rfl, fun _ => .inl rfl⟩

/-- What is saved over alike policies is alike. -/
theorem Alike.restored {current current' : ManagementPolicy} (h : Alike Undisclosed current current')
    (policy : ManagementPolicy) : Alike Undisclosed (restoreMaskedSecretsFrom policy current)
      (restoreMaskedSecretsFrom policy current') :=
  ⟨rfl, AlikeOptions.restored secretPolicyKeys_nodup (List.Subset.refl _) h.options
    (AlikeOptions.refl policy.options) fun _ _ => rfl⟩

/-! ## The routes side by side -/

/-- Operations whose answers do not show the policies stored, and that only read. -/
def readsOther : AdminOp → Bool
  | .runtimeSnapshot _ | .companyOnly | .peerEndpoint _ | .deviceKeyForPeer _
  | .pendingClaimForPeer _ | .listDeviceKeys => true
  | _ => false

theorem readsOther_sem {o : AdminOp} (h : readsOther o = true) (s : Server) :
    (o.sem X s).2 = s := by
  cases o <;> first | rfl | cases h

theorem readsOther_blind {o : AdminOp} (h : readsOther o = true) :
    Blind (AdminOp.sem X) (Masked X) o := by
  rintro s _ ⟨d, rfl, hd⟩
  rw [readsOther_sem h, readsOther_sem h]
  refine ⟨?_, d, rfl, hd⟩
  cases o <;> first | rfl | cases h

/-- A part of a route that shows no policies. -/
theorem readsOther_lockstep {α : Type} {p : AdminHandler α}
    (h : p.Uses fun o => readsOther o = true) :
    p.Lockstep (AdminOp.sem X) (Masked X) Eq p :=
  (h.mono fun _ ho => readsOther_blind ho).lockstep

/-- Rows that differ in the policy only, alike as it is read. -/
structure AlikeRegistered (X : Setup) (r r' : Row) : Prop where
  policy : PolicyAlike X r.managementPolicy r'.managementPolicy
  rest : r' = { r with managementPolicy := r'.managementPolicy }

theorem alikeRegistered {r r' : Row} (h : AlikeRow X (PolicyAlike X) r r') :
    AlikeRegistered X (Database.registeredRow X r) (Database.registeredRow X r') := by
  refine ⟨h.policy, ?_⟩
  rw [h.rest]
  rfl

theorem admin_uses {α : Type} {P : AdminOp → Prop} {o : AdminOp} {f : o.Res → AdminHandler α} :
    (admin o >>= f).Uses P ↔ P o ∧ ∀ r, (f r).Uses P := Iff.rfl

theorem lockstep_peerResponse {peer peer' : Row} (h : AlikeRegistered X peer peer') :
    (peerResponse X peer).Lockstep (AdminOp.sem X) (Masked X) Eq (peerResponse X peer') := by
  obtain ⟨hpolicy, hrest⟩ := h
  have hmask := Alike.mask hpolicy
  have hsame : peerResponse X peer' = peerResponse X peer := by
    rw [hrest]
    unfold peerResponse
    dsimp only
    rw [hmask]
  rw [hsame]
  refine readsOther_lockstep ?_
  unfold peerResponse
  refine admin_uses.2 ⟨rfl, fun runtime => admin_uses.2 ⟨rfl, fun deviceKey =>
    admin_uses.2 ⟨rfl, fun pending => ?_⟩⟩⟩
  refine uses_bind ?_ fun policy => uses_bind ?_ fun allowed =>
    admin_uses.2 ⟨rfl, fun keys => admin_uses.2 ⟨rfl, fun endpoint => trivial⟩⟩
  · unfold policyLabel
    split
    · trivial
    · split
      · trivial
      · exact admin_uses.2 ⟨rfl, fun _ => trivial⟩
  · unfold allowedForStatus
    split
    · trivial
    · split
      · trivial
      · exact admin_uses.2 ⟨rfl, fun _ => trivial⟩

theorem lockstep_peerResponses {peers peers' : List Row}
    (h : List.Forall₂ (AlikeRegistered X) peers peers') :
    (peerResponses X peers).Lockstep (AdminOp.sem X) (Masked X) Eq (peerResponses X peers') := by
  induction h with
  | nil => exact .ret rfl
  | cons hpeer _ ih =>
    refine (lockstep_peerResponse hpeer).bind ?_
    rintro response _ rfl
    refine ih.bind ?_
    rintro responses _ rfl
    exact .ret rfl

/-- The alias of a peer is no secret. -/
theorem lockstep_peerBriefs {peers peers' : List Row}
    (h : List.Forall₂ (AlikeRegistered X) peers peers') :
    (peerBriefs X peers).Lockstep (AdminOp.sem X) (Masked X) Eq (peerBriefs X peers') := by
  induction h with
  | nil => exact .ret rfl
  | @cons peer peer' peers peers' hpeer _ ih =>
    have hkey : "nemo-alias" ∉ secretPolicyKeys := by decide
    have halias : peerAlias X peer' = peerAlias X peer := by
      unfold peerAlias
      rw [(Alike.samePublic hpeer.policy).lookup hkey]
    have hid : peer'.id = peer.id := by rw [hpeer.rest]
    unfold peerBriefs
    rw [halias, hid]
    refine (readsOther_lockstep (p := admin (.runtimeSnapshot peer.id)) ⟨rfl, fun _ => trivial⟩).bind
      ?_
    rintro runtime _ rfl
    refine ih.bind ?_
    rintro briefs _ rfl
    exact .ret rfl

theorem registered_alike {s s' : Server} (h : Masked X s s') (id : String) :
    Option.Rel (Option.Rel (AlikeRegistered X)) (AdminOp.sem X (.getRegistered id) s).1
      (AdminOp.sem X (.getRegistered id) s').1 := by
  obtain ⟨d, rfl, hd⟩ := h
  have hsem : ∀ s : Server, (AdminOp.sem X (.getRegistered id) s).1 =
      if s.dbUp then some ((s.db.find? fun r => r.id == id).map (Database.registeredRow X))
      else none := fun _ => rfl
  rw [hsem, hsem, Server.dbUp_withStore]
  split
  · refine .some (forall₂_find?_map hd.rows ?_ fun _ _ => alikeRegistered)
    intro r r' hr
    rw [hr.rest]
  · exact .none

theorem listed_alike {s s' : Server} (h : Masked X s s') (limit offset : ℕ) :
    Option.Rel (List.Forall₂ (AlikeRegistered X)) (AdminOp.sem X (.listRegistered limit offset) s).1
      (AdminOp.sem X (.listRegistered limit offset) s').1 := by
  obtain ⟨d, rfl, hd⟩ := h
  have hsem : ∀ s : Server, (AdminOp.sem X (.listRegistered limit offset) s).1 =
      if s.dbUp then some ((((s.db.mergeSort (Database.listedBefore s.api.createdAt)).drop
        offset).take limit).map (Database.registeredRow X))
      else none := fun _ => rfl
  rw [hsem, hsem, Server.dbUp_withStore]
  split
  · refine .some (forall₂_page_map hd.rows ?_ (fun _ _ => alikeRegistered) limit offset)
    intro r r' q q' hr hq
    rw [hr.rest, hq.rest]
    rfl
  · exact .none

theorem lockstep_getRegistered (id : String) :
    (admin (.getRegistered id)).Lockstep (AdminOp.sem X) (Masked X)
      (Option.Rel (Option.Rel (AlikeRegistered X))) (admin (.getRegistered id)) :=
  lockstep_op (o := AdminOp.getRegistered id) (fun _ _ h => h) fun _ _ h => registered_alike h id

theorem lockstep_listRegistered (limit offset : ℕ) :
    (admin (.listRegistered limit offset)).Lockstep (AdminOp.sem X) (Masked X)
      (Option.Rel (List.Forall₂ (AlikeRegistered X))) (admin (.listRegistered limit offset)) :=
  lockstep_op (o := AdminOp.listRegistered limit offset) (fun _ _ h => h) fun _ _ h =>
    listed_alike h limit offset

theorem lockstep_listPeers (limit offset : Option ℕ) :
    (listPeers X limit offset).Lockstep (AdminOp.sem X) (Masked X) Eq
      (listPeers X limit offset) := by
  refine (lockstep_listRegistered _ _).bind fun peers peers' h => ?_
  cases h with
  | none => exact .ret rfl
  | some h =>
    refine (lockstep_peerResponses h).bind ?_
    rintro responses _ rfl
    exact readsOther_lockstep (admin_uses.2 ⟨rfl, fun _ => trivial⟩)

theorem lockstep_getPeer (id : String) :
    (getPeer X id).Lockstep (AdminOp.sem X) (Masked X) Eq (getPeer X id) := by
  refine (lockstep_getRegistered id).bind fun found found' h => ?_
  cases h with
  | none => exact .ret rfl
  | some h =>
    cases h with
    | none => exact .ret rfl
    | some h =>
      refine (lockstep_peerResponse h).bind ?_
      rintro response _ rfl
      exact .ret rfl

/-! ## What the routes answer -/

variable (X) (policyToJson : ManagementPolicy → String)

/-- What a route answers in a state, if nothing interferes. -/
def answerOf {α : Type} (p : AdminHandler α) (s : Server) : α :=
  (p.solo (AdminOp.sem X) (fun _ s => s) [] s).1

variable {X}

theorem solo_admin {α : Type} (o : AdminOp) (f : o.Res → AdminHandler α)
    (h : List (Call AdminOp Server)) (s : Server) :
    ((admin o >>= f).solo (AdminOp.sem X) (fun _ s => s) h s).1 =
      ((f (AdminOp.sem X o s).1).solo (AdminOp.sem X) (fun _ s => s) (⟨o, s⟩ :: h)
        (AdminOp.sem X o s).2).1 := rfl

theorem answerOf_lockstep {α : Type} {p p' : AdminHandler α} {s s' : Server}
    (hp : p.Lockstep (AdminOp.sem X) (Masked X) Eq p') (h : Masked X s s') :
    answerOf X p s = answerOf X p' s' :=
  (hp.solo (fun _ _ _ _ h => h) h).1

/-- The policy stored for a peer, as it is read. -/
def storedPolicy (X : Setup) (s : Server) (peerId : String) : Option ManagementPolicy :=
  ((AdminOp.sem X (.getRegistered peerId) s).1.bind id).map fun peer =>
    managementPolicyFromPeer X peer.managementPolicy

/-- What is answered about the policy of a peer. -/
theorem getPeerManagementPolicy_eq (s : Server) (peerId : String) :
    answerOf X (getPeerManagementPolicy X peerId) s =
      (AdminOp.sem X (.getRegistered peerId) s).1.elim (.error (dbFailure X)) fun found =>
        found.elim (.error peerNotFound) fun peer =>
          .ok (.managementPolicy peer.id (managementPolicyFromPeer X peer.managementPolicy)) := by
  unfold getPeerManagementPolicy
  rw [answerOf, solo_admin]
  cases (AdminOp.sem X (.getRegistered peerId) s).1 with
  | none => rfl
  | some found => cases found <;> rfl

theorem getPeerManagementPolicy_iff {s s' : Server} (h : Masked X s s') (peerId : String) :
    answerOf X (getPeerManagementPolicy X peerId) s = answerOf X (getPeerManagementPolicy X peerId) s' ↔
      storedPolicy X s peerId = storedPolicy X s' peerId := by
  have hregistered := registered_alike h peerId
  unfold storedPolicy
  rw [getPeerManagementPolicy_eq, getPeerManagementPolicy_eq]
  generalize (AdminOp.sem X (.getRegistered peerId) s).1 = found,
    (AdminOp.sem X (.getRegistered peerId) s').1 = found' at hregistered
  cases hregistered with
  | none => exact iff_of_true rfl rfl
  | some hfound =>
    cases hfound with
    | none => exact iff_of_true rfl rfl
    | @some peer peer' hpeer =>
      have hid : peer'.id = peer.id := by rw [hpeer.rest]
      simp [hid]

/-- What a save of a peer's policy answers. -/
theorem answerOf_updatePeerManagementPolicy (s : Server) (peerId : String)
    (request : ManagementPolicy) :
    answerOf X (updatePeerManagementPolicy X policyToJson peerId request) s =
      match (AdminOp.sem X (.getRegistered peerId) s).1 with
      | none => .error (dbFailure X)
      | some none => .error peerNotFound
      | some (some peer) => .ok (.managementPolicy peerId (restoreMaskedSecrets X
          (sanitizeManagementPolicy X request) peer.managementPolicy)) := by
  have hregistered : (AdminOp.sem X (.getRegistered peerId) s).1 =
      if s.dbUp then some ((s.db.find? fun r => r.id == peerId).map (Database.registeredRow X))
      else none := rfl
  have hset : ∀ policy, (AdminOp.sem X (.setPeerManagementPolicy peerId policy) s).1 =
      if s.dbUp then some (s.db.find? fun r => r.id == peerId).isSome else none := by
    intro policy
    rw [List.isSome_find?]
    simp only [AdminOp.sem, Server.query, Database.setPeerManagementPolicy]
    split <;> rfl
  have hanswer : answerOf X (updatePeerManagementPolicy X policyToJson peerId request) s =
      (AdminOp.sem X (.getRegistered peerId) s).1.elim (.error (dbFailure X)) fun existing =>
        (AdminOp.sem X (.setPeerManagementPolicy peerId (serializeManagementPolicy policyToJson
            (restoreMaskedSecrets X (sanitizeManagementPolicy X request)
              (existing.bind (·.managementPolicy))))) s).1.elim (.error (dbFailure X)) fun updated =>
          if updated then .ok (.managementPolicy peerId (restoreMaskedSecrets X
            (sanitizeManagementPolicy X request) (existing.bind (·.managementPolicy))))
          else .error peerNotFound := by
    have hstate : (AdminOp.sem X (.getRegistered peerId) s).2 = s := rfl
    unfold updatePeerManagementPolicy
    rw [answerOf, solo_admin]
    cases (AdminOp.sem X (.getRegistered peerId) s).1 with
    | none => rfl
    | some existing =>
      dsimp only
      rw [solo_admin, hstate, Option.elim_some]
      generalize (AdminOp.sem X (.setPeerManagementPolicy peerId (serializeManagementPolicy
        policyToJson (restoreMaskedSecrets X (sanitizeManagementPolicy X request)
          (existing.bind (·.managementPolicy))))) s).1 = updated
      cases updated with
      | none => rfl
      | some updated => cases updated <;> rfl
  rw [hanswer, hregistered]
  simp only [hset]
  cases s.dbUp with
  | true => cases s.db.find? fun r => r.id == peerId <;> rfl
  | false => rfl

theorem updatePeerManagementPolicy_iff {s s' : Server} (h : Masked X s s') (peerId : String)
    (request : ManagementPolicy) :
    answerOf X (updatePeerManagementPolicy X policyToJson peerId request) s =
        answerOf X (updatePeerManagementPolicy X policyToJson peerId request) s' ↔
      ∀ key ∈ secretPolicyKeys,
        (sanitizeManagementPolicy X request).options.lookup key = some managedSecretMask →
        (storedPolicy X s peerId).map (·.options.lookup key) =
          (storedPolicy X s' peerId).map (·.options.lookup key) := by
  have hregistered := registered_alike h peerId
  unfold storedPolicy
  rw [answerOf_updatePeerManagementPolicy, answerOf_updatePeerManagementPolicy]
  generalize (AdminOp.sem X (.getRegistered peerId) s).1 = found,
    (AdminOp.sem X (.getRegistered peerId) s').1 = found' at hregistered
  cases hregistered with
  | none => exact iff_of_true rfl fun _ _ _ => rfl
  | some hfound =>
    cases hfound with
    | none => exact iff_of_true rfl fun _ _ _ => rfl
    | @some peer peer' hpeer =>
      simp [restoreMaskedSecrets, restoreMaskedSecretsFrom_eq_iff]

/-! ## Users and named policies -/

theorem answerOf_putGlobalPolicy (s : Server) (request : ManagementPolicy) :
    answerOf X (putGlobalPolicy X request) s = .ok (.globalPolicy (maskSecretPolicy
      (restoreMaskedSecretsFrom (sanitizeManagementPolicy X request) s.api.globalPolicy))) := rfl

theorem answerOf_getGlobalPolicy (s : Server) : answerOf X getGlobalPolicy s =
    .ok (.globalPolicy (maskSecretPolicy s.api.globalPolicy)) := rfl

theorem answerOf_getPolicies (s : Server) :
    answerOf X getPolicies s = .ok (.policies s.cfg.policies s.cfg.devicePolicies) := rfl

theorem answerOf_putPolicies (s : Server) (policies : Table String UserManagedPolicy) :
    answerOf X (putPolicies policies) s = .ok (.policies policies
      (s.cfg.devicePolicies.retain fun _ name => (policies name).isSome)) := rfl

theorem answerOf_setDevicePolicyRoute (s : Server) (peerId : String) (policyName : Option String) :
    answerOf X (setDevicePolicyRoute peerId policyName) s =
      .ok (.policies (Integration.setDevicePolicy (trim peerId) policyName s.cfg).policies
        (Integration.setDevicePolicy (trim peerId) policyName s.cfg).devicePolicies) := rfl

theorem setDevicePolicy_policies (peerId : String) (policyName : Option String)
    (cfg : IntegrationConfig) :
    (Integration.setDevicePolicy peerId policyName cfg).policies = cfg.policies := by
  unfold Integration.setDevicePolicy
  split
  · rfl
  · split <;> rfl

theorem policies_isSome {V : String → String → Prop} {cfg cfg' : IntegrationConfig}
    (h : ∀ name, Option.Rel (AlikeManaged V) (cfg.policies name) (cfg'.policies name))
    (name : String) : (cfg.policies name).isSome = (cfg'.policies name).isSome := by
  have hname := h name
  generalize cfg.policies name = p, cfg'.policies name = p' at hname
  cases hname <;> rfl

/-- Which policy is assigned depends on which there are. -/
theorem setDevicePolicy_devicePolicies (peerId : String) (policyName : Option String)
    (cfg cfg' : IntegrationConfig)
    (hnames : ∀ name, (cfg.policies name).isSome = (cfg'.policies name).isSome)
    (hassigned : cfg.devicePolicies = cfg'.devicePolicies) :
    (Integration.setDevicePolicy peerId policyName cfg).devicePolicies =
      (Integration.setDevicePolicy peerId policyName cfg').devicePolicies := by
  unfold Integration.setDevicePolicy
  simp only [hnames, ← hassigned]
  split
  · exact hassigned
  · split <;> rfl

theorem setDevicePolicyRoute_iff {s s' : Server} (h : Masked X s s') (peerId : String)
    (policyName : Option String) : answerOf X (setDevicePolicyRoute peerId policyName) s =
      answerOf X (setDevicePolicyRoute peerId policyName) s' ↔ s.cfg.policies = s'.cfg.policies := by
  obtain ⟨d, rfl, hd⟩ := h
  rw [answerOf_setDevicePolicyRoute, answerOf_setDevicePolicyRoute, setDevicePolicy_policies,
    setDevicePolicy_policies, setDevicePolicy_devicePolicies _ _ _ (s.withStore d).cfg
      (policies_isSome hd.named) rfl]
  simp

theorem getPolicies_iff {s s' : Server} (h : Masked X s s') :
    answerOf X getPolicies s = answerOf X getPolicies s' ↔ s.cfg.policies = s'.cfg.policies := by
  obtain ⟨d, rfl, -⟩ := h
  have hassigned : (s.withStore d).cfg.devicePolicies = s.cfg.devicePolicies := rfl
  rw [answerOf_getPolicies, answerOf_getPolicies, hassigned]
  simp

theorem peerBriefs_uses (peers : List Row) :
    (peerBriefs X peers).Uses fun o => readsOther o = true := by
  induction peers with
  | nil => trivial
  | cons peer peers ih =>
    exact admin_uses.2 ⟨rfl, fun runtime => uses_bind ih fun briefs => trivial⟩

/-- A program that only reads leaves the state. -/
theorem readsOther_solo {α : Type} {p : AdminHandler α} (hp : p.Uses fun o => readsOther o = true)
    (h : List (Call AdminOp Server)) (s : Server) :
    (p.solo (AdminOp.sem X) (fun _ s => s) h s).2.2 = s :=
  hp.ends (I := fun _ s' => s' = s) rfl fun _ _ s' ho hs => (readsOther_sem ho s').trans hs

theorem answerOf_getPermissions (s : Server) : answerOf X (getPermissions X) s =
    match (AdminOp.sem X (.listRegistered 1000 0) s).1 with
    | none => .error (dbFailure X)
    | some peers => .ok (.permissions ⟨s.cfg.permissions, s.cfg.permissionsVersion,
        s.cfg.defaultTargets, s.cfg.requireLogin, s.cfg.defaultPolicyName, s.cfg.adminPolicy,
        ((peerBriefs X peers).solo (AdminOp.sem X) (fun _ s => s)
          [⟨.listRegistered 1000 0, s⟩] s).1⟩) := by
  have hstate : (AdminOp.sem X (.listRegistered 1000 0) s).2 = s := rfl
  unfold getPermissions
  rw [answerOf, solo_admin, hstate]
  cases (AdminOp.sem X (.listRegistered 1000 0) s).1 with
  | none => rfl
  | some peers =>
    dsimp only
    rw [solo_bind, readsOther_solo (peerBriefs_uses peers)]
    rfl

theorem getPermissions_iff {s s' : Server} (h : Masked X s s') :
    answerOf X (getPermissions X) s = answerOf X (getPermissions X) s' ↔ (s.dbUp = true →
      s.cfg.permissions = s'.cfg.permissions ∧ s.cfg.adminPolicy = s'.cfg.adminPolicy) := by
  have hlisted := listed_alike h 1000 0
  have hup : (AdminOp.sem X (.listRegistered 1000 0) s).1 = none ↔ s.dbUp = false := by
    rw [AdminOp.sem]
    cases s.dbUp <;> simp
  have hrest : ∃ d, s' = s.withStore d := ⟨h.choose, h.choose_spec.1⟩
  rw [answerOf_getPermissions, answerOf_getPermissions]
  generalize (AdminOp.sem X (.listRegistered 1000 0) s).1 = peers,
    (AdminOp.sem X (.listRegistered 1000 0) s').1 = peers' at hlisted hup
  cases hlisted with
  | none =>
    have hdown : s.dbUp = false := hup.1 rfl
    exact iff_of_true rfl fun hup => absurd hup (by simp [hdown])
  | @some peers peers' hpeers =>
    have hbriefs : ((peerBriefs X peers).solo (AdminOp.sem X) (fun _ s => s)
        [⟨.listRegistered 1000 0, s⟩] s).1 = ((peerBriefs X peers').solo (AdminOp.sem X)
        (fun _ s => s) [⟨.listRegistered 1000 0, s'⟩] s').1 :=
      ((lockstep_peerBriefs hpeers).solo (fun _ _ _ _ h => h) h).1
    have hdb : s.dbUp = true := by
      by_contra hdown
      cases hup.2 (by simpa using hdown)
    obtain ⟨d, rfl⟩ := hrest
    dsimp only
    rw [← hbriefs]
    simp [hdb, Server.withStore]

theorem putPermissions_iff {s s' : Server} (h : Masked X s s')
    (update : Integration.PermissionsUpdate) :
    answerOf X (putPermissions update) s = answerOf X (putPermissions update) s' ↔
      (Integration.checkPermissionsVersion update.version s.cfg.permissionsVersion = .ok () →
        update.permissions = none → s.cfg.permissions = s'.cfg.permissions) := by
  obtain ⟨d, rfl, -⟩ := h
  have hconflict : ∀ (s : Server) (e : String),
      Integration.checkPermissionsVersion update.version s.cfg.permissionsVersion = .error e →
        answerOf X (putPermissions update) s = .error ⟨409, "Conflict: " ++ e⟩ := by
    intro s e he
    unfold putPermissions
    rw [answerOf, solo_admin, AdminOp.sem, Integration.updatePermissions, he]
    rfl
  have hanswer : ∀ s : Server,
      Integration.checkPermissionsVersion update.version s.cfg.permissionsVersion = .ok () →
        answerOf X (putPermissions update) s = .ok (.permissionsPut ⟨(update.permissions.map
          (Integration.collectPermissions X)).getD s.cfg.permissions,
          Integration.nextVersion s.cfg.permissionsVersion⟩) := by
    intro s hok
    unfold putPermissions
    rw [answerOf, solo_admin, AdminOp.sem, Integration.updatePermissions, hok]
    rfl
  have hversion : (s.withStore d).cfg.permissionsVersion = s.cfg.permissionsVersion := rfl
  cases hcheck : Integration.checkPermissionsVersion update.version s.cfg.permissionsVersion with
  | error e =>
    rw [hconflict s e hcheck, hconflict _ e (hversion ▸ hcheck)]
    exact iff_of_true rfl fun hok => by cases hok
  | ok u =>
    rw [hanswer s hcheck, hanswer _ (hversion ▸ hcheck), hversion]
    cases update.permissions with
    | none => simp
    | some permissions => simp

/-- Whose entry a switch of a user answers with. -/
def userKey (X : Setup) (username : String) : String :=
  Integration.normalizeLookupUsername X (trim username)

theorem setLdapUser_iff {s s' : Server} (h : Masked X s s') (username : String) (enabled : Bool)
    (displayName email : String) :
    answerOf X (setLdapUser username enabled displayName email) s =
        answerOf X (setLdapUser username enabled displayName email) s' ↔
      (trim username ≠ "" → (s.cfg.permissions (userKey X username)).map (·.policy) =
        (s'.cfg.permissions (userKey X username)).map (·.policy)) := by
  obtain ⟨d, rfl, hd⟩ := h
  have husers : Option.Rel (AlikeUser Undisclosed) (s.cfg.permissions (userKey X username))
      (d.users (userKey X username)) := hd.users _
  have hanswer : ∀ s : Server, trim username ≠ "" →
      answerOf X (setLdapUser username enabled displayName email) s =
        .ok (.ldapUser (some ⟨true, trim username, userKey X username,
          (Integration.setUserEnabled X (trim username) enabled (trim displayName) (trim email)
            s.cfg).1.2, Integration.nextVersion s.cfg.permissionsVersion⟩)) := by
    intro s hname
    unfold setLdapUser
    rw [if_neg hname]
    rfl
  have hpermissions : (s.withStore d).cfg.permissions = d.users := rfl
  by_cases hname : trim username = ""
  · have hnone : ∀ s, answerOf X (setLdapUser username enabled displayName email) s =
        .ok (.ldapUser none) := by
      intro s
      unfold setLdapUser
      rw [if_pos hname]
      rfl
    rw [hnone, hnone]
    exact iff_of_true rfl fun h => absurd hname h
  · have hversion : (s.withStore d).cfg.permissionsVersion = s.cfg.permissionsVersion := rfl
    have htargets : (s.withStore d).cfg.defaultTargets = s.cfg.defaultTargets := rfl
    rw [hanswer s hname, hanswer _ hname, hversion, hpermissions]
    unfold Integration.setUserEnabled
    dsimp only
    rw [htargets, hpermissions]
    change _ = Except.ok (PolicyResponse.ldapUser (some ⟨_, _, _, { (d.users
      (userKey X username)).getD _ with enabled := _, displayName := _, email := _ }, _⟩)) ↔ _
    change Except.ok (PolicyResponse.ldapUser (some ⟨_, _, _, { (s.cfg.permissions
      (userKey X username)).getD _ with enabled := _, displayName := _, email := _ }, _⟩)) = _ ↔ _
    have hkey : Integration.normalizeLookupUsername X (trim username) = userKey X username := rfl
    rw [hkey]
    generalize s.cfg.permissions (userKey X username) = u, d.users (userKey X username) = u'
      at husers
    cases husers with
    | none => exact iff_of_true rfl fun _ => rfl
    | @some p p' hp =>
      obtain ⟨hpolicy, hrest⟩ := hp
      rw [hrest]
      simp [hname]

/-! ## All routes -/

/-- What a route shows unmasked is the same in two states. -/
def PolicyRoute.Agree (X : Setup) (s s' : Server) : PolicyRoute → Prop
  | .listPeers _ _ => True
  | .getPeer _ => True
  | .getPeerManagementPolicy peerId => storedPolicy X s peerId = storedPolicy X s' peerId
  | .updatePeerManagementPolicy peerId request => ∀ key ∈ secretPolicyKeys,
    (sanitizeManagementPolicy X request).options.lookup key = some managedSecretMask →
    (storedPolicy X s peerId).map (·.options.lookup key) =
      (storedPolicy X s' peerId).map (·.options.lookup key)
  | .getGlobalPolicy => True
  | .putGlobalPolicy _ => True
  | .getPolicies => s.cfg.policies = s'.cfg.policies
  | .putPolicies _ => True
  | .setDevicePolicy _ _ => s.cfg.policies = s'.cfg.policies
  | .getPermissions => s.dbUp = true →
    s.cfg.permissions = s'.cfg.permissions ∧ s.cfg.adminPolicy = s'.cfg.adminPolicy
  | .putPermissions update =>
    Integration.checkPermissionsVersion update.version s.cfg.permissionsVersion = .ok () →
      update.permissions = none → s.cfg.permissions = s'.cfg.permissions
  | .setLdapUser username _ _ _ => trim username ≠ "" →
    (s.cfg.permissions (userKey X username)).map (·.policy) =
      (s'.cfg.permissions (userKey X username)).map (·.policy)

theorem AlikeServer.globalPolicy {s s' : Server} (h : Masked X s s') :
    Alike Undisclosed s.api.globalPolicy s'.api.globalPolicy := by
  obtain ⟨d, rfl, hd⟩ := h
  exact hd.global

theorem handle_iff {s s' : Server} (h : Masked X s s') (route : PolicyRoute) :
    answerOf X (route.handle X policyToJson) s = answerOf X (route.handle X policyToJson) s' ↔
      route.Agree X s s' := by
  cases route with
  | listPeers limit offset =>
    exact iff_of_true (answerOf_lockstep (lockstep_listPeers limit offset) h) trivial
  | getPeer peerId => exact iff_of_true (answerOf_lockstep (lockstep_getPeer peerId) h) trivial
  | getPeerManagementPolicy peerId => exact getPeerManagementPolicy_iff h peerId
  | updatePeerManagementPolicy peerId request =>
    exact updatePeerManagementPolicy_iff policyToJson h peerId request
  | getGlobalPolicy =>
    refine iff_of_true ?_ trivial
    change answerOf X getGlobalPolicy s = answerOf X getGlobalPolicy s'
    rw [answerOf_getGlobalPolicy, answerOf_getGlobalPolicy, Alike.mask h.globalPolicy]
  | putGlobalPolicy request =>
    refine iff_of_true ?_ trivial
    change answerOf X (putGlobalPolicy X request) s = answerOf X (putGlobalPolicy X request) s'
    rw [answerOf_putGlobalPolicy, answerOf_putGlobalPolicy, (h.globalPolicy.restored _).mask]
  | getPolicies => exact getPolicies_iff h
  | putPolicies policies =>
    refine iff_of_true ?_ trivial
    obtain ⟨d, rfl, -⟩ := h
    rfl
  | setDevicePolicy peerId policyName => exact setDevicePolicyRoute_iff h peerId policyName
  | getPermissions => exact getPermissions_iff h
  | putPermissions update => exact putPermissions_iff h update
  | setLdapUser username enabled displayName email =>
    exact setLdapUser_iff h username enabled displayName email

/-- An operator's request is answered alike exactly if what it shows unmasked is the same. -/
theorem secrets_masked_iff (X : Setup) (policyToJson : ManagementPolicy → String)
    (headers : AdminHeaders) (token : Option String) (route : PolicyRoute) (s s' : Server)
    (h : Masked X s s') :
    answerOf X (adminRequest X policyToJson headers token route) s =
        answerOf X (adminRequest X policyToJson headers token route) s' ↔
      (requireAuth headers token = .ok () → route.Agree X s s') := by
  unfold adminRequest
  cases hauth : requireAuth headers token with
  | error e => exact iff_of_true rfl fun hok => by cases hok
  | ok u =>
    exact (handle_iff policyToJson h route).trans
      ⟨fun hagree _ => hagree, fun hagree => hagree rfl⟩

namespace Sample

open NemoServer.Sample

/-- A server with a password in its global policy and in a named one. -/
def namedServer (password : String) : Server :=
  { server [] with
    cfg := { config [] with
      policies := Table.empty.insert "office" ⟨false, [("nemo-permanent-password", password)]⟩ }
    api := { (server []).api with
      globalPolicy := ⟨false, [("nemo-permanent-password", password)]⟩ } }

theorem namedServer_masked {password password' : String} (h : password ≠ "") (h' : password' ≠ "") :
    Masked (setup .offer false) (namedServer password) (namedServer password') := by
  have hsecret : "nemo-permanent-password" ∈ secretPolicyKeys := by decide
  have hpassword : AlikeOptions Undisclosed [("nemo-permanent-password", password)]
      [("nemo-permanent-password", password')] :=
    .cons ⟨rfl, fun hnot => absurd hsecret hnot, fun _ => .inr ⟨h, h'⟩⟩ .nil
  refine ⟨(namedServer password').policyStore, rfl, ⟨rfl, hpassword⟩, ⟨rfl, .nil⟩, fun name => ?_,
    fun _ => .none, .nil⟩
  change Option.Rel _ (if name = "office" then some _ else none)
    (if name = "office" then some _ else none)
  split
  · exact .some ⟨rfl, hpassword⟩
  · exact .none

/-- The headers of an operator who has the token. -/
def operatorHeaders : AdminHeaders := ⟨some "Bearer token", none⟩

end Sample

/-- The global policy is answered masked. -/
theorem secrets_masked_global :
    answerOf (NemoServer.Sample.setup .offer false) (adminRequest (NemoServer.Sample.setup .offer false)
        (fun _ => "") Sample.operatorHeaders (some "token") .getGlobalPolicy)
        (Sample.namedServer "one") =
      answerOf (NemoServer.Sample.setup .offer false) (adminRequest
        (NemoServer.Sample.setup .offer false) (fun _ => "") Sample.operatorHeaders (some "token")
        .getGlobalPolicy) (Sample.namedServer "another") :=
  (secrets_masked_iff (NemoServer.Sample.setup .offer false) (fun _ => "") Sample.operatorHeaders
    (some "token") .getGlobalPolicy (Sample.namedServer "one") (Sample.namedServer "another")
    (Sample.namedServer_masked (by decide) (by decide))).2 fun _ => trivial

/-- The named policies are answered with their secrets. -/
theorem not_secrets_masked : ¬∀ (route : PolicyRoute) (s s' : Server),
    Masked (NemoServer.Sample.setup .offer false) s s' →
    answerOf (NemoServer.Sample.setup .offer false) (adminRequest (NemoServer.Sample.setup .offer false)
        (fun _ => "") Sample.operatorHeaders (some "token") route) s =
      answerOf (NemoServer.Sample.setup .offer false) (adminRequest
        (NemoServer.Sample.setup .offer false) (fun _ => "") Sample.operatorHeaders (some "token")
        route) s' := by
  intro h
  have hmasked : Masked (NemoServer.Sample.setup .offer false) (Sample.namedServer "one")
      (Sample.namedServer "another") := Sample.namedServer_masked (by decide) (by decide)
  have hauth : requireAuth Sample.operatorHeaders (some "token") = .ok () := by decide
  have heq := h .getPolicies _ _ hmasked
  unfold adminRequest at heq
  rw [hauth] at heq
  have hpolicies := (getPolicies_iff hmasked).1 heq
  have hoffice := congrArg (fun t : Table String UserManagedPolicy => (t "office").map (·.options))
    hpolicies
  revert hoffice
  decide +kernel

end Management

end NemoServer
