import Mathlib.Data.List.Forall2
import NemoServer.Management.Secrets
import NemoServer.Server.Footprint
import NemoServer.Server.Sample

/-!
# Unsealed policies tell no secrets

A poll that is answered in the clear is answered alike by two servers that differ only in the values
of secrets: `composePolicy` takes its policy from five places, puts one over the other, and its last
step takes out exactly the secrets, so that what is left depends only on what is not secret. The two
executions are followed side by side.
-/

set_option autoImplicit false

namespace NemoServer

namespace Management

open Prog Str

variable {X : Setup} {V : String → String → Prop} {T : Option String → Option String → Prop}

/-- Registered peers whose policies are related by `T`. -/
structure AlikePeer (T : Option String → Option String → Prop) (p p' : RegisteredPeer) : Prop where
  policy : T p.managementPolicy p'.managementPolicy
  rest : p' = { p with managementPolicy := p'.managementPolicy }

/-! ## Lists, element by element -/

section Lists

variable {α β : Type} {R : α → α → Prop} {l l' : List α}

/-- A sort that only looks at what related elements share keeps them side by side. -/
theorem forall₂_mergeSort {le : α → α → Bool} (h : List.Forall₂ R l l')
    (hle : ∀ a a' b b', R a a' → R b b' → le a b = le a' b') :
    List.Forall₂ R (l.mergeSort le) (l'.mergeSort le) := by
  obtain ⟨hlen, hmem⟩ := List.forall₂_iff_zip.1 h
  have hfst : (l.zip l').map Prod.fst = l := List.map_fst_zip (Nat.le_of_eq hlen)
  have hsnd : (l.zip l').map Prod.snd = l' := List.map_snd_zip (Nat.le_of_eq hlen.symm)
  have hrel : ∀ p ∈ l.zip l', R p.1 p.2 := fun p hp => hmem hp
  let lePair : α × α → α × α → Bool := fun p q => le p.1 q.1
  have hleft : ((l.zip l').mergeSort lePair).map Prod.fst = l.mergeSort le := by
    rw [List.map_mergeSort (s := le) fun _ _ _ _ => rfl, hfst]
  have hright : ((l.zip l').mergeSort lePair).map Prod.snd = l'.mergeSort le := by
    rw [List.map_mergeSort (s := le) fun p hp q hq => hle _ _ _ _ (hrel p hp) (hrel q hq), hsnd]
  rw [← hleft, ← hright, List.forall₂_map_left_iff, List.forall₂_map_right_iff, List.forall₂_same]
  exact fun p hp => hrel p (List.mem_mergeSort.1 hp)

/-- A search by what related elements share finds related ones. -/
theorem forall₂_find?_map {f : α → Bool} {g : α → β} {S : β → β → Prop} (h : List.Forall₂ R l l')
    (hf : ∀ a a', R a a' → f a = f a') (hg : ∀ a a', R a a' → S (g a) (g a')) :
    Option.Rel S ((l.find? f).map g) ((l'.find? f).map g) := by
  induction h with
  | nil => exact .none
  | @cons a a' l l' ha _ ih =>
    rw [List.find?_cons, List.find?_cons, ← hf a a' ha]
    cases f a with
    | true => exact .some (hg a a' ha)
    | false => exact ih

/-- A page of a sorted list. -/
theorem forall₂_page_map {le : α → α → Bool} {g : α → β} {S : β → β → Prop}
    (h : List.Forall₂ R l l') (hle : ∀ a a' b b', R a a' → R b b' → le a b = le a' b')
    (hg : ∀ a a', R a a' → S (g a) (g a')) (limit offset : ℕ) :
    List.Forall₂ S ((((l.mergeSort le).drop offset).take limit).map g)
      ((((l'.mergeSort le).drop offset).take limit).map g) := by
  rw [List.forall₂_map_left_iff, List.forall₂_map_right_iff]
  have hsorted := forall₂_mergeSort h hle
  exact (List.forall₂_take limit (List.forall₂_drop offset hsorted)).imp hg

/-- A list made of what related elements share. -/
theorem forall₂_map_filter {f : α → Bool} {g : α → β} (h : List.Forall₂ R l l')
    (hf : ∀ a a', R a a' → f a = f a') (hg : ∀ a a', R a a' → g a = g a') :
    (l.filter f).map g = (l'.filter f).map g := by
  induction h with
  | nil => rfl
  | @cons a a' l l' ha _ ih =>
    rw [List.filter_cons, List.filter_cons, ← hf a a' ha]
    split
    · rw [List.map_cons, List.map_cons, hg a a' ha, ih]
    · exact ih

end Lists

/-! ## The operations of a poll -/

/-- The operations of a poll that do not look at policies. -/
def looksAway : Op → Bool
  | .isDeviceKeyPinned _ | .deviceKeyBinding _ | .claimUnboundDeviceKeys | .wallClock
  | .registerPendingClaim _ _ _ | .requireDeviceKey | .certInfo | .sessionForToken _
  | .requireLogin | .abVersion | .peerEndpoints | .stripUnsealedSecrets
  | .peerTerminateBefore _ => true
  | _ => false

theorem unlooking_sessionForToken (token : String) : Unlooking X (.sessionForToken token) := by
  have hsem := sem_sessionForToken_eq (X := X) token
  refine ⟨fun s d => ?_, fun s d => ?_, fun s => ?_⟩
  · simp only [hsem, Server.clock_withStore, Server.sessions_withStore]
  · simp only [hsem, Server.withStore]
  · simp only [hsem, Server.policyStore]

theorem unlooking_registerPendingClaim (publicKey peerId via : String) :
    Unlooking X (.registerPendingClaim publicKey peerId via) := by
  have hsem : ∀ s : Server, Op.sem X (.registerPendingClaim publicKey peerId via) s =
      s.registerPendingClaim X publicKey peerId via := fun _ => rfl
  refine ⟨fun s d => ?_, fun s d => ?_, fun s => ?_⟩
  · simp only [hsem, Server.registerPendingClaim, Server.deviceKeys_withStore,
      Server.pendingClaims_withStore, Server.clock_withStore]
    split <;> rfl
  · simp only [hsem, Server.registerPendingClaim, Server.deviceKeys_withStore,
      Server.pendingClaims_withStore, Server.clock_withStore]
    split <;> simp only [Server.withStore]
  · simp only [hsem, Server.registerPendingClaim]
    split <;> simp only [Server.policyStore]

theorem unlooking {o : Op} (h : looksAway o = true) : Unlooking X o := by
  cases o with
  | sessionForToken token => exact unlooking_sessionForToken token
  | registerPendingClaim publicKey peerId via => exact unlooking_registerPendingClaim _ _ _
  | isDeviceKeyPinned _ | deviceKeyBinding _ | claimUnboundDeviceKeys | wallClock
  | requireDeviceKey | certInfo | requireLogin | abVersion | peerEndpoints
  | stripUnsealedSecrets | peerTerminateBefore _ =>
    exact ⟨fun _ _ => rfl, fun _ _ => rfl, fun _ => rfl⟩
  | _ => cases h

/-- Alike states in which secrets are stripped from what is not sealed. -/
def Stripping (X : Setup) (V : String → String → Prop) (T : Option String → Option String → Prop)
    (s s' : Server) : Prop :=
  AlikeServer X V T s s' ∧ s.cfg.stripUnsealedSecrets = true

theorem looksAway_strip {o : Op} (h : looksAway o = true) (s : Server) :
    (o.sem X s).2.cfg.stripUnsealedSecrets = s.cfg.stripUnsealedSecrets := by
  cases o with
  | sessionForToken token => simp only [Op.sem]
  | registerPendingClaim publicKey peerId via =>
    simp only [Op.sem, Server.registerPendingClaim]
    split <;> rfl
  | isDeviceKeyPinned _ | deviceKeyBinding _ | claimUnboundDeviceKeys | wallClock
  | requireDeviceKey | certInfo | requireLogin | abVersion | peerEndpoints
  | stripUnsealedSecrets | peerTerminateBefore _ => rfl
  | _ => cases h

theorem looksAway_blind {o : Op} (h : looksAway o = true) :
    Blind (Op.sem X) (Stripping X V T) o := by
  rintro s s' ⟨hs, hstrip⟩
  obtain ⟨hanswer, hstate⟩ := (unlooking h).blind s s' hs
  exact ⟨hanswer, hstate, (looksAway_strip h s).trans hstrip⟩

/-- A part of a poll that does not look at policies. -/
theorem looksAway_lockstep {α : Type} {p : Handler α} (h : p.Uses fun o => looksAway o = true) :
    p.Lockstep (Op.sem X) (Stripping X V T) Eq p :=
  (h.mono fun _ ho => looksAway_blind ho).lockstep

/-- An operation that only reads. -/
theorem lockstep_read {o : Op} {Q : o.Res → o.Res → Prop} (hread : ∀ s, (o.sem X s).2 = s)
    (hQ : ∀ s d, AlikeStore X V T s.policyStore d → Q (o.sem X s).1 (o.sem X (s.withStore d)).1) :
    (perform o).Lockstep (Op.sem X) (Stripping X V T) Q (perform o) := by
  refine lockstep_op (fun s s' hs => ?_) fun s s' hs => ?_
  · rw [hread, hread]
    exact hs
  · obtain ⟨⟨d, rfl, hd⟩, -⟩ := hs
    exact hQ s d hd

theorem lockstep_globalPolicy : (perform .globalPolicy).Lockstep (Op.sem X) (Stripping X V T)
    (Alike V) (perform .globalPolicy) :=
  lockstep_read (o := .globalPolicy) (Q := Alike V) (fun _ => rfl) fun _ _ hd => hd.global

/-- Whether a user is enabled does not depend on a policy. -/
theorem lockstep_userIsEnabled (username : String) : (perform (.userIsEnabled username)).Lockstep
    (Op.sem X) (Stripping X V T) Eq (perform (.userIsEnabled username)) := by
  refine lockstep_read (o := .userIsEnabled username) (fun _ => rfl) fun s d hd => ?_
  let key := Integration.normalizeLookupUsername X username
  have husers : Option.Rel (AlikeUser V) (s.cfg.permissions key) (d.users key) := hd.users key
  have hsem : ∀ s : Server, (Op.sem X (.userIsEnabled username) s).1 =
      (s.cfg.permissions key).elim false (·.enabled) := by
    intro s
    show Integration.userIsEnabled X s.cfg username = _
    unfold Integration.userIsEnabled
    cases s.cfg.permissions key <;> rfl
  have hstored : (s.withStore d).cfg.permissions key = d.users key := rfl
  rw [hsem, hsem, hstored]
  generalize s.cfg.permissions key = u, d.users key = u' at husers
  cases husers with
  | some h =>
    rw [h.rest]
    rfl
  | none => rfl

theorem namedPolicy_alike (cfg cfg' : IntegrationConfig) (name : Option String)
    (h : ∀ name, Option.Rel (AlikeManaged V) (cfg.policies name) (cfg'.policies name)) :
    Option.Rel (AlikeManaged V) (Integration.namedPolicy cfg name)
      (Integration.namedPolicy cfg' name) := by
  unfold Integration.namedPolicy
  cases name.filter (· != "") with
  | none => exact .none
  | some name => exact h name

/-- The policy of a user is chosen alike, and is alike. -/
theorem lockstep_userPolicy (username : String) : (perform (.userPolicy username)).Lockstep
    (Op.sem X) (Stripping X V T) (AlikeManaged V) (perform (.userPolicy username)) := by
  refine lockstep_read (o := .userPolicy username) (fun _ => rfl) fun s d hd => ?_
  let key := Integration.normalizeLookupUsername X username
  have husers : Option.Rel (AlikeUser V) (s.cfg.permissions key) (d.users key) := hd.users key
  have hnamed := fun name => namedPolicy_alike s.cfg (s.withStore d).cfg name
    hd.named
  change AlikeManaged V (Integration.userPolicy X s.cfg username)
    (Integration.userPolicy X (s.withStore d).cfg username)
  have hstored : (s.withStore d).cfg.permissions key = d.users key := rfl
  unfold Integration.userPolicy
  rw [show Integration.normalizeLookupUsername X username = key from rfl, hstored]
  generalize s.cfg.permissions key = u, d.users key = u' at husers
  cases husers with
  | none => exact ⟨rfl, .nil⟩
  | @some p p' hp =>
    obtain ⟨hpolicy, hrest⟩ := hp
    generalize p'.policy = q at hpolicy hrest
    subst hrest
    dsimp only
    split
    · exact ⟨rfl, hd.admin.options⟩
    · have hown := hnamed p.policyName
      generalize Integration.namedPolicy s.cfg p.policyName = n,
        Integration.namedPolicy (s.withStore d).cfg p.policyName = n' at hown
      cases hown with
      | some h => exact h
      | none =>
        -- of the two policies, one is empty exactly if the other is
        have hempty : p.policy.options = [] ↔ q.options = [] := by
          rw [← List.length_eq_zero_iff, ← List.length_eq_zero_iff, hpolicy.options.length_eq]
        dsimp only
        rw [if_congr hempty rfl rfl]
        split
        · have hdefault := hnamed s.cfg.defaultPolicyName
          change AlikeManaged V ((Integration.namedPolicy s.cfg s.cfg.defaultPolicyName).getD _)
            ((Integration.namedPolicy (s.withStore d).cfg s.cfg.defaultPolicyName).getD _)
          generalize Integration.namedPolicy s.cfg s.cfg.defaultPolicyName = n,
            Integration.namedPolicy (s.withStore d).cfg s.cfg.defaultPolicyName = n' at hdefault
          cases hdefault with
          | some h => exact h
          | none => exact hpolicy
        · exact hpolicy

/-- The policy assigned to a device. -/
theorem lockstep_devicePolicy (peerId : String) : (perform (.devicePolicy peerId)).Lockstep
    (Op.sem X) (Stripping X V T) (Option.Rel (AlikeManaged V)) (perform (.devicePolicy peerId)) := by
  refine lockstep_read (o := .devicePolicy peerId) (Q := Option.Rel (AlikeManaged V))
    (fun _ => rfl) fun s d hd => ?_
  change Option.Rel _ ((s.cfg.devicePolicies peerId).bind s.cfg.policies)
    ((s.cfg.devicePolicies peerId).bind d.named)
  cases s.cfg.devicePolicies peerId with
  | none => exact .none
  | some name => exact hd.named name

theorem alikePeer {r r' : Row} (h : AlikeRow X T r r') :
    AlikePeer T (Database.registeredPeerFromRow X r) (Database.registeredPeerFromRow X r') := by
  refine ⟨h.policy, ?_⟩
  rw [h.rest]
  rfl

/-- A query that only reads. -/
theorem query_read {α : Type} (s : Server) (f : List Row → α) :
    s.query (fun db => some (f db, db)) = (if s.dbUp then some (f s.db) else none, s) := by
  unfold Server.query
  split <;> rfl

theorem lockstep_dbGetRegisteredPeer (id : String) :
    (perform (.dbGetRegisteredPeer id)).Lockstep (Op.sem X) (Stripping X V T)
      (Option.Rel (Option.Rel (AlikePeer T))) (perform (.dbGetRegisteredPeer id)) := by
  have hsem : ∀ s : Server, Op.sem X (.dbGetRegisteredPeer id) s =
      (if s.dbUp then some (Database.getRegisteredPeer X s.db id) else none, s) :=
    fun s => query_read s fun db => Database.getRegisteredPeer X db id
  refine lockstep_read (o := .dbGetRegisteredPeer id) (Q := Option.Rel (Option.Rel (AlikePeer T)))
    (fun s => by rw [hsem]) fun s d hd => ?_
  rw [hsem, hsem, Server.dbUp_withStore]
  split
  · refine .some (forall₂_find?_map hd.rows ?_ fun _ _ => alikePeer)
    intro r r' hr
    rw [hr.rest]
  · exact .none

theorem lockstep_dbListRegistered (limit offset : ℕ) :
    (perform (.dbListRegistered limit offset)).Lockstep (Op.sem X) (Stripping X V T)
      (Option.Rel (List.Forall₂ (AlikePeer T))) (perform (.dbListRegistered limit offset)) := by
  have hsem : ∀ s : Server, Op.sem X (.dbListRegistered limit offset) s =
      (if s.dbUp then some (Database.listRegisteredPeers X s.api.createdAt s.db limit offset)
        else none, s) :=
    fun s => query_read s fun db =>
      Database.listRegisteredPeers X s.api.createdAt db limit offset
  refine lockstep_read (o := .dbListRegistered limit offset)
    (Q := Option.Rel (List.Forall₂ (AlikePeer T))) (fun s => by rw [hsem]) fun s d hd => ?_
  rw [hsem, hsem, Server.dbUp_withStore]
  split
  · refine .some (forall₂_page_map hd.rows ?_ (fun _ _ => alikePeer) limit offset)
    intro r r' q q' hr hq
    rw [hr.rest, hq.rest]
    rfl
  · exact .none

/-! ## The lists -/

/-- The blocked ids and the keys do not depend on policies. -/
theorem lockstep_registered {α : Type} {f : RegisteredPeer → Bool} {g : RegisteredPeer → α}
    (hf : ∀ p p', AlikePeer T p p' → f p = f p') (hg : ∀ p p', AlikePeer T p p' → g p = g p')
    {p : Handler (List α)} (hp : p = do
      match ← perform (.dbListRegistered registeredLimit 0) with
      | some peers => pure ((peers.filter f).map g)
      | none => pure []) :
    p.Lockstep (Op.sem X) (Stripping X V T) Eq p := by
  subst hp
  refine (lockstep_dbListRegistered registeredLimit 0).bind fun peers peers' h => ?_
  cases h with
  | none => exact .ret rfl
  | some h => exact .ret (forall₂_map_filter h hf hg)

theorem lockstep_policyLists (targets : Option String) :
    (policyLists targets).Lockstep (Op.sem X) (Stripping X V T) Eq (policyLists targets) := by
  have hblocked : listBlockedIds.Lockstep (Op.sem X) (Stripping X V T) Eq listBlockedIds :=
    lockstep_registered (fun p p' h => by rw [h.rest]; rfl) (fun p p' h => by rw [h.rest]) rfl
  have hkeys : peerKeyMap.Lockstep (Op.sem X) (Stripping X V T) Eq peerKeyMap :=
    lockstep_registered (fun p p' h => by rw [h.rest]) (fun p p' h => by rw [h.rest]) rfl
  have hrest : ∀ blocked, (directEndpointMap blocked targets).Lockstep (Op.sem X)
      (Stripping X V T) Eq (directEndpointMap blocked targets) := fun blocked =>
    looksAway_lockstep (uses_perform.2 ⟨rfl, fun _ => uses_pure _⟩)
  refine hblocked.bind ?_
  rintro blocked _ rfl
  refine hkeys.bind ?_
  rintro keys _ rfl
  refine (hrest blocked).bind ?_
  rintro endpoints _ rfl
  exact .ret rfl

/-! ## The composition -/

theorem verifyDeviceKey_looksAway (request : ClientPolicyRequest) :
    (verifyDeviceKey X request).Uses fun o => looksAway o = true := by
  unfold verifyDeviceKey
  split
  · next pubB64 sigB64 _ _ =>
    unfold verifyDeviceSignatureProof
    refine uses_perform.2 ⟨rfl, fun pinned => uses_ite (fun _ => uses_pure _) fun _ => ?_⟩
    refine uses_perform.2 ⟨rfl, fun binding => ?_⟩
    cases binding with
    | none => exact uses_pure _
    | some bound =>
      refine uses_perform.2 ⟨rfl, fun claimEnabled => ?_⟩
      split
      · exact uses_pure _
      · split
        · exact uses_pure _
        · refine uses_perform.2 ⟨rfl, fun now => uses_ite (fun _ => uses_pure _) fun _ => ?_⟩
          refine uses_ite (fun _ => ?_) fun _ => uses_pure _
          exact uses_perform.2 ⟨rfl, fun _ => uses_pure _⟩
  · exact uses_pure _

/-- The policy a peer stores, as it is read. -/
def TextAlike (X : Setup) (V : String → String → Prop) (text text' : Option String) : Prop :=
  Option.Rel (Alike V) (text.bind X.policyOfJson) (text'.bind X.policyOfJson)

theorem TextAlike.samePublic {text text' : Option String} (h : TextAlike X V text text') :
    SamePublic (managementPolicyFromPeer X text) (managementPolicyFromPeer X text') := by
  unfold TextAlike at h
  unfold managementPolicyFromPeer
  generalize text.bind X.policyOfJson = p, text'.bind X.policyOfJson = p' at h
  cases h with
  | none => exact ⟨rfl, rfl⟩
  | some h =>
    refine ⟨h.override, ?_⟩
    rw [publicOptions_sanitize, publicOptions_sanitize, h.options.publicOptions]
    rfl

theorem lockstep_pollingPeer (request : ClientPolicyRequest) :
    (pollingPeer X request).Lockstep (Op.sem X) (Stripping X V T) (Both (AlikePeer T))
      (pollingPeer X request) := by
  refine (lockstep_dbGetRegisteredPeer request.id).bind fun found found' h => ?_
  cases h with
  | none => exact .ret (.error _)
  | some h =>
    cases h with
    | none => exact .ret (.error _)
    | @some p p' h =>
      have huuid : validateClientPolicyRequest X p' request =
          validateClientPolicyRequest X p request := by
        rw [h.rest]
        rfl
      dsimp only
      rw [huuid]
      cases validateClientPolicyRequest X p request with
      | error e => exact .ret (.error e)
      | ok u => exact .ret (.ok h)

theorem lockstep_enabledSession (token : Option String) :
    (enabledSession token).Lockstep (Op.sem X) (Stripping X V T) Eq (enabledSession token) := by
  cases token with
  | none => exact .ret rfl
  | some token =>
    refine (looksAway_lockstep (uses_op (o := .sessionForToken token) rfl)).bind ?_
    rintro session _ rfl
    cases session with
    | none => exact .ret rfl
    | some session =>
      refine (lockstep_userIsEnabled session.username).bind ?_
      rintro enabled _ rfl
      exact .ret rfl

/-- The policies put over one another. -/
theorem lockstep_identityPolicy {peer peer' : RegisteredPeer}
    (hpeer : AlikePeer (TextAlike X V) peer peer') (user : Option Session)
    {policy policy' : ManagementPolicy} (h : SamePublic policy policy') :
    (identityPolicy X peer user policy).Lockstep (Op.sem X) (Stripping X V (TextAlike X V))
      SamePublic (identityPolicy X peer' user policy') := by
  cases user with
  | some session =>
    refine (lockstep_userPolicy session.username).bind fun up up' hup => .ret ?_
    obtain ⟨hoverride, hoptions⟩ := h.extend hup.override hup.options.publicOptions
    refine ⟨hoverride, ?_⟩
    dsimp only at hoptions ⊢
    rw [publicOptions_insertOption (by decide), publicOptions_insertOption (by decide), hoptions]
  | none =>
    have hown := hpeer.policy.samePublic
    have hextended := h.extend hown.override hown.options
    have hid : peer'.id = peer.id := by rw [hpeer.rest]
    unfold identityPolicy
    dsimp only
    rw [hid]
    refine (lockstep_devicePolicy peer.id).bind fun dp dp' hdp => ?_
    cases hdp with
    | none => exact .ret hextended
    | some hdp => exact .ret (hextended.extend hdp.override hdp.options.publicOptions)

/-- What the last step leaves unsealed is the same. -/
theorem finishPolicy_unsealed {peer peer' : RegisteredPeer}
    (hpeer : AlikePeer T peer peer') (hasEndpoint sealThis : Bool)
    {policy policy' : ManagementPolicy} (h : SamePublic policy policy')
    (hunsealed : sealThis = false) :
    finishPolicy peer hasEndpoint sealThis true policy =
      finishPolicy peer' hasEndpoint sealThis true policy' := by
  have hblocked : blockedStatus peer' = blockedStatus peer := by
    rw [hpeer.rest]
    rfl
  unfold finishPolicy
  dsimp only
  rw [hblocked, hunsealed]
  refine SamePublic.strip ?_
  have hserver : SamePublic
      (if hasEndpoint then withOptions policy (orInsertOption "direct-server" "Y") else policy)
      (if hasEndpoint then withOptions policy' (orInsertOption "direct-server" "Y")
        else policy') := by
    split
    · exact h.withOptions fun options => publicOptions_orInsertOption (by decide) "Y" options
    · exact h
  split
  · refine ⟨rfl, ?_⟩
    dsimp only
    rw [publicOptions_insertOption (by decide), publicOptions_insertOption (by decide),
      hserver.options]
  · exact hserver

/-- What may be told of a composed policy. -/
structure SameAnswer (c c' : Composed) : Prop where
  id : c.peer.id = c'.peer.id
  sealThis : c.sealThis = c'.sealThis
  policy : c.sealThis = false → c.policy = c'.policy

theorem lockstep_composePolicy (request : ClientPolicyRequest) :
    (composePolicy X request).Lockstep (Op.sem X) (Stripping X V (TextAlike X V))
      (Both SameAnswer) (composePolicy X request) := by
  have hpublic : ∀ {o : Op}, looksAway o = true → (perform o).Lockstep (Op.sem X)
      (Stripping X V (TextAlike X V)) Eq (perform o) :=
    fun ho => looksAway_lockstep (uses_op ho)
  refine (lockstep_pollingPeer request).bind fun r r' hr => ?_
  cases hr with
  | error e => exact .ret (.error e)
  | @ok peer peer' hpeer =>
    refine (looksAway_lockstep (verifyDeviceKey_looksAway request)).bind ?_
    rintro proof _ rfl
    refine (hpublic (o := .requireDeviceKey) rfl).bind ?_
    rintro required _ rfl
    split
    · exact .ret (.error _)
    refine lockstep_globalPolicy.bind fun policy policy' hglobal => ?_
    refine (hpublic (o := .certInfo) rfl).bind ?_
    rintro info _ rfl
    have htls := hglobal.samePublic.withOptions
      fun options => publicOptions_applyApiTlsDefaults options info
    refine (lockstep_enabledSession (resolveAccessToken X request)).bind ?_
    rintro session _ rfl
    refine (hpublic (o := .requireLogin) rfl).bind ?_
    rintro requireLogin _ rfl
    refine (lockstep_identityPolicy hpeer _ htls).bind fun policy policy' hpolicy => ?_
    have hlogin := hpolicy.withOptions (f := if requireLogin = true
        then insertOption "nemo-require-login" "Y" else removeOption "nemo-require-login")
      fun options => by
        split
        · exact publicOptions_insertOption (by decide) _ _
        · exact publicOptions_removeOption _ _
    refine (hpublic (o := .abVersion) rfl).bind ?_
    rintro abVersion _ rfl
    have hkey : "nemo-ab-version" ∉ secretPolicyKeys := by decide
    have hversion := hlogin.withOptions
      fun options => publicOptions_insertOption hkey (toString abVersion) options
    have hout : optionNemoOutboundTargets ∉ secretPolicyKeys := by decide
    have htargets := hversion.lookup hout
    dsimp only
    rw [← htargets]
    refine (lockstep_policyLists _).bind ?_
    rintro lists _ rfl
    have hlists := hversion.withOptions fun options => publicOptions_insertLists X lists options
    have hid : peer'.id = peer.id := by rw [hpeer.rest]
    rw [hid]
    refine (looksAway_lockstep (uses_perform.2 ⟨rfl, fun _ => uses_pure _⟩)).bind ?_
    rintro endpoint _ rfl
    have hstrips : (perform .stripUnsealedSecrets).Lockstep (Op.sem X)
        (Stripping X V (TextAlike X V)) (fun strip strip' => strip = true ∧ strip' = true)
        (perform .stripUnsealedSecrets) := by
      refine lockstep_op (o := Op.stripUnsealedSecrets) (fun s s' hs => hs) fun s s' hs => ?_
      obtain ⟨⟨d, rfl, -⟩, hstrip⟩ := hs
      exact ⟨hstrip, hstrip⟩
    refine hstrips.bind ?_
    rintro _ _ ⟨rfl, rfl⟩
    exact .ret (.ok ⟨hid.symm, rfl, finishPolicy_unsealed hpeer _ _ hlists⟩)

/-! ## The answers -/

/-- A composed policy that is not sealed is answered alike; one that is sealed is not answered in
the clear. -/
theorem respond_sameAnswer (request : ClientPolicyRequest) (issuedAt : String)
    (issuedTs terminate : ℕ) {c c' : Composed} (h : SameAnswer c c') (resp : ClientPolicyResponse)
    (hresp : respond X request c.sealThis ⟨c.peer.id, issuedAt, issuedTs, terminate, c.policy⟩ =
      .ok resp) (hunsealed : resp.sealedPayload = none) :
    respond X request c'.sealThis ⟨c'.peer.id, issuedAt, issuedTs, terminate, c'.policy⟩ =
      .ok resp := by
  cases hseal : c.sealThis with
  | false => rw [← h.id, ← h.sealThis, ← h.policy hseal, hresp]
  | true =>
    rw [hseal] at hresp
    unfold respond at hresp
    simp only [if_true] at hresp
    split at hresp
    · cases hresp
    · split at hresp
      · cases hresp
      · cases hresp
        cases hunsealed

theorem lockstep_clientPolicy (request : ClientPolicyRequest) :
    (clientPolicy X request).Lockstep (Op.sem X) (Stripping X V (TextAlike X V))
      (fun r r' => ∀ resp, r = .ok resp → resp.sealedPayload = none → r' = .ok resp)
      (clientPolicy X request) := by
  have hpublic : ∀ {o : Op}, looksAway o = true → (perform o).Lockstep (Op.sem X)
      (Stripping X V (TextAlike X V)) Eq (perform o) :=
    fun ho => looksAway_lockstep (uses_op ho)
  refine (lockstep_composePolicy request).bind fun r r' hr => ?_
  cases hr with
  | error e => exact .ret fun resp hresp => by cases hresp
  | @ok c c' hc =>
    refine (hpublic (o := .wallClock) rfl).bind ?_
    rintro issuedAt _ rfl
    refine (hpublic (o := .wallClock) rfl).bind ?_
    rintro now _ rfl
    rw [← hc.id]
    refine (hpublic (o := .peerTerminateBefore c.peer.id) rfl).bind ?_
    rintro terminate _ rfl
    refine .ret fun resp hresp hunsealed => ?_
    have hanswer := respond_sameAnswer request _ _ _ hc resp hresp hunsealed
    rw [← hc.id] at hanswer
    exact hanswer

/-- Two servers that differ only in the values of secrets answer a poll alike, if one of them
answers it unsealed while secrets are stripped: whatever else happens meanwhile, as long as it
happens to both. -/
theorem unsealed_tells_no_secret (X : Setup) (request : ClientPolicyRequest) (s s' : Server)
    (hs : AlikeServer X (fun _ _ => True) (TextAlike X fun _ _ => True) s s')
    (hstrip : s.cfg.stripUnsealedSecrets = true) (adj adj' : List (Call Op Server) → Server → Server)
    (hadj : ∀ h h' t t', Stripping X (fun _ _ => True) (TextAlike X fun _ _ => True) t t' →
      Stripping X (fun _ _ => True) (TextAlike X fun _ _ => True) (adj h t) (adj' h' t'))
    (resp : ClientPolicyResponse)
    (hresp : ((clientPolicy X request).solo (Op.sem X) adj [] s).1 = .ok resp)
    (hunsealed : resp.sealedPayload = none) :
    ((clientPolicy X request).solo (Op.sem X) adj' [] s').1 = .ok resp :=
  ((lockstep_clientPolicy request).solo hadj ⟨hs, hstrip⟩).1 resp hresp hunsealed

namespace Sample

open NemoServer.Sample

/-- A setting in which the signed text tells all of a policy. -/
def tellingSetup : Setup :=
  { setup .offer false with
    payloadToJson := fun id _ _ _ policy => bytesOfText id ++
      policy.options.flatMap fun o => bytesOfText o.1 ++ bytesOfText o.2 }

/-- A server with one registered peer and a password in its global policy. -/
def passwordServer (password : String) : Server :=
  { server [] with
    db := [⟨0, "source1", [2], [3], "", none, none, none⟩]
    cfg := { config [] with stripUnsealedSecrets := true }
    api := { (server []).api with
      globalPolicy := ⟨false, [("theme", "dark"), ("nemo-permanent-password", password)]⟩ } }

theorem passwordServer_alike (password password' : String) :
    AlikeServer tellingSetup (fun _ _ => True) (TextAlike tellingSetup fun _ _ => True)
      (passwordServer password) (passwordServer password') := by
  have htheme : AlikeOption (fun _ _ => True) ("theme", "dark") ("theme", "dark") :=
    ⟨rfl, fun _ => rfl, fun _ => trivial⟩
  have hsecret : "nemo-permanent-password" ∈ secretPolicyKeys := by decide
  have hpassword : AlikeOption (fun _ _ => True) ("nemo-permanent-password", password)
      ("nemo-permanent-password", password') :=
    ⟨rfl, fun h => absurd hsecret h, fun _ => trivial⟩
  exact ⟨(passwordServer password').policyStore, rfl, ⟨rfl, .cons htheme (.cons hpassword .nil)⟩,
    ⟨rfl, .nil⟩, fun _ => .none, fun _ => .none, .cons ⟨.none, rfl⟩ .nil⟩

/-- The poll of the peer, which sends no proof of a device key. -/
def plainPoll : ClientPolicyRequest :=
  ⟨"source1", textOfBytes [2], none, none, none, none, none⟩

/-- What the peer is answered, if nothing interferes. -/
def pollAnswer (password : String) : Except ApiFailure ClientPolicyResponse :=
  ((clientPolicy tellingSetup plainPoll).solo (Op.sem tellingSetup) (fun _ s => s) []
    (passwordServer password)).1

end Sample

/-- Whatever the password is, the peer gets the same answer. -/
theorem unsealed_tells_no_secret_password : ∃ resp, resp.sealedPayload = none ∧
    Sample.pollAnswer "one" = .ok resp ∧ Sample.pollAnswer "another" = .ok resp := by
  have hclear : (Sample.pollAnswer "one").toOption.map (·.sealedPayload) = some none := by
    decide +kernel
  obtain ⟨resp, hresp, hunsealed⟩ := Option.map_eq_some_iff.1 hclear
  have hone : Sample.pollAnswer "one" = .ok resp := by
    cases hr : Sample.pollAnswer "one" with
    | error e =>
      rw [hr] at hresp
      cases hresp
    | ok r =>
      rw [hr] at hresp
      exact congrArg Except.ok (Option.some.inj hresp)
  exact ⟨resp, hunsealed, hone, unsealed_tells_no_secret Sample.tellingSetup Sample.plainPoll
    (Sample.passwordServer "one") (Sample.passwordServer "another")
    (Sample.passwordServer_alike "one" "another") rfl (fun _ s => s) (fun _ s => s)
    (fun _ _ _ _ h => h) resp hone hunsealed⟩

end Management

end NemoServer
