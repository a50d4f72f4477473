import NemoServer.Laws.Masking

/-!
# What a saved policy says

A policy is read, shown with its secrets masked, and saved back. What an operator did not touch is
saved as it was (`restoreMaskedSecretsFrom_inverse`). The policy of a peer passes through the
database as a text, and a policy without options is stored as none: its flag is lost
(`policyKept_iff`).
-/

set_option autoImplicit false

namespace NemoServer

namespace Management

open Prog Str

variable {X : Setup}

/-- The same flag, and the same values under the same keys. -/
structure SamePolicy (p q : ManagementPolicy) : Prop where
  override : p.allowUserOverride = q.allowUserOverride
  lookup : ∀ key, p.options.lookup key = q.options.lookup key

theorem SamePolicy.refl (p : ManagementPolicy) : SamePolicy p p := ⟨rfl, fun _ => rfl⟩

theorem SamePolicy.symm {p q : ManagementPolicy} (h : SamePolicy p q) : SamePolicy q p :=
  ⟨h.override.symm, fun key => (h.lookup key).symm⟩

theorem SamePolicy.trans {p q r : ManagementPolicy} (h : SamePolicy p q) (h' : SamePolicy q r) :
    SamePolicy p r :=
  ⟨h.override.trans h'.override, fun key => (h.lookup key).trans (h'.lookup key)⟩

theorem lookup_eq_some_mem {options : List (String × String)} {key value : String}
    (h : options.lookup key = some value) : (key, value) ∈ options := by
  induction options with
  | nil => cases h
  | cons o options ih =>
    rw [List.lookup_cons] at h
    cases hk : key == o.1 with
    | true =>
      rw [hk] at h
      obtain rfl : key = o.1 := beq_iff_eq.1 hk
      obtain rfl : o.2 = value := Option.some.inj h
      exact List.mem_cons_self
    | false =>
      rw [hk] at h
      exact List.mem_cons_of_mem _ (ih h)

/-! ## Sanitized policies -/

/-- Every option is as the sanitizer leaves it. -/
def Sanitized (X : Setup) (p : ManagementPolicy) : Prop :=
  ∀ o ∈ p.options, sanitizeManagementPolicyValue X o.1 o.2 = some o.2

theorem sanitizeManagementPolicyValue_eq_some {key value value' : String} :
    sanitizeManagementPolicyValue X key value = some value' ↔
      isManagementPolicyKey X key = true ∧ value' = trim value ∧
        value'.utf8ByteSize ≤ maxManagementPolicyValueLen := by
  unfold sanitizeManagementPolicyValue
  cases isManagementPolicyKey X key with
  | false => simp
  | true =>
    simp only [Bool.not_true, Bool.false_eq_true, if_false, true_and]
    split_ifs with hlen
    · simp only [false_iff, not_and, Nat.not_le]
      rintro rfl
      exact hlen
    · rw [Option.some.injEq]
      constructor
      · rintro rfl
        exact ⟨rfl, Nat.not_lt.1 hlen⟩
      · exact fun h => h.1.symm

theorem sanitized_sanitize (X : Setup) (p : ManagementPolicy) :
    Sanitized X (sanitizeManagementPolicy X p) := by
  rintro o ho
  obtain ⟨o', -, ho'⟩ := List.mem_filterMap.1 ho
  obtain ⟨value, hvalue, rfl⟩ := Option.map_eq_some_iff.1 ho'
  obtain ⟨hkey, rfl, hlen⟩ := sanitizeManagementPolicyValue_eq_some.1 hvalue
  exact sanitizeManagementPolicyValue_eq_some.2 ⟨hkey, (trim_trim _).symm, hlen⟩

theorem Sanitized.sanitize {p : ManagementPolicy} (h : Sanitized X p) :
    sanitizeManagementPolicy X p = p := by
  have hsame : (sanitizeManagementPolicy X p).options = p.options := by
    unfold sanitizeManagementPolicy
    dsimp only
    conv_rhs => rw [← List.filterMap_some (l := p.options)]
    refine List.filterMap_congr fun o ho => ?_
    have hvalue : sanitizeManagementPolicyValue X o.1 o.2 = some o.2 := h o ho
    simp only [hvalue, Option.map_some]
  exact congrArg (fun options => { p with options := options }) hsame

/-- The mask passes the sanitizer under every key of a policy. -/
theorem Sanitized.mask {p : ManagementPolicy} (h : Sanitized X p) :
    Sanitized X (maskSecretPolicy p) := by
  intro o ho
  simp only [maskSecretPolicy, withOptions, foldl_maskOption, List.mem_map] at ho
  obtain ⟨o', ho', rfl⟩ := ho
  have hvalue := h o' ho'
  unfold maskIn
  split_ifs
  · obtain ⟨hkey, -, -⟩ := sanitizeManagementPolicyValue_eq_some.1 hvalue
    have htrim : managedSecretMask = trim managedSecretMask := by decide
    have hlen : managedSecretMask.utf8ByteSize ≤ maxManagementPolicyValueLen := by decide
    exact sanitizeManagementPolicyValue_eq_some.2 ⟨hkey, htrim, hlen⟩
  · exact hvalue

theorem Sanitized.restored {keys : List String} {current : ManagementPolicy}
    (hcurrent : Sanitized X current) {options : List (String × String)}
    (h : ∀ o ∈ options, sanitizeManagementPolicyValue X o.1 o.2 = some o.2) :
    ∀ o ∈ keys.foldl (restoreOption current) options,
      sanitizeManagementPolicyValue X o.1 o.2 = some o.2 := by
  induction keys generalizing options with
  | nil => exact h
  | cons key keys ih =>
    refine ih fun o ho => ?_
    unfold restoreOption at ho
    split at ho
    · split at ho
      · next v hv =>
        obtain rfl | ho := List.mem_cons.1 ho
        · exact hcurrent _ (lookup_eq_some_mem hv)
        · exact h o (List.mem_of_mem_filter ho)
      · exact h o (List.mem_of_mem_filter ho)
    · exact h o ho

/-- What is saved is sanitized. -/
theorem Sanitized.restore {policy current : ManagementPolicy} (h : Sanitized X policy)
    (hcurrent : Sanitized X current) : Sanitized X (restoreMaskedSecretsFrom policy current) :=
  hcurrent.restored h

/-! ## Masks and what they stand for -/

theorem lookup_restoreMaskedSecretsFrom (policy current : ManagementPolicy) (key : String) :
    (restoreMaskedSecretsFrom policy current).options.lookup key =
      if key ∈ secretPolicyKeys ∧ policy.options.lookup key = some managedSecretMask then
        current.options.lookup key
      else policy.options.lookup key :=
  lookup_restored secretPolicyKeys_nodup current policy.options key

theorem lookup_maskIn (keys : List String) (options : List (String × String)) (key : String) :
    (options.map (maskIn keys)).lookup key = (options.lookup key).map fun value =>
      if key ∈ keys ∧ value ≠ "" then managedSecretMask else value := by
  induction options with
  | nil => rfl
  | cons o options ih =>
    have hkey : (maskIn keys o).1 = o.1 := by
      unfold maskIn
      split <;> rfl
    rw [List.map_cons, List.lookup_cons, List.lookup_cons, hkey, ih]
    cases hk : key == o.1 with
    | false => rfl
    | true =>
      obtain rfl : key = o.1 := beq_iff_eq.1 hk
      change some (maskIn keys o).2 =
        some (if o.1 ∈ keys ∧ o.2 ≠ "" then managedSecretMask else o.2)
      unfold maskIn
      split_ifs <;> rfl

theorem lookup_maskSecretPolicy (p : ManagementPolicy) (key : String) :
    (maskSecretPolicy p).options.lookup key = (p.options.lookup key).map fun value =>
      if key ∈ secretPolicyKeys ∧ value ≠ "" then managedSecretMask else value := by
  unfold maskSecretPolicy withOptions
  dsimp only
  rw [foldl_maskOption, lookup_maskIn]

/-- A policy is what its masked form stands for. -/
theorem restore_mask (p : ManagementPolicy) :
    SamePolicy (restoreMaskedSecretsFrom (maskSecretPolicy p) p) p := by
  refine ⟨rfl, fun key => ?_⟩
  rw [lookup_restoreMaskedSecretsFrom, lookup_maskSecretPolicy]
  split_ifs with h
  · rfl
  · cases hvalue : p.options.lookup key with
    | none => rfl
    | some value =>
      rw [hvalue, Option.map_some] at h
      rw [Option.map_some]
      refine congrArg some (if_neg fun hmask => h ⟨hmask.1, ?_⟩)
      rw [if_pos hmask]

/-- **Masks stand for what is stored**, everything else is saved as it was sent, and the masked
form of a policy stands for the policy. -/
theorem restoreMaskedSecretsFrom_inverse (X : Setup) :
    (∀ E P : ManagementPolicy,
      (restoreMaskedSecretsFrom E P).allowUserOverride = E.allowUserOverride ∧
      ∀ key, (restoreMaskedSecretsFrom E P).options.lookup key =
        if key ∈ secretPolicyKeys ∧ E.options.lookup key = some managedSecretMask then
          P.options.lookup key
        else E.options.lookup key) ∧
    (∀ P : ManagementPolicy, Sanitized X P →
      SamePolicy (restoreMaskedSecretsFrom (sanitizeManagementPolicy X (maskSecretPolicy P)) P) P) ∧
    ∀ E P : ManagementPolicy, ∀ key ∈ secretPolicyKeys,
      (restoreMaskedSecretsFrom E P).options.lookup key = some managedSecretMask →
        P.options.lookup key = some managedSecretMask := by
  refine ⟨fun E P => ⟨rfl, lookup_restoreMaskedSecretsFrom E P⟩, ?_, ?_⟩
  · intro P hP
    rw [hP.mask.sanitize]
    exact restore_mask P
  · intro E P key hkey h
    rw [lookup_restoreMaskedSecretsFrom] at h
    split_ifs at h with hmask
    · exact h
    · exact absurd ⟨hkey, h⟩ hmask

/-- What a route leaves behind, if nothing interferes. -/
def stateAfter (X : Setup) {α : Type} (p : AdminHandler α) (s : Server) : Server :=
  (p.solo (AdminOp.sem X) (fun _ s => s) [] s).2.2

/-- The global policy as it is answered can be saved back. -/
theorem putGlobalPolicy_masked {s : Server} (h : Sanitized X s.api.globalPolicy) :
    SamePolicy (stateAfter X (putGlobalPolicy X (maskSecretPolicy s.api.globalPolicy)) s
      ).api.globalPolicy s.api.globalPolicy := by
  have hstate : (stateAfter X (putGlobalPolicy X (maskSecretPolicy s.api.globalPolicy)) s
      ).api.globalPolicy = restoreMaskedSecretsFrom
        (sanitizeManagementPolicy X (maskSecretPolicy s.api.globalPolicy)) s.api.globalPolicy := rfl
  rw [hstate, h.mask.sanitize]
  exact restore_mask _

/-! ## The policy of a peer, through the database -/

/-- What the routes rely on of the text of a policy: a policy that was printed is parsed again with
the same options, no key has two values, and what the driver makes of a NULL is no policy. -/
structure PolicyJson (X : Setup) (policyToJson : ManagementPolicy → String) : Prop where
  parse : ∀ p, ∃ q, X.policyOfJson (policyToJson p) = some q ∧ SamePolicy q p
  keys : ∀ text p, X.policyOfJson text = some p → (p.options.map Prod.fst).Nodup
  null : ∀ text ∈ X.nullText, X.policyOfJson text = none

variable {policyToJson : ManagementPolicy → String}

/-- A value under a key that occurs once is sanitized, or dropped. -/
theorem lookup_sanitize {options : List (String × String)} (h : (options.map Prod.fst).Nodup)
    (key : String) :
    (options.filterMap fun (key, value) =>
      (sanitizeManagementPolicyValue X key value).map fun value => (key, value)).lookup key =
      (options.lookup key).bind (sanitizeManagementPolicyValue X key) := by
  induction options with
  | nil => rfl
  | cons o options ih =>
    obtain ⟨k, v⟩ := o
    obtain ⟨hk, hrest⟩ := List.nodup_cons.1 h
    have hnone : ∀ l : List (String × String), key ∉ l.map Prod.fst → l.lookup key = none := by
      intro l hl
      rw [List.lookup_eq_none_iff]
      intro o ho
      exact bne_iff_ne.2 fun heq => hl (List.mem_map.2 ⟨o, ho, heq.symm⟩)
    rw [List.filterMap_cons, List.lookup_cons]
    cases hvalue : sanitizeManagementPolicyValue X k v with
    | none =>
      simp only [hvalue, Option.map_none, ih hrest]
      cases heq : key == k with
      | false => rfl
      | true =>
        obtain rfl : key = k := beq_iff_eq.1 heq
        rw [hnone options hk]
        simp [hvalue]
    | some value =>
      simp only [hvalue, Option.map_some, List.lookup_cons, ih hrest]
      cases heq : key == k with
      | false => rfl
      | true =>
        obtain rfl : key = k := beq_iff_eq.1 heq
        simp [hvalue]

/-- A sanitized policy that was stored is read as it was, unless it had no options. -/
theorem managementPolicyFromPeer_serialize (hjson : PolicyJson X policyToJson)
    {p : ManagementPolicy} (h : Sanitized X p) :
    SamePolicy (managementPolicyFromPeer X
      (serializeManagementPolicy policyToJson p <|> X.nullText))
      (if p.options = [] then default else p) := by
  unfold serializeManagementPolicy
  split_ifs with hempty
  · have hnone : X.nullText.bind X.policyOfJson = none := by
      cases htext : X.nullText with
      | none => rfl
      | some text => exact hjson.null text htext
    have hread : managementPolicyFromPeer X (none <|> X.nullText) = default := by
      change managementPolicyFromPeer X X.nullText = default
      rw [managementPolicyFromPeer, hnone]
    rw [hread]
    exact SamePolicy.refl _
  · obtain ⟨q, hq, hsame⟩ := hjson.parse p
    have hread : managementPolicyFromPeer X (some (policyToJson p) <|> X.nullText) =
        sanitizeManagementPolicy X q := by
      change managementPolicyFromPeer X (some (policyToJson p)) = _
      rw [managementPolicyFromPeer, Option.bind_some, hq]
    rw [hread]
    refine ⟨hsame.override, fun key => ?_⟩
    have hlookup := lookup_sanitize (X := X) (hjson.keys _ q hq) key
    change (sanitizeManagementPolicy X q).options.lookup key = _ at hlookup
    rw [hlookup, hsame.lookup]
    cases hvalue : p.options.lookup key with
    | none => rfl
    | some value => exact h _ (lookup_eq_some_mem hvalue)

/-- The policy that is read of a row. -/
def rowPolicy (X : Setup) (r : Row) : ManagementPolicy :=
  managementPolicyFromPeer X (r.managementPolicy <|> X.nullText)

theorem sanitized_rowPolicy (X : Setup) (r : Row) : Sanitized X (rowPolicy X r) := by
  unfold rowPolicy managementPolicyFromPeer
  cases (r.managementPolicy <|> X.nullText).bind X.policyOfJson with
  | none =>
    intro o ho
    cases ho
  | some q => exact sanitized_sanitize X q

theorem storedPolicy_eq (s : Server) (id : String) : storedPolicy X s id =
    if s.dbUp then (s.db.find? fun r => r.id == id).map (rowPolicy X) else none := by
  have hsem : (AdminOp.sem X (.getRegistered id) s).1 =
      if s.dbUp then some ((s.db.find? fun r => r.id == id).map (Database.registeredRow X))
      else none := rfl
  rw [storedPolicy, hsem]
  cases s.dbUp with
  | false => rfl
  | true => cases s.db.find? fun r => r.id == id <;> rfl

/-- What is read is the policy that is stored. -/
theorem answerOf_getPeerManagementPolicy {s : Server} {id : String} {q : ManagementPolicy} :
    answerOf X (getPeerManagementPolicy X id) s = .ok (.managementPolicy id q) ↔
      storedPolicy X s id = some q := by
  have hsem : (AdminOp.sem X (.getRegistered id) s).1 =
      if s.dbUp then some ((s.db.find? fun r => r.id == id).map (Database.registeredRow X))
      else none := rfl
  rw [getPeerManagementPolicy_eq, hsem, storedPolicy_eq]
  cases s.dbUp with
  | false => simp
  | true =>
    cases hfind : s.db.find? fun r => r.id == id with
    | none => simp
    | some r =>
      have hid : r.id = id := by simpa using List.find?_some hfind
      simp [hid, rowPolicy, Database.registeredRow]

theorem solo_admin_state {α : Type} (o : AdminOp) (f : o.Res → AdminHandler α)
    (h : List (Call AdminOp Server)) (s : Server) :
    ((admin o >>= f).solo (AdminOp.sem X) (fun _ s => s) h s).2.2 =
      ((f (AdminOp.sem X o s).1).solo (AdminOp.sem X) (fun _ s => s) (⟨o, s⟩ :: h)
        (AdminOp.sem X o s).2).2.2 := rfl

/-- A save of a registered peer's policy stores what is left of the request. -/
theorem storedPolicy_update {s : Server} {id : String} {p S : ManagementPolicy}
    (h : storedPolicy X s id = some S) :
    storedPolicy X (stateAfter X (updatePeerManagementPolicy X policyToJson id p) s) id =
      some (managementPolicyFromPeer X (serializeManagementPolicy policyToJson
        (restoreMaskedSecretsFrom (sanitizeManagementPolicy X p) S) <|> X.nullText)) := by
  rw [storedPolicy_eq] at h
  split_ifs at h with hup
  obtain ⟨r, hfind, rfl⟩ := Option.map_eq_some_iff.1 h
  have hget : AdminOp.sem X (.getRegistered id) s =
      (some (some (Database.registeredRow X r)), s) := by
    have hsem : AdminOp.sem X (.getRegistered id) s =
      (if s.dbUp then some ((s.db.find? fun r => r.id == id).map (Database.registeredRow X))
        else none, s) := rfl
    rw [hsem, if_pos hup, hfind]
    rfl
  have hset : ∀ text, (AdminOp.sem X (.setPeerManagementPolicy id text) s).2 =
      { s with db := (Database.setPeerManagementPolicy s.db id text).2 } := by
    intro text
    simp only [AdminOp.sem, Server.query, if_pos hup]
  have hstate : stateAfter X (updatePeerManagementPolicy X policyToJson id p) s =
      { s with db := (Database.setPeerManagementPolicy s.db id (serializeManagementPolicy
        policyToJson (restoreMaskedSecretsFrom (sanitizeManagementPolicy X p)
          (rowPolicy X r)))).2 } := by
    rw [← hset, stateAfter, updatePeerManagementPolicy, solo_admin_state, hget]
    dsimp only
    rw [solo_admin_state]
    have hrestored : restoreMaskedSecrets X (sanitizeManagementPolicy X p)
        ((some (Database.registeredRow X r)).bind fun r => r.managementPolicy) =
        restoreMaskedSecretsFrom (sanitizeManagementPolicy X p) (rowPolicy X r) := rfl
    rw [hrestored]
    generalize (AdminOp.sem X (.setPeerManagementPolicy id (serializeManagementPolicy policyToJson
      (restoreMaskedSecretsFrom (sanitizeManagementPolicy X p) (rowPolicy X r)))) s).1 = updated
    cases updated with
    | none => rfl
    | some updated => cases updated <;> rfl
  rw [hstate, storedPolicy_eq]
  have hkeep : ∀ text : Option String, ((fun r : Row => r.id == id) ∘ fun r : Row =>
      if r.id = id then { r with managementPolicy := text } else r) =
        fun r : Row => r.id == id := by
    intro text
    funext r
    dsimp only [Function.comp_apply]
    split_ifs <;> rfl
  have hid : r.id = id := by simpa using List.find?_some hfind
  simp only [hup, if_true, Database.setPeerManagementPolicy, List.find?_map, hkeep, hfind,
    Option.map_some, hid]
  rfl

/-- What a save is to leave: the sanitized request, where a secret that was left at the mask has
the value that was stored, if there was one. -/
structure Saved (X : Setup) (p S q : ManagementPolicy) : Prop where
  override : q.allowUserOverride = p.allowUserOverride
  lookup : ∀ key, q.options.lookup key =
    if key ∈ secretPolicyKeys ∧
        (sanitizeManagementPolicy X p).options.lookup key = some managedSecretMask then
      S.options.lookup key
    else (sanitizeManagementPolicy X p).options.lookup key

theorem saved_restore (X : Setup) (p S : ManagementPolicy) :
    Saved X p S (restoreMaskedSecretsFrom (sanitizeManagementPolicy X p) S) :=
  ⟨rfl, lookup_restoreMaskedSecretsFrom _ S⟩

theorem Saved.congr {p S q q' : ManagementPolicy} (h : Saved X p S q) (hsame : SamePolicy q' q) :
    Saved X p S q' :=
  ⟨hsame.override.trans h.override, fun key => (hsame.lookup key).trans (h.lookup key)⟩

/-- A save is read as it is to be, and saving back what was read changes nothing. -/
def PolicyKept (X : Setup) (policyToJson : ManagementPolicy → String) (s : Server) (id : String)
    (p : ManagementPolicy) : Prop :=
  ∀ S, answerOf X (getPeerManagementPolicy X id) s = .ok (.managementPolicy id S) →
    ∃ q, answerOf X (getPeerManagementPolicy X id)
        (stateAfter X (updatePeerManagementPolicy X policyToJson id p) s) =
          .ok (.managementPolicy id q) ∧ Saved X p S q ∧
      ∃ q', answerOf X (getPeerManagementPolicy X id)
        (stateAfter X (updatePeerManagementPolicy X policyToJson id q)
          (stateAfter X (updatePeerManagementPolicy X policyToJson id p) s)) =
          .ok (.managementPolicy id q') ∧ SamePolicy q' q

/-- What is saved over a sanitized policy is read again, unless nothing but the flag is left. -/
theorem read_after_update (hjson : PolicyJson X policyToJson) {s : Server} {id : String}
    {p S : ManagementPolicy} (h : storedPolicy X s id = some S) (hS : Sanitized X S) :
    ∃ q, storedPolicy X (stateAfter X (updatePeerManagementPolicy X policyToJson id p) s) id =
        some q ∧ Sanitized X q ∧
      SamePolicy q (if (restoreMaskedSecretsFrom (sanitizeManagementPolicy X p) S).options = []
        then default else restoreMaskedSecretsFrom (sanitizeManagementPolicy X p) S) := by
  have hsanitized := (sanitized_sanitize X p).restore hS
  refine ⟨_, storedPolicy_update h, ?_, managementPolicyFromPeer_serialize hjson hsanitized⟩
  exact sanitized_rowPolicy X ⟨0, "", [], [], "", none, none, serializeManagementPolicy policyToJson
    (restoreMaskedSecretsFrom (sanitizeManagementPolicy X p) S)⟩

/-- A policy that was read is the policy that is saved for it. -/
theorem restore_self {q : ManagementPolicy} (h : Sanitized X q) :
    SamePolicy (restoreMaskedSecretsFrom (sanitizeManagementPolicy X q) q) q := by
  rw [h.sanitize]
  refine ⟨rfl, fun key => ?_⟩
  rw [lookup_restoreMaskedSecretsFrom]
  exact ite_self _

theorem options_eq_nil_iff {options : List (String × String)} :
    options = [] ↔ ∀ key, options.lookup key = none := by
  constructor
  · rintro rfl key
    rfl
  · intro h
    cases options with
    | nil => rfl
    | cons o options =>
      have hhead := h o.1
      rw [List.lookup_cons, beq_self_eq_true] at hhead
      cases hhead

/-- **A save keeps the policy exactly if an option is left or the flag is off.** -/
theorem policyKept_iff (hjson : PolicyJson X policyToJson) (s : Server) (id : String)
    (p : ManagementPolicy) : PolicyKept X policyToJson s id p ↔
      ∀ S, answerOf X (getPeerManagementPolicy X id) s = .ok (.managementPolicy id S) →
        p.allowUserOverride = true →
        ∃ key value, (sanitizeManagementPolicy X p).options.lookup key = some value ∧
          ¬ (key ∈ secretPolicyKeys ∧ value = managedSecretMask ∧ S.options.lookup key = none) := by
  have hleft : ∀ S : ManagementPolicy,
      (∃ key value, (sanitizeManagementPolicy X p).options.lookup key = some value ∧
        ¬ (key ∈ secretPolicyKeys ∧ value = managedSecretMask ∧ S.options.lookup key = none)) ↔
      (restoreMaskedSecretsFrom (sanitizeManagementPolicy X p) S).options ≠ [] := by
    intro S
    rw [ne_eq, options_eq_nil_iff, not_forall]
    refine exists_congr fun key => ?_
    rw [lookup_restoreMaskedSecretsFrom]
    cases hvalue : (sanitizeManagementPolicy X p).options.lookup key with
    | none => simp
    | some value =>
      by_cases hmask : key ∈ secretPolicyKeys ∧ value = managedSecretMask
      · simp [hmask.1, hmask.2]
      · rw [if_neg (by simpa using hmask)]
        simp only [Option.some.injEq, exists_eq_left', reduceCtorEq, not_false_eq_true, iff_true]
        exact fun h => hmask ⟨h.1, h.2.1⟩
  have hstored : ∀ S, storedPolicy X s id = some S → Sanitized X S := by
    intro S hS
    rw [storedPolicy_eq] at hS
    split_ifs at hS
    obtain ⟨r, -, rfl⟩ := Option.map_eq_some_iff.1 hS
    exact sanitized_rowPolicy X r
  unfold PolicyKept
  simp only [answerOf_getPeerManagementPolicy, hleft]
  refine forall₂_congr fun S hS => ?_
  obtain ⟨q, hq, hsanitized, hsame⟩ :=
    read_after_update (p := p) hjson hS (hstored S hS)
  constructor
  · rintro ⟨q', hq', hsaved, -⟩ hflag hempty
    obtain rfl := Option.some.inj (hq.symm.trans hq')
    rw [if_pos hempty] at hsame
    have hoff : q.allowUserOverride = false := hsame.override
    rw [hsaved.override, hflag] at hoff
    cases hoff
  · intro hflag
    have hsame' : SamePolicy q (restoreMaskedSecretsFrom (sanitizeManagementPolicy X p) S) := by
      split_ifs at hsame with hempty
      · have hoff : p.allowUserOverride = false :=
          Bool.eq_false_iff.2 fun hon => hflag hon hempty
        refine ⟨hsame.override.trans hoff.symm, fun key => ?_⟩
        rw [hsame.lookup, hempty]
        rfl
      · exact hsame
    obtain ⟨q', hq', -, hback⟩ := read_after_update (p := q) hjson hq hsanitized
    refine ⟨q, hq, (saved_restore X p S).congr hsame', q', hq', ?_⟩
    split_ifs at hback with hempty
    · -- nothing was left of the policy, so what was read had no options and no flag
      have hnone := (restore_self hsanitized).lookup
      rw [hempty] at hnone
      have hnil : (restoreMaskedSecretsFrom (sanitizeManagementPolicy X p) S).options = [] :=
        options_eq_nil_iff.2 fun key => (hsame'.lookup key).symm.trans (hnone key).symm
      rw [if_pos hnil] at hsame
      exact ⟨hback.override.trans hsame.override.symm, fun key =>
        (hback.lookup key).trans (hnone key)⟩
    · exact hback.trans (restore_self hsanitized)

end Management

namespace Sample

open Management Str

/-! ## A text of policies -/

/-- A text with its length in front. -/
def framedText (s : String) : List Char := List.replicate s.toList.length 'l' ++ '.' :: s.toList

def printOptions (options : List (String × String)) : List Char :=
  options.flatMap fun o => framedText o.1 ++ framedText o.2

def printPolicy (p : ManagementPolicy) : String :=
  String.ofList ((if p.allowUserOverride then 'Y' else 'N') :: printOptions p.options)

def readText (l : List Char) : Option (String × List Char) :=
  (splitOnce '.' l).map fun (size, rest) =>
    (String.ofList (rest.take size.length), rest.drop size.length)

def readOptions : ℕ → List Char → Option (List (String × String))
  | _, [] => some []
  | 0, _ => none
  | n + 1, l => do
    let (key, l) ← readText l
    let (value, l) ← readText l
    let options ← readOptions n l
    some (insertOption key value options)

def readPolicy (s : String) : Option ManagementPolicy :=
  match s.toList with
  | [] => none
  | flag :: l => (readOptions l.length l).map fun options => ⟨flag == 'Y', options⟩

theorem readText_framedText (s : String) (rest : List Char) :
    readText (framedText s ++ rest) = some (s, rest) := by
  have hsplit : splitOnce '.' (framedText s ++ rest) =
      some (List.replicate s.toList.length 'l', s.toList ++ rest) := by
    have hnot : '.' ∉ List.replicate s.toList.length 'l' := fun h =>
      absurd (List.eq_of_mem_replicate h) (by decide)
    rw [framedText, List.append_assoc, List.cons_append]
    exact splitOnce_append hnot
  rw [readText, hsplit, Option.map_some]
  dsimp only
  rw [List.length_replicate, List.take_left, List.drop_left, String.ofList_toList]

theorem readOptions_succ (n : ℕ) {l : List Char} (h : l ≠ []) : readOptions (n + 1) l =
    (readText l).bind fun key => (readText key.2).bind fun value =>
      (readOptions n value.2).bind fun options => some (insertOption key.1 value.1 options) := by
  cases l with
  | nil => exact absurd rfl h
  | cons c l => rfl

theorem framedText_ne_nil (s : String) : framedText s ≠ [] := by
  simp [framedText]

/-- What was printed is read, each key with its first value. -/
theorem readOptions_printOptions (options : List (String × String)) {n : ℕ}
    (hn : options.length ≤ n) : ∃ options', readOptions n (printOptions options) = some options' ∧
      ∀ key, options'.lookup key = options.lookup key := by
  induction options generalizing n with
  | nil => exact ⟨[], by cases n <;> rfl, fun _ => rfl⟩
  | cons o options ih =>
    obtain ⟨key, value⟩ := o
    obtain ⟨n, rfl⟩ := Nat.exists_eq_add_of_le' (Nat.le_trans (Nat.le_add_left 1 _) hn)
    obtain ⟨options', hread, hlookup⟩ := ih (n := n) (by simpa using hn)
    have hprint : printOptions ((key, value) :: options) =
        framedText key ++ (framedText value ++ printOptions options) := by
      simp [printOptions]
    refine ⟨insertOption key value options', ?_, fun key' => ?_⟩
    · rw [hprint, readOptions_succ n (by simp [framedText_ne_nil]), readText_framedText,
        Option.bind_some, readText_framedText, Option.bind_some, hread, Option.bind_some]
    · rw [List.lookup_cons]
      cases heq : key' == key with
      | true =>
        obtain rfl : key' = key := beq_iff_eq.1 heq
        exact lookup_insertOption_self _ _ _
      | false => rw [lookup_insertOption (beq_eq_false_iff_ne.1 heq), hlookup]

theorem keys_insertOption (key value : String) {options : List (String × String)}
    (h : (options.map Prod.fst).Nodup) : ((insertOption key value options).map Prod.fst).Nodup := by
  have hsub : ((options.filter fun o => o.1 != key).map Prod.fst).Sublist (options.map Prod.fst) :=
    List.filter_sublist.map Prod.fst
  rw [insertOption, List.map_cons, List.nodup_cons]
  refine ⟨fun hmem => ?_, h.sublist hsub⟩
  obtain ⟨o, ho, hkey⟩ := List.mem_map.1 hmem
  exact absurd hkey (by simpa using (List.mem_filter.1 ho).2)

theorem readOptions_nodup {n : ℕ} {l : List Char} {options : List (String × String)}
    (h : readOptions n l = some options) : (options.map Prod.fst).Nodup := by
  induction n generalizing l options with
  | zero =>
    cases l with
    | nil =>
      obtain rfl := Option.some.inj h
      exact List.nodup_nil
    | cons c l => cases h
  | succ n ih =>
    cases l with
    | nil =>
      obtain rfl := Option.some.inj h
      exact List.nodup_nil
    | cons c l =>
      rw [readOptions_succ n (List.cons_ne_nil c l)] at h
      obtain ⟨key, -, h⟩ := Option.bind_eq_some_iff.1 h
      obtain ⟨value, -, h⟩ := Option.bind_eq_some_iff.1 h
      obtain ⟨options', hread, h⟩ := Option.bind_eq_some_iff.1 h
      obtain rfl := Option.some.inj h
      exact keys_insertOption _ _ (ih hread)

theorem length_le_printOptions (options : List (String × String)) :
    options.length ≤ (printOptions options).length := by
  induction options with
  | nil => simp
  | cons o options ih =>
    have hpos : 1 ≤ (framedText o.1).length := List.length_pos_of_ne_nil (framedText_ne_nil _)
    rw [printOptions, List.flatMap_cons, List.length_append, List.length_append, List.length_cons]
    unfold printOptions at ih
    omega

/-- The small deployment, with a text for policies. -/
def policySetup : Setup := { setup .offer false with policyOfJson := readPolicy }

theorem policySetup_json : PolicyJson policySetup printPolicy where
  parse p := by
    obtain ⟨options, hread, hlookup⟩ :=
      readOptions_printOptions p.options (length_le_printOptions p.options)
    refine ⟨⟨p.allowUserOverride, options⟩, ?_, rfl, hlookup⟩
    change readPolicy (printPolicy p) = _
    rw [readPolicy, printPolicy, String.toList_ofList]
    dsimp only
    rw [hread, Option.map_some]
    cases p.allowUserOverride <;> rfl
  keys text p h := by
    change readPolicy text = some p at h
    unfold readPolicy at h
    split at h
    · cases h
    · obtain ⟨options, hread, rfl⟩ := Option.map_eq_some_iff.1 h
      exact readOptions_nodup hread
  null text h := by cases h

/-- A server with one peer, whose policy has a secret. -/
def policyServer : Server :=
  { server [] with
    db := [⟨0, "target1", [1], [2], "", none, none,
      some (printPolicy ⟨true, [("proxy-password", "hunter2")]⟩)⟩] }

theorem storedPolicy_policyServer : storedPolicy policySetup policyServer "target1" =
    some ⟨true, [("proxy-password", "hunter2")]⟩ := by rfl

/-- A policy of which the flag alone is left is read without it. -/
theorem not_policyKept : PolicyJson policySetup printPolicy ∧
    ¬ ∀ s id p, PolicyKept policySetup printPolicy s id p := by
  refine ⟨policySetup_json, fun h => ?_⟩
  obtain ⟨q, hq, hsaved, -⟩ := h policyServer "target1" ⟨true, []⟩ _
    (answerOf_getPeerManagementPolicy.2 storedPolicy_policyServer)
  rw [answerOf_getPeerManagementPolicy, storedPolicy_update storedPolicy_policyServer] at hq
  obtain rfl := Option.some.inj hq
  exact absurd hsaved.override (by decide)

/-- The masked secret is kept, and so is the flag. -/
theorem policyKept_masked : PolicyKept policySetup printPolicy policyServer "target1"
    ⟨true, [("proxy-password", managedSecretMask)]⟩ := by
  refine (policyKept_iff policySetup_json _ _ _).2 fun S hS _ => ?_
  obtain rfl := Option.some.inj
    (storedPolicy_policyServer.symm.trans (answerOf_getPeerManagementPolicy.1 hS))
  exact ⟨"proxy-password", managedSecretMask, by rfl, by decide⟩

end Sample

end NemoServer
