import Mathlib.Data.List.Perm.Subperm
import NemoServer.Laws.Denials

/-!
# The table of pending claims over the runs

The caps, that a pair has one row, and that the rows hold ids of the shape peers have, are kept by
every request. That each row belongs to a key that is pinned and not bound is not: provisioning a
key anew can bind it, or take the entry of another key away, and the rows stay; and a client that
was told to wait for a confirmation may file its claim after the key was bound.

* `Registry.Capped.apply`: the part that is kept.
* `Registry.unbound_apply_iff`: which requests keep the rest.
* `pending_table_sound_iff`: the runs in which the table is sound throughout.
-/

set_option autoImplicit false

namespace NemoServer

open Prog Integration

/-- What the table promises: few rows, few of one key, one for each pair, with ids of peers, and
all of keys that are pinned and not bound. -/
structure Registry.Sound (r : Registry) : Prop where
  total : r.claims.length ≤ maxPendingClaims
  perKey : ∀ publicKey, requests r.claims publicKey ≤ maxPendingPerKey
  unique : (pairs r.claims).Nodup
  valid : ∀ c ∈ r.claims, validPeerId c.peerId = true
  unbound : ∀ c ∈ r.claims, deviceKeyBinding r.keys c.publicKey = some ""

namespace Registry

variable {r : Registry} {e : Event} {claims claims' : List PendingDeviceKeyClaim}

/-! ## The part every request keeps -/

/-- The part of `Sound` that concerns the table alone; its texts are trimmed. -/
structure Capped (claims : List PendingDeviceKeyClaim) : Prop where
  total : claims.length ≤ maxPendingClaims
  perKey : ∀ publicKey, requests claims publicKey ≤ maxPendingPerKey
  unique : (pairs claims).Nodup
  valid : ∀ c ∈ claims, validPeerId c.peerId = true
  trimmed : ∀ c ∈ claims, Str.trim c.publicKey = c.publicKey

theorem Sound.of_capped (h : Capped r.claims)
    (hu : ∀ c ∈ r.claims, deviceKeyBinding r.keys c.publicKey = some "") : r.Sound :=
  ⟨h.total, h.perKey, h.unique, h.valid, hu⟩

theorem capped_nil : Capped [] where
  total := Nat.zero_le _
  perKey _ := Nat.zero_le _
  unique := List.nodup_nil
  valid := by simp
  trimmed := by simp

/-- A table with no other pairs is capped as well. -/
theorem Capped.mono (h : Capped claims) (hsub : List.Sublist (pairs claims') (pairs claims)) :
    Capped claims' := by
  have hrow : ∀ c ∈ claims', ∃ d ∈ claims, d.publicKey = c.publicKey ∧ d.peerId = c.peerId :=
    fun c hc => mem_pairs.1 (hsub.subset (mem_pairs.2 ⟨c, hc, rfl, rfl⟩))
  refine ⟨?_, fun pk => ?_, h.unique.sublist hsub, fun c hc => ?_, fun c hc => ?_⟩
  · have := hsub.length_le
    rw [length_pairs, length_pairs] at this
    exact this.trans h.total
  · rw [requests_eq]
    refine (hsub.filter _).length_le.trans ?_
    rw [← requests_eq]
    exact h.perKey pk
  · obtain ⟨d, hd, -, hid⟩ := hrow c hc
    exact hid ▸ h.valid d hd
  · obtain ⟨d, hd, hpk, -⟩ := hrow c hc
    exact hpk ▸ h.trimmed d hd

/-- A new row in a table with room. -/
theorem Capped.snoc {c : PendingDeviceKeyClaim} (h : Capped claims)
    (hlen : claims.length < maxPendingClaims)
    (hkey : requests claims c.publicKey < maxPendingPerKey)
    (hnew : (c.publicKey, c.peerId) ∉ pairs claims) (hvalid : validPeerId c.peerId = true)
    (htrim : Str.trim c.publicKey = c.publicKey) : Capped (claims ++ [c]) := by
  have hor : ∀ {P : PendingDeviceKeyClaim → Prop}, (∀ d ∈ claims, P d) → P c →
      ∀ d ∈ claims ++ [c], P d := fun hcs hc d hd =>
    (List.mem_append.1 hd).elim (hcs d) fun hd => List.mem_singleton.1 hd ▸ hc
  refine ⟨?_, fun pk => ?_, ?_, hor h.valid hvalid, hor h.trimmed htrim⟩
  · rw [List.length_append, List.length_singleton]
    omega
  · have := h.perKey pk
    simp only [requests, List.filter_append, List.length_append] at this ⊢
    by_cases hpk : c.publicKey = pk
    · subst hpk
      simp only [requests] at hkey
      simp only [List.filter_cons_of_pos, beq_self_eq_true, List.filter_nil, List.length_singleton]
      omega
    · rw [List.filter_cons_of_neg (by simpa using hpk), List.filter_nil, List.length_nil]
      exact this
  · rw [pairs, List.map_append]
    refine h.unique.append (List.nodup_singleton _) ?_
    rw [List.map_singleton, List.disjoint_singleton]
    exact hnew

theorem requests_le (hsub : List.Sublist claims' claims) (publicKey : String) :
    requests claims' publicKey ≤ requests claims publicKey :=
  (hsub.filter _).length_le

/-- The caps hold after every request. -/
theorem Capped.apply (h : Capped r.claims) : Capped (r.apply e).claims := by
  have hanswer : e.Answers → Capped (r.apply e).claims := by
    intro ha
    obtain ⟨-, hsame⟩ | ⟨pk, keys, -, -, -, -, -, happly, -⟩ := apply_answer (r := r) ha
    · rwa [hsame]
    · rw [happly]
      exact h.mono (List.filter_sublist.map _)
  cases e with
  | add label pk createdAt id => exact h
  | remove id => exact hanswer trivial
  | bind id peerId => exact hanswer trivial
  | approve keyId id claimedAt => exact hanswer trivial
  | deny keyId id =>
    refine h.mono ?_
    rw [Registry.apply, pairs_denyClaim]
  | forget keyId id => exact h.mono (List.filter_sublist.map _)
  | file pk id via now =>
    obtain ⟨-, hsame⟩ | ⟨key, outcome, claims, -, hres, heq⟩ := apply_file r pk id via now
    · rwa [hsame]
    rw [heq]
    obtain ⟨-, -, rfl⟩ | ⟨-, -, -, -, -, hmarks⟩ | ⟨-, -, hev, -⟩ |
      ⟨hnew, -, hvalid, hkey, kept, hev, hlen, rfl⟩ := registerPendingClaimIn_cases _ _ _ _ _ _ hres
    · exact h
    · refine h.mono ?_
      rw [pairs_eq_of_marks hmarks]
    · exact h.mono (hev.sub.map _)
    · refine (h.mono (hev.sub.map _)).snoc hlen ?_ ?_ hvalid (Str.trim_trim _)
      · exact (requests_le hev.sub _).trans_lt hkey
      · exact fun hmem => hnew ((hev.sub.map _).subset hmem)

/-! ## The keys of the rows -/

variable (r) in
/-- Every row belongs to a key that is pinned and not bound. -/
def Unbound : Prop := ∀ c ∈ r.claims, deviceKeyBinding r.keys c.publicKey = some ""

variable (r) in
/-- A request that leaves no row of a key that is bound or gone: a key with rows is not given a
binding where it is provisioned anew, nor does the new entry take the entry of another key with
rows; and no claim is filed, that the table would take, for a key that is bound. -/
def Tidy : Event → Prop
  | .add _ publicKey _ peerId => ∀ c ∈ r.claims,
    if c.publicKey = publicKey then normalizePeerId peerId = ""
    else deviceKeyBinding (r.keys.filter fun k => k.id != deviceKeyIdFor publicKey r.keys)
      c.publicKey = some ""
  | .file publicKey peerId _ _ =>
    (r.keys.find? fun k => k.publicKey == Str.trim publicKey).isSome = true →
    validPeerId (Str.trim peerId) = true →
    (r.claims.length < maxPendingClaims ∨ ∃ c ∈ r.claims, c.denied = false) →
    deviceKeyBinding r.keys publicKey = some ""
  | _ => True

theorem Unbound.mono (h : r.Unbound) (hsub : pairs claims' ⊆ pairs r.claims) :
    Unbound ⟨r.keys, claims'⟩ := by
  intro c hc
  obtain ⟨d, hd, hpk, -⟩ := mem_pairs.1 (hsub (mem_pairs.2 ⟨c, hc, rfl, rfl⟩))
  exact hpk ▸ h d hd

theorem trim_ne_of_binding {keys : List DeviceKey} {publicKey peerId : String}
    (h : deviceKeyBinding keys publicKey = some peerId) : Str.trim publicKey ≠ "" := by
  simp only [deviceKeyBinding, Option.ite_none_left_eq_some] at h
  exact h.1

/-- The binding of a key after a key is provisioned: its own, or what other entries say. -/
theorem deviceKeyBinding_addDeviceKey {keys : List DeviceKey}
    {label publicKey createdAt peerId pk : String} (htrim : Str.trim pk = pk) (hne : pk ≠ "") :
    deviceKeyBinding (addDeviceKey label publicKey createdAt peerId keys) pk =
      if pk = publicKey then some (normalizePeerId peerId)
      else deviceKeyBinding (keys.filter fun k => k.id != deviceKeyIdFor publicKey keys) pk := by
  simp only [deviceKeyBinding, addDeviceKey, htrim, if_neg hne, List.find?_append]
  by_cases hpk : pk = publicKey
  · subst hpk
    have hnone : ((keys.filter fun k => k.publicKey != pk && k.id != deviceKeyIdFor pk keys).find?
        fun k => k.publicKey == pk) = none := by
      simp [List.find?_eq_none]
      grind
    simp [hnone]
  · have hsame : ((keys.filter fun k => k.publicKey != publicKey &&
        k.id != deviceKeyIdFor publicKey keys).find? fun k => k.publicKey == pk) =
        (keys.filter fun k => k.id != deviceKeyIdFor publicKey keys).find?
          fun k => k.publicKey == pk := by
      rw [List.find?_filter, List.find?_filter]
      congr 1
      funext k
      by_cases hk : k.publicKey = pk
      · simp [hk, hpk]
      · simp [hk]
    rw [hsame, if_neg hpk]
    simp [Ne.symm hpk]

/-- An answer keeps the rest of the rows at unbound keys: it changes the entry of its own key. -/
theorem unbound_answer (hc : Capped r.claims) (hu : r.Unbound) (ha : e.Answers) :
    (r.apply e).Unbound := by
  obtain ⟨-, hsame⟩ | ⟨pk, keys, key, before, mid, after, -, happly, hkeys, hkeys', hmid, hkey⟩ :=
    apply_answer (r := r) ha
  · rwa [hsame]
  have hkey : key.publicKey = pk := by
    obtain hkey | ⟨c, hcmem, hcpk, hkey⟩ := hkey
    · exact hkey
    · rw [hkey, ← hcpk, hc.trimmed c hcmem]
  rw [happly]
  intro c hcmem
  obtain ⟨hcmem, hne⟩ := List.mem_filter.1 hcmem
  have hne : key.publicKey ≠ Str.trim c.publicKey := by
    rw [hkey, hc.trimmed c hcmem]
    exact fun heq => by simp [heq] at hne
  have hold := hu c hcmem
  rw [hkeys] at hold
  change deviceKeyBinding keys c.publicKey = some ""
  rw [hkeys', ← hold]
  refine deviceKeyBinding_middle ?_ fun k hk => ?_
  · simpa using hne
  · rw [hmid k hk]
    exact hne

theorem unbound_add_iff (hc : Capped r.claims) (hu : r.Unbound)
    {label publicKey createdAt peerId : String} :
    (r.apply (.add label publicKey createdAt peerId)).Unbound ↔
      r.Tidy (.add label publicKey createdAt peerId) := by
  simp only [Unbound, Tidy, apply]
  refine forall₂_congr fun c hcmem => ?_
  have htrim := hc.trimmed c hcmem
  have hne := trim_ne_of_binding (hu c hcmem)
  rw [htrim] at hne
  rw [deviceKeyBinding_addDeviceKey htrim hne]
  split
  · simp
  · rfl

/-- Filing keeps the rows at unbound keys exactly when it files for an unbound key, or files
nothing. -/
theorem unbound_file_iff (hc : Capped r.claims) (hu : r.Unbound)
    {publicKey peerId via now : String} :
    (r.apply (.file publicKey peerId via now)).Unbound ↔
      r.Tidy (.file publicKey peerId via now) := by
  have hbinding : ∀ {pk}, deviceKeyBinding r.keys (Str.trim pk) = deviceKeyBinding r.keys pk := by
    intro pk
    rw [deviceKeyBinding, deviceKeyBinding, Str.trim_trim]
  obtain ⟨hnone, hsame⟩ | ⟨key, outcome, claims, hfind, hres, heq⟩ :=
    apply_file r publicKey peerId via now
  · rw [hsame, Tidy, hnone]
    simp [hu]
  rw [heq, Tidy, hfind]
  obtain ⟨hinvalid, -, rfl⟩ | ⟨c, hcmem, hpk, -, -, hmarks⟩ | ⟨-, -, hev, hfull⟩ |
    ⟨hnew, -, hvalid, hkey, kept, hev, hlen, rfl⟩ := registerPendingClaimIn_cases _ _ _ _ _ _ hres
  · simp only [hinvalid]
    exact iff_of_true hu (by simp)
  · -- the pair has a row, so the key is not bound
    have hsub : pairs claims ⊆ pairs r.claims :=
      pairs_eq_of_marks hmarks ▸ List.Subset.refl (pairs r.claims)
    refine iff_of_true (hu.mono hsub) fun _ _ _ => ?_
    rw [Str.trim_trim] at hpk
    rw [← hbinding, ← hpk]
    exact hu c hcmem
  · refine iff_of_true (hu.mono (hev.sub.map _).subset) fun _ _ hroom => ?_
    rw [Str.trim_trim] at hfull
    obtain hmany | hfalse := hfull
    · -- the key has rows, so it is not bound
      have hpos : 0 < requests r.claims (Str.trim publicKey) := by
        simp only [maxPendingPerKey] at hmany
        omega
      obtain ⟨c, hcmem⟩ := List.length_pos_iff_exists_mem.1 hpos
      obtain ⟨hcmem, hpk⟩ := List.mem_filter.1 hcmem
      rw [← hbinding, ← beq_iff_eq.1 hpk]
      exact hu c hcmem
    · rw [makeRoom_fst hroom hc.total] at hfalse
      cases hfalse
  · have hroom : r.claims.length < maxPendingClaims ∨ ∃ c ∈ r.claims, c.denied = false := by
      by_contra hfull
      rw [not_or, not_exists] at hfull
      obtain ⟨hge, hdenied⟩ := hfull
      -- nothing could be displaced, so the table is no shorter
      have hsub : r.claims ⊆ kept := fun c hcmem =>
        hev.denied c hcmem (Bool.not_eq_false _ ▸ fun hd => hdenied c ⟨hcmem, hd⟩)
      have hrows : r.claims.Nodup := List.Nodup.of_map _ hc.unique
      have := (List.subperm_of_subset hrows hsub).length_le
      omega
    rw [Str.trim_trim] at hnew hkey
    have hkept : Unbound ⟨r.keys, kept⟩ := hu.mono (hev.sub.map _).subset
    constructor
    · intro hafter _ _ _
      have := hafter _ (List.mem_append_right _ (List.mem_singleton_self _))
      simpa only [Str.trim_trim, hbinding] using this
    · intro htidy c hcmem
      rcases List.mem_append.1 hcmem with hcmem | hcmem
      · exact hkept c hcmem
      · rw [List.mem_singleton.1 hcmem]
        simp only [Str.trim_trim, hbinding]
        exact htidy rfl hvalid hroom

/-- From a capped table, a request keeps the rows at unbound keys exactly when it is tidy. -/
theorem unbound_apply_iff (hc : Capped r.claims) (hu : r.Unbound) :
    (r.apply e).Unbound ↔ r.Tidy e := by
  cases e with
  | add label publicKey createdAt peerId => exact unbound_add_iff hc hu
  | remove id => exact iff_of_true (unbound_answer hc hu trivial) trivial
  | bind id peerId => exact iff_of_true (unbound_answer hc hu trivial) trivial
  | approve keyId id claimedAt => exact iff_of_true (unbound_answer hc hu trivial) trivial
  | deny keyId id =>
    refine iff_of_true (hu.mono ?_) trivial
    rw [pairs_denyClaim]
    exact List.Subset.refl _
  | forget keyId id => exact iff_of_true (hu.mono (pairs_filter_subset _ _)) trivial
  | file publicKey peerId via now => exact unbound_file_iff hc hu

end Registry

/-! ## Over the runs -/

variable {X : Setup} {C : List Step → Pool Op Op.Res Server Job → Choice Job Env → Prop}
  {l : List Step} {p : Pool Op Op.Res Server Job}

/-- The item makes no request of the registry that leaves a row of a bound or missing key. -/
def Tidy (X : Setup) (i : Step) : Prop :=
  ∀ e, registryEvent X i = some e → i.pre.registry.Tidy e

theorem capped_post {i : Step} (h : Registry.Capped i.pre.registry.claims) :
    Registry.Capped ((hbbs X).post i).registry.claims := by
  rw [registry_post]
  cases registryEvent X i with
  | none => exact h
  | some e => exact h.apply

theorem unbound_post_iff {i : Step} (hc : Registry.Capped i.pre.registry.claims)
    (hu : i.pre.registry.Unbound) : ((hbbs X).post i).registry.Unbound ↔ Tidy X i := by
  rw [registry_post, Tidy]
  cases registryEvent X i with
  | none => exact iff_of_true hu fun e he => by cases he
  | some e =>
    refine (Registry.unbound_apply_iff hc hu).trans ⟨fun ht e' he => ?_, fun ht => ht e rfl⟩
    obtain rfl := Option.some.inj he
    exact ht

theorem capped_run (hr : (hbbs X).Run (Server.BootedWith []) C l p) :
    Registry.Capped p.shared.registry.claims := by
  induction hr with
  | @boot s hs =>
    change Registry.Capped s.cfg.pendingDeviceKeyClaims
    rw [hs.2]
    exact Registry.capped_nil
  | next hr hc ha ih =>
    rw [System.advance_post ha]
    exact capped_post (System.advance_pre ha ▸ ih)

/-- The table is sound in every state of a run exactly if every request in it is tidy. -/
theorem pending_table_sound_iff (X : Setup) (l : List Step) (p : Pool Op Op.Res Server Job)
    (hr : (hbbs X).Run (Server.BootedWith []) System.Free l p) :
    ((∀ i ∈ l, i.pre.registry.Sound) ∧ p.shared.registry.Sound) ↔ ∀ i ∈ l, Tidy X i := by
  induction hr with
  | @boot s hs =>
    have hempty : (System.boot s : Pool Op Op.Res Server Job).shared.registry.claims = [] := hs.2
    refine iff_of_true ⟨by simp, ?_⟩ (by simp)
    refine Registry.Sound.of_capped (hempty ▸ Registry.capped_nil) ?_
    rw [hempty]
    simp
  | @next l q q' c i hr _ ha ih =>
    have hcap := capped_run hr
    have hpre := System.advance_pre ha
    rw [← hpre] at hcap ih
    have hpost := unbound_post_iff (X := X) hcap
    rw [System.advance_post ha, List.forall_mem_cons, List.forall_mem_cons]
    constructor
    · rintro ⟨⟨hi, hl⟩, hafter⟩
      exact ⟨(hpost hi.unbound).1 hafter.unbound, ih.1 ⟨hl, hi⟩⟩
    · rintro ⟨hi, hl⟩
      obtain ⟨hpres, hsound⟩ := ih.2 hl
      exact ⟨⟨hsound, hpres⟩,
        .of_capped (capped_post hcap) ((hpost hsound.unbound).2 hi)⟩

namespace Sample

/-- A client files a claim. -/
def filedOnceRun : List (Choice Job Env) := [.env (.registerPendingClaim "A" "target1" "login")]

/-- A client files a claim, and the operator provisions the key anew, bound to another machine. -/
def reprovisionedRun : List (Choice Job Env) :=
  filedOnceRun ++ [.env (.addDeviceKey "label" "A" "today" "machine2")]

/-- The run is a claim for a key that is not bound. -/
def showsFiled : List Step → Bool
  | [.env (.registerPendingClaim publicKey _ _) s] =>
    deviceKeyBinding s.cfg.deviceKeys publicKey == some ""
  | _ => false

theorem exists_filed : ∃ l p, (hbbs (setup .offer false)).Run (Server.BootedWith []) System.Free
    l p ∧ l ≠ [] ∧ ∀ i ∈ l, Tidy (setup .offer false) i := by
  have hinit : (server [deviceKey ""]).BootedWith [] := ⟨server_booted _, rfl⟩
  obtain ⟨l, p, hr, ht⟩ := System.exists_run (S := hbbs (setup .offer false)) hinit filedOnceRun
    (fun l _ => showsFiled l) (by decide +kernel)
  unfold showsFiled at ht
  split at ht
  next publicKey peerId via s =>
    refine ⟨_, p, hr, by simp, fun i hi e he => ?_⟩
    obtain rfl := List.mem_singleton.1 hi
    obtain rfl := Option.some.inj he
    exact fun _ _ _ => beq_iff_eq.1 ht
  next => cases ht

end Sample

/-- A run with a claim in it, in which the table is sound throughout. -/
theorem pending_table_sound_filed : ∃ l p, l ≠ [] ∧
    (hbbs (Sample.setup .offer false)).Run (Server.BootedWith []) System.Free l p ∧
    p.shared.registry.Sound := by
  obtain ⟨l, p, hr, hne, htidy⟩ := Sample.exists_filed
  exact ⟨l, p, hne, hr, ((pending_table_sound_iff _ l p hr).2 htidy).2⟩

/-- A key with a claim that is provisioned anew with a binding keeps the claim. -/
theorem not_pending_table_sound : ¬∀ (X : Setup) (l : List Step)
    (p : Pool Op Op.Res Server Job), (hbbs X).Run (Server.BootedWith []) System.Free l p →
    p.shared.registry.Sound := by
  intro h
  have hinit : (Sample.server [Sample.deviceKey ""]).BootedWith [] := ⟨Sample.server_booted _, rfl⟩
  obtain ⟨l, p, hr, ht⟩ := System.exists_run (S := hbbs (Sample.setup .offer false)) hinit
    Sample.reprovisionedRun (fun _ p => p.shared.registry.claims.any fun c =>
      deviceKeyBinding p.shared.registry.keys c.publicKey == some "machine2") (by decide +kernel)
  obtain ⟨c, hc, hbound⟩ := List.any_eq_true.1 ht
  have hunbound := (h _ l p hr).unbound c hc
  rw [beq_iff_eq.1 hbound] at hunbound
  simp at hunbound

end NemoServer
