import NemoServer.Laws.Claims
import NemoServer.Server.Registry

/-!
# Denials stick

A claim the operator has denied stays in the table, and no request of a client gets another answer
than a refusal, until the operator answers the claims of the key or forgets the row: what makes
room in the table displaces requests that are waiting only.

* `Registry.denied_apply`: the step lemma, one case for each kind of request.
* `denials_stick`: the law, from the denial on, in every run.
-/

set_option autoImplicit false

namespace NemoServer

open Prog Integration

namespace Registry

variable {r : Registry} {e : Event} {publicKey peerId : String}

variable (r) in
/-- The request lets the pair be asked for again: it answers the claims of the key, or forgets the
row of the pair. -/
def Reopens (publicKey peerId : String) (e : Event) : Prop :=
  r.settles e = some publicKey ∨ ∃ keyId, e = .forget keyId peerId ∧
    ∃ c ∈ r.claims, c.publicKey = publicKey ∧ c.peerId = peerId ∧ c.keyId = keyId

/-! ## One request -/

theorem denied_denyClaim {keyId id : String} {claims : List PendingDeviceKeyClaim}
    (h : Denied claims publicKey peerId) :
    Denied (Server.denyClaim keyId id claims) publicKey peerId := by
  induction claims with
  | nil => exact h
  | cons c cs ih =>
    simp only [Denied, marks, List.map_cons, List.mem_cons] at h ih
    unfold Server.denyClaim
    split
    · simp only [Denied, marks, List.map_cons, List.mem_cons]
      exact h.imp_left fun heq => by simp_all
    · simp only [Denied, marks, List.map_cons, List.mem_cons]
      exact h.imp_right ih

theorem denied_of_denyClaim {keyId id : String} {claims : List PendingDeviceKeyClaim}
    {row : PendingDeviceKeyClaim}
    (h : claims.find? (fun c => c.keyId == keyId && c.peerId == id) = some row) :
    Denied (Server.denyClaim keyId id claims) row.publicKey row.peerId := by
  induction claims with
  | nil => cases h
  | cons c cs ih =>
    unfold Server.denyClaim
    rw [List.find?_cons] at h
    split at h
    next hmatch =>
      obtain rfl := Option.some.inj h
      rw [if_pos (by simpa using hmatch)]
      simp [Denied, marks]
    next hmatch =>
      rw [if_neg (by simpa using hmatch)]
      exact List.mem_cons_of_mem _ (ih h)

theorem denied_filter {f : PendingDeviceKeyClaim → Bool} {claims : List PendingDeviceKeyClaim}
    (h : Denied claims publicKey peerId)
    (hf : ∀ c ∈ claims, c.publicKey = publicKey → c.peerId = peerId → f c = true) :
    Denied (claims.filter f) publicKey peerId := by
  obtain ⟨c, hc, hpk, hid, hd⟩ := denied_iff.1 h
  exact denied_iff.2 ⟨c, List.mem_filter.2 ⟨hc, hf c hc hpk hid⟩, hpk, hid, hd⟩

theorem denied_evicted {claims claims' : List PendingDeviceKeyClaim} (h : Evicted claims claims')
    (hd : Denied claims publicKey peerId) : Denied claims' publicKey peerId := by
  obtain ⟨c, hc, hpk, hid, hd⟩ := denied_iff.1 hd
  exact denied_iff.2 ⟨c, h.denied c hc hd, hpk, hid, hd⟩

theorem denied_register {claims claims' : List PendingDeviceKeyClaim}
    {keyId pk id via now : String} {outcome : PendingOutcome}
    (h : registerPendingClaimIn claims keyId pk id via now = (outcome, claims'))
    (hd : Denied claims publicKey peerId) : Denied claims' publicKey peerId := by
  obtain ⟨-, -, rfl⟩ | ⟨-, -, -, -, -, hmarks⟩ | ⟨-, -, hev, -⟩ |
    ⟨-, -, -, -, kept, hev, -, rfl⟩ := registerPendingClaimIn_cases claims keyId pk id via now h
  · exact hd
  · rwa [Denied, hmarks]
  · exact denied_evicted hev hd
  · obtain ⟨c, hc, hpk, hid, hd⟩ := denied_iff.1 (denied_evicted hev hd)
    exact denied_iff.2 ⟨c, List.mem_append_left _ hc, hpk, hid, hd⟩

/-- A denied claim stays, whatever else is requested. -/
theorem denied_apply (hd : Denied r.claims publicKey peerId) (h : ¬r.Reopens publicKey peerId e) :
    Denied (r.apply e).claims publicKey peerId := by
  have hanswer : e.Answers → Denied (r.apply e).claims publicKey peerId := by
    intro ha
    obtain ⟨-, hsame⟩ | ⟨pk, keys, -, -, -, -, hs, happly, -⟩ := apply_answer (r := r) ha
    · rwa [hsame]
    · rw [happly]
      refine denied_filter hd fun c hc hpk _ => ?_
      have hne : publicKey ≠ pk := fun heq => h (.inl (heq ▸ hs))
      simpa [hpk] using hne
  cases e with
  | add label pk createdAt id => exact hd
  | remove id => exact hanswer trivial
  | bind id peerId => exact hanswer trivial
  | approve keyId id claimedAt => exact hanswer trivial
  | deny keyId id => exact denied_denyClaim hd
  | forget keyId id =>
    refine denied_filter hd fun c hc hpk hid => ?_
    by_cases hmatch : c.keyId = keyId ∧ c.peerId = id
    · obtain ⟨hkey, rfl⟩ := hmatch
      exact absurd (.inr ⟨keyId, by rw [← hid], c, hc, hpk, hid, hkey⟩) h
    · simpa [imp_iff_not_or] using hmatch
  | file pk id via now =>
    obtain ⟨-, hsame⟩ | ⟨key, outcome, claims, -, hres, heq⟩ := apply_file r pk id via now
    · rwa [hsame]
    · rw [heq]
      exact denied_register hres hd

/-- No request makes two rows of one pair. -/
theorem unique_apply (hu : (pairs r.claims).Nodup) : (pairs (r.apply e).claims).Nodup := by
  have hsub : ∀ {claims : List PendingDeviceKeyClaim}, List.Sublist claims r.claims →
      (pairs claims).Nodup := fun hs => hu.sublist (hs.map _)
  have hanswer : e.Answers → (pairs (r.apply e).claims).Nodup := by
    intro ha
    obtain ⟨-, hsame⟩ | ⟨pk, keys, -, -, -, -, -, happly, -⟩ := apply_answer (r := r) ha
    · rwa [hsame]
    · rw [happly]
      exact hsub List.filter_sublist
  cases e with
  | add label pk createdAt id => exact hu
  | remove id => exact hanswer trivial
  | bind id peerId => exact hanswer trivial
  | approve keyId id claimedAt => exact hanswer trivial
  | deny keyId id =>
    rw [apply, pairs_denyClaim]
    exact hu
  | forget keyId id => exact hsub List.filter_sublist
  | file pk id via now =>
    obtain ⟨-, hsame⟩ | ⟨key, outcome, claims, -, hres, heq⟩ := apply_file r pk id via now
    · rwa [hsame]
    · rw [heq]
      obtain ⟨-, -, rfl⟩ | ⟨-, -, -, -, -, hmarks⟩ | ⟨-, -, hev, -⟩ |
        ⟨hnew, -, -, -, kept, hev, -, rfl⟩ := registerPendingClaimIn_cases _ _ _ _ _ _ hres
      · exact hu
      · rw [pairs_eq_of_marks hmarks]
        exact hu
      · exact hsub hev.sub
      · rw [pairs, List.map_append]
        refine (hsub hev.sub).append (List.nodup_singleton _) ?_
        rw [List.map_singleton, List.disjoint_singleton]
        exact fun hmem => hnew ((hev.sub.map _).subset hmem)

/-- While a pair is denied, filing it is refused. -/
theorem outcome_of_denied {claims claims' : List PendingDeviceKeyClaim}
    {keyId pk id via now : String} {outcome : PendingOutcome}
    (h : registerPendingClaimIn claims keyId pk id via now = (outcome, claims'))
    (hu : (pairs claims).Nodup) (hd : Denied claims (Str.trim pk) (Str.trim id)) :
    outcome = .denied ∨ outcome = .rejected := by
  obtain ⟨d, hmem, hpk, hid, hdenied⟩ := denied_iff.1 hd
  have hin : (Str.trim pk, Str.trim id) ∈ pairs claims := mem_pairs.2 ⟨d, hmem, hpk, hid⟩
  obtain ⟨-, rfl, -⟩ | ⟨c, hc, hcpk, hcid, rfl, -⟩ | ⟨hnot, -⟩ | ⟨hnot, -⟩ :=
    registerPendingClaimIn_cases claims keyId pk id via now h
  · exact .inr rfl
  · have hcd : c = d := List.inj_on_of_nodup_map hu hc hmem (by rw [hcpk, hcid, hpk, hid])
    rw [hcd, if_pos hdenied]
    exact .inl rfl
  · exact absurd hin hnot
  · exact absurd hin hnot

end Registry

/-! ## Over the runs -/

/-- What a client is told that files a claim: the pair it asks for, and the answer. -/
def claimAnswer (X : Setup) : Step → Option (String × String × PendingOutcome)
  | .step _ _ _ (.registerPendingClaim publicKey peerId via) s =>
    some (Str.trim publicKey, Str.trim peerId, (s.registerPendingClaim X publicKey peerId via).1)
  | .env (.registerPendingClaim publicKey peerId via) s =>
    some (Str.trim publicKey, Str.trim peerId, (s.registerPendingClaim X publicKey peerId via).1)
  | _ => none

/-- An operator lets the pair be asked for again: forgets its row, approves a claim of the key, sets
or clears the binding of the key by hand, or removes the key. -/
def Reopens (X : Setup) (publicKey peerId : String) (i : Step) : Prop :=
  ∃ e, registryEvent X i = some e ∧ i.pre.registry.Reopens publicKey peerId e

variable {X : Setup} {init : Server → Prop}
  {C : List Step → Pool Op Op.Res Server Job → Choice Job Env → Prop}
  {l : List Step} {p : Pool Op Op.Res Server Job}

theorem registry_unique {filed : List PendingDeviceKeyClaim} (hfiled : (pairs filed).Nodup)
    (hr : (hbbs X).Run (Server.BootedWith filed) C l p) :
    (pairs p.shared.registry.claims).Nodup := by
  induction hr with
  | @boot s hs =>
    change (pairs s.cfg.pendingDeviceKeyClaims).Nodup
    rw [hs.2]
    exact hfiled
  | next hr hc ha ih =>
    rw [System.advance_post ha, registry_post, System.advance_pre ha]
    cases registryEvent X _ with
    | none => exact ih
    | some e => exact Registry.unique_apply ih

theorem answer_of_denied {s : Server} {pk id : String} (via : String)
    (hu : (pairs s.registry.claims).Nodup)
    (hd : Denied s.registry.claims (Str.trim pk) (Str.trim id)) :
    (s.registerPendingClaim X pk id via).1 = .denied ∨
      (s.registerPendingClaim X pk id via).1 = .rejected := by
  rw [Server.registerPendingClaim]
  split
  · exact .inr rfl
  · split
    next outcome claims hres =>
      refine Registry.outcome_of_denied hres hu ?_
      rwa [Str.trim_trim]

theorem denied_post {i : Step} {publicKey peerId : String}
    (hd : Denied i.pre.registry.claims publicKey peerId) (h : ¬Reopens X publicKey peerId i) :
    Denied ((hbbs X).post i).registry.claims publicKey peerId := by
  rw [registry_post]
  cases hev : registryEvent X i with
  | none => exact hd
  | some e => exact Registry.denied_apply hd fun hre => h ⟨e, hev, hre⟩

theorem denied_since {late before : List Step} {keyId peerId : String} {s : Server}
    (hr : (hbbs X).Run init C (late ++ .env (.denyDeviceKeyClaim keyId peerId) s :: before) p)
    {row : PendingDeviceKeyClaim}
    (hrow : s.cfg.pendingDeviceKeyClaims.find? (fun c => c.keyId == keyId && c.peerId == peerId) =
      some row)
    (hlate : ∀ i ∈ late, ¬Reopens X row.publicKey row.peerId i) :
    Denied p.shared.registry.claims row.publicKey row.peerId := by
  refine hr.carry (I := fun s => Denied s.registry.claims row.publicKey row.peerId) ?_ ?_
  · rw [registry_post]
    exact Registry.denied_of_denyClaim hrow
  · rintro a x b rfl hd
    exact denied_post hd (hlate x (by simp))

/-- After a denial the row stays denied, and whoever files the pair is refused, until an operator
lets the pair be asked for again. -/
theorem denials_stick (X : Setup) (filed : List PendingDeviceKeyClaim)
    (hfiled : (pairs filed).Nodup) (late before : List Step) (keyId peerId : String) (s : Server)
    (p : Pool Op Op.Res Server Job)
    (hr : (hbbs X).Run (Server.BootedWith filed) System.Free
      (late ++ .env (.denyDeviceKeyClaim keyId peerId) s :: before) p)
    (row : PendingDeviceKeyClaim)
    (hrow : s.cfg.pendingDeviceKeyClaims.find? (fun c => c.keyId == keyId && c.peerId == peerId) =
      some row)
    (hlate : ∀ i ∈ late, ¬Reopens X row.publicKey row.peerId i) :
    Denied p.shared.cfg.pendingDeviceKeyClaims row.publicKey row.peerId ∧
    ∀ i ∈ late, ∀ outcome, claimAnswer X i = some (row.publicKey, row.peerId, outcome) →
      outcome ≠ .new ∧ outcome ≠ .again := by
  have hrow' := denied_since hr hrow hlate
  refine ⟨hrow', fun i hi outcome hans => ?_⟩
  obtain ⟨newer, older, rfl⟩ := List.append_of_mem hi
  -- the run up to the answer
  obtain ⟨q, -, -, hq, -, -, -, hpre⟩ := hr.before i
    (older ++ .env (.denyDeviceKeyClaim keyId peerId) s :: before) ⟨newer, by simp⟩
  have hd := denied_since hq hrow fun j hj => hlate j (by simp [hj])
  have hu := registry_unique hfiled hq
  rw [hpre] at hd hu
  have hrefused : ∀ {pk id via : String} {t : Server}, t = i.pre → Str.trim pk = row.publicKey →
      Str.trim id = row.peerId → (t.registerPendingClaim X pk id via).1 = outcome →
      outcome ≠ .new ∧ outcome ≠ .again := by
    rintro pk id via t rfl hpk hid rfl
    rw [← hpk, ← hid] at hd
    obtain heq | heq := answer_of_denied (X := X) via hu hd
    · simp [heq]
    · simp [heq]
  unfold claimAnswer at hans
  split at hans
  next n j past pk id via t =>
    simp only [Option.some.injEq, Prod.mk.injEq] at hans
    exact hrefused rfl hans.1 hans.2.1 hans.2.2
  next pk id via t =>
    simp only [Option.some.injEq, Prod.mk.injEq] at hans
    exact hrefused rfl hans.1 hans.2.1 hans.2.2
  next => cases hans

namespace Sample

/-- A client files a claim, the operator denies it, and the client asks again. -/
def deniedRun : List (Choice Job Env) :=
  [.env (.registerPendingClaim "A" "target1" "login"),
    .env (.denyDeviceKeyClaim "key" "target1"),
    .env (.registerPendingClaim "A" "target1" "login")]

/-- The run ends with a claim that is filed right after a denial. -/
def showsDenied : List Step → Bool
  | [.env (.registerPendingClaim _ _ _) _, .env (.denyDeviceKeyClaim keyId peerId) s, _] =>
    (s.cfg.pendingDeviceKeyClaims.find? fun c => c.keyId == keyId && c.peerId == peerId).isSome
  | _ => false

theorem exists_denied : ∃ pk id via t keyId peerId s before p row,
    (hbbs (setup .offer false)).Run (Server.BootedWith []) System.Free
      ([.env (.registerPendingClaim pk id via) t] ++
        .env (.denyDeviceKeyClaim keyId peerId) s :: before) p ∧
    s.cfg.pendingDeviceKeyClaims.find? (fun c => c.keyId == keyId && c.peerId == peerId) =
      some row := by
  have hinit : (server [deviceKey ""]).BootedWith [] := ⟨server_booted _, rfl⟩
  obtain ⟨l, p, hr, ht⟩ := System.exists_run (S := hbbs (setup .offer false)) hinit deniedRun
    (fun l _ => showsDenied l) (by decide +kernel)
  unfold showsDenied at ht
  split at ht
  next pk id via t keyId peerId s i =>
    obtain ⟨row, hrow⟩ := Option.isSome_iff_exists.1 ht
    exact ⟨pk, id, via, t, keyId, peerId, s, [i], p, row, hr, hrow⟩
  next => cases ht

end Sample

/-- A denial that a client has met again. -/
theorem denials_stick_refiled : ∃ (late : List Step) (s : Server) (keyId peerId : String)
    (row : PendingDeviceKeyClaim) (p : Pool Op Op.Res Server Job), late ≠ [] ∧
    s.cfg.pendingDeviceKeyClaims.find? (fun c => c.keyId == keyId && c.peerId == peerId) =
      some row ∧
    Denied p.shared.cfg.pendingDeviceKeyClaims row.publicKey row.peerId := by
  obtain ⟨pk, id, via, t, keyId, peerId, s, before, p, row, hr, hrow⟩ := Sample.exists_denied
  refine ⟨[.env (.registerPendingClaim pk id via) t], s, keyId, peerId, row, p, by simp, hrow, ?_⟩
  refine (denials_stick _ [] List.nodup_nil _ before keyId peerId s p hr row hrow ?_).1
  intro i hi ⟨e, hev, hre⟩
  obtain rfl := List.mem_singleton.1 hi
  obtain rfl := Option.some.inj hev
  obtain hsettles | ⟨_, hforget, -⟩ := hre
  · cases hsettles
  · cases hforget

end NemoServer
