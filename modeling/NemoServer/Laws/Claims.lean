import NemoServer.Foundations.Ledger
import NemoServer.Integration.PendingClaims
import NemoServer.Server.Frame
import NemoServer.Server.Sample

/-!
# Only an operator binds a key

The registry of device keys and the table of pending claims, over the runs of the server: what a
client can drive changes the table at most, an approval takes an unbound key for a pair some client
has filed, and leaves no claim of that key behind.
-/

set_option autoImplicit false

namespace NemoServer

open Prog Rendezvous Integration

variable {X : Setup} {init : Server → Prop}
  {C : List Step → Pool Op Op.Res Server Job → Choice Job Env → Prop}
  {l : List Step} {p : Pool Op Op.Res Server Job}

/-! ## Who does what -/

/-- A task a client drives. -/
def Job.OfClient : Job → Prop
  | .handshake _ _ _ => True
  | .frame _ _ _ _ => True
  | .hangup _ => True
  | .datagram _ _ => True
  | _ => False

/-- A step a client drives: one of a connection or a datagram, or a claim filed over HTTP. -/
def ByClient : Step → Prop
  | .step _ j _ _ _ => j.OfClient
  | .env (.registerPendingClaim _ _ _) _ => True
  | _ => False

/-- The step files a claim for the pair. -/
def FilesClaim (publicKey peerId : String) : Step → Prop
  | .step _ _ _ (.registerPendingClaim pk id _) _ =>
    Str.trim pk = publicKey ∧ Str.trim id = peerId
  | .env (.registerPendingClaim pk id _) _ => Str.trim pk = publicKey ∧ Str.trim id = peerId
  | _ => False

theorem Job.code_uses (j : Job) :
    (j.code X).Uses fun o => j.OfClient ∧ Only clientKinds o ∨ ¬ j.OfClient ∧
      Only [.look, .admin, .delete] o := by
  cases j with
  | handshake c self reply =>
    exact (handleListenerInner_uses X c self reply).mono fun _ h => .inl ⟨trivial, h⟩
  | frame c self authed msg =>
    exact (serveFrame_uses X c self authed msg).mono fun _ h => .inl ⟨trivial, h⟩
  | hangup c => exact uses_op (.inl ⟨trivial, rfl⟩)
  | datagram self msg =>
    exact (handleUdp_uses X self msg).mono fun o h => .inl ⟨trivial, Only.mono (by decide) o h⟩
  | setPeerStatus id status note =>
    exact (PeerMap.setPeerStatus_uses id status note).mono
      fun o h => .inr ⟨fun h => h, Only.mono (by decide) o h⟩
  | setPeerManagementPolicy id policy =>
    exact (PeerMap.setPeerManagementPolicy_uses id policy).mono
      fun o h => .inr ⟨fun h => h, Only.mono (by decide) o h⟩
  | deletePeer id =>
    exact (PeerMap.deleteRegistered_uses id).mono
      fun o h => .inr ⟨fun h => h, Only.mono (by decide) o h⟩
  | removeDeviceKey id =>
    exact (removeDeviceKey_uses id).mono
      fun o h => .inr ⟨fun h => h, Only.mono (by decide) o h⟩

/-! ## The table of claims -/

/-- A state hbbs may start in, with the claims `filed` in its configuration. -/
def Server.BootedWith (filed : List PendingDeviceKeyClaim) (s : Server) : Prop :=
  s.Booted ∧ s.cfg.pendingDeviceKeyClaims = filed

/-- The pair of key and peer was in the table at the start, or some step filed it. -/
def Filed (filed : List PendingDeviceKeyClaim) (l : List Step) (publicKey peerId : String) : Prop :=
  (∃ c ∈ filed, c.publicKey = publicKey ∧ c.peerId = peerId) ∨
    ∃ i ∈ l, FilesClaim publicKey peerId i

theorem Filed.cons {filed : List PendingDeviceKeyClaim} {publicKey peerId : String} (i : Step)
    (h : Filed filed l publicKey peerId) : Filed filed (i :: l) publicKey peerId :=
  h.imp_right fun ⟨i', hi, hf⟩ => ⟨i', List.mem_cons_of_mem _ hi, hf⟩

/-- A refusal changes no pair. -/
theorem pairs_denyClaim (keyId peerId : String) (claims : List PendingDeviceKeyClaim) :
    pairs (Server.denyClaim keyId peerId claims) = pairs claims := by
  induction claims with
  | nil => rfl
  | cons c cs ih =>
    unfold Server.denyClaim
    split
    · rfl
    · simp only [pairs, List.map_cons] at ih ⊢
      rw [ih]

/-- Filing a claim changes no key, and adds at most its pair to the table. -/
theorem registerPendingClaim_cfg (s : Server) (publicKey peerId via : String) :
    (s.registerPendingClaim X publicKey peerId via).2.cfg.deviceKeys = s.cfg.deviceKeys ∧
      pairs (s.registerPendingClaim X publicKey peerId via).2.cfg.pendingDeviceKeyClaims ⊆
        (Str.trim publicKey, Str.trim peerId) :: pairs s.cfg.pendingDeviceKeyClaims := by
  rw [Server.registerPendingClaim]
  split
  · exact ⟨rfl, List.subset_cons_self _ _⟩
  · split
    next outcome claims heq =>
    refine ⟨rfl, fun x hx => ?_⟩
    obtain ⟨c, hc, rfl⟩ := List.mem_map.1 hx
    have hc : c ∈ (outcome, claims).2 := hc
    rw [← heq] at hc
    obtain ⟨c₀, hmem, hpk, hid⟩ | ⟨hpk, hid⟩ := registerPendingClaimIn_mem hc
    · exact List.mem_cons_of_mem _ (mem_pairs.2 ⟨c₀, hmem, hpk, hid⟩)
    · rw [hpk, hid, Str.trim_trim]
      exact List.mem_cons_self

/-- An operation files the claim of its own pair at most. -/
theorem sem_pairs (o : Op) (s : Server) :
    ∀ x ∈ pairs (Op.sem X o s).2.cfg.pendingDeviceKeyClaims,
      x ∈ pairs s.cfg.pendingDeviceKeyClaims ∨
        ∃ pk id via, o = .registerPendingClaim pk id via ∧ x = (Str.trim pk, Str.trim id) := by
  intro x hx
  by_cases ha : o.kind = .admin
  · refine .inl ?_
    cases o with
    | removeDeviceKey id =>
      simp only [Op.sem, Server.removeDeviceKey] at hx
      split at hx
      · exact hx
      · exact pairs_filter_subset _ _ hx
    | writeStatus r status => exact hx
    | dropSessionsOf publicKey => exact hx
    | dbSetPeerStatus id status note =>
      obtain ⟨db, h⟩ := s.query_snd fun db => some (Database.setPeerStatus db id status note)
      rwa [Op.sem, h] at hx
    | dbSetManagementPolicy id policy =>
      obtain ⟨db, h⟩ := s.query_snd fun db =>
        some (Database.setPeerManagementPolicy db id policy)
      rwa [Op.sem, h] at hx
    | _ => cases ha
  · by_cases hc : o.kind = .claim
    · cases o with
      | registerPendingClaim pk id via =>
        simp only [Op.sem] at hx
        rcases List.mem_cons.1 ((registerPendingClaim_cfg s pk id via).2 hx) with rfl | hx
        · exact .inr ⟨pk, id, via, rfl, rfl⟩
        · exact .inl hx
      | _ => cases hc
    · rw [sem_cfg ha hc] at hx
      exact .inl hx

/-- What the environment does to the table. -/
theorem act_pairs {e : Env} {s s' : Server} (h : Server.act X e s = some s') :
    ∀ x ∈ pairs s'.cfg.pendingDeviceKeyClaims,
      x ∈ pairs s.cfg.pendingDeviceKeyClaims ∨
        ∃ pk id via, e = .registerPendingClaim pk id via ∧ x = (Str.trim pk, Str.trim id) := by
  intro x hx
  cases e with
  | registerPendingClaim pk id via =>
    have hs' : (s.registerPendingClaim X pk id via).2 = s' := Option.some.inj h
    rw [← hs'] at hx
    rcases List.mem_cons.1 ((registerPendingClaim_cfg s pk id via).2 hx) with rfl | hx
    · exact .inr ⟨pk, id, via, rfl, rfl⟩
    · exact .inl hx
  | setDeviceKeyPeerId id peerId =>
    obtain ⟨_, -, rfl⟩ := Option.map_eq_some_iff.1 h
    exact .inl (pairs_filter_subset _ _ hx)
  | approveDeviceKeyClaim keyId peerId claimedAt =>
    simp only [Server.act, Server.approveDeviceKeyClaim, Option.bind_eq_bind,
      Option.bind_eq_some_iff] at h
    obtain ⟨claim, -, keys, -, h⟩ := h
    obtain rfl := Option.some.inj h
    exact .inl (pairs_filter_subset _ _ hx)
  | denyDeviceKeyClaim keyId peerId =>
    obtain rfl := Option.some.inj h
    simp only [Server.withCfg, pairs_denyClaim] at hx
    exact .inl hx
  | forgetDeviceKeyClaim keyId peerId =>
    obtain rfl := Option.some.inj h
    exact .inl (pairs_filter_subset _ _ hx)
  | configureUpdate serial servers =>
    simp only [Server.act, Option.ite_none_right_eq_some] at h
    obtain rfl := Option.some.inj h.2
    exact .inl hx
  | _ =>
    obtain rfl := Option.some.inj h
    exact .inl hx

/-- The claims in the table were filed. -/
theorem pairs_filed {filed : List PendingDeviceKeyClaim}
    (hr : (hbbs X).Run (Server.BootedWith filed) C l p) :
    ∀ x ∈ pairs p.shared.cfg.pendingDeviceKeyClaims, Filed filed l x.1 x.2 := by
  induction hr using System.Run.induct with
  | hboot s hs =>
    intro x hx
    obtain ⟨c, hc, rfl⟩ := List.mem_map.1 hx
    rw [System.boot, hs.2] at hc
    exact .inl ⟨c, hc, rfl, rfl⟩
  | hstart l p j s _ _ hs ih =>
    intro x hx
    have hcfg := congrArg Server.cfg (Server.beginJob_eq hs)
    simp only [hcfg] at hx
    exact (ih x hx).cons _
  | hstep l p n j past o k _ _ hl ih =>
    intro x hx
    obtain hx | ⟨pk, id, via, rfl, rfl⟩ := sem_pairs o p.shared x hx
    · exact (ih x hx).cons _
    · exact .inr ⟨_, List.mem_cons_self, rfl, rfl⟩
  | henv l p e s _ _ hs ih =>
    intro x hx
    obtain hx | ⟨pk, id, via, rfl, rfl⟩ := act_pairs hs x hx
    · exact (ih x hx).cons _
    · exact .inr ⟨_, List.mem_cons_self, rfl, rfl⟩
  | hcrash l p _ _ ih => exact fun x hx => (ih x hx).cons _

/-! ## The registry -/

/-- The registry binds the key to the peer: to that peer it was bound already, or not at all. -/
def Binds (keys keys' : List DeviceKey) (publicKey peerId : String) : Prop :=
  ∃ key before after, keys = before ++ key :: after ∧ key.publicKey = publicKey ∧
    (key.peerId = peerId ∧ keys' = keys ∨ key.peerId = "" ∧ ∃ claimedAt,
      keys' = before ++ { key with peerId := peerId, claimedAt := claimedAt } :: after)

/-- What a client drives leaves the registry as it is. -/
theorem deviceKeys_of_client (hr : (hbbs X).Run init C l p) {i : Step} (hi : i ∈ l)
    (hclient : ByClient i) : ((hbbs X).post i).cfg.deviceKeys = i.pre.cfg.deviceKeys := by
  cases i with
  | step n j past o s =>
    have huses := hr.uses (P := fun j o => j.OfClient ∧ Only clientKinds o ∨
      ¬ j.OfClient ∧ Only [.look, .admin, .delete] o) (fun j => j.code_uses) hi
    obtain ⟨-, ho⟩ | ⟨hnot, -⟩ := huses
    · by_cases hc : o.kind = .claim
      · cases o with
        | registerPendingClaim pk id via =>
          simp only [System.post, hbbs, Op.sem]
          exact (registerPendingClaim_cfg s pk id via).1
        | _ => cases hc
      · have ha : o.kind ≠ .admin := fun ha => by simp [Only, clientKinds, ha] at ho
        exact congrArg IntegrationConfig.deviceKeys (sem_cfg (s := s) ha hc)
    · exact absurd hclient hnot
  | env e s =>
    cases e with
    | registerPendingClaim pk id via =>
      simp only [System.post, hbbs, Server.act, Option.getD_some]
      exact (registerPendingClaim_cfg s pk id via).1
    | _ => exact hclient.elim
  | start n j s => exact hclient.elim
  | crash s => exact hclient.elim

/-- An approval takes the key of a claim in the table, for the peer of that claim. -/
theorem approveDeviceKeyClaim_some {s s' : Server} {keyId peerId claimedAt : String}
    (h : s.approveDeviceKeyClaim keyId peerId claimedAt = some s') :
    ∃ publicKey, (publicKey, peerId) ∈ pairs s.cfg.pendingDeviceKeyClaims ∧
      claimDeviceKeyIn s.cfg.deviceKeys publicKey peerId claimedAt = some s'.cfg.deviceKeys ∧
      ∀ c ∈ s'.cfg.pendingDeviceKeyClaims, c.publicKey ≠ publicKey := by
  simp only [Server.approveDeviceKeyClaim, Option.bind_eq_bind, Option.bind_eq_some_iff] at h
  obtain ⟨claim, hfind, keys, hkeys, h⟩ := h
  obtain rfl := Option.some.inj h
  have hid := List.find?_some hfind
  simp only [Bool.and_eq_true, beq_iff_eq] at hid
  refine ⟨claim.publicKey, ?_, hkeys, fun c hc => ?_⟩
  · exact mem_pairs.2 ⟨claim, List.mem_of_find?_eq_some hfind, rfl, hid.2⟩
  · simpa using (List.mem_filter.1 hc).2

/-- Only an operator binds, and one token is one machine: what a client drives leaves the registry
of keys as it is; an approval binds a filed pair, and never a key that is bound to another peer;
and it leaves no claim of that key. -/
theorem only_operator_binds (X : Setup) (filed : List PendingDeviceKeyClaim)
    (hfiled : ∀ c ∈ filed, Str.trim c.publicKey = c.publicKey ∧ Str.trim c.peerId = c.peerId)
    (l : List Step) (p : Pool Op Op.Res Server Job)
    (hr : (hbbs X).Run (Server.BootedWith filed) System.Free l p) :
    (∀ i ∈ l, ByClient i → ((hbbs X).post i).cfg.deviceKeys = i.pre.cfg.deviceKeys) ∧
    ∀ keyId peerId claimedAt s l',
      (.env (.approveDeviceKeyClaim keyId peerId claimedAt) s :: l') <:+ l →
      ∃ publicKey s', s' = (hbbs X).post (.env (.approveDeviceKeyClaim keyId peerId claimedAt) s) ∧
        Filed filed l' publicKey peerId ∧
        Binds s.cfg.deviceKeys s'.cfg.deviceKeys publicKey peerId ∧
        ∀ c ∈ s'.cfg.pendingDeviceKeyClaims, c.publicKey ≠ publicKey := by
  refine ⟨fun i hi hclient => deviceKeys_of_client hr hi hclient, ?_⟩
  intro keyId peerId claimedAt s l' hs
  obtain ⟨q, c, q', hr', -, ha, -, rfl⟩ := hr.before _ _ hs
  have hpost := System.advance_post ha
  have hact : q.shared.approveDeviceKeyClaim keyId peerId claimedAt = some q'.shared :=
    System.advance_cases (motive := fun s i s' => ∀ e s₀, i = .env e s₀ →
      Server.act X e s = some s') (by simp) (by simp)
      (fun e s s' h e' s₀ heq => by
        obtain ⟨rfl, rfl⟩ := Item.env.inj heq
        exact h) (by simp) ha _ _ rfl
  obtain ⟨publicKey, hmem, hkeys, hnone⟩ := approveDeviceKeyClaim_some hact
  have hpair := pairs_filed hr' _ hmem
  -- the texts of a claim are trimmed, so the key that is looked up is the key of the claim
  have htrim : Str.trim publicKey = publicKey ∧ Str.trim peerId = peerId := by
    obtain ⟨c, hc, rfl, rfl⟩ | ⟨i, -, hf⟩ := hpair
    · exact hfiled c hc
    · unfold FilesClaim at hf
      split at hf
      · obtain ⟨rfl, rfl⟩ := hf
        exact ⟨Str.trim_trim _, Str.trim_trim _⟩
      · obtain ⟨rfl, rfl⟩ := hf
        exact ⟨Str.trim_trim _, Str.trim_trim _⟩
      · exact hf.elim
  refine ⟨publicKey, q'.shared, hpost, hpair, ?_, hnone⟩
  obtain ⟨key, before, after, hsplit, hkey, hcase⟩ := claimDeviceKeyIn_some hkeys
  rw [htrim.1] at hkey
  rw [htrim.2] at hcase
  refine ⟨key, before, after, hsplit, hkey, hcase.imp_right ?_⟩
  rintro ⟨hempty, heq⟩
  exact ⟨hempty, claimedAt, heq⟩

namespace Sample

/-- A client files a claim over HTTP, and the operator approves it. -/
def approvedRun : List (Choice Job Env) :=
  [.env (.registerPendingClaim "A" "target1" "login"),
    .env (.approveDeviceKeyClaim "key" "target1" "today")]

/-- The newest item approves a claim. -/
def showsApproved : List Step → Bool
  | .env (.approveDeviceKeyClaim _ _ _) _ :: _ => true
  | _ => false

theorem exists_approved : ∃ l p,
    (hbbs (setup .offer false)).Run (Server.BootedWith []) System.Free l p ∧
    ∃ keyId peerId claimedAt s l',
      l = .env (.approveDeviceKeyClaim keyId peerId claimedAt) s :: l' := by
  have hinit : (server [deviceKey ""]).BootedWith [] := ⟨server_booted _, rfl⟩
  obtain ⟨l, p, hr, ht⟩ := System.exists_run (S := hbbs (setup .offer false)) hinit approvedRun
    (fun l _ => showsApproved l) (by decide +kernel)
  refine ⟨l, p, hr, ?_⟩
  unfold showsApproved at ht
  split at ht
  · next keyId peerId claimedAt s l' => exact ⟨keyId, peerId, claimedAt, s, l', rfl⟩
  · cases ht

end Sample

/-- A claim that was filed and approved, seen in a run. -/
theorem only_operator_binds_approved : ∃ l p keyId peerId claimedAt s l' publicKey,
    (hbbs (Sample.setup .offer false)).Run (Server.BootedWith []) System.Free l p ∧
    l = .env (.approveDeviceKeyClaim keyId peerId claimedAt) s :: l' ∧
    Filed [] l' publicKey peerId := by
  obtain ⟨l, p, hr, keyId, peerId, claimedAt, s, l', rfl⟩ := Sample.exists_approved
  obtain ⟨publicKey, s', -, hf, -⟩ :=
    (only_operator_binds _ [] (by simp) _ p hr).2 keyId peerId claimedAt s l' List.suffix_rfl
  exact ⟨_, p, keyId, peerId, claimedAt, s, l', publicKey, hr, rfl, hf⟩

end NemoServer
