import NemoServer.Integration.PendingClaims
import NemoServer.Server.Frame

/-!
# The registry of keys and its table of claims

What the steps of hbbs do to the device keys and the pending claims: the requests of the
dashboard, the removal of a key, and the claims that handshakes and signed requests file, as events
on the two lists alone.

* `registry_post`: an item of a run changes the registry as its event says.
* `Registry.apply_of_settles`: a request that answers what the claims of a key ask takes them away,
  and changes the binding of no other key.
* `Registry.Capped`: what every event keeps. `Registry.Sound` adds that each row belongs to a key
  that is pinned and not bound, and `Registry.apply_sound_iff` says which events keep that too.
-/

set_option autoImplicit false

namespace NemoServer

open Integration

/-- The device keys, and the claims that wait for the operator. -/
structure Registry where
  keys : List DeviceKey
  claims : List PendingDeviceKeyClaim

def Server.registry (s : Server) : Registry := ⟨s.cfg.deviceKeys, s.cfg.pendingDeviceKeyClaims⟩

namespace Registry

/-- A request that changes the registry. -/
inductive Event
  | add (label publicKey createdAt peerId : String)
  | remove (id : String)
  | bind (id peerId : String)
  | approve (keyId peerId claimedAt : String)
  | deny (keyId peerId : String)
  | forget (keyId peerId : String)
  | file (publicKey peerId via now : String)

variable (r : Registry)

/-- The claims of a key are gone, whatever they asked. -/
def settle (keys : List DeviceKey) (publicKey : String) : Registry :=
  ⟨keys, r.claims.filter fun c => c.publicKey != publicKey⟩

/-- The registry after a request; one that fails changes nothing. -/
def apply : Event → Registry
  | .add label publicKey createdAt peerId =>
    { r with keys := addDeviceKey label publicKey createdAt peerId r.keys }
  | .remove id =>
    match r.keys.findIdx? fun k => k.id == id with
    | none => r
    | some pos =>
      r.settle (r.keys.eraseIdx pos) (((r.keys[pos]?).map (·.publicKey)).getD "")
  | .bind id peerId =>
    match setDeviceKeyPeerIdIn r.keys id peerId with
    | none => r
    | some (updated, keys) => r.settle keys updated.publicKey
  | .approve keyId peerId claimedAt =>
    match r.claims.find? fun c => c.keyId == keyId && c.peerId == peerId with
    | none => r
    | some claim =>
      match claimDeviceKeyIn r.keys claim.publicKey peerId claimedAt with
      | none => r
      | some keys => r.settle keys claim.publicKey
  | .deny keyId peerId => { r with claims := Server.denyClaim keyId peerId r.claims }
  | .forget keyId peerId =>
    { r with claims := r.claims.filter fun c => !(c.keyId == keyId && c.peerId == peerId) }
  | .file publicKey peerId via now =>
    match r.keys.find? fun k => k.publicKey == Str.trim publicKey with
    | none => r
    | some key =>
      { r with claims :=
          (registerPendingClaimIn r.claims key.id (Str.trim publicKey) peerId via now).2 }

/-- The key whose claims a request answers, if it succeeds: by removing the key, by setting or
clearing its binding, or by approving one of its claims. -/
def settles : Event → Option String
  | .remove id => (r.keys.find? fun k => k.id == id).map (·.publicKey)
  | .bind id peerId => (setDeviceKeyPeerIdIn r.keys id peerId).map fun u => u.1.publicKey
  | .approve keyId peerId claimedAt =>
    (r.claims.find? fun c => c.keyId == keyId && c.peerId == peerId).bind fun claim =>
      (claimDeviceKeyIn r.keys claim.publicKey peerId claimedAt).map fun _ => claim.publicKey
  | _ => none

end Registry

/-- The request an operation makes of the registry. -/
def Op.registryEvent (X : Setup) (s : Server) : Op → Option Registry.Event
  | .registerPendingClaim publicKey peerId via =>
    some (.file publicKey peerId via (X.isoOfSecs s.clock))
  | .removeDeviceKey id => some (.remove id)
  | _ => none

def Env.registryEvent (X : Setup) (s : Server) : Env → Option Registry.Event
  | .addDeviceKey label publicKey createdAt peerId =>
    some (.add label publicKey createdAt peerId)
  | .setDeviceKeyPeerId id peerId => some (.bind id peerId)
  | .approveDeviceKeyClaim keyId peerId claimedAt => some (.approve keyId peerId claimedAt)
  | .denyDeviceKeyClaim keyId peerId => some (.deny keyId peerId)
  | .forgetDeviceKeyClaim keyId peerId => some (.forget keyId peerId)
  | .registerPendingClaim publicKey peerId via =>
    some (.file publicKey peerId via (X.isoOfSecs s.clock))
  | _ => none

/-- The request an item of a run makes of the registry. -/
def registryEvent (X : Setup) : Step → Option Registry.Event
  | .step _ _ _ o s => o.registryEvent X s
  | .env e s => e.registryEvent X s
  | _ => none

section Post

variable {X : Setup}

theorem registry_registerPendingClaim (s : Server) (publicKey peerId via : String) :
    (s.registerPendingClaim X publicKey peerId via).2.registry =
      s.registry.apply (.file publicKey peerId via (X.isoOfSecs s.clock)) := by
  simp only [Server.registerPendingClaim, Registry.apply, Server.registry]
  cases s.cfg.deviceKeys.find? fun k => k.publicKey == Str.trim publicKey with
  | none => rfl
  | some key => dsimp only

theorem registry_removeDeviceKey (s : Server) (id : String) :
    (s.removeDeviceKey id).2.registry = s.registry.apply (.remove id) := by
  simp only [Server.removeDeviceKey, Registry.apply, Server.registry]
  cases s.cfg.deviceKeys.findIdx? fun k => k.id == id with
  | none => rfl
  | some pos => rfl

theorem registry_approve (s : Server) (keyId peerId claimedAt : String) :
    ((s.approveDeviceKeyClaim keyId peerId claimedAt).getD s).registry =
      s.registry.apply (.approve keyId peerId claimedAt) := by
  simp only [Server.approveDeviceKeyClaim, Registry.apply, Option.bind_eq_bind]
  cases hclaim : s.cfg.pendingDeviceKeyClaims.find? fun c =>
      c.keyId == keyId && c.peerId == peerId with
  | none => simp [Server.registry, hclaim]
  | some claim =>
    cases hkeys : claimDeviceKeyIn s.cfg.deviceKeys claim.publicKey peerId claimedAt with
    | none => simp [Server.registry, hclaim, hkeys]
    | some keys => simp [Server.registry, hclaim, hkeys, Registry.settle, Server.withCfg]

theorem registry_bind (s : Server) (id peerId : String) :
    ((Server.act X (.setDeviceKeyPeerId id peerId) s).getD s).registry =
      s.registry.apply (.bind id peerId) := by
  simp only [Server.act, Registry.apply, Server.registry]
  cases h : setDeviceKeyPeerIdIn s.cfg.deviceKeys id peerId with
  | none => rfl
  | some u => rfl

theorem registry_sem (o : Op) (s : Server) : (Op.sem X o s).2.registry =
    (o.registryEvent X s).elim s.registry s.registry.apply := by
  by_cases hc : o.kind = .claim
  · cases o with
    | registerPendingClaim pk id via =>
      simp only [Op.sem]
      exact registry_registerPendingClaim s pk id via
    | _ => cases hc
  by_cases ha : o.kind = .admin
  · cases o with
    | removeDeviceKey id =>
      simp only [Op.sem]
      exact registry_removeDeviceKey s id
    | dbSetPeerStatus id status note =>
      obtain ⟨db, h⟩ := s.query_snd fun db => some (Database.setPeerStatus db id status note)
      change (s.query _).2.registry = s.registry
      rw [h]
      rfl
    | dbSetManagementPolicy id policy =>
      obtain ⟨db, h⟩ := s.query_snd fun db => some (Database.setPeerManagementPolicy db id policy)
      change (s.query _).2.registry = s.registry
      rw [h]
      rfl
    | writeStatus r status => rfl
    | dropSessionsOf publicKey => rfl
    | _ => cases ha
  · have hev : o.registryEvent X s = none := by
      cases o with
      | registerPendingClaim => exact absurd rfl hc
      | removeDeviceKey => exact absurd rfl ha
      | _ => rfl
    rw [hev, Server.registry, sem_cfg ha hc]
    rfl

theorem registry_act (e : Env) (s : Server) : ((Server.act X e s).getD s).registry =
    (e.registryEvent X s).elim s.registry s.registry.apply := by
  cases e with
  | registerPendingClaim pk id via => exact registry_registerPendingClaim s pk id via
  | setDeviceKeyPeerId id peerId => exact registry_bind s id peerId
  | approveDeviceKeyClaim keyId peerId claimedAt => exact registry_approve s keyId peerId claimedAt
  | configureUpdate serial servers =>
    change ((if s.serial < serial then some _ else none).getD s).registry = s.registry
    split
    · rfl
    · rfl
  | _ => rfl

/-- An item changes the registry as its event says. -/
theorem registry_post (i : Step) : ((hbbs X).post i).registry =
    (registryEvent X i).elim i.pre.registry i.pre.registry.apply := by
  cases i with
  | start n j s =>
    change ((Server.beginJob j s).getD s).registry = s.registry
    cases h : Server.beginJob j s with
    | none => rfl
    | some s' =>
      change s'.registry = s.registry
      rw [Server.beginJob_eq h]
      rfl
  | step n j past o s => exact registry_sem o s
  | env e s => exact registry_act e s
  | crash s => rfl

end Post

namespace Registry

variable {r : Registry} {e : Event} {publicKey peerId : String}

/-! ## Requests that answer the claims of a key -/

/-- The operator answers what the claims of a key ask. -/
def Event.Answers : Event → Prop
  | .remove _ => True
  | .bind _ _ => True
  | .approve _ _ _ => True
  | _ => False

/-- Only a binding a request may change is that of the key it settles. -/
theorem deviceKeyBinding_middle {before after mid mid' : List DeviceKey}
    (h : ∀ k ∈ mid, k.publicKey ≠ Str.trim publicKey)
    (h' : ∀ k ∈ mid', k.publicKey ≠ Str.trim publicKey) :
    deviceKeyBinding (before ++ mid' ++ after) publicKey =
      deviceKeyBinding (before ++ mid ++ after) publicKey := by
  have hnone : ∀ {ks : List DeviceKey}, (∀ k ∈ ks, k.publicKey ≠ Str.trim publicKey) →
      (ks.find? fun k => k.publicKey == Str.trim publicKey) = none := fun hks =>
    List.find?_eq_none.2 fun k hk => by simpa using hks k hk
  simp only [deviceKeyBinding, List.find?_append, hnone h, hnone h']

/-- What an answer does: nothing if it fails, and otherwise the claims of its key are gone, and the
entry of one key in the registry is changed or gone. -/
theorem apply_answer (h : e.Answers) : (r.settles e = none ∧ r.apply e = r) ∨
    ∃ pk keys key before mid after, r.settles e = some pk ∧ r.apply e = r.settle keys pk ∧
      r.keys = before ++ [key] ++ after ∧ keys = before ++ mid ++ after ∧
      (∀ k ∈ mid, k.publicKey = key.publicKey) ∧
      (key.publicKey = pk ∨ ∃ c ∈ r.claims, c.publicKey = pk ∧ key.publicKey = Str.trim pk) := by
  cases e with
  | remove id =>
    simp only [settles, apply, List.find?_eq_bind_findIdx?_getElem?]
    cases hpos : r.keys.findIdx? fun k => k.id == id with
    | none => exact .inl ⟨rfl, rfl⟩
    | some pos =>
      obtain ⟨hlt, -, -⟩ := List.findIdx?_eq_some_iff_getElem.1 hpos
      have hsplit : r.keys = r.keys.take pos ++ [r.keys[pos]] ++ r.keys.drop (pos + 1) := by
        rw [List.append_assoc, List.singleton_append, List.getElem_cons_drop,
          List.take_append_drop]
      refine .inr ⟨r.keys[pos].publicKey, r.keys.eraseIdx pos, r.keys[pos], r.keys.take pos, [],
        r.keys.drop (pos + 1), by simp [hlt], by simp [hlt], hsplit, ?_, by simp, .inl rfl⟩
      rw [List.append_nil, List.eraseIdx_eq_take_drop_succ]
  | bind id peerId =>
    simp only [settles, apply]
    cases hset : setDeviceKeyPeerIdIn r.keys id peerId with
    | none => exact .inl ⟨rfl, rfl⟩
    | some u =>
      obtain ⟨key, before, after, hkeys, hupd, hu⟩ := setDeviceKeyPeerIdIn_some hset
      refine .inr ⟨u.1.publicKey, u.2, key, before, [u.1], after, rfl, rfl, ?_, ?_, ?_, ?_⟩
      · rw [hkeys, List.append_assoc, List.singleton_append]
      · rw [hupd, List.append_assoc, List.singleton_append]
      · simp [hu]
      · exact .inl (by rw [hu])
  | approve keyId peerId claimedAt =>
    simp only [settles, apply]
    cases hclaim : r.claims.find? fun c => c.keyId == keyId && c.peerId == peerId with
    | none => exact .inl ⟨rfl, rfl⟩
    | some claim =>
      simp only [Option.bind_some]
      cases hkeys : claimDeviceKeyIn r.keys claim.publicKey peerId claimedAt with
      | none => exact .inl ⟨rfl, rfl⟩
      | some keys =>
        obtain ⟨key, before, after, hsplit, hkey, hcase⟩ := claimDeviceKeyIn_some hkeys
        have hmem := List.mem_of_find?_eq_some hclaim
        have hend : ∃ c ∈ r.claims, c.publicKey = claim.publicKey ∧
            key.publicKey = Str.trim claim.publicKey := ⟨claim, hmem, rfl, hkey⟩
        have hsplit' : r.keys = before ++ [key] ++ after := by simp [hsplit]
        obtain ⟨-, rfl⟩ | ⟨-, rfl⟩ := hcase
        · exact .inr ⟨claim.publicKey, r.keys, key, before, [key], after, rfl, rfl, hsplit',
            hsplit', by simp, .inr hend⟩
        · exact .inr ⟨claim.publicKey, _, key, before,
            [{ key with peerId := Str.trim peerId, claimedAt := claimedAt }], after, rfl, rfl,
            hsplit', by simp, by simp, .inr hend⟩
  | _ => exact h.elim

/-- What filing a claim does: nothing if the key is not pinned, and otherwise what registering the
claim in the table does. -/
theorem apply_file (r : Registry) (publicKey peerId via now : String) :
    (r.keys.find? (fun k => k.publicKey == Str.trim publicKey) = none ∧
      r.apply (.file publicKey peerId via now) = r) ∨
    ∃ key outcome claims, r.keys.find? (fun k => k.publicKey == Str.trim publicKey) = some key ∧
      registerPendingClaimIn r.claims key.id (Str.trim publicKey) peerId via now =
        (outcome, claims) ∧
      r.apply (.file publicKey peerId via now) = ⟨r.keys, claims⟩ := by
  simp only [apply]
  split
  next h => exact .inl ⟨h, rfl⟩
  next key h =>
    generalize hres : registerPendingClaimIn r.claims key.id (Str.trim publicKey) peerId via now =
      res
    obtain ⟨outcome, claims⟩ := res
    exact .inr ⟨key, outcome, claims, h, hres, rfl⟩

end Registry

end NemoServer
