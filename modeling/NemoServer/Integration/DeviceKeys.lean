import Mathlib.Algebra.Group.Nat.Defs
import NemoServer.Std.Str

/-!
# Device keys and pending claims

The registry of provisioned device keys (`nemo_integration.rs`): pinning, binding to a peer id,
the decision a handshake takes about a binding, and the table of binding requests that wait for
the operator. A key is pinned by its text, the base64 of its public half; the empty peer id means
that the key is not bound.
-/

set_option autoImplicit false

namespace NemoServer

/-- A provisioned client device key. -/
structure DeviceKey where
  id : String
  label : String
  publicKey : String
  createdAt : String
  /-- The peer the key is bound to; empty if it is not bound yet. -/
  peerId : String
  claimedAt : String
  deriving DecidableEq

/-- A request to bind a key, filed by a client that proved the key. -/
structure PendingDeviceKeyClaim where
  keyId : String
  publicKey : String
  peerId : String
  firstSeen : String
  lastSeen : String
  attempts : ℕ
  via : String
  denied : Bool
  deriving DecidableEq

/-- What the binding rule says about a key whose signature has not been checked yet. -/
inductive BindingDecision
  | proven
  | claimOnProof
  | refused (reason : String)
  deriving DecidableEq

/-- What became of a binding request. -/
inductive PendingOutcome
  | new
  | again
  | denied
  | full
  | rejected
  deriving DecidableEq

namespace Integration

open Str

/-! ## Pinning and binding -/

def deviceKeyIdFor (publicKey : String) (existing : List DeviceKey) : String :=
  let alnum := publicKey.toList.filter Char.isAlphanum
  if alnum = [] then ""
  else
    let start := max (min 16 alnum.length) 1
    -- every round but the last lengthens the candidate, so the fuel is never short
    go alnum existing publicKey start (alnum.length - start)
where
  go (alnum : List Char) (existing : List DeviceKey) (publicKey : String) (len : ℕ) : ℕ → String
    | 0 => String.ofList (alnum.take len)
    | fuel + 1 =>
      let candidate := String.ofList (alnum.take len)
      let collides := existing.any fun k => k.id == candidate && k.publicKey != publicKey
      if !collides || alnum.length ≤ len then candidate
      else go alnum existing publicKey (min (len + 4) alnum.length) fuel

/-- Ids typed by an operator: all whitespace is dropped. -/
def normalizePeerId (raw : String) : String :=
  String.ofList (raw.toList.filter fun c => !isWhitespace c)

def validPeerId (id : String) : Bool :=
  let id := trim id
  decide (6 ≤ id.utf8ByteSize) && decide (id.utf8ByteSize ≤ 64) &&
    id.toList.all fun c => c.isAlphanum || c == '-' || c == '_'

def addDeviceKey (label publicKey createdAt peerId : String) (keys : List DeviceKey) :
    List DeviceKey :=
  let id := deviceKeyIdFor publicKey keys
  keys.filter (fun k => k.publicKey != publicKey && k.id != id) ++
    [{ id, label, publicKey, createdAt, peerId := normalizePeerId peerId, claimedAt := "" }]

def isDeviceKeyPinned (keys : List DeviceKey) (publicKey : String) : Bool :=
  let pk := trim publicKey
  pk != "" && keys.any fun k => k.publicKey == pk

/-- The machines the given keys are bound to, each once. -/
def peerIdsForDeviceKeys (deviceKeys : List DeviceKey) (keys : List String) : List String :=
  deviceKeys.foldl (fun out k =>
    if k.peerId ≠ "" ∧ k.publicKey ∈ keys ∧ k.peerId ∉ out then out ++ [k.peerId] else out) []

/-- `none`: not pinned; `some ""`: pinned but not bound. -/
def deviceKeyBinding (keys : List DeviceKey) (publicKey : String) : Option String :=
  let pk := trim publicKey
  if pk = "" then none else (keys.find? fun k => k.publicKey == pk).map (·.peerId)

/-- The one binding rule of both enforcement points. -/
def deviceKeyBindingDecision (bound claimed : String) (allowUnbound claimEnabled : Bool) :
    BindingDecision :=
  if bound ≠ "" then
    if bound = claimed then .proven
    else .refused ("device key is bound to peer " ++ bound ++ " but the client claims " ++ claimed)
  else if allowUnbound then .proven
  else if claimEnabled then
    if trim claimed = "" then
      .refused "device key has no peer-id binding and the client claims no id"
    else .claimOnProof
  else .refused ("device key has no peer-id binding (client claims " ++ claimed ++
    "); bind it, enable first-use claiming, or pass --allow-unbound-device-keys Y")

/-- Change the first key `p` accepts. -/
def updateFirst (p : DeviceKey → Bool) (f : DeviceKey → DeviceKey) :
    List DeviceKey → List DeviceKey
  | [] => []
  | k :: ks => if p k then f k :: ks else k :: updateFirst p f ks

/-- Take an unbound key for a peer; `none` if it is refused. -/
def claimDeviceKeyIn (keys : List DeviceKey) (publicKey peerId claimedAt : String) :
    Option (List DeviceKey) :=
  let pk := trim publicKey
  let peerId := trim peerId
  if peerId = "" then none
  else match keys.find? fun k => k.publicKey == pk with
    | none => none
    | some key =>
      if key.peerId = peerId then some keys
      else if key.peerId ≠ "" then none
      else some (updateFirst (fun k => k.publicKey == pk)
        (fun k => { k with peerId := peerId, claimedAt := claimedAt }) keys)

/-- Set or clear a binding by hand; `none` if it is refused. -/
def setDeviceKeyPeerIdIn (keys : List DeviceKey) (id peerId : String) :
    Option (DeviceKey × List DeviceKey) :=
  let peerId := normalizePeerId peerId
  if peerId ≠ "" ∧ !validPeerId peerId then none
  else match keys.find? fun k => k.id == id with
    | none => none
    | some key =>
      let f := fun k : DeviceKey => { k with peerId := peerId, claimedAt := "" }
      some (f key, updateFirst (fun k => k.id == id) f keys)

theorem pinned_of_binding {keys : List DeviceKey} {publicKey peerId : String}
    (h : deviceKeyBinding keys publicKey = some peerId) :
    isDeviceKeyPinned keys publicKey = true := by
  simp only [deviceKeyBinding, Option.ite_none_left_eq_some, Option.map_eq_some_iff] at h
  obtain ⟨hne, key, hfind, -⟩ := h
  simp only [isDeviceKeyPinned, Bool.and_eq_true, bne_iff_ne, List.any_eq_true]
  have hkey := List.find?_some hfind
  exact ⟨hne, key, List.mem_of_find?_eq_some hfind, hkey⟩

theorem binding_of_pinned {keys : List DeviceKey} {publicKey : String}
    (h : isDeviceKeyPinned keys publicKey = true) :
    ∃ peerId, deviceKeyBinding keys publicKey = some peerId := by
  simp only [isDeviceKeyPinned, Bool.and_eq_true, bne_iff_ne, List.any_eq_true] at h
  obtain ⟨hne, key, hmem, hkey⟩ := h
  have hsome : (keys.find? fun k => k.publicKey == trim publicKey).isSome = true :=
    List.find?_isSome.2 ⟨key, hmem, hkey⟩
  obtain ⟨key', hfind⟩ := Option.isSome_iff_exists.1 hsome
  exact ⟨key'.peerId, by simp only [deviceKeyBinding, if_neg hne, hfind, Option.map_some]⟩

theorem bindingDecision_proven_iff {bound claimed : String} {allowUnbound claimEnabled : Bool} :
    deviceKeyBindingDecision bound claimed allowUnbound claimEnabled = .proven ↔
      bound ≠ "" ∧ bound = claimed ∨ bound = "" ∧ allowUnbound = true := by
  unfold deviceKeyBindingDecision
  by_cases hb : bound = ""
  · rw [if_neg (not_not.2 hb)]
    cases allowUnbound with
    | true => simp [hb]
    | false =>
      simp only [hb, Bool.false_eq_true, if_false]
      split
      · split <;> simp
      · simp
  · rw [if_pos hb]
    by_cases hc : bound = claimed
    · rw [if_pos hc]
      exact ⟨fun _ => .inl ⟨hb, hc⟩, fun _ => rfl⟩
    · rw [if_neg hc]
      simp [hb, hc]

/-- A proof that is neither refused nor to be claimed is of a key that is pinned, for the id it is
bound to or, where that is allowed, for any. -/
theorem vouched_of_decision {keys : List DeviceKey} {publicKey bound claimed : String}
    {allowUnbound claimEnabled : Bool} (hbound : deviceKeyBinding keys publicKey = some bound)
    (hclaim : deviceKeyBindingDecision bound claimed allowUnbound claimEnabled ≠ .claimOnProof)
    (hrefused : ∀ reason,
      deviceKeyBindingDecision bound claimed allowUnbound claimEnabled ≠ .refused reason) :
    isDeviceKeyPinned keys publicKey = true ∧
      (claimed ≠ "" ∧ deviceKeyBinding keys publicKey = some claimed ∨
        deviceKeyBinding keys publicKey = some "" ∧ allowUnbound = true) := by
  refine ⟨pinned_of_binding hbound, ?_⟩
  rcases hdec : deviceKeyBindingDecision bound claimed allowUnbound claimEnabled with _ | _ | reason
  · obtain ⟨hne, rfl⟩ | ⟨rfl, hallow⟩ := bindingDecision_proven_iff.1 hdec
    · exact .inl ⟨hne, hbound⟩
    · exact .inr ⟨hbound, hallow⟩
  · exact absurd hdec hclaim
  · exact absurd hdec (hrefused reason)

/-! ## Pending claims -/

def maxPendingPerKey : ℕ := 5
def maxPendingClaims : ℕ := 200

/-- `u32::saturating_add(1)`. -/
def bump (attempts : ℕ) : ℕ := min (attempts + 1) (2 ^ 32 - 1)

/-- The place of the oldest request that is still waiting, the first of them if several are
equally old. -/
def oldestWaiting (claims : List PendingDeviceKeyClaim) : Option ℕ :=
  (go claims 0 none).map (·.1)
where
  go : List PendingDeviceKeyClaim → ℕ → Option (ℕ × String) → Option (ℕ × String)
    | [], _, best => best
    | c :: cs, i, best =>
      if c.denied then go cs (i + 1) best
      else match best with
        | none => go cs (i + 1) (some (i, c.firstSeen))
        | some (j, t) => go cs (i + 1) (if c.firstSeen < t then some (i, c.firstSeen)
          else some (j, t))

/-- Drop waiting requests until the table has room; `false` if only denied ones are left. -/
def makeRoom (claims : List PendingDeviceKeyClaim) : ℕ → Bool × List PendingDeviceKeyClaim
  | 0 => (true, claims)
  | fuel + 1 =>
    if maxPendingClaims ≤ claims.length then
      match oldestWaiting claims with
      | none => (false, claims)
      | some i => makeRoom (claims.eraseIdx i) fuel
    else (true, claims)

/-- Refresh the request of a client that asks again. -/
def refresh (pk peerId keyId via now : String) :
    List PendingDeviceKeyClaim → List PendingDeviceKeyClaim
  | [] => []
  | c :: cs =>
    if c.publicKey = pk ∧ c.peerId = peerId then
      { c with lastSeen := now, attempts := bump c.attempts, via := via, keyId := keyId } :: cs
    else c :: refresh pk peerId keyId via now cs

def registerPendingClaimIn (claims : List PendingDeviceKeyClaim)
    (keyId publicKey peerId via now : String) : PendingOutcome × List PendingDeviceKeyClaim :=
  let pk := trim publicKey
  let peerId := trim peerId
  if !validPeerId peerId then (.rejected, claims)
  else match claims.find? fun c => c.publicKey == pk && c.peerId == peerId with
    | some c =>
      (if c.denied then .denied else .again, refresh pk peerId keyId via now claims)
    | none =>
      if maxPendingPerKey ≤ (claims.filter fun c => c.publicKey == pk).length then (.full, claims)
      else match makeRoom claims claims.length with
        | (false, claims) => (.full, claims)
        | (true, claims) =>
          (.new, claims ++ [⟨keyId, pk, peerId, now, now, 1, via, false⟩])

/-! ## What the operations change -/

theorem updateFirst_of_find {p : DeviceKey → Bool} {f : DeviceKey → DeviceKey}
    {keys : List DeviceKey} {key : DeviceKey} (h : keys.find? p = some key) :
    ∃ before after, keys = before ++ key :: after ∧
      updateFirst p f keys = before ++ f key :: after := by
  induction keys with
  | nil => cases h
  | cons k ks ih =>
    rw [List.find?_cons] at h
    cases hk : p k with
    | true =>
      rw [hk] at h
      obtain rfl := Option.some.inj h
      exact ⟨[], ks, rfl, by simp [updateFirst, hk]⟩
    | false =>
      rw [hk] at h
      obtain ⟨before, after, rfl, hupd⟩ := ih h
      exact ⟨k :: before, after, rfl, by simp [updateFirst, hk, hupd]⟩

/-- A key is only taken while it is not bound, and nothing else in the registry changes. -/
theorem claimDeviceKeyIn_some {keys keys' : List DeviceKey} {publicKey peerId claimedAt : String}
    (h : claimDeviceKeyIn keys publicKey peerId claimedAt = some keys') :
    ∃ key before after, keys = before ++ key :: after ∧ key.publicKey = trim publicKey ∧
      (key.peerId = trim peerId ∧ keys' = keys ∨ key.peerId = "" ∧
        keys' = before ++ { key with peerId := trim peerId, claimedAt := claimedAt } :: after) := by
  unfold claimDeviceKeyIn at h
  simp only at h
  split at h
  · cases h
  split at h
  · cases h
  next key hfind =>
  have hkey := List.find?_some hfind
  simp only [beq_iff_eq] at hkey
  obtain ⟨before, after, hkeys, hupd⟩ := updateFirst_of_find
    (f := fun k => { k with peerId := trim peerId, claimedAt := claimedAt }) hfind
  refine ⟨key, before, after, hkeys, hkey, ?_⟩
  split at h
  · next heq => exact .inl ⟨heq, (Option.some.inj h).symm⟩
  split at h
  · cases h
  · next hempty => exact .inr ⟨not_not.1 hempty, (Option.some.inj h).symm.trans hupd⟩

/-- Binding by hand changes one entry, of the key that is reported. -/
theorem setDeviceKeyPeerIdIn_some {keys : List DeviceKey} {id peerId : String}
    {u : DeviceKey × List DeviceKey} (h : setDeviceKeyPeerIdIn keys id peerId = some u) :
    ∃ key before after, keys = before ++ key :: after ∧ u.2 = before ++ u.1 :: after ∧
      u.1 = { key with peerId := normalizePeerId peerId, claimedAt := "" } := by
  unfold setDeviceKeyPeerIdIn at h
  simp only at h
  split at h
  · cases h
  split at h
  · cases h
  next key hfind =>
  obtain rfl := Option.some.inj h
  obtain ⟨before, after, hkeys, hupd⟩ := updateFirst_of_find
    (f := fun k => { k with peerId := normalizePeerId peerId, claimedAt := "" }) hfind
  exact ⟨key, before, after, hkeys, hupd, rfl⟩

theorem refresh_mem {pk peerId keyId via now : String} {claims : List PendingDeviceKeyClaim}
    {c : PendingDeviceKeyClaim} (h : c ∈ refresh pk peerId keyId via now claims) :
    ∃ c₀ ∈ claims, c₀.publicKey = c.publicKey ∧ c₀.peerId = c.peerId := by
  induction claims with
  | nil => cases h
  | cons d ds ih =>
    unfold refresh at h
    split at h
    · rcases List.mem_cons.1 h with rfl | h
      · exact ⟨d, List.mem_cons_self, rfl, rfl⟩
      · exact ⟨c, List.mem_cons_of_mem _ h, rfl, rfl⟩
    · rcases List.mem_cons.1 h with rfl | h
      · exact ⟨c, List.mem_cons_self, rfl, rfl⟩
      · obtain ⟨c₀, hmem, heq⟩ := ih h
        exact ⟨c₀, List.mem_cons_of_mem _ hmem, heq⟩

theorem makeRoom_subset (claims : List PendingDeviceKeyClaim) (fuel : ℕ) :
    (makeRoom claims fuel).2 ⊆ claims := by
  induction fuel generalizing claims with
  | zero => exact List.Subset.refl _
  | succ fuel ih =>
    unfold makeRoom
    split
    · split
      · exact List.Subset.refl _
      · exact fun x hx => List.eraseIdx_subset (ih _ hx)
    · exact List.Subset.refl _

/-- Only the pair that was asked for is new in the table. -/
theorem registerPendingClaimIn_mem {claims : List PendingDeviceKeyClaim}
    {keyId publicKey peerId via now : String} {c : PendingDeviceKeyClaim}
    (h : c ∈ (registerPendingClaimIn claims keyId publicKey peerId via now).2) :
    (∃ c₀ ∈ claims, c₀.publicKey = c.publicKey ∧ c₀.peerId = c.peerId) ∨
      c.publicKey = trim publicKey ∧ c.peerId = trim peerId := by
  have hold : ∀ {claims'}, claims' ⊆ claims → c ∈ claims' →
      ∃ c₀ ∈ claims, c₀.publicKey = c.publicKey ∧ c₀.peerId = c.peerId :=
    fun hsub hc => ⟨c, hsub hc, rfl, rfl⟩
  unfold registerPendingClaimIn at h
  simp only at h
  split at h
  · exact .inl (hold (List.Subset.refl _) h)
  split at h
  · exact .inl (refresh_mem h)
  split at h
  · exact .inl (hold (List.Subset.refl _) h)
  have hroom := makeRoom_subset claims claims.length
  split at h
  · next claims' heq =>
    rw [heq] at hroom
    exact .inl (hold hroom h)
  · next claims' heq =>
    rw [heq] at hroom
    rcases List.mem_append.1 h with h | h
    · exact .inl (hold hroom h)
    · rw [List.mem_singleton.1 h]
      exact .inr ⟨rfl, rfl⟩

theorem mem_peerIdsForDeviceKeys {deviceKeys : List DeviceKey} {keys : List String} {p : String} :
    p ∈ peerIdsForDeviceKeys deviceKeys keys ↔
      p ≠ "" ∧ ∃ k ∈ deviceKeys, k.peerId = p ∧ k.publicKey ∈ keys := by
  suffices hgen : ∀ out : List String, p ∈ deviceKeys.foldl (fun out k =>
      if k.peerId ≠ "" ∧ k.publicKey ∈ keys ∧ k.peerId ∉ out then out ++ [k.peerId] else out) out ↔
        p ∈ out ∨ p ≠ "" ∧ ∃ k ∈ deviceKeys, k.peerId = p ∧ k.publicKey ∈ keys by
    exact (hgen []).trans (by simp)
  induction deviceKeys with
  | nil => simp
  | cons k ks ih =>
    intro out
    rw [List.foldl_cons, ih]
    by_cases hk : k.peerId ≠ "" ∧ k.publicKey ∈ keys ∧ k.peerId ∉ out
    · rw [if_pos hk]
      grind
    · rw [if_neg hk]
      grind

end Integration

end NemoServer
