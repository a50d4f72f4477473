import NemoServer.Laws.FailClosed
import NemoServer.Std.Base64

/-!
# The lists of a policy, read back

A policy carries the keys of the peers as `id,key;id,key` and the blocked ids as `id,id`, and the
ids are the clients' own. Read back, the lists are those of the registered peers exactly if no id
in them contains a separator and the listing covers the peers they are about.
-/

set_option autoImplicit false

namespace NemoServer

open Prog Management Str

/-! ## Joining and splitting -/

/-- `str::split` at a character. -/
def splitText (c : Char) (s : String) : List String := (s.toList.splitOn c).map String.ofList

theorem not_mem_splitOn {α : Type} [DecidableEq α] {a : α} {xs l : List α}
    (h : l ∈ xs.splitOn a) : a ∉ l := by
  induction xs generalizing l with
  | nil =>
    obtain rfl : l = [] := by simpa [List.splitOn_eq_splitOnP] using h
    exact List.not_mem_nil
  | cons x xs ih =>
    rw [List.splitOn_cons_eq_if_modifyHead] at h
    split at h
    next =>
      obtain rfl | h := List.mem_cons.1 h
      · exact List.not_mem_nil
      · exact ih h
    next hne =>
      cases hsplit : xs.splitOn a with
      | nil => exact absurd hsplit (List.splitOn_ne_nil a xs)
      | cons l' ls =>
        rw [hsplit, List.modifyHead_cons] at h
        obtain rfl | h := List.mem_cons.1 h
        · intro hmem
          obtain rfl | hmem := List.mem_cons.1 hmem
          · exact hne (beq_self_eq_true a)
          · exact ih (hsplit ▸ List.mem_cons_self) hmem
        · exact ih (hsplit ▸ List.mem_cons_of_mem _ h)

theorem not_mem_splitText {c : Char} {s t : String} (h : t ∈ splitText c s) : c ∉ t.toList := by
  obtain ⟨l, hl, rfl⟩ := List.mem_map.1 h
  rw [String.toList_ofList]
  exact not_mem_splitOn hl

/-- What is joined with a character comes apart there, if it does not contain it. -/
theorem splitText_intercalate {c : Char} {sep : String} {l : List String}
    (hsep : sep.toList = [c]) (hl : l ≠ []) (h : ∀ s ∈ l, c ∉ s.toList) :
    splitText c (sep.intercalate l) = l := by
  unfold splitText
  rw [String.toList_intercalate, hsep, List.splitOn_intercalate c (by simpa using h) (by simpa)]
  simp [Function.comp_def]

/-- `str::split_once` at a comma. -/
def readPair (item : String) : Option (String × String) :=
  (splitOnce ',' item.toList).map fun p => (String.ofList p.1, String.ofList p.2)

theorem readPair_comma {id : String} (h : ',' ∉ id.toList) (k : String) :
    readPair (id ++ "," ++ k) = some (id, k) := by
  have hne : ∀ ch ∈ id.toList, (ch != ',') = true := by
    intro ch hch
    rw [bne_iff_ne]
    rintro rfl
    exact h hch
  unfold readPair splitOnce
  rw [String.toList_append, String.toList_append, List.append_assoc,
    List.dropWhile_append_of_pos hne, List.takeWhile_append_of_pos hne]
  simp

/-- The first part of a pair is text of the item, up to its first comma. -/
theorem readPair_some {item id k : String} (h : readPair item = some (id, k)) :
    ',' ∉ id.toList ∧ ∀ ch ∈ id.toList, ch ∈ item.toList := by
  obtain ⟨⟨a, b⟩, hsplit, heq⟩ := Option.map_eq_some_iff.1 h
  obtain ⟨rfl, rfl⟩ := Prod.mk.inj heq
  unfold splitOnce at hsplit
  cases hrest : item.toList.dropWhile (· != ',') with
  | nil =>
    rw [hrest] at hsplit
    cases hsplit
  | cons c rest =>
    rw [hrest] at hsplit
    obtain ⟨rfl, rfl⟩ := Prod.mk.inj (Option.some.inj hsplit)
    rw [String.toList_ofList]
    exact ⟨fun hmem => by simpa using List.mem_takeWhile_imp hmem,
      fun ch hch => (List.takeWhile_sublist _).subset hch⟩

/-! ## The lists as text -/

/-- The keys a reader finds in the option; what is no pair is skipped. -/
def readPeerKeys (value : Option String) : List (String × String) :=
  match value with
  | some text => (splitText ';' text).filterMap readPair
  | none => []

def readBlockedIds (value : Option String) : List String :=
  match value with
  | some text => splitText ',' text
  | none => []

/-- What `client_policy` puts under `nemo-peer-keys`. -/
def peerKeysValue (X : Setup) (keys : List (String × Bytes)) : Option String :=
  if keys = [] then none
  else some (";".intercalate (keys.map fun k => k.1 ++ "," ++ X.base64Encode k.2))

/-- What it puts under `nemo-blocked-ids`. -/
def blockedIdsValue (ids : List String) : Option String :=
  if ids = [] then none else some (",".intercalate ids)

/-- The text contains neither separator. -/
def NoSeparator (text : String) : Prop := ',' ∉ text.toList ∧ ';' ∉ text.toList

variable {X : Setup}

/-- Whatever the text, the ids that are read contain none. -/
theorem noSeparator_of_mem_readPeerKeys {value : Option String} {id k : String}
    (h : (id, k) ∈ readPeerKeys value) : NoSeparator id := by
  cases value with
  | none => cases h
  | some text =>
    obtain ⟨item, hitem, hpair⟩ := List.mem_filterMap.1 h
    obtain ⟨hcomma, hsub⟩ := readPair_some hpair
    exact ⟨hcomma, fun hmem => not_mem_splitText hitem (hsub _ hmem)⟩

theorem noSeparator_of_mem_readBlockedIds {value : Option String} {id : String}
    (h : id ∈ readBlockedIds value) : ',' ∉ id.toList := by
  cases value with
  | none => cases h
  | some text => exact not_mem_splitText h

theorem readPeerKeys_value (hb64 : ∀ b, NoSeparator (X.base64Encode b)) {keys : List (String × Bytes)}
    (h : ∀ k ∈ keys, NoSeparator k.1) :
    readPeerKeys (peerKeysValue X keys) = keys.map fun k => (k.1, X.base64Encode k.2) := by
  unfold peerKeysValue
  by_cases hnil : keys = []
  · rw [if_pos hnil, hnil]
    rfl
  · rw [if_neg hnil]
    have hitems : ∀ s ∈ keys.map fun k => k.1 ++ "," ++ X.base64Encode k.2, ';' ∉ s.toList := by
      intro s hs
      obtain ⟨k, hk, rfl⟩ := List.mem_map.1 hs
      have hid := (h k hk).2
      have hkey := (hb64 k.2).2
      simp [hid, hkey]
    have hpairs : ∀ k ∈ keys, readPair (k.1 ++ "," ++ X.base64Encode k.2) =
        some (k.1, X.base64Encode k.2) := fun k hk => readPair_comma (h k hk).1 _
    change (splitText ';' _).filterMap readPair = _
    rw [splitText_intercalate rfl (by simpa using hnil) hitems, List.filterMap_map,
      ← List.filterMap_eq_map]
    exact List.filterMap_congr hpairs

theorem readBlockedIds_value {ids : List String} (h : ∀ id ∈ ids, ',' ∉ id.toList) :
    readBlockedIds (blockedIdsValue ids) = ids := by
  unfold blockedIdsValue
  by_cases hnil : ids = []
  · rw [if_pos hnil, hnil]
    rfl
  · rw [if_neg hnil]
    exact splitText_intercalate rfl hnil h

/-! ## The lists of a policy -/

/-- All registered peers, in the order of a listing. -/
def listedPeers (X : Setup) (s : Server) : List RegisteredPeer :=
  (s.db.mergeSort (Database.listedBefore s.api.createdAt)).map (Database.registeredPeerFromRow X)

def hasKey (p : RegisteredPeer) : Bool := p.pk.length == 32

def keysOf (peers : List RegisteredPeer) : List (String × Bytes) :=
  (peers.filter hasKey).map fun p => (p.id, p.pk)

def blockedOf (peers : List RegisteredPeer) : List String :=
  (peers.filter blockedStatus).map (·.id)

/-- The option the keys of a policy were put under, if there were any. -/
def keysOption (c : Composed) : Option String :=
  if c.lists.peerKeys = [] then none else c.policy.options.lookup "nemo-peer-keys"

def blockedOption (c : Composed) : Option String :=
  if c.lists.blocked = [] then none else c.policy.options.lookup "nemo-blocked-ids"

/-- The rows are those of `s`, and can be read. -/
structure Steady (s s' : Server) : Prop where
  db : s'.db = s.db
  createdAt : s'.api.createdAt = s.api.createdAt
  dbUp : s'.dbUp = true

/-- Read back, the lists of a policy are those of the registered peers; and what they say of an id
does not depend on another peer. -/
structure ListsExact (X : Setup) (s : Server) (c : Composed) : Prop where
  keys : readPeerKeys (keysOption c) =
    ((listedPeers X s).filter hasKey).map fun p => (p.id, X.base64Encode p.pk)
  blocked : readBlockedIds (blockedOption c) =
    ((listedPeers X s).filter blockedStatus).map (·.id)
  others : ∀ p ∈ (listedPeers X s).take registeredLimit, ∀ id, id ≠ p.id →
    (∀ k, (id, k) ∈ readPeerKeys (keysOption c) ↔ (id, k) ∈ readPeerKeys (peerKeysValue X
      (keysOf (((listedPeers X s).take registeredLimit).filter fun q => q.id != p.id)))) ∧
    (id ∈ readBlockedIds (blockedOption c) ↔ id ∈ readBlockedIds (blockedIdsValue
      (blockedOf (((listedPeers X s).take registeredLimit).filter fun q => q.id != p.id))))

/-- No id in the lists contains a separator of its list, and the listing covers the peers that
belong there. -/
structure Unseparated (X : Setup) (s : Server) : Prop where
  keys : ∀ p ∈ listedPeers X s, hasKey p = true → NoSeparator p.id
  blocked : ∀ p ∈ listedPeers X s, blockedStatus p = true → ',' ∉ p.id.toList
  covered : ∀ p ∈ (listedPeers X s).drop registeredLimit,
    hasKey p = false ∧ blockedStatus p = false

theorem listRegistered_eq (s : Server) :
    Database.listRegisteredPeers X s.api.createdAt s.db registeredLimit 0 =
      (listedPeers X s).take registeredLimit := by
  rw [Database.listRegisteredPeers, List.drop_zero, List.map_take]
  rfl

/-- Two filtered lists of which one is cut off agree if nothing of the filter is cut off. -/
theorem filter_take_eq_iff {α : Type} (p : α → Bool) (l : List α) (n : ℕ) :
    ((l.take n).filter p).length = (l.filter p).length ↔ ∀ x ∈ l.drop n, p x = false := by
  have happ : l.filter p = (l.take n).filter p ++ (l.drop n).filter p := by
    rw [← List.filter_append, List.take_append_drop]
  rw [happ, List.length_append]
  constructor
  · intro h x hx
    have hnil : (l.drop n).filter p = [] := List.length_eq_zero_iff.1 (by omega)
    by_contra hpx
    have hmem : x ∈ (l.drop n).filter p := List.mem_filter.2 ⟨hx, by simpa using hpx⟩
    rw [hnil] at hmem
    cases hmem
  · intro h
    have hnil : (l.drop n).filter p = [] := List.filter_eq_nil_iff.2 (by simpa using h)
    rw [hnil]
    simp

theorem filter_take_eq {α : Type} {p : α → Bool} {l : List α} {n : ℕ}
    (h : ∀ x ∈ l.drop n, p x = false) : (l.take n).filter p = l.filter p := by
  have happ : l.filter p = (l.take n).filter p ++ (l.drop n).filter p := by
    rw [← List.filter_append, List.take_append_drop]
  have hnil : (l.drop n).filter p = [] := List.filter_eq_nil_iff.2 (by simpa using h)
  rw [happ, hnil, List.append_nil]

/-! ## The composition -/

theorem peerKeyMap_exec {past h' : Past} {keys : List (String × Bytes)}
    (he : peerKeyMap.Exec (Op.sem X) past h' keys) :
    ∃ s, h' = ⟨.dbListRegistered registeredLimit 0, s⟩ :: past ∧
      (s.dbUp = true → keys = keysOf ((listedPeers X s).take registeredLimit)) := by
  unfold peerKeyMap at he
  obtain ⟨s, he⟩ := he
  simp only [Op.sem, Server.query, bind_eq, ret_bind] at he
  refine ⟨s, ?_, fun hup => ?_⟩
  · split at he <;> exact he.1
  · rw [hup] at he
    rw [← listRegistered_eq]
    exact he.2

/-- What the lists of a policy are read from. -/
theorem policyLists_read {targets : Option String} {past h' : Past} {lists : PolicyLists}
    (he : (policyLists targets).Exec (Op.sem X) past h' lists) : ∃ s₁ s₂ s₃,
      h' = [⟨.peerEndpoints, s₃⟩, ⟨.dbListRegistered registeredLimit 0, s₂⟩,
        ⟨.dbListRegistered registeredLimit 0, s₁⟩] ++ past ∧
      (s₁.dbUp = true → lists.blocked = blockedOf ((listedPeers X s₁).take registeredLimit)) ∧
      (s₂.dbUp = true → lists.peerKeys = keysOf ((listedPeers X s₂).take registeredLimit)) := by
  unfold policyLists at he
  obtain ⟨h₁, blocked, hblocked, he⟩ := exec_bind.1 he
  obtain ⟨h₂, peerKeys, hkeys, he⟩ := exec_bind.1 he
  obtain ⟨h₃, endpoints, ⟨s₃, rfl, -⟩, he⟩ := exec_bind.1 he
  obtain ⟨rfl, rfl⟩ := he
  obtain ⟨s₁, rfl, hb⟩ := listBlockedIds_exec hblocked
  obtain ⟨s₂, rfl, hk⟩ := peerKeyMap_exec hkeys
  refine ⟨s₁, s₂, s₃, rfl, fun hup => ?_, hk⟩
  rw [hb, if_pos hup, blockedIds, listRegistered_eq]
  rfl

theorem listedPeers_steady {s s' : Server} (h : Steady s s') : listedPeers X s' = listedPeers X s := by
  unfold listedPeers
  rw [h.db, h.createdAt]

/-- A policy composed while the rows can be read and do not change holds the lists of the listed
peers under their options. -/
theorem composePolicy_lists {s : Server} {request : ClientPolicyRequest} {past new : Past}
    {c : Composed} (hs : ∀ x ∈ new, Steady s x.pre)
    (he : (composePolicy X request).Exec (Op.sem X) past (new ++ past) (.ok c)) :
    keysOption c = peerKeysValue X (keysOf ((listedPeers X s).take registeredLimit)) ∧
      blockedOption c = blockedIdsValue (blockedOf ((listedPeers X s).take registeredLimit)) := by
  obtain ⟨targets, h₁, h₂, policy, hasEndpoint, strip, hlists, ⟨a, rfl⟩, ⟨b, hb⟩, hpolicy⟩ :=
    composePolicy_exec he
  obtain ⟨s₁, s₂, s₃, rfl, hblocked, hkeys⟩ := policyLists_read hlists
  rw [← List.append_assoc, ← List.append_assoc] at hb
  have hnew := List.append_cancel_right hb
  have hs₁ : Steady s s₁ := hs ⟨.dbListRegistered registeredLimit 0, s₁⟩ (by simp [← hnew])
  have hs₂ : Steady s s₂ := hs ⟨.dbListRegistered registeredLimit 0, s₂⟩ (by simp [← hnew])
  have hblocked := hblocked hs₁.dbUp
  have hkeys := hkeys hs₂.dbUp
  rw [listedPeers_steady hs₁] at hblocked
  rw [listedPeers_steady hs₂] at hkeys
  constructor
  · unfold keysOption peerKeysValue
    rw [hpolicy, ← hkeys, lookup_finishPolicy (by decide) (by decide) (by decide)]
    by_cases hnil : c.lists.peerKeys = []
    · rw [if_pos hnil, if_pos hnil]
    · rw [if_neg hnil, if_neg hnil]
      exact lookup_insertLists_peerKeys X hnil _
  · unfold blockedOption blockedIdsValue
    rw [hpolicy, ← hblocked, lookup_finishPolicy (by decide) (by decide) (by decide)]
    by_cases hnil : c.lists.blocked = []
    · rw [if_pos hnil, if_pos hnil]
    · rw [if_neg hnil, if_neg hnil]
      exact lookup_insertLists_blocked X hnil _

/-! ## Exactly when the lists are read back -/

theorem mem_keysOf {peers : List RegisteredPeer} {k : String × Bytes} (h : k ∈ keysOf peers) :
    ∃ p ∈ peers, hasKey p = true ∧ p.id = k.1 := by
  obtain ⟨p, hp, rfl⟩ := List.mem_map.1 h
  obtain ⟨hmem, hkey⟩ := List.mem_filter.1 hp
  exact ⟨p, hmem, hkey, rfl⟩

theorem mem_blockedOf {peers : List RegisteredPeer} {id : String} (h : id ∈ blockedOf peers) :
    ∃ p ∈ peers, blockedStatus p = true ∧ p.id = id := by
  obtain ⟨p, hp, rfl⟩ := List.mem_map.1 h
  obtain ⟨hmem, hblocked⟩ := List.mem_filter.1 hp
  exact ⟨p, hmem, hblocked, rfl⟩

section Read

variable (hb64 : ∀ b, NoSeparator (X.base64Encode b)) {s : Server} (h : Unseparated X s)
  {peers : List RegisteredPeer} (hpeers : ∀ p ∈ peers, p ∈ listedPeers X s)
include h hpeers

include hb64 in
/-- The keys of some of the peers are read back. -/
theorem Unseparated.readPeerKeys : readPeerKeys (peerKeysValue X (keysOf peers)) =
    (peers.filter hasKey).map fun p => (p.id, X.base64Encode p.pk) := by
  rw [readPeerKeys_value hb64, keysOf, List.map_map]
  · rfl
  · intro k hk
    obtain ⟨p, hp, hkey, hid⟩ := mem_keysOf hk
    exact hid ▸ h.keys p (hpeers p hp) hkey

theorem Unseparated.readBlockedIds :
    readBlockedIds (blockedIdsValue (blockedOf peers)) = (peers.filter blockedStatus).map (·.id) := by
  rw [readBlockedIds_value, blockedOf]
  intro id hid
  obtain ⟨p, hp, hblocked, rfl⟩ := mem_blockedOf hid
  exact h.blocked p (hpeers p hp) hblocked

end Read

/-- The entries of one id among those of some peers, without another peer. -/
theorem mem_map_filter_ne {β : Type} {f : RegisteredPeer → β} (id : β → String)
    (hf : ∀ p, id (f p) = p.id) (test : RegisteredPeer → Bool) (peers : List RegisteredPeer)
    {other : String} {b : β} (hb : id b ≠ other) :
    b ∈ (peers.filter test).map f ↔
      b ∈ ((peers.filter fun q => q.id != other).filter test).map f := by
  simp only [List.mem_map, List.mem_filter, bne_iff_ne]
  constructor
  · rintro ⟨p, ⟨hp, htest⟩, rfl⟩
    exact ⟨p, ⟨⟨hp, hf p ▸ hb⟩, htest⟩, rfl⟩
  · rintro ⟨p, ⟨⟨hp, -⟩, htest⟩, rfl⟩
    exact ⟨p, ⟨hp, htest⟩, rfl⟩

namespace Sample

/-- The small deployment, with the base64 of the real one. -/
def setup64 : Setup :=
  { setup .offer false with base64Encode := fun b => String.ofList (base64Chars b) }

theorem setup64_base64 (b : Bytes) : NoSeparator (setup64.base64Encode b) := by
  constructor
  · change ',' ∉ (String.ofList (base64Chars b)).toList
    rw [String.toList_ofList]
    exact not_mem_base64Chars (by decide +kernel) (by decide) b
  · change ';' ∉ (String.ofList (base64Chars b)).toList
    rw [String.toList_ofList]
    exact not_mem_base64Chars (by decide +kernel) (by decide) b

/-- A client registers an id with a key of 32 bytes. -/
def registerKey (id : String) : List (Choice Job Env) :=
  play 0 (.handshake 0 (task 1) (some (some (.registerPk ⟨id, [1], List.replicate 32 65⟩))))

/-- The poll of that client. -/
def pollOf (id : String) : ClientPolicyRequest :=
  ⟨id, textOfBytes [1], none, none, none, none, none⟩

/-- The policy the client gets, if nothing else happens. -/
def policyOf (id : String) (s : Server) : Except ApiFailure Composed :=
  ((composePolicy setup64 (pollOf id)).solo (Op.sem setup64) (fun _ _ => s) [] s).1

/-- The client has registered, and gets a policy whose keys are read back or not. -/
def showsKeys (id : String) (exact : Bool) (p : Pool Op Op.Res Server Job) : Bool :=
  p.shared.dbUp && (p.shared.db.map (·.id) == [id]) &&
  match policyOf id p.shared with
  | .ok c => decide (readPeerKeys (keysOption c) =
      ((listedPeers setup64 p.shared).filter hasKey).map fun q =>
        (q.id, setup64.base64Encode q.pk)) == exact
  | .error _ => false

theorem showsKeys_exec {id : String} {exact : Bool} {p : Pool Op Op.Res Server Job}
    (h : showsKeys id exact p = true) : ∃ new c, (∀ x ∈ new, Steady p.shared x.pre) ∧
      (composePolicy setup64 (pollOf id)).Exec (Op.sem setup64) [] (new ++ []) (.ok c) ∧
      decide (readPeerKeys (keysOption c) = ((listedPeers setup64 p.shared).filter hasKey).map
        fun q => (q.id, setup64.base64Encode q.pk)) = exact := by
  unfold showsKeys policyOf at h
  rw [Bool.and_eq_true, Bool.and_eq_true] at h
  obtain ⟨new, -, he, hpre⟩ := exec_solo (Op.sem setup64) (fun _ _ => p.shared)
    (composePolicy setup64 (pollOf id)) [] p.shared
  cases hres : ((composePolicy setup64 (pollOf id)).solo (Op.sem setup64) (fun _ _ => p.shared) []
      p.shared).1 with
  | error e =>
    rw [hres] at h
    cases h.2
  | ok c =>
    rw [hres] at h he
    refine ⟨new, c, fun x hx => ?_, he, beq_iff_eq.1 h.2⟩
    obtain ⟨-, -, heq⟩ := hpre x hx
    rw [heq]
    exact ⟨rfl, rfl, h.1.1⟩

/-- The only registered peer is the one that registered. -/
theorem showsKeys_listed {id : String} {exact : Bool} {p : Pool Op Op.Res Server Job}
    (h : showsKeys id exact p = true) :
    (listedPeers setup64 p.shared).length = 1 ∧ ∀ q ∈ listedPeers setup64 p.shared, q.id = id := by
  unfold showsKeys at h
  rw [Bool.and_eq_true, Bool.and_eq_true] at h
  have hids : p.shared.db.map (·.id) = [id] := beq_iff_eq.1 h.1.2
  constructor
  · rw [listedPeers, List.length_map, List.length_mergeSort, ← List.length_map (·.id), hids]
    rfl
  · intro q hq
    obtain ⟨row, hrow, rfl⟩ := List.mem_map.1 hq
    have hmem : row.id ∈ p.shared.db.map (·.id) :=
      List.mem_map_of_mem (List.mem_mergeSort.1 hrow)
    rw [hids, List.mem_singleton] at hmem
    exact hmem

end Sample

end NemoServer
