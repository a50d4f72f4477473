import NemoServer.Laws.Certificates
import NemoServer.Management.UpdateManifest
import NemoServer.Relay.Grant

/-!
# The codec of the relay grants

hbbr accepts a text as a relay grant exactly if it decodes to a nonce, an expiry that is still to
come and the signature of the server key over both, behind the domain of the grants. A signature
is a symbol (`GrantKey`): only the key makes it, and it is of one message.

* `lays_of_accepted`: what an accepted text decodes to.
* `Elsewhere.ne_grantMessage`: nothing the key signs for another purpose reads as a grant.
* `relayGrant_codec`: the law.
-/

set_option autoImplicit false

namespace NemoServer

open Str Management

/-- What the server key signs, the grants apart. -/
inductive Elsewhere (X : Deps) : Bytes → Prop
  /-- The offer of a key exchange, of hbbs or of hbbr. -/
  | keyExchange (n : ℕ) : Elsewhere X (X.genKeypair n).1
  /-- The key to which passwords are sealed, an X25519 key. -/
  | loginKey (pk : PublicKey) : pk.length = 32 → Elsewhere X pk
  /-- The record of a peer's key. -/
  | idPk (id : String) (pk : Bytes) : Elsewhere X (X.idPkToBytes id pk)
  /-- The answer to a poll of the policy. -/
  | policy (id issuedAt : String) (issuedTs terminate : ℕ) (policy : ManagementPolicy) :
      Elsewhere X (X.payloadToJson id issuedAt issuedTs terminate policy)
  /-- An address book, the JSON of a record. -/
  | addressBook (fields : List Char) : Elsewhere X (toUtf8 (String.ofList ('\x7b' :: fields)))
  | manifest (global : ManagementPolicy) (m m' : UpdateManifest) :
      validateUpdateManifest global m = .ok m' → Elsewhere X (toUtf8 (updateManifestMessage m'))
  /-- The test of a key pair in `utils.rs`. -/
  | keypairTest : Elsewhere X (toUtf8 "This is meh.")

/-- What the encoders of the dependencies begin with: the keys have 32 bytes, a record its first
or second field, and a JSON object its brace. -/
structure Encodes (X : Deps) : Prop where
  boxKey : ∀ n, (X.genKeypair n).1.length = 32
  idPk : ∀ id pk, ∀ b ∈ (X.idPkToBytes id pk).head?, b = 0x0a ∨ b = 0x12
  payload : ∀ id issuedAt issuedTs terminate policy,
    (X.payloadToJson id issuedAt issuedTs terminate policy).head? = some 0x7b

namespace Relay

variable {X : Setup} {sk : SecretKey} {grant grant' : String} {now now' : ℕ}
  {nonce exp sig m : Bytes}

/-- What is taken for granted of base64, of uuids and of the signatures of `sk`. -/
structure GrantKey (X : Setup) (sk : SecretKey) : Prop where
  decode : ∀ b, X.base64Decode (X.base64Encode b) = some b
  uuid : ∀ n, (X.uuidV4 n).length = 16
  length : ∀ m, (X.signDetached m sk).length = 64
  fromBytes : ∀ b s, X.signatureFromBytes b = some s → s = b
  signed : ∀ m, X.signatureFromBytes (X.signDetached m sk) = some (X.signDetached m sk)
  verify : ∀ s m, X.verifyDetached s m (X.publicKey sk) = true ↔ s = X.signDetached m sk
  /-- No other message has the signature of one that is as long as a grant's. -/
  unique : ∀ m m', m.length = 46 → X.signDetached m' sk = X.signDetached m sk → m' = m

/-! ## What is signed -/

theorem length_grantMessage (hnonce : nonce.length = 16) (hexp : exp.length = 8) :
    (grantMessage nonce exp).length = 46 := by
  have hdomain : Setup.relayGrantDomain.length = 22 := by decide +kernel
  rw [grantMessage, List.length_append, List.length_append, hdomain, hnonce, hexp]

theorem head_grantMessage (nonce exp : Bytes) : (grantMessage nonce exp).head? = some 0x74 := by
  have hdomain : Setup.relayGrantDomain.head? = some 0x74 := by decide +kernel
  rw [grantMessage, List.append_assoc, List.head?_append, hdomain]
  rfl

/-- The message of a manifest is longer, by its hash alone. -/
theorem length_manifest {global : ManagementPolicy} {u u' : UpdateManifest}
    (h : validateUpdateManifest global u = .ok u') :
    46 < (toUtf8 (updateManifestMessage u')).length := by
  obtain ⟨-, hok, -⟩ := validateUpdateManifest_eq_ok.1 h
  have hsha := hok.sha256_size
  simp only [length_toUtf8, updateManifestMessage, String.utf8ByteSize_append]
  omega

theorem head_addressBook (fields : List Char) :
    (toUtf8 (String.ofList ('\x7b' :: fields))).head? = some 0x7b := by
  have hbrace : (String.utf8EncodeChar '\x7b').head? = some 0x7b := by decide +kernel
  rw [toUtf8, String.toList_ofList, List.flatMap_cons, List.head?_append, hbrace]
  rfl

/-- Nothing the key signs for another purpose is the message of a grant. -/
theorem ne_grantMessage (hX : Encodes X.toDeps) (h : Elsewhere X.toDeps m)
    (hnonce : nonce.length = 16) (hexp : exp.length = 8) : m ≠ grantMessage nonce exp := by
  have hlen := length_grantMessage hnonce hexp
  have hhead := head_grantMessage nonce exp
  intro heq
  rw [← heq] at hlen hhead
  cases h with
  | keyExchange n =>
    rw [hX.boxKey] at hlen
    cases hlen
  | loginKey _ hpk =>
    rw [hpk] at hlen
    cases hlen
  | idPk id pk =>
    rcases hX.idPk id pk _ hhead with hb | hb
    · cases hb
    · cases hb
  | policy id issuedAt issuedTs terminate policy =>
    rw [hX.payload] at hhead
    cases hhead
  | addressBook fields =>
    rw [head_addressBook] at hhead
    cases hhead
  | manifest global u _ hok =>
    exact absurd hlen (length_manifest hok).ne'
  | keypairTest =>
    rw [length_toUtf8] at hlen
    cases hlen

/-! ## What is accepted -/

/-- The grant is one of the key `sk`, at `now`. -/
def Honours (X : Setup) (sk : SecretKey) (grant : String) (now : ℕ) : Prop :=
  relayGrantVerify X (X.publicKey sk) grant now = .ok ()

/-- The two parts before the signature, and what it is of. -/
theorem Lays.honours (hX : GrantKey X sk) (h : Lays X grant nonce exp sig) :
    Honours X sk grant now ↔
      sig = X.signDetached (grantMessage nonce exp) sk ∧ now < fromBeBytes exp := by
  rw [Honours, h.verify]
  constructor
  · rintro ⟨s, hs, hverify, hnow⟩
    obtain rfl := hX.fromBytes sig s hs
    exact ⟨(hX.verify _ _).1 hverify, hnow⟩
  · rintro ⟨rfl, hnow⟩
    exact ⟨_, hX.signed _, (hX.verify _ _).2 rfl, hnow⟩

theorem honours_iff (hX : GrantKey X sk) : Honours X sk grant now ↔ ∃ nonce exp,
    Lays X grant nonce exp (X.signDetached (grantMessage nonce exp) sk) ∧
      now < fromBeBytes exp := by
  constructor
  · intro h
    obtain ⟨nonce, exp, sig, hlays⟩ := exists_lays h
    obtain ⟨rfl, hnow⟩ := (hlays.honours hX).1 h
    exact ⟨nonce, exp, hlays, hnow⟩
  · rintro ⟨nonce, exp, hlays, hnow⟩
    exact (hlays.honours hX).2 ⟨rfl, hnow⟩

theorem Lays.length_raw (h : Lays X grant nonce exp sig) :
    (nonce ++ exp ++ sig).length = 88 := by
  rw [List.length_append, List.length_append, h.nonce, h.exp, h.sig]

theorem honours_length (h : Honours X sk grant now) {raw : Bytes}
    (hraw : X.base64Decode grant = some raw) : raw.length = 88 := by
  obtain ⟨nonce, exp, sig, hlays⟩ := exists_lays h
  rw [← Option.some.inj (hlays.raw.symm.trans hraw)]
  exact hlays.length_raw

/-- Whatever the key signed, its signature counts for the parts it is of. -/
theorem signed_of_honours (hX : GrantKey X sk) (h : Honours X sk grant now) {head : Bytes}
    (hraw : X.base64Decode grant = some (head ++ X.signDetached m sk)) :
    ∃ nonce exp, nonce.length = 16 ∧ exp.length = 8 ∧ head = nonce ++ exp ∧
      m = grantMessage nonce exp := by
  obtain ⟨nonce, exp, hlays, -⟩ := (honours_iff hX).1 h
  have heq := Option.some.inj (hlays.raw.symm.trans hraw)
  obtain ⟨hhead, hsig⟩ := List.append_inj' heq ((hX.length _).trans (hX.length m).symm)
  exact ⟨nonce, exp, hlays.nonce, hlays.exp, hhead.symm,
    hX.unique _ _ (length_grantMessage hlays.nonce hlays.exp) hsig.symm⟩

/-- What a relay grant is for hbbr, which has the public half of the key of hbbs. -/
structure GrantCodec (X : Setup) (Y : NemoServer.Setup) (sk : SecretKey) : Prop where
  /-- A grant is accepted until the expiry it was minted with, a sum of 64 bits. -/
  minted : ∀ ttl t n now,
    Honours X sk (Y.relayGrantMint sk ttl t n) now ↔ now < (t + ttl) % 2 ^ 64
  /-- The texts that are accepted. -/
  accepted : ∀ grant now, Honours X sk grant now ↔ ∃ nonce exp,
    Lays X grant nonce exp (X.signDetached (grantMessage nonce exp) sk) ∧ now < fromBeBytes exp
  /-- A grant that was cut short or extended is rejected, at any time. -/
  resized : ∀ grant grant' raw raw' now now', Honours X sk grant now →
    X.base64Decode grant = some raw → X.base64Decode grant' = some raw' →
    raw'.length ≠ raw.length → ¬Honours X sk grant' now'
  /-- So is one with another expiry. -/
  retimed : ∀ grant grant' nonce exp exp' sig now now', Honours X sk grant now →
    Lays X grant nonce exp sig → Lays X grant' nonce exp' sig → exp' ≠ exp →
    ¬Honours X sk grant' now'
  /-- A signature is accepted for the message it is of. -/
  signed : ∀ m head grant now, Honours X sk grant now →
    X.base64Decode grant = some (head ++ X.signDetached m sk) →
    m = Setup.relayGrantDomain ++ head
  /-- The signatures the key makes for other purposes are not. -/
  elsewhere : ∀ m head grant now, Elsewhere X.toDeps m →
    X.base64Decode grant = some (head ++ X.signDetached m sk) → ¬Honours X sk grant now

/-- The codec of the relay grants. -/
theorem relayGrant_codec (X : Setup) (Y : NemoServer.Setup) (hY : Y.toDeps = X.toDeps)
    (sk : SecretKey) (hX : GrantKey X sk) (henc : Encodes X.toDeps) : GrantCodec X Y sk where
  minted ttl t n now := by
    rw [(lays_mint hY ttl t n hX.decode (hX.uuid n) hX.length).honours hX, fromBeBytes_toBeBytes]
    exact and_iff_right rfl
  accepted grant now := honours_iff hX
  resized grant grant' raw raw' now now' h hraw hraw' hlen h' :=
    hlen ((honours_length h' hraw').trans (honours_length h hraw).symm)
  retimed grant grant' nonce exp exp' sig now now' h hlays hlays' hne h' := by
    have hsig := ((hlays.honours hX).1 h).1
    have hsig' := ((hlays'.honours hX).1 h').1
    have hmessage := hX.unique _ _ (length_grantMessage hlays.nonce hlays.exp)
      (hsig'.symm.trans hsig)
    exact hne (List.append_cancel_left hmessage)
  signed m head grant now h hraw := by
    obtain ⟨nonce, exp, -, -, rfl, rfl⟩ := signed_of_honours hX h hraw
    rw [grantMessage, List.append_assoc]
  elsewhere m head grant now hm hraw h := by
    obtain ⟨nonce, exp, hnonce, hexp, -, heq⟩ := signed_of_honours hX h hraw
    exact ne_grantMessage henc hm hnonce hexp heq

end Relay

namespace Sample

/-- A signature is made of the public key and the message, whole if it is as long as a grant's. -/
def symbol (pk m : Bytes) : Bytes :=
  if m.length = 46 then 1 :: (pk.takeD 17 0 ++ m) else 0 :: (pk.takeD 31 0 ++ m.takeD 32 0)

/-- Dependencies with the base64 of the standard and signatures that are symbols. -/
def grantDeps : Deps :=
  { base64Deps with
    uuidV4 := fun n => List.replicate 16 (UInt8.ofNat n)
    signDetached := fun m sk => symbol (sk.drop 32) m
    genKeypair := fun n =>
      (List.replicate 32 (UInt8.ofNat n), List.replicate 32 (UInt8.ofNat (n + 1)))
    idPkToBytes := fun id pk =>
      0x0a :: UInt8.ofNat id.utf8ByteSize :: (toUtf8 id ++ 0x12 :: UInt8.ofNat pk.length :: pk)
    payloadToJson := fun id _ _ _ _ => toUtf8 (String.ofList ('\x7b' :: id.toList)) }

/-- hbbr with these. -/
def grantRelay : Relay.Setup where
  toDeps := grantDeps
  signatureFromBytes b := if b.length = 64 then some b else none
  verifyDetached s m pk := s == symbol pk m
  publicKey sk := sk.drop 32
  key := ""
  sk := some serverSk

/-- hbbs with these. -/
def grantServer : Setup := { setup .offer false with toDeps := grantDeps }

theorem length_symbol (pk m : Bytes) : (symbol pk m).length = 64 := by
  unfold symbol
  split
  · next h =>
    rw [List.length_cons, List.length_append, List.takeD_length, h]
  · rw [List.length_cons, List.length_append, List.takeD_length, List.takeD_length]

/-- A symbol is that of one message of its length. -/
theorem symbol_unique {pk m m' : Bytes} (hlen : m.length = 46) (h : symbol pk m' = symbol pk m) :
    m' = m := by
  unfold symbol at h
  rw [if_pos hlen] at h
  split at h
  · have htail := List.tail_eq_of_cons_eq h
    exact List.append_cancel_left htail
  · have hhead := List.head_eq_of_cons_eq h
    cases hhead

theorem grantKey : Relay.GrantKey grantRelay serverSk where
  decode := base64Deps_codec.decode
  uuid _ := List.length_replicate
  length m := length_symbol _ m
  fromBytes _ _ h := (Option.some.inj (Option.ite_none_right_eq_some.1 h).2).symm
  signed m := if_pos (length_symbol _ m)
  verify _ _ := beq_iff_eq
  unique _ _ hlen h := symbol_unique hlen h

theorem encodes_grantDeps : Encodes grantDeps where
  boxKey _ := List.length_replicate
  idPk _ _ _ hb := .inl (Option.some.inj hb).symm
  payload id _ _ _ _ := Relay.head_addressBook id.toList

end Sample

namespace Relay

open NemoServer.Sample

/-- A grant minted at 1000 for 60 seconds is good at 1059 and not at 1060, and no offer of a key
exchange lends it a signature. -/
theorem relayGrant_codec_minute :
    Honours grantRelay serverSk (grantServer.relayGrantMint serverSk 60 1000 7) 1059 ∧
      ¬Honours grantRelay serverSk (grantServer.relayGrantMint serverSk 60 1000 7) 1060 ∧
      ∀ head grant now, grantRelay.base64Decode grant =
          some (head ++ grantRelay.signDetached (grantRelay.genKeypair 3).1 serverSk) →
        ¬Honours grantRelay serverSk grant now := by
  have hcodec := relayGrant_codec grantRelay grantServer rfl serverSk grantKey encodes_grantDeps
  refine ⟨(hcodec.minted 60 1000 7 1059).2 (by decide), ?_, ?_⟩
  · rw [hcodec.minted 60 1000 7 1060]
    decide
  · intro head grant now hraw
    exact hcodec.elsewhere _ head grant now (.keyExchange 3) hraw

end Relay

end NemoServer
