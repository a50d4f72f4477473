import Mathlib.Algebra.Group.Nat.Defs
import NemoServer.Setup

/-!
# The relay and its grants

hbbr joins two connections that present the same session id. The id must be a grant that hbbs
minted (`common.rs`): a nonce and an expiry, signed with the server key.
-/

set_option autoImplicit false

namespace NemoServer

namespace Relay

/-- What hbbr takes from its dependencies, and what it was started with. -/
structure Setup extends Deps where
  /-- `sign::Signature::from_bytes`. -/
  signatureFromBytes : Bytes → Option Bytes
  /-- `sign::verify_detached`. -/
  verifyDetached : Bytes → Bytes → PublicKey → Bool
  /-- The public half of a signing key. -/
  publicKey : SecretKey → PublicKey
  /-- The licence key clients must present, if not empty. -/
  key : String
  /-- `RELAY_SK`. -/
  sk : Option SecretKey

/-- `RELAY_GRANT_LEN`. -/
def relayGrantLen : ℕ := 16 + 8 + 64

/-- `u64::from_be_bytes`. -/
def fromBeBytes (b : Bytes) : ℕ := b.foldl (fun n x => n * 256 + x.toNat) 0

/-- Whether the grant is one of this key and not expired at `now`. -/
def relayGrantVerify (X : Setup) (pk : PublicKey) (grant : String) (now : ℕ) :
    Except String Unit :=
  match X.base64Decode grant with
  | none => .error "relay grant is not base64"
  | some raw =>
    if raw.length ≠ relayGrantLen then .error "relay grant has the wrong length"
    else
      let nonce := raw.take 16
      let exp := (raw.drop 16).take 8
      match X.signatureFromBytes ((raw.drop 16).drop 8) with
      | none => .error "relay grant signature is malformed"
      | some sig =>
        let msg := Setup.relayGrantDomain ++ nonce ++ exp
        if !X.verifyDetached sig msg pk then .error "relay grant signature does not verify"
        else if fromBeBytes exp ≤ now then .error "relay grant expired"
        else .ok ()

/-! ## What is accepted -/

/-- One more byte of a number that is read from its highest byte on. -/
theorem div_pow_step (n k : ℕ) :
    n / 2 ^ (k + 8) * 256 + n / 2 ^ k % 256 = n / 2 ^ k := by
  rw [Nat.pow_add, ← Nat.div_div_eq_div_mul]
  omega

theorem fromBeBytes_toBeBytes_of_lt {n : ℕ} (h : n < 2 ^ 64) :
    fromBeBytes (Setup.toBeBytes n) = n := by
  have htop : n / 2 ^ 56 % 256 = n / 2 ^ 56 := by omega
  simp only [Setup.toBeBytes, List.map_cons, List.map_nil, fromBeBytes, List.foldl_cons,
    List.foldl_nil, Nat.shiftRight_eq_div_pow, UInt8.toNat_ofNat']
  rw [Nat.zero_mul, Nat.zero_add, htop, div_pow_step n 48, div_pow_step n 40, div_pow_step n 32,
    div_pow_step n 24, div_pow_step n 16, div_pow_step n 8]
  exact (div_pow_step n 0).trans (Nat.div_one n)

/-- The eight bytes are those of the number modulo `2 ^ 64`. -/
theorem toBeBytes_mod (n : ℕ) : Setup.toBeBytes (n % 2 ^ 64) = Setup.toBeBytes n := by
  unfold Setup.toBeBytes
  apply List.map_congr_left
  intro k hk
  apply UInt8.toNat_inj.1
  simp only [List.mem_cons, List.not_mem_nil, or_false] at hk
  simp only [UInt8.toNat_ofNat', Nat.shiftRight_eq_div_pow]
  rcases hk with rfl | rfl | rfl | rfl | rfl | rfl | rfl | rfl <;> omega

@[simp] theorem fromBeBytes_toBeBytes (n : ℕ) :
    fromBeBytes (Setup.toBeBytes n) = n % 2 ^ 64 := by
  rw [← toBeBytes_mod, fromBeBytes_toBeBytes_of_lt (Nat.mod_lt _ (by omega))]

@[simp] theorem length_toBeBytes (n : ℕ) : (Setup.toBeBytes n).length = 8 := rfl

/-- What the signature of a grant is over. -/
def grantMessage (nonce exp : Bytes) : Bytes := Setup.relayGrantDomain ++ nonce ++ exp

/-- The text decodes to a nonce, an expiry and a signature. -/
structure Lays (X : Setup) (grant : String) (nonce exp sig : Bytes) : Prop where
  raw : X.base64Decode grant = some (nonce ++ exp ++ sig)
  nonce : nonce.length = 16
  exp : exp.length = 8
  sig : sig.length = 64

variable {X : Setup} {pk : PublicKey} {grant : String} {now : ℕ} {nonce exp sig : Bytes}

/-- The three parts are where the offsets are. -/
theorem Lays.verify (h : Lays X grant nonce exp sig) :
    relayGrantVerify X pk grant now = .ok () ↔ ∃ s, X.signatureFromBytes sig = some s ∧
      X.verifyDetached s (grantMessage nonce exp) pk = true ∧ now < fromBeBytes exp := by
  have hlen : (nonce ++ exp ++ sig).length = relayGrantLen := by
    rw [List.length_append, List.length_append, h.nonce, h.exp, h.sig]
    rfl
  unfold relayGrantVerify
  rw [h.raw]
  dsimp only
  rw [if_neg (not_not.2 hlen), List.append_assoc, List.drop_left' h.nonce,
    List.drop_left' h.exp, List.take_left' h.nonce, List.take_left' h.exp]
  cases hs : X.signatureFromBytes sig with
  | none => simp
  | some s =>
    dsimp only
    rw [← grantMessage]
    by_cases hv : X.verifyDetached s (grantMessage nonce exp) pk = true
    · simp [hv]
    · simp [hv]

/-- What is accepted has the three parts. -/
theorem exists_lays (h : relayGrantVerify X pk grant now = .ok ()) :
    ∃ nonce exp sig, Lays X grant nonce exp sig := by
  unfold relayGrantVerify at h
  split at h
  · cases h
  · next raw hraw =>
    split at h
    · cases h
    · next hlen =>
      have hlen : raw.length = 88 := not_not.1 hlen
      refine ⟨raw.take 16, (raw.drop 16).take 8, (raw.drop 16).drop 8, ?_, ?_, ?_, ?_⟩
      · rw [List.append_assoc, List.take_append_drop, List.take_append_drop, hraw]
      · rw [List.length_take, hlen]
        rfl
      · rw [List.length_take, List.length_drop, hlen]
        rfl
      · rw [List.length_drop, List.length_drop, hlen]

/-- A grant that was minted has the three parts. -/
theorem lays_mint {Y : NemoServer.Setup} (hY : Y.toDeps = X.toDeps) {sk : SecretKey} (ttl t n : ℕ)
    (hdecode : ∀ b, X.base64Decode (X.base64Encode b) = some b) (huuid : (X.uuidV4 n).length = 16)
    (hsig : ∀ m, (X.signDetached m sk).length = 64) :
    Lays X (Y.relayGrantMint sk ttl t n) (X.uuidV4 n) (Setup.toBeBytes (t + ttl))
      (X.signDetached (grantMessage (X.uuidV4 n) (Setup.toBeBytes (t + ttl))) sk) := by
  refine ⟨?_, huuid, length_toBeBytes _, hsig _⟩
  rw [Setup.relayGrantMint, hY]
  exact hdecode _

end Relay

end NemoServer
