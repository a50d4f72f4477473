import NemoServer.Keys.Servers
import NemoServer.Laws.Rotation

/-!
# The two servers and their key

hbbs and hbbr, started with the same argument next to the same key file, have the same signing key
and the same licence key, and hbbr accepts the grants of hbbs, exactly if the argument is not
empty: with an empty one hbbs takes the key of the file, and hbbr none.
-/

set_option autoImplicit false

namespace NemoServer

namespace Keys

open Prog Str Relay

/-! ## Grants -/

/-- What the law needs to know of base64, of uuids and of signatures. -/
structure ServerDeps.Sound (X : ServerDeps) : Prop where
  decode : ∀ b, X.base64Decode (X.base64Encode b) = some b
  empty : X.base64Encode [] = ""
  uuid : ∀ n, (X.uuidV4 n).length = 16
  signature : ∀ m sk, (X.signDetached m sk).length = 64
  ofBytes : ∀ b, b.length = 64 → X.signatureFromBytes b = some b

/-- What the key signs verifies under its public half. -/
def ServerDeps.Signs (X : ServerDeps) (sk : SecretKey) : Prop :=
  ∀ m, X.verifyDetached (X.signDetached m sk) m (X.publicKey sk) = true

variable {X : ServerDeps}

/-- A grant that has not expired verifies under the key it was minted with. -/
theorem verify_mint (hX : X.Sound) {Y : Setup} (hY : Y.toDeps = X.toDeps) {sk : SecretKey}
    (hsk : X.Signs sk) (key : String) (rsk : Option SecretKey) {ttl t n now : ℕ}
    (hfits : t + ttl < 18446744073709551616) (hnow : now < t + ttl) :
    relayGrantVerify (X.relay key rsk) (X.publicKey sk) (Y.relayGrantMint sk ttl t n) now =
      .ok () := by
  have hdeps : Y.toDeps = (X.relay key rsk).toDeps := hY
  have hlays := lays_mint hdeps ttl t n hX.decode (hX.uuid n)
    fun m => hX.signature m sk
  refine hlays.verify.2 ⟨_, hX.ofBytes _ hlays.sig, hsk _, ?_⟩
  rw [fromBeBytes_toBeBytes_of_lt hfits]
  exact hnow

/-! ## Keys -/

/-- A key in the shared file, which can be read. -/
structure Holds (X : ServerDeps) (s : KeyHost) (file : ServerKey) : Prop where
  works : s.fault = false
  text : ∃ bytes, s.disk.text skFile = some bytes ∧
    readContents X.toKeyDeps (some bytes) = .ok (some file)

variable {s : KeyHost} {shared : ServerKey}

theorem answer_readSk (h : Holds X s shared) :
    (readSk X.toKeyDeps skFile).answer (KeyOp.sem X.toKeyDeps) s = .ok (some shared) := by
  obtain ⟨bytes, htext, hkey⟩ := h.text
  obtain ⟨i, hi, hcontent⟩ := Option.map_eq_some_iff.1 htext
  have hopen : ((KeyOp.file (.openRead skFile)).sem X.toKeyDeps s).1 = some i := by
    rw [sem_file h.works]
    exact hi
  have hread : ((KeyOp.file (.read i)).sem X.toKeyDeps s).1 = some bytes := by
    rw [sem_file h.works, ← hcontent]
    rfl
  rw [readSk, answer_bind]
  have hop : (file (.openRead skFile)).answer (KeyOp.sem X.toKeyDeps) s = some i := hopen
  rw [hop]
  dsimp only
  rw [answer_bind]
  have hop' : (file (.read i)).answer (KeyOp.sem X.toKeyDeps) s = some bytes := hread
  rw [hop']
  exact hkey

/-- With a key in the file it is the file's. -/
theorem answer_genSk (h : Holds X s shared) (wait : ℕ) (mayGenerate : Bool) (suffix : String) :
    (genSk X.toKeyDeps wait mayGenerate suffix).answer (KeyOp.sem X.toKeyDeps) s =
      some shared := by
  have hload : (loadOrGenerate X.toKeyDeps mayGenerate suffix).answer (KeyOp.sem X.toKeyDeps) s =
      some shared := by
    rw [loadOrGenerate, answer_bind, answer_readSk h]
    rfl
  unfold genSk
  split
  · exact hload
  · exact hload

theorem answer_getServerSk (h : Holds X s shared) (mayGenerate : Bool) (suffix key : String) :
    (getServerSk X mayGenerate suffix key).answer (KeyOp.sem X.toKeyDeps) s =
      if (keyArgument X key).1 = "" then some ("", some shared.2)
      else if (keyArgument X key).1 = "-" ∨ (keyArgument X key).1 = "_"
        then some (shared.1, some shared.2) else some (keyArgument X key) := by
  unfold getServerSk
  dsimp only
  split
  · next hmark =>
    rw [answer_bind, answer_genSk h]
    by_cases hempty : (keyArgument X key).1 = ""
    · simp [hempty]
    · simp [hempty, hmark.resolve_left hempty]
  · next hmark =>
    obtain ⟨hempty, hmark⟩ := not_or.1 hmark
    rw [if_neg hempty, if_neg hmark]
    rfl

theorem answer_getServerKeypair (h : Holds X s shared) (suffix key : String) :
    (getServerKeypair X suffix key).answer (KeyOp.sem X.toKeyDeps) s =
      if (keyArgument X key).1 = "-" ∨ (keyArgument X key).1 = "_"
        then some (shared.1, some shared.2) else some (keyArgument X key) := by
  unfold getServerKeypair
  dsimp only
  split
  · rw [answer_bind, answer_genSk h]
    rfl
  · rfl

theorem decode_empty (hX : X.Sound) : X.base64Decode "" = some [] := by
  rw [← hX.empty, hX.decode]

/-- The licence key that is made of an argument is empty only if the argument is. -/
theorem keyArgument_empty (hX : X.Sound) {key : String} (h : (keyArgument X key).1 = "") :
    key = "" := by
  unfold keyArgument at h
  split at h
  · next sk hsk =>
    split at h
    · next hlen =>
      have hhalf := hX.decode (sk.drop 32)
      have hencode : X.base64Encode (sk.drop 32) = "" := h
      rw [hencode, decode_empty hX] at hhalf
      have hzero := congrArg List.length (Option.some.inj hhalf)
      rw [List.length_drop, hlen] at hzero
      cases hzero
    · exact h
  · exact h

theorem keyArgument_nil (hX : X.Sound) : keyArgument X "" = ("", none) := by
  simp [keyArgument, decode_empty hX]

/-- The servers have the same keys, and the grants of hbbs verify at hbbr until they expire. -/
structure Agree (X : ServerDeps) (hbbs hbbr : Option Keypair) : Prop where
  keys : ∃ keypair, hbbs = some keypair ∧ hbbr = some keypair
  grants : ∀ key sk, hbbs = some (key, some sk) → X.Signs sk →
    ∀ Y : Setup, Y.toDeps = X.toDeps → ∀ ttl t n now, t + ttl < 18446744073709551616 →
      now < t + ttl → ∃ rkey rsk, hbbr = some (rkey, some rsk) ∧
        relayGrantVerify (X.relay rkey (some rsk)) (X.publicKey rsk)
          (Y.relayGrantMint sk ttl t n) now = .ok ()

theorem Agree.of_eq (hX : X.Sound) (keypair : Keypair) :
    Agree X (some keypair) (some keypair) := by
  refine ⟨⟨keypair, rfl, rfl⟩, fun key sk h hsk Y hY ttl t n now hfits hnow => ?_⟩
  exact ⟨key, sk, h, verify_mint hX hY hsk key (some sk) hfits hnow⟩

/-- Next to a file with a key, hbbs and hbbr agree on the keys exactly if the argument is not
empty. -/
theorem servers_agree_iff (X : ServerDeps) (hX : X.Sound) (s : KeyHost) (shared : ServerKey)
    (h : Holds X s shared) (mayGenerate : Bool) (suffix rsuffix key : String) :
    Agree X ((getServerSk X mayGenerate suffix key).answer (KeyOp.sem X.toKeyDeps) s)
      ((getServerKeypair X rsuffix key).answer (KeyOp.sem X.toKeyDeps) s) ↔ key ≠ "" := by
  rw [answer_getServerSk h, answer_getServerKeypair h]
  constructor
  · rintro hagree rfl
    obtain ⟨keypair, hhbbs, hhbbr⟩ := hagree.keys
    rw [keyArgument_nil hX] at hhbbs hhbbr
    simp at hhbbs hhbbr
    rw [← hhbbs] at hhbbr
    cases hhbbr
  · intro hkey
    rw [if_neg fun hempty => hkey (keyArgument_empty hX hempty)]
    split
    · exact Agree.of_eq hX _
    · exact Agree.of_eq hX _

namespace Sample

/-- A signature is the public key with the first bytes of what is signed. -/
def signature (pk m : Bytes) : Bytes := pk.takeD 32 0 ++ m.takeD 32 0

def serverDeps : ServerDeps where
  toKeyDeps := { keyDeps with
    uuidV4 := fun n => List.replicate 16 (UInt8.ofNat n)
    signDetached := fun m sk => signature (sk.drop 32) m }
  signatureFromBytes b := if b.length = 64 then some b else none
  verifyDetached sig m pk := sig == signature pk m
  publicKey sk := sk.drop 32

theorem serverDeps_sound : serverDeps.Sound where
  decode := keyDeps_sound.decode
  empty := rfl
  uuid n := List.length_replicate
  signature m sk := by
    have hlen : (serverDeps.signDetached m sk).length =
        ((sk.drop 32).takeD 32 0 ++ m.takeD 32 0).length := rfl
    rw [hlen, List.length_append, List.takeD_length, List.takeD_length]
  ofBytes b h := if_pos h

/-- The key pair in the file. -/
def sharedKey : ServerKey := keyOf keyDeps 7

theorem text_shared : keyedHost.disk.text skFile = some (keyText keyDeps (keyOf keyDeps 7).2) := by
  simp only [keyedHost, Disk.text, Table.insert_self, Option.map_some]

theorem readContents_serverDeps (bytes : Option Bytes) :
    readContents serverDeps.toKeyDeps bytes = readContents keyDeps bytes := by
  have hdecode : serverDeps.base64Decode = keyDeps.base64Decode := rfl
  have hencode : serverDeps.base64Encode = keyDeps.base64Encode := rfl
  unfold readContents parseSk
  rw [hdecode, hencode]

theorem holds_shared : Holds serverDeps keyedHost sharedKey := by
  refine ⟨?_, _, text_shared, ?_⟩
  · simp only [keyedHost]
  · rw [readContents_serverDeps]
    exact readContents_keyText keyDeps_sound 7

theorem signs_shared : serverDeps.Signs sharedKey.2 := fun _ => beq_self_eq_true _

end Sample

theorem Sample.answer_marked : (getServerSk Sample.serverDeps false "1-0" "_").answer
    (KeyOp.sem Sample.serverDeps.toKeyDeps) Sample.keyedHost =
      some (Sample.sharedKey.1, some Sample.sharedKey.2) := by
  have hmark : (keyArgument Sample.serverDeps "_").1 = "_" := by decide +kernel
  rw [answer_getServerSk Sample.holds_shared, if_neg (by rw [hmark]; decide), if_pos (.inr hmark)]

/-- Started with `-k _` both servers take the key of the file, and hbbr accepts a grant. -/
theorem servers_agree_marked :
    ∃ rkey rsk, (getServerKeypair Sample.serverDeps "2-0" "_").answer
        (KeyOp.sem Sample.serverDeps.toKeyDeps) Sample.keyedHost = some (rkey, some rsk) ∧
      relayGrantVerify (Sample.serverDeps.relay rkey (some rsk))
        (Sample.serverDeps.publicKey rsk)
        (Setup.relayGrantMint { NemoServer.Sample.setup .offer false with
          toDeps := Sample.serverDeps.toDeps } Sample.sharedKey.2 60 1000 0) 1030 = .ok () :=
  ((servers_agree_iff Sample.serverDeps Sample.serverDeps_sound Sample.keyedHost
    Sample.sharedKey Sample.holds_shared false "1-0" "2-0" "_").2 (by decide)).grants
    Sample.sharedKey.1 Sample.sharedKey.2 Sample.answer_marked Sample.signs_shared _ rfl
    60 1000 0 1030 (by decide) (by decide)

/-- Started with an empty key, hbbs takes the key of the file and hbbr has none. -/
theorem not_servers_agree :
    ¬Agree Sample.serverDeps
      ((getServerSk Sample.serverDeps false "1-0" "").answer
        (KeyOp.sem Sample.serverDeps.toKeyDeps) Sample.keyedHost)
      ((getServerKeypair Sample.serverDeps "2-0" "").answer
        (KeyOp.sem Sample.serverDeps.toKeyDeps) Sample.keyedHost) := by
  rw [answer_getServerSk Sample.holds_shared, answer_getServerKeypair Sample.holds_shared]
  intro hagree
  obtain ⟨keypair, hhbbs, hhbbr⟩ := hagree.keys
  rw [keyArgument_nil Sample.serverDeps_sound] at hhbbs hhbbr
  simp at hhbbs hhbbr
  rw [← hhbbs] at hhbbr
  cases hhbbr

end Keys

end NemoServer
