import NemoServer.Laws.Handshake
import NemoServer.Management.DeviceProof

/-!
# Device proofs are bound to one endpoint and one device

What an accepted device proof of an HTTP request shows, over any execution of the check and any
interference: the key is pinned, and bound to the very id where unbound keys are not allowed; its
holder signed a message that reads `domain:id:ts`; and `ts` is in the replay window. What was
signed for one endpoint or id is accepted at no other.
-/

set_option autoImplicit false

namespace NemoServer

namespace Management

open Prog Str

variable {X : Setup}

/-- An id or a domain as the format of the signed message assumes it. -/
def Plain (s : String) : Prop := ':' ∉ s.toList ∧ replacement ∉ s.toList

instance (s : String) : Decidable (Plain s) := inferInstanceAs (Decidable (_ ∧ _))

/-- The message a client signs for an endpoint. -/
def proofMessage (domain id ts : String) : Bytes := toUtf8 (domain ++ ":" ++ id ++ ":" ++ ts)

theorem verifyDeviceSignatureProof_ok {pubB64 sigB64 domain id : String} {h h' : Past}
    {proof : DeviceProof}
    (he : (verifyDeviceSignatureProof X pubB64 sigB64 domain id).Exec (Op.sem X) h h' proof)
    (hok : proof.ok = true) : ∃ s₁ s s₂ s₃ ts,
      h' = [⟨.wallClock, s₃⟩, ⟨.claimUnboundDeviceKeys, s₂⟩, ⟨.deviceKeyBinding pubB64, s⟩,
        ⟨.isDeviceKeyPinned pubB64, s₁⟩] ++ h ∧ Vouches X s.cfg.deviceKeys ⟨pubB64, id⟩ ∧
      signedTimestamp X pubB64 sigB64 domain id = some ts ∧ fresh s₃.clock ts = true := by
  unfold verifyDeviceSignatureProof at he
  obtain ⟨s₁, he⟩ := he
  simp only [Op.sem, bind_eq, ret_bind] at he
  split at he
  · obtain rfl := he.2
    cases hok
  obtain ⟨s, he⟩ := he
  simp only [Op.sem, bind_eq, ret_bind] at he
  split at he
  · obtain rfl := he.2
    cases hok
  next bound hbound =>
  obtain ⟨s₂, he⟩ := he
  simp only [Op.sem, bind_eq, ret_bind] at he
  split at he
  · obtain rfl := he.2
    cases hok
  next hrefused =>
  split at he
  · obtain rfl := he.2
    cases hok
  next ts hts =>
  obtain ⟨s₃, he⟩ := he
  simp only [Op.sem, bind_eq, ret_bind] at he
  split at he
  · obtain rfl := he.2
    cases hok
  next hfresh =>
  split at he
  · obtain ⟨s₄, he⟩ := he
    obtain rfl := he.2
    cases hok
  next hclaim =>
  have hvouches : Vouches X s.cfg.deviceKeys ⟨pubB64, id⟩ :=
    Integration.vouched_of_decision hbound hclaim hrefused
  exact ⟨s₁, s, s₂, s₃, ts, he.1, hvouches, hts, by simpa using hfresh⟩

theorem verifyDeviceSignature_exec {pubB64 sigB64 domain id : String} {h h' : Past}
    (he : (verifyDeviceSignature X pubB64 sigB64 domain id).Exec (Op.sem X) h h' true) :
    ∃ proof, (verifyDeviceSignatureProof X pubB64 sigB64 domain id).Exec (Op.sem X) h h' proof ∧
      proof.ok = true := by
  obtain ⟨h₁, proof, he, hret⟩ := exec_bind.1 he
  obtain ⟨rfl, hok⟩ := hret
  exact ⟨proof, he, hok.symm⟩

/-- The endpoint of the domain accepts the proof for the id. -/
inductive Accepts (X : Setup) (pubB64 sigB64 id : String) (h h' : Past) : String → Prop
  | poll (request : ClientPolicyRequest) (proof : DeviceProof)
      (hpub : request.deviceKeyPub = some pubB64) (hsig : request.deviceKeySig = some sigB64)
      (hid : request.id = id) (he : (verifyDeviceKey X request).Exec (Op.sem X) h h' proof)
      (hok : proof.ok = true) : Accepts X pubB64 sigB64 id h h' "nemo-poll"
  | addressBook (req : AbGetRequest) (hpub : req.deviceKeyPub = pubB64)
      (hsig : req.deviceKeySig = sigB64) (hid : req.id = id)
      (he : (abDeviceKeyOk X req).Exec (Op.sem X) h h' true) :
      Accepts X pubB64 sigB64 id h h' "nemo-ab"
  | login (opened : OpenedLogin) (hpub : opened.deviceKeyPub = pubB64)
      (hsig : opened.deviceKeySig = sigB64)
      (he : (loginDeviceKeyOk X opened id).Exec (Op.sem X) h h' true) :
      Accepts X pubB64 sigB64 id h h' "nemo-login"
  | audit (body : AuditBody) (hpub : trim ((body "device_key_pub").getD "") = pubB64)
      (hsig : trim ((body "device_key_sig").getD "") = sigB64)
      (he : (clientAuditIdentity X body).Exec (Op.sem X) h h' (some id)) :
      Accepts X pubB64 sigB64 id h h' "nemo-audit"

/-- Every endpoint checks its proofs under its own domain. -/
theorem Accepts.exec {pubB64 sigB64 id domain : String} {h h' : Past}
    (ha : Accepts X pubB64 sigB64 id h h' domain) :
    (verifyDeviceSignature X pubB64 sigB64 domain id).Exec (Op.sem X) h h' true := by
  cases ha with
  | poll request proof hpub hsig hid he hok =>
    unfold verifyDeviceKey at he
    rw [hpub, hsig, hid] at he
    exact exec_bind.2 ⟨h', proof, he, rfl, hok.symm⟩
  | addressBook req hpub hsig hid he =>
    unfold abDeviceKeyOk at he
    rw [hpub, hsig, hid] at he
    split at he
    · exact he
    · cases he.2
  | login opened hpub hsig he =>
    unfold loginDeviceKeyOk at he
    rw [hpub, hsig] at he
    split at he
    · exact he
    · cases he.2
  | audit body hpub hsig he =>
    simp only [clientAuditIdentity, hpub, hsig] at he
    split at he
    · cases he.2
    · obtain ⟨h₁, ok, hver, hret⟩ := exec_bind.1 he
      obtain ⟨rfl, hid⟩ := hret
      split at hid
      · next hok =>
        obtain rfl := Option.some.inj hid
        obtain rfl := hok
        exact hver
      · cases hid

/-- What the check of a proof has made certain when it accepts. -/
theorem device_proof_bound (X : Setup) (Signed : PublicKey → Bytes → Prop)
    (hsigned : ∀ sig pk m, X.verify sig pk = some m → Signed pk m) :
    (∀ pubB64 sigB64 domain id past new, Plain domain → Plain id →
      (verifyDeviceSignature X pubB64 sigB64 domain id).Exec (Op.sem X) past (new ++ past) true →
      (∃ s, ⟨.deviceKeyBinding pubB64, s⟩ ∈ new ∧ Vouches X s.cfg.deviceKeys ⟨pubB64, id⟩) ∧
      ∃ s pkBytes pk ts text, ⟨.wallClock, s⟩ ∈ new ∧
        X.base64Decode (trim pubB64) = some pkBytes ∧ X.publicKeyOfSlice pkBytes = some pk ∧
        Signed pk (proofMessage domain id text) ∧ parseU64 text = some ts ∧
        s.clock ≤ ts + 300 ∧ ts ≤ s.clock + 60) ∧
    (∀ pubB64 sigB64 domain id past past', Accepts X pubB64 sigB64 id past past' domain →
      (verifyDeviceSignature X pubB64 sigB64 domain id).Exec (Op.sem X) past past' true) ∧
    (∀ pubB64 sigB64 domain id domain' id' ts pkBytes sig pk past past', Plain domain → Plain id →
      X.base64Decode (trim pubB64) = some pkBytes → X.base64Decode (trim sigB64) = some sig →
      X.publicKeyOfSlice pkBytes = some pk →
      X.verify sig pk = some (proofMessage domain id ts) →
      (verifyDeviceSignature X pubB64 sigB64 domain' id').Exec (Op.sem X) past past' true →
      domain = domain' ∧ id = id') ∧
    (X.allowUnboundDeviceKeys = false → ∀ pubB64 sigB64 domain id past new ok s,
      (verifyDeviceSignature X pubB64 sigB64 domain id).Exec (Op.sem X) past (new ++ past) ok →
      ⟨.deviceKeyBinding pubB64, s⟩ ∈ new →
      Integration.deviceKeyBinding s.cfg.deviceKeys pubB64 = some "" → ok = false) := by
  refine ⟨fun pubB64 sigB64 domain id past new hdomain hid he => ?_,
    fun pubB64 sigB64 domain id past past' ha => ha.exec, ?_, ?_⟩
  · obtain ⟨proof, he, hok⟩ := verifyDeviceSignature_exec he
    obtain ⟨s₁, s, s₂, s₃, ts, hcalls, hv, hts, hfresh⟩ := verifyDeviceSignatureProof_ok he hok
    obtain rfl := List.append_cancel_right hcalls
    obtain ⟨pkBytes, sig, pk, text, hpk, -, hslice, hverify, hparse⟩ :=
      signedTimestamp_some hdomain.2 hid.2 hts
    have hsig := hsigned _ _ _ hverify
    exact ⟨⟨s, by simp, hv⟩, s₃, pkBytes, pk, ts, text, by simp, hpk, hslice, hsig, hparse,
      fresh_iff.1 hfresh⟩
  · intro pubB64 sigB64 domain id domain' id' ts pkBytes sig pk past past' hdomain hid hpk hsig
      hslice hverify he
    obtain ⟨proof, he, hok⟩ := verifyDeviceSignature_exec he
    obtain ⟨s₁, s, s₂, s₃, ts', -, -, hts, -⟩ := verifyDeviceSignatureProof_ok he hok
    exact signedTimestamp_exclusive hdomain.1 hid.1 hpk hsig hslice hverify hts
  · intro hallow pubB64 sigB64 domain id past new ok s he hcall hbound
    cases ok with
    | false => rfl
    | true =>
      obtain ⟨proof, he, hok⟩ := verifyDeviceSignature_exec he
      obtain ⟨s₁, s', s₂, s₃, ts, hcalls, hv, -, -⟩ := verifyDeviceSignatureProof_ok he hok
      obtain rfl := List.append_cancel_right hcalls
      simp only [List.mem_cons, Call.mk.injEq, reduceCtorEq, false_and, true_and, false_or,
        or_false, List.not_mem_nil] at hcall
      subst hcall
      obtain ⟨-, ⟨hne, hbound'⟩ | ⟨-, hyes⟩⟩ := hv
      · exact absurd (Option.some.inj (hbound.symm.trans hbound')) (Ne.symm hne)
      · rw [hallow] at hyes
        cases hyes

namespace Sample

open NemoServer.Sample

/-- A poll, signed with the pinned key a hundred seconds ago. -/
def pollSig : String := textOfBytes (65 :: proofMessage "nemo-poll" "target1" "900")

theorem accepted : ∃ new, (verifyDeviceSignature (setup .offer false) "A" pollSig "nemo-poll"
    "target1").Exec (Op.sem (setup .offer false)) [] (new ++ []) true := by
  have hrun : ((verifyDeviceSignature (setup .offer false) "A" pollSig "nemo-poll" "target1").solo
      (Op.sem (setup .offer false)) (fun _ s => s) [] (server [deviceKey "target1"])).1 = true := by
    decide +kernel
  obtain ⟨new, -, he, -⟩ := exec_solo (Op.sem (setup .offer false)) (fun _ s => s)
    (verifyDeviceSignature (setup .offer false) "A" pollSig "nemo-poll" "target1") []
    (server [deviceKey "target1"])
  exact ⟨new, hrun ▸ he⟩

end Sample

/-- A poll that is accepted, and what it shows. -/
theorem device_proof_bound_poll : ∃ (s : Server) (pk : PublicKey) (ts : ℕ) (text : String),
    NemoServer.Sample.Signed pk (proofMessage "nemo-poll" "target1" text) ∧
      parseU64 text = some ts ∧ s.clock ≤ ts + 300 ∧ ts ≤ s.clock + 60 := by
  obtain ⟨new, he⟩ := Sample.accepted
  obtain ⟨hok, -, -, -⟩ := device_proof_bound (NemoServer.Sample.setup .offer false)
    NemoServer.Sample.Signed fun sig pk m h => ⟨sig, h⟩
  obtain ⟨-, s, pkBytes, pk, ts, text, -, -, -, hsigned, hparse, hback, hahead⟩ :=
    hok _ _ _ _ [] new (by decide) (by decide) he
  exact ⟨s, pk, ts, text, hsigned, hparse, hback, hahead⟩

end Management

end NemoServer
