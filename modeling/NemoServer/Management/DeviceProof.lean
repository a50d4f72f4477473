import NemoServer.Server.Ops
import NemoServer.Std.Utf8

/-!
# Device proofs over HTTP

The proof a client sends with its requests (`nemo_management.rs`): its device key and an attached
signature over `domain:id:ts`, where the domain names the endpoint. The binding rule is that of
the handshake, and a proof of an unbound key files a claim at most.
-/

set_option autoImplicit false

namespace NemoServer

/-- The result of checking a device proof; `claim` is set when a binding request was filed. -/
structure DeviceProof where
  ok : Bool
  claim : Option PendingOutcome
  deriving DecidableEq

/-- `PROOF_REFUSED`. -/
def DeviceProof.refused : DeviceProof := ⟨false, none⟩

/-- The poll of a client for its policy. -/
structure ClientPolicyRequest where
  id : String
  uuid : String
  accessToken : Option String
  /-- The token, sealed to the management key; it supersedes the plain one. -/
  sealedToken : Option String
  deviceKeyPub : Option String
  deviceKeySig : Option String
  sealed : Option String

/-- A request for the address book. -/
structure AbGetRequest where
  id : String
  deviceKeyPub : String
  deviceKeySig : String

/-- What a login request resolves to; both proof fields are empty when there is no proof. -/
structure OpenedLogin where
  username : String
  password : String
  deviceKeyPub : String
  deviceKeySig : String

/-- The text fields of the body of an audit upload. -/
abbrev AuditBody := String → Option String

namespace Management

open Str Integration

variable (X : Setup)

/-- `claim_via_label`. -/
def claimViaLabel (domain : String) : String :=
  if domain = "nemo-poll" then "settings poll"
  else if domain = "nemo-ab" then "address book"
  else if domain = "nemo-login" then "sign-in"
  else if domain = "nemo-audit" then "audit upload"
  else "management API"

/-- The time stamp of a proof that is signed for this domain and id. -/
def signedTimestamp (pubB64 sigB64 domain id : String) : Option ℕ := do
  let pkBytes ← X.base64Decode (trim pubB64)
  let sigBytes ← X.base64Decode (trim sigB64)
  let pk ← X.publicKeyOfSlice pkBytes
  let msg ← X.verify sigBytes pk
  let (first, second, third) ← splitThree (fromUtf8Lossy msg)
  if first = domain ∧ second = id then parseU64 third else none

/-- The replay window: five minutes back and one ahead. -/
def fresh (now ts : ℕ) : Bool := now - ts ≤ 300 && ts - now ≤ 60

def verifyDeviceSignatureProof (pubB64 sigB64 domain id : String) : Handler DeviceProof := do
  if !(← perform (.isDeviceKeyPinned pubB64)) then
    pure .refused
  else match ← perform (.deviceKeyBinding pubB64) with
    | none => pure .refused
    | some bound =>
      let claimEnabled ← perform .claimUnboundDeviceKeys
      match deviceKeyBindingDecision bound id X.allowUnboundDeviceKeys claimEnabled with
      | .refused _ => pure .refused
      | decision =>
        match signedTimestamp X pubB64 sigB64 domain id with
        | none => pure .refused
        | some ts =>
          let now ← perform .wallClock
          if !fresh now ts then pure .refused
          else if decision = .claimOnProof then
            let outcome ← perform (.registerPendingClaim pubB64 id (claimViaLabel domain))
            pure ⟨false, some outcome⟩
          else pure ⟨true, none⟩

def verifyDeviceSignature (pubB64 sigB64 domain id : String) : Handler Bool := do
  pure (← verifyDeviceSignatureProof X pubB64 sigB64 domain id).ok

/-! ## The endpoints -/

/-- The policy poll. -/
def verifyDeviceKey (request : ClientPolicyRequest) : Handler DeviceProof :=
  match request.deviceKeyPub, request.deviceKeySig with
  | some pubB64, some sigB64 =>
    verifyDeviceSignatureProof X pubB64 sigB64 "nemo-poll" request.id
  | _, _ => pure .refused

/-- The address book. -/
def abDeviceKeyOk (req : AbGetRequest) : Handler Bool := do
  if req.deviceKeyPub ≠ "" ∧ req.deviceKeySig ≠ "" then
    verifyDeviceSignature X req.deviceKeyPub req.deviceKeySig "nemo-ab" req.id
  else pure false

/-- The login. -/
def loginDeviceKeyOk (opened : OpenedLogin) (id : String) : Handler Bool := do
  if opened.deviceKeyPub ≠ "" ∧ opened.deviceKeySig ≠ "" then
    verifyDeviceSignature X opened.deviceKeyPub opened.deviceKeySig "nemo-login" id
  else pure false

/-- The audit uploads: the proven id of a body. -/
def clientAuditIdentity (body : AuditBody) : Handler (Option String) := do
  let f := fun k => trim ((body k).getD "")
  let id := f "id"
  if id = "" then pure none
  else
    let ok ← verifyDeviceSignature X (f "device_key_pub") (f "device_key_sig") "nemo-audit" id
    pure (if ok then some id else none)

/-! ## What a proof shows -/

variable {X}

theorem fresh_iff {now ts : ℕ} : fresh now ts = true ↔ now ≤ ts + 300 ∧ ts ≤ now + 60 := by
  unfold fresh
  rw [Bool.and_eq_true, decide_eq_true_eq, decide_eq_true_eq]
  omega

/-- A proof that is accepted was signed over this domain and this id, to the byte. -/
theorem signedTimestamp_some {pubB64 sigB64 domain id : String} {ts : ℕ}
    (hdomain : replacement ∉ domain.toList) (hid : replacement ∉ id.toList)
    (h : signedTimestamp X pubB64 sigB64 domain id = some ts) :
    ∃ pkBytes sig pk text, X.base64Decode (trim pubB64) = some pkBytes ∧
      X.base64Decode (trim sigB64) = some sig ∧ X.publicKeyOfSlice pkBytes = some pk ∧
      X.verify sig pk = some (toUtf8 (domain ++ ":" ++ id ++ ":" ++ text)) ∧
      parseU64 text = some ts := by
  simp only [signedTimestamp, Option.bind_eq_bind, Option.bind_eq_some_iff,
    Option.ite_none_right_eq_some] at h
  obtain ⟨pkBytes, hpk, sig, hsig, pk, hslice, msg, hverify, ⟨first, second, text⟩, hsplit,
    ⟨rfl, rfl⟩, hts⟩ := h
  have htext := splitThree_some hsplit
  have hrep : replacement ∉ (fromUtf8Lossy msg).toList := by
    have hcolon : ":".toList = [':'] := rfl
    rw [htext]
    simp only [String.toList_append, List.mem_append, hcolon, List.mem_singleton]
    rintro ((((h | h) | h) | h) | h)
    · exact hdomain h
    · exact absurd h (by decide)
    · exact hid h
    · exact absurd h (by decide)
    · exact replacement_notMem_of_parseU64 hts h
  have hmsg := toUtf8_fromUtf8Lossy hrep
  rw [htext] at hmsg
  exact ⟨pkBytes, sig, pk, text, hpk, hsig, hslice, hmsg ▸ hverify, hts⟩

/-- What was signed for a domain and an id passes for no others. -/
theorem signedTimestamp_exclusive {pubB64 sigB64 domain id domain' id' text : String} {ts : ℕ}
    {pkBytes sig : Bytes} {pk : PublicKey} (hdomain : ':' ∉ domain.toList)
    (hid : ':' ∉ id.toList) (hpk : X.base64Decode (trim pubB64) = some pkBytes)
    (hsig : X.base64Decode (trim sigB64) = some sig) (hslice : X.publicKeyOfSlice pkBytes = some pk)
    (hverify : X.verify sig pk = some (toUtf8 (domain ++ ":" ++ id ++ ":" ++ text)))
    (h : signedTimestamp X pubB64 sigB64 domain' id' = some ts) :
    domain = domain' ∧ id = id' := by
  simp only [signedTimestamp, hpk, hsig, hslice, hverify, fromUtf8Lossy_toUtf8,
    splitThree_append text hdomain hid, Option.bind_eq_bind, Option.bind_some,
    Option.ite_none_right_eq_some] at h
  exact h.1

end Management

end NemoServer
