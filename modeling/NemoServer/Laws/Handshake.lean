import NemoServer.Foundations.Ledger
import NemoServer.Server.Connections
import NemoServer.Server.Sample

/-!
# Authenticity of the device handshake

A handshake is accepted on a proof that the pinned key signed for this very connection, under a
binding that names the very peer. Signatures are symbolic (`Symbolic`), so that a proof cannot be
forged, and the payload tells everything it is made of, so that it cannot be replayed. A key that
is pinned and not bound authenticates nobody.
-/

set_option autoImplicit false

namespace NemoServer

open Prog Rendezvous

variable {X : Setup} {C : List Step → Pool Op Op.Res Server Job → Choice Job Env → Prop}
  {l : List Step} {p : Pool Op Op.Res Server Job}

/-- What the handshake assumes of cryptography: a signature that verifies was made by the holder
of the secret key (`Signed pk m` says that the holder of the secret half of `pk` signed `m`), the
payload determines its parts, and each key pair is made once. -/
structure Symbolic (X : Setup) (Signed : PublicKey → Bytes → Prop) : Prop where
  signed : ∀ sig pk m, X.verify sig pk = some m → Signed pk m
  payload : ∀ {eph box sealed id eph' box' sealed' id'},
    X.nemoDeviceAuthPayload eph box sealed id = X.nemoDeviceAuthPayload eph' box' sealed' id' →
      eph = eph' ∧ box = box' ∧ sealed = sealed' ∧ id = id'
  fresh : ∀ m n, (X.genKeypair m).1 = (X.genKeypair n).1 → m = n

/-- The registry lets the key of `who` speak for its peer: the key is pinned, and bound to that
very peer or, where unbound keys are allowed, to none. -/
def Vouches (X : Setup) (keys : List DeviceKey) (who : AuthedDevice) : Prop :=
  Integration.isDeviceKeyPinned keys who.devicePubB64 = true ∧
    (who.peerId ≠ "" ∧ Integration.deviceKeyBinding keys who.devicePubB64 = some who.peerId ∨
      Integration.deviceKeyBinding keys who.devicePubB64 = some "" ∧
        X.allowUnboundDeviceKeys = true)

instance (keys : List DeviceKey) (who : AuthedDevice) : Decidable (Vouches X keys who) :=
  inferInstanceAs (Decidable (_ ∧ (_ ∧ _ ∨ _ ∧ _)))

/-! ## Inverting the handshake -/

theorem verifyProof_ok {auth : NemoClientAuth} {eph : PublicKey}
    (h : verifyProof X auth eph = .ok ()) : ∃ pk, X.publicKeyOfSlice auth.devicePub = some pk ∧
      X.verify auth.sig pk =
        some (X.nemoDeviceAuthPayload eph auth.clientBoxPk auth.sealedKey auth.peerId) := by
  unfold verifyProof at h
  split at h
  · cases h
  next pk hpk =>
  simp only at h
  split at h
  · cases h
  next m hm =>
  split at h
  · cases h
  next heq =>
  rw [not_not] at heq
  exact ⟨pk, hpk, heq ▸ hm⟩

/-- An accepted handshake looked the key up three times, found it bound, and checked the proof. -/
theorem nemoClientAuthOpen_ok {auth : NemoClientAuth} {eph : PublicKey} {ourSk : SecretKey}
    {h h' : Past} {session : SessionKey} {who : AuthedDevice}
    (he : (nemoClientAuthOpen X auth eph ourSk).Exec (Op.sem X) h h' (.ok (session, who))) :
    who = ⟨X.base64Encode auth.devicePub, auth.peerId⟩ ∧ verifyProof X auth eph = .ok () ∧
      ∃ s₁ s s₂, h' = [⟨.claimUnboundDeviceKeys, s₂⟩, ⟨.deviceKeyBinding who.devicePubB64, s⟩,
        ⟨.isDeviceKeyPinned who.devicePubB64, s₁⟩] ++ h ∧ Vouches X s.cfg.deviceKeys who := by
  unfold nemoClientAuthOpen at he
  obtain ⟨s₁, he⟩ := he
  simp only [Op.sem, bind_eq, ret_bind] at he
  split at he
  · cases he.2
  obtain ⟨s, he⟩ := he
  simp only [Op.sem, bind_eq, ret_bind] at he
  split at he
  · cases he.2
  next bound hbound =>
  obtain ⟨s₂, he⟩ := he
  simp only [Op.sem, bind_eq, ret_bind] at he
  split at he
  · cases he.2
  next hrefused =>
  split at he
  · cases he.2
  next hproof =>
  split at he
  · obtain ⟨s₃, he⟩ := he
    cases he.2
  next hclaim =>
  split at he
  · cases he.2
  obtain ⟨rfl, hwho⟩ := he
  obtain ⟨-, rfl⟩ := Prod.mk.inj (Except.ok.inj hwho)
  exact ⟨rfl, hproof, s₁, s, s₂, rfl, Integration.vouched_of_decision hbound hclaim hrefused⟩

/-- The call changes nothing but the table of pending claims. -/
def Files (X : Setup) (x : Call Op Server) : Prop :=
  ∃ claims, (Op.sem X x.op x.pre).2 =
    { x.pre with cfg := { x.pre.cfg with pendingDeviceKeyClaims := claims } }

theorem files_registerPendingClaim (publicKey peerId via : String) (s : Server) :
    Files X ⟨.registerPendingClaim publicKey peerId via, s⟩ := by
  unfold Files
  simp only [Op.sem, Server.registerPendingClaim]
  split
  · exact ⟨s.cfg.pendingDeviceKeyClaims, rfl⟩
  · exact ⟨_, rfl⟩

/-- Opening a proof files a claim at most. -/
theorem nemoClientAuthOpen_files (auth : NemoClientAuth) (eph : PublicKey) (ourSk : SecretKey) :
    (nemoClientAuthOpen X auth eph ourSk).Uses fun o => ∀ s, Files X ⟨o, s⟩ := by
  have hlook : ∀ o : Op, (∀ s, (Op.sem X o s).2 = s) → ∀ s, Files X ⟨o, s⟩ := by
    intro o ho s
    exact ⟨s.cfg.pendingDeviceKeyClaims, ho s⟩
  unfold nemoClientAuthOpen
  refine uses_bind ⟨hlook _ fun _ => rfl, fun _ => trivial⟩ fun pinned => ?_
  split
  · trivial
  refine uses_bind ⟨hlook _ fun _ => rfl, fun _ => trivial⟩ fun bound => ?_
  split
  · trivial
  refine uses_bind ⟨hlook _ fun _ => rfl, fun _ => trivial⟩ fun claimEnabled => ?_
  split
  · trivial
  split
  · trivial
  split
  · exact uses_bind ⟨files_registerPendingClaim _ _ _, fun _ => trivial⟩ fun outcome => trivial
  · split <;> trivial

/-! ## Fresh key pairs -/

theorem keypairs_le (o : Op) (s : Server) : s.keypairs ≤ (Op.sem X o s).2.keypairs := by
  by_cases hk : o.kind = .look
  · cases o with
    | genKeypair => exact Nat.le_succ _
    | getRelayServer relayServers =>
      simp only [Op.sem, Server.getRelayServer]
      split <;> exact Nat.le_refl _
    | checkIpBlocker ip id =>
      simp only [Op.sem, Server.checkIpBlocker]
      split
      · exact Nat.le_refl _
      · split
        · exact Nat.le_refl _
        · split <;> exact Nat.le_refl _
    | dbGetPeer id => exact (congrArg Server.keypairs (s.query_read _)).ge
    | dbGetRegisteredPeer id => exact (congrArg Server.keypairs (s.query_read _)).ge
    | dbListRegistered limit offset => exact (congrArg Server.keypairs (s.query_read _)).ge
    | sessionForToken token =>
      simp only [Op.sem]
      exact Nat.le_refl _
    | auditPunch fromIp toIp toId =>
      obtain ⟨l, h⟩ := s.auditPunch_eq fromIp toIp toId
      exact (congrArg Server.keypairs h).ge
    | _ => first | (simp [Op.kind] at hk; done) | exact Nat.le_refl _
  · exact (sem_keypairs hk).ge

theorem keypairs_advance (q : Pool Op Op.Res Server Job) (c : Choice Job Env) (i : Step)
    (q' : Pool Op Op.Res Server Job) (h : (hbbs X).advance q c = some (i, q')) :
    q.shared.keypairs ≤ q'.shared.keypairs :=
  System.advance_cases (motive := fun s _ s' => s.keypairs ≤ s'.keypairs)
    (fun _ _ _ _ hs => ((congrArg Server.keypairs (Server.beginJob_eq hs)).trans rfl).ge)
    (fun _ _ _ o s => keypairs_le o s)
    (fun _ _ _ hs => ((congrArg Server.keypairs (Server.act_eq hs)).trans rfl).ge)
    (fun _ => Nat.le_refl _) h

/-- Each key pair of a run is made for one task. -/
theorem keypairs_inj (hr : (hbbs X).Run Server.Booted C l p) {n n' : ℕ} {s s' : Server}
    (h : ⟨.genKeypair, s⟩ ∈ System.calls n l) (h' : ⟨.genKeypair, s'⟩ ∈ System.calls n' l)
    (heq : s.keypairs = s'.keypairs) : n = n' := by
  have hlt : ∀ {n n' : ℕ} {j j' : Job} {past past' : Past} {s s' : Server} {l₁ : List Step},
      (.step n' j' past' .genKeypair s' :: l₁) <:+ l → .step n j past .genKeypair s ∈ l₁ →
        s.keypairs + 1 ≤ s'.keypairs := by
    intro n n' j j' past past' s s' l₁ hs hi
    refine hr.pre_add_le keypairs_advance hs hi fun q c q' ha => ?_
    have hnext := System.advance_cases (motive := fun _ i s' =>
      i = .step n j past .genKeypair s → s'.keypairs = s.keypairs + 1)
      (fun _ _ _ _ _ heq => by cases heq) (fun _ _ _ _ _ heq => by cases heq; rfl)
      (fun _ _ _ _ heq => by cases heq) (fun _ heq => by cases heq) ha rfl
    exact hnext.ge
  obtain ⟨j, past, hi⟩ := System.mem_calls.1 h
  obtain ⟨j', past', hi'⟩ := System.mem_calls.1 h'
  obtain ⟨k, l₁, hs, -⟩ := Happened.of_mem hi
  obtain ⟨k', l₁', hs', -⟩ := Happened.of_mem hi'
  rcases List.suffix_or_suffix_of_suffix hs hs' with hsuf | hsuf <;>
    rcases List.suffix_cons_iff.1 hsuf with heq' | hsuf
  · cases heq'; rfl
  · have h : s.keypairs + 1 ≤ s'.keypairs := hlt hs' (hsuf.subset List.mem_cons_self)
    omega
  · cases heq'; rfl
  · have h : s'.keypairs + 1 ≤ s.keypairs := hlt hs (hsuf.subset List.mem_cons_self)
    omega

/-! ## The law -/

/-- The connection that got its key pair in the state `s₀` opens the proof `auth`, by the calls
`new` after the calls `past`, with the result `res`. -/
def Opens (X : Setup) (s₀ : Server) (auth : NemoClientAuth) (past new : Past)
    (res : Except String (SessionKey × AuthedDevice)) : Prop :=
  (nemoClientAuthOpen X auth (X.genKeypair s₀.keypairs).1 (X.genKeypair s₀.keypairs).2).Exec
    (Op.sem X) past (new ++ past) res

theorem opens_of_proven {past : Past} {reply : Option (Option RendezvousMessage)}
    {who : AuthedDevice} (h : Proven X past reply who) : ∃ s₀ auth past' new session,
      ⟨.genKeypair, s₀⟩ ∈ past ∧ (new ++ past') <:+ past ∧
        Opens X s₀ auth past' new (.ok (session, who)) := by
  obtain ⟨sk, frame, auth, s₀, session, -, -, -, hgen, past', h', he, hs⟩ := h
  obtain ⟨new, rfl⟩ := he.suffix
  exact ⟨s₀, auth, past', new, session, hgen, hs, he⟩

theorem opens_ok {s₀ : Server} {auth : NemoClientAuth} {past new : Past} {session : SessionKey}
    {who : AuthedDevice} (h : Opens X s₀ auth past new (.ok (session, who))) :
    (∃ s, ⟨.deviceKeyBinding who.devicePubB64, s⟩ ∈ new ∧ Vouches X s.cfg.deviceKeys who) ∧
      who = ⟨X.base64Encode auth.devicePub, auth.peerId⟩ ∧
      ∃ pk, X.publicKeyOfSlice auth.devicePub = some pk ∧
        X.verify auth.sig pk = some (X.nemoDeviceAuthPayload (X.genKeypair s₀.keypairs).1
          auth.clientBoxPk auth.sealedKey auth.peerId) := by
  obtain ⟨hwho, hproof, s₁, s, s₂, hcalls, hv⟩ := nemoClientAuthOpen_ok h
  obtain rfl := List.append_cancel_right hcalls
  exact ⟨⟨s, by simp, hv⟩, hwho, verifyProof_ok hproof⟩

/-- A key that is pinned and not bound, while unbound keys are not allowed: the proof is refused,
after a claim was filed at most. -/
theorem opens_unbound (hallow : X.allowUnboundDeviceKeys = false) {s₀ : Server}
    {auth : NemoClientAuth} {past new : Past} {res : Except String (SessionKey × AuthedDevice)}
    (h : Opens X s₀ auth past new res) {s : Server}
    (hcall : ⟨.deviceKeyBinding (X.base64Encode auth.devicePub), s⟩ ∈ new)
    (hbound : Integration.deviceKeyBinding s.cfg.deviceKeys (X.base64Encode auth.devicePub) =
      some "") : ∃ e, res = .error e := by
  rcases res with e | ⟨session, who⟩
  · exact ⟨e, rfl⟩
  obtain ⟨rfl, -, s₁, s', s₂, hcalls, -, hv⟩ := nemoClientAuthOpen_ok h
  obtain rfl := List.append_cancel_right hcalls
  simp only [List.mem_cons, Call.mk.injEq, reduceCtorEq, false_and, true_and, false_or, or_false,
    List.not_mem_nil] at hcall
  subst hcall
  obtain ⟨hne, hbound'⟩ | ⟨-, hyes⟩ := hv
  · exact absurd (Option.some.inj (hbound.symm.trans hbound')) (Ne.symm hne)
  · rw [hallow] at hyes
    cases hyes

/-- Who is authenticated in a run. Every identity a connection carries was opened on it; a proof
is only opened while the registry vouches for its key, and if the holder of the key has signed the
payload of this connection for this peer; what was signed on another connection or for another peer
opens nothing, and neither does a key that is not bound. -/
theorem handshake_authentic (X : Setup) (Signed : PublicKey → Bytes → Prop)
    (hsym : Symbolic X Signed) (l : List Step) (p : Pool Op Op.Res Server Job)
    (hr : (hbbs X).Run Server.Booted System.Free l p) :
    (∀ n j past c who secured s, .step n j past (.finishHandshake c (some who) secured) s ∈ l →
      ∃ s₀ auth past' new session, ⟨.genKeypair, s₀⟩ ∈ past ∧ (new ++ past') <:+ past ∧
        Opens X s₀ auth past' new (.ok (session, who))) ∧
    (∀ s₀ auth past new session who, Opens X s₀ auth past new (.ok (session, who)) →
      (∃ s, ⟨.deviceKeyBinding who.devicePubB64, s⟩ ∈ new ∧ Vouches X s.cfg.deviceKeys who) ∧
      ∃ pk, who.devicePubB64 = X.base64Encode auth.devicePub ∧
        X.publicKeyOfSlice auth.devicePub = some pk ∧
        Signed pk (X.nemoDeviceAuthPayload (X.genKeypair s₀.keypairs).1 auth.clientBoxPk
          auth.sealedKey who.peerId)) ∧
    (∀ n n' s₀ s₀' auth pk box sealed id past new session who,
      ⟨.genKeypair, s₀⟩ ∈ System.calls n l → ⟨.genKeypair, s₀'⟩ ∈ System.calls n' l →
      X.publicKeyOfSlice auth.devicePub = some pk →
      X.verify auth.sig pk =
        some (X.nemoDeviceAuthPayload (X.genKeypair s₀'.keypairs).1 box sealed id) →
      Opens X s₀ auth past new (.ok (session, who)) → n' = n ∧ id = who.peerId) ∧
    (X.allowUnboundDeviceKeys = false → ∀ s₀ auth past new res s, Opens X s₀ auth past new res →
      ⟨.deviceKeyBinding (X.base64Encode auth.devicePub), s⟩ ∈ new →
      Integration.deviceKeyBinding s.cfg.deviceKeys (X.base64Encode auth.devicePub) = some "" →
      (∃ e, res = .error e) ∧ ∀ x ∈ new, Files X x) := by
  refine ⟨fun n j past c who secured s hi => ?_, fun s₀ auth past new session who h => ?_, ?_, ?_⟩
  · obtain ⟨-, -, self, reply, -, hproven⟩ := hr.guarantee (hbbs_verified X) n j past _ s hi
    exact opens_of_proven (hproven who rfl)
  · obtain ⟨hv, rfl, pk, hpk, hverify⟩ := opens_ok h
    exact ⟨hv, pk, rfl, hpk, hsym.signed _ _ _ hverify⟩
  · intro n n' s₀ s₀' auth pk box sealed id past new session who h₀ h₀' hpk hverify h
    obtain ⟨-, rfl, pk', hpk', hverify'⟩ := opens_ok h
    obtain rfl := Option.some.inj (hpk.symm.trans hpk')
    obtain ⟨heph, -, -, hid⟩ := hsym.payload (Option.some.inj (hverify.symm.trans hverify'))
    exact ⟨keypairs_inj hr h₀' h₀ (hsym.fresh _ _ heph), hid⟩
  · intro hallow s₀ auth past new res s h hcall hbound
    obtain ⟨new', hnew, hfiles⟩ := (nemoClientAuthOpen_files auth _ _).exec h
    obtain rfl := List.append_cancel_right hnew
    exact ⟨opens_unbound hallow h hcall hbound, fun x hx => hfiles x hx x.pre⟩

namespace Sample

/-- What verifies under a key, its holder signed. -/
def Signed (pk : PublicKey) (m : Bytes) : Prop := ∃ sig, (setup .offer false).verify sig pk = some m

theorem ones_append_inj {m n : ℕ} {u v : Bytes}
    (h : List.replicate m 1 ++ 0 :: u = List.replicate n 1 ++ 0 :: v) : m = n ∧ u = v := by
  induction m generalizing n with
  | zero =>
    cases n with
    | zero => simpa using h
    | succ n => simp [List.replicate_succ] at h
  | succ m ih =>
    cases n with
    | zero => simp [List.replicate_succ] at h
    | succ n =>
      simp only [List.replicate_succ, List.cons_append, List.cons.injEq, true_and] at h
      obtain ⟨rfl, huv⟩ := ih h
      exact ⟨rfl, huv⟩

theorem framed_append_inj {a b u v : Bytes} (h : framed a ++ u = framed b ++ v) :
    a = b ∧ u = v := by
  simp only [framed, List.append_assoc, List.cons_append] at h
  obtain ⟨hlen, happ⟩ := ones_append_inj h
  exact List.append_inj happ hlen

theorem unary_inj {s t : List Char} (h : unary s = unary t) : s = t := by
  induction s generalizing t with
  | nil =>
    cases t with
    | nil => rfl
    | cons d t => simp [unary] at h
  | cons c s ih =>
    cases t with
    | nil => simp [unary] at h
    | cons d t =>
      simp only [unary, List.flatMap_cons, List.append_assoc, List.cons_append,
        List.nil_append] at h
      obtain ⟨hcd, hst⟩ := ones_append_inj h
      rw [ih hst, Char.toNat_inj.1 hcd]

theorem symbolic : Symbolic (setup .offer false) Signed where
  signed sig pk m h := ⟨sig, h⟩
  payload h := by
    obtain ⟨heph, h⟩ := framed_append_inj h
    obtain ⟨hbox, h⟩ := framed_append_inj h
    obtain ⟨hsealed, h⟩ := framed_append_inj h
    exact ⟨heph, hbox, hsealed, String.toList_inj.1 (unary_inj h)⟩
  fresh m n h := by
    have hlen := congrArg List.length h
    simpa [setup] using hlen

/-- An identity was proved in the handshake of a connection. -/
def isProved : Step → Bool
  | .step _ _ _ (.finishHandshake _ (some _) _) _ => true
  | _ => false

theorem exists_proved : ∃ l p, (hbbs (setup .offer false)).Run Server.Booted System.Free l p ∧
    ∃ n j past c who secured s, .step n j past (.finishHandshake c (some who) secured) s ∈ l := by
  obtain ⟨l, p, hr, ht⟩ := exists_run (setup .offer false) [deviceKey "target1"]
    (connect 0 0 2 0 "target1") (fun l _ => l.any isProved) (by decide +kernel)
  obtain ⟨i, hi, hproved⟩ := List.any_eq_true.1 ht
  unfold isProved at hproved
  split at hproved
  · exact ⟨l, p, hr, _, _, _, _, _, _, _, hi⟩
  · cases hproved

end Sample

/-- A connection on which an identity was proved, with what it was proved by. -/
theorem handshake_authentic_proved : ∃ (l : List Step) (p : Pool Op Op.Res Server Job)
    (c : ConnId) (who : AuthedDevice),
    (hbbs (Sample.setup .offer false)).Run Server.Booted System.Free l p ∧
    (∃ n j past secured s, .step n j past (.finishHandshake c (some who) secured) s ∈ l) ∧
    (∃ s : Server, Vouches (Sample.setup .offer false) s.cfg.deviceKeys who) ∧
    ∃ pk eph box sealed, Sample.Signed pk
      ((Sample.setup .offer false).nemoDeviceAuthPayload eph box sealed who.peerId) := by
  obtain ⟨l, p, hr, n, j, past, c, who, secured, s, hi⟩ := Sample.exists_proved
  obtain ⟨hall, hok, -, -⟩ := handshake_authentic _ _ Sample.symbolic l p hr
  obtain ⟨s₀, auth, past', new, session, -, -, hopen⟩ := hall n j past c who secured s hi
  obtain ⟨⟨s', -, hv⟩, pk, -, -, hsigned⟩ := hok s₀ auth past' new session who hopen
  exact ⟨l, p, c, who, hr, ⟨n, j, past, secured, s, hi⟩, ⟨s', hv⟩, pk, _, _, _, hsigned⟩

end NemoServer
