import NemoServer.Laws.DeviceProof
import NemoServer.Laws.Login
import NemoServer.Management.AccountApi

/-!
# What a login has passed

The gates in front of the directory and in front of a session, read off the calls a login has made:
`LetThrough` is what it has shown before the directory is asked, `Confirmed` what the directory and
the list of users say before a session is made. The answer to a login carries the token in the
clear only if the client sent no key to seal it to.

* `login_gated`: the law, over every run of the account API.
-/

set_option autoImplicit false

namespace NemoServer

namespace Management

open Prog Str

variable (A : AccountSetup)

/-! ## What is shown -/

/-- The request carries this credential: in the clear while that is allowed, or in a seal that was
opened and passed the replay guard. -/
inductive Credential (req : LoginRequest) (past : AccountPast) :
    OpenedLogin → Option PublicKey → Prop
  | plain (s : AccountServer) (hblank : ∀ sealed, req.sealed = some sealed → trim sealed = "")
      (hasked : ⟨.requireSealedLogin, s⟩ ∈ past) (hflag : s.requireSealedLogin = false) :
      Credential req past ⟨trim req.username, req.password, "", ""⟩ none
  | opened (sealed : String) (ciphertext plain : Bytes) (j : Json) (login : SealedLogin)
      (s s' : AccountServer) (opened : OpenedLogin) (replyPk : Option PublicKey)
      (hsealed : req.sealed = some sealed) (hdecode : A.base64Decode (trim sealed) = some ciphertext)
      (hkeys : ⟨.loginEncKeys, s⟩ ∈ past)
      (hopen : A.openBox ciphertext (A.loginEncKeypair s.boots).1 (A.loginEncKeypair s.boots).2 =
        some plain)
      (hread : readBytes plain = some j) (hlogin : SealedLogin.ofJson j = some login)
      (hguarded : ⟨.sealedLoginGuard login.ts login.nonce, s'⟩ ∈ past)
      (hguard : (Management.sealedLoginGuard login.ts login.nonce s'.hbbs.clock s'.seenLogin).1 =
        .ok ())
      (hopened : openedLogin A login = .ok (opened, replyPk)) : Credential req past opened replyPk

/-- The holder of a pinned key signed the domain and the id, at a time in the window of the clock,
and the key is bound to the id. -/
def DeviceProved (domain id pubB64 sigB64 : String) (past : AccountPast) : Prop :=
  ∃ s s' ts, ⟨.hbbs (.deviceKeyBinding pubB64), s⟩ ∈ past ∧
    Vouches A.toSetup s.hbbs.cfg.deviceKeys ⟨pubB64, id⟩ ∧ ⟨.hbbs .wallClock, s'⟩ ∈ past ∧
    signedTimestamp A.toSetup pubB64 sigB64 domain id = some ts ∧ fresh s'.hbbs.clock ts = true

/-- The device of a login is proved by the key, or none was required. -/
def DeviceCleared (id : String) (opened : OpenedLogin) (past : AccountPast) (key : String) : Prop :=
  key = opened.deviceKeyPub ∧
      DeviceProved A "nemo-login" id opened.deviceKeyPub opened.deviceKeySig past ∨
    key = "" ∧ ∃ s, ⟨.hbbs .requireDeviceKey, s⟩ ∈ past ∧ s.hbbs.cfg.requireDeviceKey = false

/-- What a login has shown when the directory is asked. -/
structure LetThrough (sourceIp : Option String) (req : LoginRequest) (past : AccountPast)
    (opened : OpenedLogin) (replyPk : Option PublicKey) (key : String) : Prop where
  credential : Credential A req past opened replyPk
  device : DeviceCleared A (trim req.id) opened past key
  username : opened.username ≠ ""
  password : opened.password ≠ ""
  unblocked : ∃ s, ⟨.loginSprayBlock sourceIp, s⟩ ∈ past ∧
    (Integration.loginSprayBlock sourceIp s.hbbs.clock s.limits.spray).1 = none

/-- The directory confirmed the credential as that of the user, after a bind with the password, and
the user may have a session. -/
structure Confirmed (past : AccountPast) (opened : OpenedLogin) (user : LdapUser) (isAdmin : Bool) :
    Prop where
  directory : ∃ cfg s, ⟨.authenticateLdap cfg opened.username opened.password, s⟩ ∈ past ∧
    s.directory.login A.toSetup cfg A.tls opened.username opened.password = .ok user ∧
    ∃ n name, s.directory.binds n name opened.password = .success ()
  listed : ∃ s enabled, ⟨.recordLogin user.username user.displayName user.email, s⟩ ∈ past ∧
    (Integration.recordLogin A.toSetup (toString s.hbbs.clock) user.username user.displayName
      user.email s.hbbs.cfg).1.2 = (enabled, isAdmin) ∧
    ∃ t, ⟨.hbbs .requireLogin, t⟩ ∈ past ∧ (t.hbbs.cfg.requireLogin = true → enabled = true)

variable {A} {sourceIp : Option String} {req : LoginRequest} {past past' : AccountPast}
  {opened : OpenedLogin} {replyPk : Option PublicKey} {key : String}

/-- A user the directory confirms has proved the password to it, by a bind. -/
theorem binds_of_login {D : Directory} {X : Setup} {cfg : LdapConfig} {T : Tls}
    {username password : String} {user : LdapUser}
    (h : D.login X cfg T username password = .ok user) :
    ∃ n name, D.binds n name password = .success () := by
  unfold Directory.login at h
  rcases hsolo : (Integration.authenticateLdap X cfg T username password).run.solo D.sem
    (fun _ s => s) [] ⟨0, none⟩ with ⟨r, h', s'⟩
  rw [hsolo] at h
  obtain rfl : r = .ok user := h
  have hends : D.Ends (Integration.authenticateLdap X cfg T username password) [] ⟨0, none⟩ user
      (D.lastBind h') := ⟨h', s', hsolo, rfl⟩
  obtain ⟨connector, found, -, hprove, -, -⟩ := Directory.ends_authenticateLdap.1 hends
  unfold Integration.proveLogin at hprove
  split at hprove
  · obtain ⟨base, filter, n, se, -, hbind, -⟩ := Directory.serviceLogin_found hprove
    exact ⟨n, se.dn, hbind⟩
  · obtain ⟨-, hbind, -⟩ := Directory.ends_directLogin.1 hprove
    exact ⟨1, _, hbind⟩

/-! ## What was shown stays shown -/

theorem Credential.mono (h : Credential A req past opened replyPk) (hs : past <:+ past') :
    Credential A req past' opened replyPk := by
  cases h with
  | plain s hblank hasked hflag => exact .plain s hblank (hs.subset hasked) hflag
  | opened sealed ciphertext plain j login s s' opened replyPk hsealed hdecode hkeys hopen hread
      hlogin hguarded hguard hopened =>
    exact .opened sealed ciphertext plain j login s s' opened replyPk hsealed hdecode
      (hs.subset hkeys) hopen hread hlogin (hs.subset hguarded) hguard hopened

theorem DeviceProved.mono {domain id pubB64 sigB64 : String}
    (h : DeviceProved A domain id pubB64 sigB64 past) (hs : past <:+ past') :
    DeviceProved A domain id pubB64 sigB64 past' := by
  obtain ⟨s, s', ts, hbinding, hvouches, hclock, hts, hfresh⟩ := h
  exact ⟨s, s', ts, hs.subset hbinding, hvouches, hs.subset hclock, hts, hfresh⟩

theorem DeviceCleared.mono {id : String} (h : DeviceCleared A id opened past key)
    (hs : past <:+ past') : DeviceCleared A id opened past' key := by
  obtain ⟨hkey, hproved⟩ | ⟨hkey, s, hasked, hflag⟩ := h
  · exact .inl ⟨hkey, hproved.mono hs⟩
  · exact .inr ⟨hkey, s, hs.subset hasked, hflag⟩

theorem LetThrough.mono (h : LetThrough A sourceIp req past opened replyPk key)
    (hs : past <:+ past') : LetThrough A sourceIp req past' opened replyPk key := by
  obtain ⟨s, hasked, hnone⟩ := h.unblocked
  exact ⟨h.credential.mono hs, h.device.mono hs, h.username, h.password, s, hs.subset hasked, hnone⟩

theorem Confirmed.mono {user : LdapUser} {isAdmin : Bool}
    (h : Confirmed A past opened user isAdmin) (hs : past <:+ past') :
    Confirmed A past' opened user isAdmin := by
  obtain ⟨cfg, s, hasked, hok, hbind⟩ := h.directory
  obtain ⟨s', enabled, hrecorded, hres, t, hflag, hen⟩ := h.listed
  exact ⟨⟨cfg, s, hs.subset hasked, hok, hbind⟩, s', enabled, hs.subset hrecorded, hres, t,
    hs.subset hflag, hen⟩

/-! ## The stages of a login -/

section Stages

variable {h h' : AccountPast}

/-- The check of a device proof within a request of the account API. -/
theorem deviceProved_of_exec {domain id pubB64 sigB64 : String}
    (he : (onHbbs (verifyDeviceSignature A.toSetup pubB64 sigB64 domain id)).Exec (AccountOp.sem A)
      h h' true) : DeviceProved A domain id pubB64 sigB64 h' := by
  obtain ⟨calls, rfl, hcalls⟩ := exec_lift (f := AccountServer.asHbbs) (fun o s => rfl) he
  obtain ⟨proof, hproof, hok⟩ := verifyDeviceSignature_exec (hcalls [])
  obtain ⟨s₁, s, s₂, s₃, ts, hlist, hvouches, hts, hfresh⟩ :=
    verifyDeviceSignatureProof_ok hproof hok
  rw [List.append_nil, List.append_nil] at hlist
  have hmem : ∀ c ∈ calls.map (Call.view AccountServer.asHbbs),
      ∃ t : AccountServer, ⟨.hbbs c.op, t⟩ ∈ calls.map (Call.lift AccountOp.hbbs) ++ h ∧
        t.asHbbs = c.pre := by
    intro c hc
    obtain ⟨x, hx, rfl⟩ := List.mem_map.1 hc
    exact ⟨x.pre, List.mem_append_left _ (List.mem_map.2 ⟨x, hx, rfl⟩), rfl⟩
  rw [hlist] at hmem
  obtain ⟨t, ht, hpre⟩ := hmem ⟨.deviceKeyBinding pubB64, s⟩ (by simp)
  obtain ⟨t', ht', hpre'⟩ := hmem ⟨.wallClock, s₃⟩ (by simp)
  refine ⟨t, t', ts, ht, ?_, ht', hts, ?_⟩
  · have hcfg : t.asHbbs.cfg = s.cfg := congrArg Server.cfg hpre
    exact hcfg.symm ▸ hvouches
  · have hclock : t'.asHbbs.clock = s₃.clock := congrArg Server.clock hpre'
    exact hclock.symm ▸ hfresh

theorem exec_decodeSealedLogin {sealed : String} (hsealed : req.sealed = some sealed)
    (he : (decodeSealedLogin A sealed).Exec (AccountOp.sem A) h h' (.ok (opened, replyPk))) :
    Credential A req h' opened replyPk := by
  unfold decodeSealedLogin at he
  split at he
  · cases he.2
  next ciphertext hdecode =>
  obtain ⟨s, he⟩ := he
  simp only [AccountOp.sem, bind_eq, ret_bind] at he
  split at he
  · cases he.2
  next plain hopen =>
  split at he
  · cases he.2
  next login hlogin =>
  obtain ⟨j, hread, hjson⟩ := Option.bind_eq_some_iff.1 hlogin
  obtain ⟨s', he⟩ := he
  simp only [AccountOp.sem, bind_eq, ret_bind] at he
  obtain ⟨rfl, hres⟩ := he
  cases hguard : (Management.sealedLoginGuard login.ts login.nonce s'.hbbs.clock s'.seenLogin).1 with
  | error e =>
    rw [hguard] at hres
    cases hres
  | ok u =>
    rw [hguard] at hres
    exact .opened sealed ciphertext plain j login s s' opened replyPk hsealed hdecode
      (List.mem_cons_of_mem _ List.mem_cons_self) hopen hread hjson List.mem_cons_self hguard
      hres.symm

theorem exec_openLogin
    (he : (openLogin A req).Exec (AccountOp.sem A) h h' (.ok (opened, replyPk))) :
    Credential A req h' opened replyPk := by
  unfold openLogin at he
  split at he
  · next sealed hsealed =>
    exact exec_decodeSealedLogin (Option.filter_eq_some_iff.1 hsealed).1 he
  · next hnone =>
    obtain ⟨s, he⟩ := he
    simp only [AccountOp.sem, bind_eq, ret_bind] at he
    obtain ⟨rfl, hres⟩ := he
    split at hres
    · cases hres
    · next hflag =>
      obtain ⟨rfl, rfl⟩ := Prod.mk.inj (Except.ok.inj hres)
      refine .plain s (fun sealed hsealed => ?_) List.mem_cons_self (by simpa using hflag)
      rw [hsealed, Option.filter_eq_none_iff] at hnone
      simpa using hnone sealed rfl

theorem exec_provenDeviceKey {id : String}
    (he : (provenDeviceKey A opened id).Exec (AccountOp.sem A) h h' (.ok key)) :
    DeviceCleared A (trim id) opened h' key := by
  unfold provenDeviceKey at he
  obtain ⟨h₁, ok, hproof, he⟩ := exec_bind.1 he
  cases ok with
  | true =>
    obtain ⟨rfl, hkey⟩ := he
    refine .inl ⟨Except.ok.inj hkey, ?_⟩
    unfold loginDeviceKeyOk at hproof
    split at hproof
    · exact deviceProved_of_exec hproof
    · cases hproof.2
  | false =>
    obtain ⟨s, he⟩ := he
    simp only [AccountOp.sem, bind_eq, ret_bind] at he
    split at he
    · cases he.2
    · next hflag =>
      obtain ⟨rfl, hkey⟩ := he
      have hfalse : s.hbbs.cfg.requireDeviceKey = false := Bool.eq_false_iff.2 hflag
      exact .inr ⟨Except.ok.inj hkey, s, List.mem_cons_self, hfalse⟩

end Stages

/-! ## The gates -/

/-- The operations that tell the directory, the sessions or the client something. -/
def Telling : AccountOp → Bool
  | .authenticateLdap _ _ _ | .createSession _ _ _ _ | .reply _ => true
  | _ => false

variable (A) in
/-- What the request has shown when it tells something. -/
def Gated (r : AccountRequest) (past : AccountPast) : AccountOp → Prop
  | .authenticateLdap _ username password => ∃ sourceIp req opened replyPk key,
    r = .login sourceIp req ∧ LetThrough A sourceIp req past opened replyPk key ∧
      username = opened.username ∧ password = opened.password
  | .createSession username displayName email key => ∃ sourceIp req opened replyPk user isAdmin,
    r = .login sourceIp req ∧ LetThrough A sourceIp req past opened replyPk key ∧
      Confirmed A past opened user isAdmin ∧ username = user.username ∧
      displayName = user.displayName ∧ email = user.email
  | .reply (.login answer) => answer.error = none → ∃ sourceIp req opened replyPk key user isAdmin s,
    r = .login sourceIp req ∧ LetThrough A sourceIp req past opened replyPk key ∧
      Confirmed A past opened user isAdmin ∧
      ⟨.createSession user.username user.displayName user.email key, s⟩ ∈ past ∧
      answer = loginAnswer A user isAdmin (A.uuidSimple s.hbbs.uuids) replyPk
  | _ => True

theorem gated_of_not_telling {r : AccountRequest} {o : AccountOp} (ho : Telling o = false) :
    Gated A r past o := by
  cases o with
  | authenticateLdap cfg username password => cases ho
  | createSession username displayName email key => cases ho
  | reply answer => cases ho
  | _ => trivial

/-- A part of a request that tells nothing passes every gate. -/
theorem sat_of_uses {r : AccountRequest} {α : Type} {p : AccountHandler α}
    (hp : p.Uses fun o => Telling o = false) (h : AccountPast) :
    p.Sat (AccountOp.sem A) (fun _ => True) (fun past o _ => Gated A r past o)
      (fun h' a => p.Exec (AccountOp.sem A) h h' a ∧ h <:+ h') h :=
  (hp.sat fun _ _ _ _ _ ho => gated_of_not_telling ho).mono fun _ _ hs he => ⟨he.1, hs⟩

theorem uses_account {o : AccountOp} (ho : Telling o = false) :
    (account o).Uses fun o => Telling o = false :=
  ⟨ho, fun _ => trivial⟩

theorem uses_decodeSealedLogin (sealed : String) :
    (decodeSealedLogin A sealed).Uses fun o => Telling o = false := by
  unfold decodeSealedLogin
  split
  · trivial
  · refine uses_bind (uses_account rfl) fun keys => ?_
    split
    · trivial
    · split
      · trivial
      · exact uses_bind (uses_account rfl) fun _ => trivial

theorem uses_openLogin (req : LoginRequest) :
    (openLogin A req).Uses fun o => Telling o = false := by
  unfold openLogin
  split
  · exact uses_decodeSealedLogin _
  · exact uses_bind (uses_account rfl) fun _ => trivial

theorem uses_onHbbs {α : Type} (p : Handler α) : (onHbbs p).Uses fun o => Telling o = false :=
  uses_lift (R := AccountOp.Res) (ι := AccountOp.hbbs) p fun _ => rfl

theorem uses_provenDeviceKey (opened : OpenedLogin) (id : String) :
    (provenDeviceKey A opened id).Uses fun o => Telling o = false := by
  unfold provenDeviceKey
  refine uses_bind (uses_onHbbs _) fun ok => ?_
  split
  · trivial
  · refine uses_bind (uses_account rfl) fun required => ?_
    split
    · trivial
    · trivial

section Login

/-- The answer of a login that was let through. -/
def Answered (A : AccountSetup) (r : AccountRequest) (past : AccountPast) (answer : LoginReply) :
    Prop :=
  Gated A r past (.reply (.login answer))

theorem answered_err {r : AccountRequest} (e : String) : Answered A r past (LoginReply.err e) := by
  intro hnone
  cases hnone

/-- A confirmed user gets a session, and the token in the answer. -/
theorem sat_loginConfirmed {user : LdapUser}
    (hlet : LetThrough A sourceIp req past opened replyPk key)
    (hdirectory : ∃ cfg s, ⟨.authenticateLdap cfg opened.username opened.password, s⟩ ∈ past ∧
      s.directory.login A.toSetup cfg A.tls opened.username opened.password = .ok user) :
    (loginConfirmed A user key replyPk).Sat (AccountOp.sem A) (fun _ => True)
      (fun past o _ => Gated A (.login sourceIp req) past o)
      (fun h' => Answered A (.login sourceIp req) h') past := by
  intro s₁ _
  refine ⟨trivial, fun s₂ _ => ⟨trivial, fun s₃ _ => ⟨trivial, ?_⟩⟩⟩
  simp only [bind_eq, ret_bind]
  split
  · exact answered_err _
  next hallowed =>
  have hs : past <:+ ⟨.hbbs .requireLogin, s₃⟩ ::
      ⟨.recordLogin user.username user.displayName user.email, s₂⟩ ::
      ⟨.clearLoginFailures user.username, s₁⟩ :: past :=
    ((List.suffix_cons _ _).trans (List.suffix_cons _ _)).trans (List.suffix_cons _ _)
  have hconfirmed : Confirmed A (⟨.hbbs .requireLogin, s₃⟩ ::
      ⟨.recordLogin user.username user.displayName user.email, s₂⟩ ::
      ⟨.clearLoginFailures user.username, s₁⟩ :: past) opened user
      ((AccountOp.sem A (.recordLogin user.username user.displayName user.email) s₂).1).2.2 := by
    refine ⟨?_, s₂, _, List.mem_cons_of_mem _ List.mem_cons_self, rfl, s₃, List.mem_cons_self, ?_⟩
    · obtain ⟨cfg, s, hasked, hok⟩ := hdirectory
      exact ⟨cfg, s, hs.subset hasked, hok, binds_of_login hok⟩
    · intro hlogin
      by_contra hdisabled
      have hfalse := Bool.eq_false_iff.2 hdisabled
      exact hallowed (Bool.and_eq_true_iff.2 ⟨hlogin, (congrArg not hfalse).trans rfl⟩)
  refine fun s₄ _ => ⟨?_, ?_⟩
  · exact ⟨sourceIp, req, opened, replyPk, user, _, rfl, hlet.mono hs, hconfirmed, rfl, rfl, rfl⟩
  · intro _
    exact ⟨sourceIp, req, opened, replyPk, key, user, _, s₄, rfl,
      hlet.mono (hs.trans (List.suffix_cons _ _)), hconfirmed.mono (List.suffix_cons _ _),
      List.mem_cons_self, rfl⟩

/-- The directory is asked for a login that was let through. -/
theorem sat_askDirectory (hlet : LetThrough A sourceIp req past opened replyPk key) :
    (askDirectory A sourceIp opened.username opened.password key replyPk).Sat (AccountOp.sem A)
      (fun _ => True) (fun past o _ => Gated A (.login sourceIp req) past o)
      (fun h' => Answered A (.login sourceIp req) h') past := by
  intro s _
  refine ⟨trivial, fun s' _ => ⟨?_, ?_⟩⟩
  · exact ⟨sourceIp, req, opened, replyPk, key, rfl, hlet.mono (List.suffix_cons _ _), rfl, rfl⟩
  have hs : past <:+ ⟨.authenticateLdap s.ldap opened.username opened.password, s'⟩ ::
      ⟨.ldapConfig, s⟩ :: past := (List.suffix_cons _ _).trans (List.suffix_cons _ _)
  cases hanswer : s'.directory.login A.toSetup s.ldap A.tls opened.username opened.password with
  | error reason =>
    simp only [AccountOp.sem, hanswer, bind_eq, ret_bind]
    exact fun s₁ _ => ⟨trivial, fun s₂ _ => ⟨trivial, answered_err reason⟩⟩
  | ok user =>
    simp only [AccountOp.sem, hanswer, bind_eq, ret_bind]
    exact sat_loginConfirmed (hlet.mono hs) ⟨s.ldap, s', List.mem_cons_self, hanswer⟩

theorem sat_apiLogin (sourceIp : Option String) (req : LoginRequest) :
    (apiLogin A sourceIp req).Sat (AccountOp.sem A) (fun _ => True)
      (fun past o _ => Gated A (.login sourceIp req) past o)
      (fun h' => Answered A (.login sourceIp req) h') [] := by
  refine (sat_of_uses (uses_openLogin req) []).bind fun h₁ r _ ⟨hopen, _⟩ => ?_
  obtain e | ⟨opened, replyPk⟩ := r
  · exact answered_err e
  refine (sat_of_uses (uses_provenDeviceKey opened req.id) h₁).bind fun h₂ r hs ⟨hproof, _⟩ => ?_
  obtain e | key := r
  · exact answered_err e
  simp only
  split
  · exact answered_err _
  next hfields =>
  push Not at hfields
  refine fun s _ => ⟨trivial, ?_⟩
  cases hblock : (Integration.loginSprayBlock sourceIp s.hbbs.clock s.limits.spray).1 with
  | some reason =>
    simp only [AccountOp.sem, hblock, bind_eq, ret_bind]
    exact answered_err reason
  | none =>
    simp only [AccountOp.sem, hblock, bind_eq, ret_bind]
    have hs' : h₁ <:+ ⟨.loginSprayBlock sourceIp, s⟩ :: h₂ := hs.trans (List.suffix_cons _ _)
    exact sat_askDirectory ⟨(exec_openLogin hopen).mono hs',
      (exec_provenDeviceKey hproof).mono (List.suffix_cons _ _), hfields.1, hfields.2, s,
      List.mem_cons_self, hblock⟩

end Login

/-! ## The other requests -/

theorem uses_apiLogout (authorization : Option String) :
    (apiLogout authorization).Uses fun o => Telling o = false := by
  unfold apiLogout
  split
  · exact uses_account rfl
  · trivial

theorem uses_apiCurrentUser (authorization : Option String) :
    (apiCurrentUser authorization).Uses fun o => Telling o = false := by
  unfold apiCurrentUser
  split
  · trivial
  · refine uses_bind (uses_account rfl) fun session => ?_
    split
    · trivial
    · refine uses_bind (uses_account rfl) fun enabled => ?_
      split
      · exact uses_bind (uses_account rfl) fun _ => trivial
      · trivial

/-- The program tells nothing. -/
structure Mute {α : Type} (p : AccountHandler α) : Prop where
  uses : p.Uses fun o => Telling o = false

theorem mute_resolveRequestBody (body : Json) : Mute (resolveRequestBody A body) := by
  constructor
  unfold resolveRequestBody
  simp only
  generalize trim (((member body "sealed_request").bind readString).getD "") = sealed
  split
  · exact uses_bind (uses_account rfl) fun _ => trivial
  · split
    · trivial
    · split
      · trivial
      · split
        · trivial
        · exact uses_bind (uses_account rfl) fun _ => trivial

theorem uses_abPeers (isAdmin : Bool) (allowedTargets : List String) (peers : List RegisteredPeer) :
    (abPeers A isAdmin allowedTargets peers).Uses fun o => Telling o = false := by
  induction peers with
  | nil => trivial
  | cons peer peers ih =>
    unfold abPeers
    split
    · exact uses_bind (uses_account rfl) fun _ => uses_bind ih fun _ => trivial
    · exact ih

theorem uses_sendAddressBook (sealTo : Option String) (data : String) :
    (sendAddressBook A sealTo data).Uses fun o => Telling o = false := by
  unfold sendAddressBook
  split
  · exact uses_bind (uses_account rfl) fun _ => trivial
  · split
    · trivial
    · split
      · trivial
      · exact uses_bind (uses_account rfl) fun _ => trivial

theorem uses_addressBookOf (session : Session) (sealTo : Option String) :
    (addressBookOf A session sealTo).Uses fun o => Telling o = false := by
  unfold addressBookOf
  refine uses_bind (uses_account rfl) fun peers => ?_
  split
  · trivial
  · refine uses_bind (uses_account rfl) fun permission => ?_
    exact uses_bind (uses_abPeers _ _ _) fun _ => uses_sendAddressBook _ _

theorem uses_abGetSession (req : AbGetBody) (session : Session) :
    (abGetSession A req session).Uses fun o => Telling o = false := by
  unfold abGetSession
  refine uses_bind (uses_onHbbs _) fun deviceKeyOk => ?_
  refine uses_bind (uses_account rfl) fun required => ?_
  by_cases hkey : (required && !deviceKeyOk) = true
  · rw [if_pos hkey]
    trivial
  · rw [if_neg hkey]
    generalize sessionDeviceBindingOk _ _ = bound
    generalize (if (deviceKeyOk && req.sealed == some "v1") = true then _ else _) = sealTo
    split
    · trivial
    · refine uses_bind (uses_account rfl) fun enabled => ?_
      split
      · exact uses_addressBookOf _ _
      · trivial

theorem mute_apiAbGet (authorization : Option String) (body : Option Json) :
    Mute (apiAbGet A authorization body) := by
  have hbody := mute_resolveRequestBody (A := A) (body.getD (.obj []))
  constructor
  unfold apiAbGet
  generalize resolveRequestBody A (body.getD (.obj [])) = q at hbody ⊢
  refine uses_bind hbody.uses fun raw => ?_
  split
  · trivial
  · split
    · trivial
    · refine uses_bind (uses_account rfl) fun session => ?_
      split
      · trivial
      · exact uses_abGetSession _ _

/-! ## Over the runs -/

/-- The request passes its gates. -/
structure Passes (A : AccountSetup) (r : AccountRequest) : Prop where
  sat : (r.code A).Sat (AccountOp.sem A) (fun _ => True) (fun past o _ => Gated A r past o)
    (fun _ _ => True) []

theorem passes_login (sourceIp : Option String) (req : LoginRequest) :
    Passes A (.login sourceIp req) := by
  have hlogin := sat_apiLogin (A := A) sourceIp req
  refine ⟨?_⟩
  unfold AccountRequest.code
  rw [AccountRequest.handle]
  generalize apiLogin A sourceIp req = p at hlogin
  rw [bind_assoc]
  exact hlogin.bind fun h answer _ hanswered s _ => ⟨hanswered, trivial⟩

/-- The other requests tell nothing but their answer. -/
theorem passes_of_uses {α : Type} {r : AccountRequest} {p : AccountHandler α}
    {f : α → AccountReply} (hhandle : r.handle A = p >>= fun a => pure (f a))
    (hp : p.Uses fun o => Telling o = false)
    (hf : ∀ a past, Gated A r past (.reply (f a))) : Passes A r := by
  refine ⟨?_⟩
  unfold AccountRequest.code
  rw [hhandle, bind_assoc]
  exact (sat_of_uses hp []).bind fun h a _ _ s _ => ⟨hf a h, trivial⟩

theorem passes (r : AccountRequest) : Passes A r := by
  cases r with
  | login sourceIp req => exact passes_login sourceIp req
  | logout authorization =>
    exact passes_of_uses (f := fun _ => .logout) (AccountRequest.handle.eq_2 A authorization)
      (uses_apiLogout authorization) fun _ _ => trivial
  | currentUser authorization =>
    exact passes_of_uses (f := .currentUser) (AccountRequest.handle.eq_3 A authorization)
      (uses_apiCurrentUser authorization) fun _ _ => trivial
  | abGet authorization body =>
    have hget := mute_apiAbGet (A := A) authorization body
    have hhandle := AccountRequest.handle.eq_4 A authorization body
    generalize apiAbGet A authorization body = q at hget hhandle
    exact passes_of_uses (f := .abGet) hhandle hget.uses fun _ _ => trivial

variable (A) in
theorem verified_gates (init : AccountServer → Prop) : System.Verified (accounts A) init
    (fun _ => True) fun r past o _ => Gated A r past o where
  init _ _ := trivial
  code r := (passes r).sat
  call _ _ _ _ _ _ := trivial
  start _ _ _ _ _ := trivial
  env _ _ _ _ _ := trivial
  reboot _ _ := trivial

/-- In every run of the account API, whatever else the process does: the directory is asked for a
login that was let through only, a session is made for a login that was confirmed only, and a login
that is answered with a token is one of these; the token is in the clear only without a key to seal
it to. -/
theorem login_gated {init : AccountServer → Prop}
    {C : List AccountItem → AccountPool → Choice AccountRequest AccountEvent → Prop}
    {l : List AccountItem} {p : AccountPool} (hr : (accounts A).Run init C l p) :
    ∀ n r past o s, .step n r past o s ∈ l → Gated A r past o :=
  hr.guarantee (verified_gates A init)

end Management

namespace Sample

/-- Tokens carry their number, and a seal adds nothing. -/
def accountSetup : AccountSetup where
  toSetup := setup .offer false
  serverPublicKey := ""
  toCurve25519Sk := some
  toCurve25519Pk := some
  openBox ciphertext _ _ := some ciphertext
  sealBox plain _ := plain
  boxPublicKeyOfSlice := some
  loginEncKeypair n := (List.replicate n 1, List.replicate n 1)
  uuidSimple n := "token" ++ toString n
  tls := Directory.sampleTls

/-- An enabled user who may reach one machine. -/
def officeWorker : UserPermission := ⟨true, false, ["desk"], default, none, "", "", ""⟩

/-- A server that has just started, with one machine and a directory of two accounts. -/
def accountServer : AccountServer where
  hbbs := { server [] with
    db := [⟨0, "desk", [1], [1], "", none, none, none⟩]
    cfg := { config [] with permissions := Table.empty.insert "asmith" officeWorker } }
  store := ⟨∅, none⟩
  requireSealedLogin := false
  requireSealedRequest := false
  ldap := Directory.byAccountName
  directory := Directory.twins true
  limits := LoginLimits.initial
  seenLogin := []
  seenRequest := []
  hostnames := Table.empty.insert "desk" "office"
  boots := 0

theorem accountServer_fresh : accountServer.Fresh := rfl

/-- Start a request, as number `n`, and handle it to its end. -/
def serve (n : ℕ) (r : AccountRequest) : List (Choice AccountRequest AccountEvent) :=
  .start r :: List.replicate 20 (.step n)

def signIn : AccountRequest := .login none ⟨"alice@corp", "first", none, ""⟩

/-- A session is made in the last step but one. -/
def makesSession (l : List AccountItem) (_ : AccountPool) : Bool :=
  match l with
  | .step _ _ _ (.reply _) _ :: .step _ _ _ (.createSession _ _ _ _) _ :: _ => true
  | _ => false

end Sample

namespace Management

/-- A login in the clear has passed its gates when its session is made. -/
theorem login_gated_sample : ∃ l p n r past username displayName email key s,
    (accounts Sample.accountSetup).Run AccountServer.Fresh System.Free l p ∧
      .step n r past (.createSession username displayName email key) s ∈ l ∧
        Gated Sample.accountSetup r past (.createSession username displayName email key) := by
  obtain ⟨l, p, hr, ht⟩ := System.exists_run (S := accounts Sample.accountSetup)
    Sample.accountServer_fresh (Sample.serve 0 Sample.signIn) Sample.makesSession
    (by decide +kernel)
  unfold Sample.makesSession at ht
  split at ht
  next n r past answer s n' r' past' username displayName email key s' l =>
    refine ⟨_, p, n', r', past', username, displayName, email, key, s', hr, by simp, ?_⟩
    exact login_gated hr n' r' past' _ s' (by simp)
  next => cases ht

end Management

end NemoServer
