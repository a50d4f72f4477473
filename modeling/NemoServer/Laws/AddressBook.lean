import NemoServer.Laws.AccountSessions

/-!
# Who gets an address book

What an address book that goes out rests on, read off the calls of its request (`Served`): the body
that was opened, the token of a live session, the proof of the device the session is bound to, an
enabled user, and the machines that were registered and allowed to this user. With the login the
session goes back to it is the law over the runs.

* `address_book_earned`: the law.
* `address_book_reads`: what a book says.
-/

set_option autoImplicit false

-- the linter looks for constructors in the types of variables, and would run the handlers there
set_option linter.constructorNameAsVariable false

namespace NemoServer

namespace Management

open Prog Str Integration

variable (A : AccountSetup)

/-! ## What is served -/

/-- The body of the request: as it was sent while that is allowed, or what its envelope has, once
the envelope passed the replay guard. -/
inductive Opened (body : Json) (past : AccountPast) : Json → Prop
  | plain (s : AccountServer)
      (hblank : trim (((member body "sealed_request").bind readString).getD "") = "")
      (hasked : ⟨.requireSealedRequest, s⟩ ∈ past) (hflag : s.requireSealedRequest = false) :
      Opened body past body
  | envelope (sealed : String) (plain : Bytes) (inner : Json) (ts : ℕ) (nonce : String)
      (s : AccountServer) (hsealed : (member body "sealed_request").bind readString = some sealed)
      (hopen : openSealedToMgmtKey A (trim sealed) = some plain)
      (hread : readBytes plain = some inner)
      (hguarded : ⟨.sealedRequestGuard ts nonce, s⟩ ∈ past)
      (hguard : (Management.sealedRequestGuard ts nonce s.hbbs.clock s.seenRequest).1 = .ok ()) :
      Opened body past inner

/-- The peers listed: those of the rows the user may reach, in their order, each with the name it
had when it was asked. -/
inductive Lists (isAdmin : Bool) (allowedTargets : List String) (past : AccountPast) :
    List RegisteredPeer → List AbPeer → Prop
  | nil : Lists isAdmin allowedTargets past [] []
  | skip (peer : RegisteredPeer) (peers : List RegisteredPeer) (listed : List AbPeer)
      (hno : userAllowedTarget isAdmin allowedTargets peer.id = false)
      (hrest : Lists isAdmin allowedTargets past peers listed) :
      Lists isAdmin allowedTargets past (peer :: peers) listed
  | keep (peer : RegisteredPeer) (peers : List RegisteredPeer) (listed : List AbPeer)
      (s : AccountServer) (hyes : userAllowedTarget isAdmin allowedTargets peer.id = true)
      (hasked : ⟨.peerHostname peer.id, s⟩ ∈ past)
      (hrest : Lists isAdmin allowedTargets past peers listed) :
      Lists isAdmin allowedTargets past (peer :: peers)
        (abPeer A peer ((s.hostnames peer.id).getD "") :: listed)

/-- The proof of the device that came with the request. -/
abbrev AbProved (req : AbGetBody) (past : AccountPast) : Prop :=
  DeviceProved A "nemo-ab" req.id req.deviceKeyPub req.deviceKeySig past

/-- The book as it goes out: sealed to the key the request was proved with, or in the clear. -/
def Sent (req : AbGetBody) (past : AccountPast) (data : String) (r : AbResult) : Prop :=
  r.data = some data ∧ r.sealedData = none ∨
    r.data = none ∧ AbProved A req past ∧ ∃ sk sealedData, A.sk = some sk ∧
      sealToDeviceKey A req.deviceKeyPub (A.sign data.toUTF8.toList sk) = some sealedData ∧
      r.sealedData = some sealedData

/-- The rules on the device: one that proves itself where that is required, and the one the session
is bound to, if it is. -/
structure DeviceRules (req : AbGetBody) (past : AccountPast) (session : Session) : Prop where
  required : AbProved A req past ∨
    ∃ s, ⟨.hbbs .requireDeviceKey, s⟩ ∈ past ∧ s.hbbs.cfg.requireDeviceKey = false
  bound : session.deviceKeyPub = "" ∨
    req.deviceKeyPub = session.deviceKeyPub ∧ AbProved A req past

/-- The book of a user: the machines that were registered, as far as the user may reach them. -/
def Book (past : AccountPast) (username : String) (listed : List AbPeer) : Prop :=
  ∃ s s', ⟨.hbbs (.dbListRegistered 1000 0), s⟩ ∈ past ∧ s.hbbs.dbUp = true ∧
    ⟨.hbbs (.effectivePermission username), s'⟩ ∈ past ∧
    Lists A (effectivePermission A.toSetup s'.hbbs.cfg username).1
      (effectivePermission A.toSetup s'.hbbs.cfg username).2 past
      (Database.listRegisteredPeers A.toSetup s.hbbs.api.createdAt s.hbbs.db 1000 0) listed

/-- The user was found to be enabled. -/
def SeenEnabled (past : AccountPast) (username : String) : Prop :=
  ∃ s, ⟨.hbbs (.userIsEnabled username), s⟩ ∈ past ∧
    userIsEnabled A.toSetup s.hbbs.cfg username = true

/-- What an address book rests on within its request; the token was looked up in the state `s`. -/
structure Served (authorization : Option String) (body : Json) (past : AccountPast) (r : AbResult)
    (token : String) (session : Session) (s : AccountServer) : Prop where
  live : ⟨.hbbs (.sessionForToken token), s⟩ ∈ past ∧
    s.store.sessions.lookup (trim token) = some session ∧ s.hbbs.clock < session.expiresAt
  enabled : SeenEnabled A past session.username
  opened : ∃ raw listed, Opened A body past raw ∧ requestToken raw authorization = some token ∧
    DeviceRules A (AbGetBody.ofJson raw) past session ∧ Book A past session.username listed ∧
    Sent A (AbGetBody.ofJson raw) past (abDataText listed) r

variable {A} {past past' h h' : AccountPast}

/-! ## Inverting the request -/

theorem Opened.mono {body raw : Json} (ho : Opened A body past raw) (hs : past <:+ past') :
    Opened A body past' raw := by
  cases ho with
  | plain s hblank hasked hflag => exact .plain s hblank (hs.subset hasked) hflag
  | envelope sealed plain inner ts nonce s hsealed hopen hread hguarded hguard =>
    exact .envelope sealed plain raw ts nonce s hsealed hopen hread (hs.subset hguarded) hguard

theorem Lists.mono {isAdmin : Bool} {allowed : List String} {peers : List RegisteredPeer}
    {listed : List AbPeer} (hl : Lists A isAdmin allowed past peers listed) (hs : past <:+ past') :
    Lists A isAdmin allowed past' peers listed := by
  induction hl with
  | nil => exact .nil
  | skip peer peers listed hno _ ih => exact .skip peer peers listed hno ih
  | keep peer peers listed s hyes hasked _ ih =>
    exact .keep peer peers listed s hyes (hs.subset hasked) ih

theorem exec_resolveRequestBody {body raw : Json}
    (he : (resolveRequestBody A body).Exec (AccountOp.sem A) h h' (.ok raw)) :
    Opened A body h' raw := by
  unfold resolveRequestBody at he
  simp only at he
  split at he
  · next hblank =>
    obtain ⟨s, rfl, hres⟩ := he
    unfold unsealedRequestBody at hres
    split at hres
    · cases hres
    · next hflag =>
      obtain rfl := Except.ok.inj hres
      exact .plain s hblank List.mem_cons_self (Bool.eq_false_iff.2 hflag)
  next hsealed =>
  split at he
  · cases he.2
  split at he
  · cases he.2
  next plain hopen =>
  split at he
  · cases he.2
  next inner hread =>
  obtain ⟨s, rfl, hres⟩ := he
  cases hguard : (Management.sealedRequestGuard (((member inner "ts").bind readU64).getD 0)
    (((member inner "nonce").bind readString).getD "") s.hbbs.clock s.seenRequest).1 with
  | error e =>
    simp only [AccountOp.sem, hguard] at hres
    cases hres
  | ok u =>
    simp only [AccountOp.sem, hguard] at hres
    obtain rfl := Except.ok.inj hres
    cases hsome : (member body "sealed_request").bind readString with
    | none =>
      rw [hsome] at hsealed
      exact absurd rfl hsealed
    | some sealed =>
      rw [hsome] at hopen
      exact .envelope sealed plain raw _ _ s hsome hopen hread List.mem_cons_self hguard

theorem exec_abPeers {isAdmin : Bool} {allowed : List String} {peers : List RegisteredPeer}
    {listed : List AbPeer}
    (he : (abPeers A isAdmin allowed peers).Exec (AccountOp.sem A) h h' listed) :
    Lists A isAdmin allowed h' peers listed := by
  induction peers generalizing h listed with
  | nil =>
    obtain ⟨rfl, rfl⟩ := he
    exact .nil
  | cons peer peers ih =>
    unfold abPeers at he
    split at he
    · next hyes =>
      obtain ⟨s, he⟩ := he
      simp only [AccountOp.sem, bind_eq, ret_bind] at he
      obtain ⟨h₁, rest, hrest, rfl, rfl⟩ := exec_bind.1 he
      exact .keep peer peers rest s hyes (hrest.suffix.subset List.mem_cons_self) (ih hrest)
    · next hno => exact .skip peer peers listed (Bool.eq_false_iff.2 hno) (ih he)

/-- How a book is sent that is to be sealed to this key, or to none. -/
def SentTo (A : AccountSetup) (sealTo : Option String) (data : String) (r : AbResult) : Prop :=
  sealTo = none ∧ r.data = some data ∧ r.sealedData = none ∨
    ∃ pub sk sealedData, sealTo = some pub ∧ A.sk = some sk ∧
      sealToDeviceKey A pub (A.sign data.toUTF8.toList sk) = some sealedData ∧ r.data = none ∧
      r.sealedData = some sealedData

theorem exec_sendAddressBook {sealTo : Option String} {data : String} {r : AbResult}
    (he : (sendAddressBook A sealTo data).Exec (AccountOp.sem A) h h' r) (hr : r.error = none) :
    SentTo A sealTo data r := by
  unfold sendAddressBook at he
  split at he
  · obtain ⟨s, -, rfl⟩ := he
    exact .inl ⟨rfl, rfl, rfl⟩
  next pub =>
  split at he
  · obtain ⟨-, rfl⟩ := he
    cases hr
  next sk hsk =>
  split at he
  · obtain ⟨-, rfl⟩ := he
    cases hr
  next sealedData hsealed =>
  obtain ⟨s, -, rfl⟩ := he
  exact .inr ⟨pub, sk, sealedData, rfl, hsk, hsealed, rfl, rfl⟩

theorem exec_addressBookOf {session : Session} {sealTo : Option String} {r : AbResult}
    (he : (addressBookOf A session sealTo).Exec (AccountOp.sem A) h h' r) (hr : r.error = none) :
    ∃ listed, Book A h' session.username listed ∧ SentTo A sealTo (abDataText listed) r := by
  unfold addressBookOf at he
  obtain ⟨s, he⟩ := he
  cases hup : s.hbbs.dbUp with
  | false =>
    have hdown : (AccountOp.sem A (.hbbs (.dbListRegistered 1000 0)) s).1 = none := by
      simp [AccountOp.sem, Op.sem, Server.query, AccountServer.asHbbs, hup]
    simp only [bind_eq, ret_bind, hdown] at he
    obtain ⟨-, rfl⟩ := he
    cases hr
  | true =>
    have hrows : (AccountOp.sem A (.hbbs (.dbListRegistered 1000 0)) s).1 =
        some (Database.listRegisteredPeers A.toSetup s.hbbs.api.createdAt s.hbbs.db 1000 0) := by
      simp [AccountOp.sem, Op.sem, Server.query, AccountServer.asHbbs, hup]
    simp only [bind_eq, ret_bind, hrows] at he
    obtain ⟨s', he⟩ := he
    simp only [bind_eq, ret_bind] at he
    obtain ⟨h₁, listed, hlisted, hsend⟩ := exec_bind.1 he
    have hsuf := hlisted.suffix
    have hs := hsend.suffix
    refine ⟨listed, ⟨s, s', hs.subset (hsuf.subset ?_), hup, hs.subset (hsuf.subset ?_), ?_⟩,
      exec_sendAddressBook hsend hr⟩
    · exact List.mem_cons_of_mem _ List.mem_cons_self
    · exact List.mem_cons_self
    · exact (exec_abPeers hlisted).mono hs

theorem sessionDeviceBindingOk_iff {bound : String} {proven : Option String} :
    sessionDeviceBindingOk bound proven = true ↔ bound = "" ∨ proven = some bound := by
  simp [sessionDeviceBindingOk]

theorem exec_abDeviceKeyOk {req : AbGetBody}
    (he : (onHbbs (abDeviceKeyOk A.toSetup req.toAbGetRequest)).Exec (AccountOp.sem A) h h' true) :
    AbProved A req h' := by
  unfold abDeviceKeyOk at he
  split at he
  · exact deviceProved_of_exec he
  · cases he.2

theorem exec_abGetSession {req : AbGetBody} {session : Session} {r : AbResult}
    (he : (abGetSession A req session).Exec (AccountOp.sem A) h h' r) (hr : r.error = none) :
    DeviceRules A req h' session ∧ SeenEnabled A h' session.username ∧
      ∃ listed, Book A h' session.username listed ∧ Sent A req h' (abDataText listed) r := by
  unfold abGetSession at he
  obtain ⟨h₁, ok, hproof, s, he⟩ := exec_bind.1 he
  simp only [bind_eq, ret_bind] at he
  have hproved : ok = true → ∀ {h₂ : AccountPast}, h₁ <:+ h₂ → AbProved A req h₂ := by
    rintro rfl h₂ hs
    exact (exec_abDeviceKeyOk hproof).mono hs
  by_cases hrequired : ((AccountOp.sem A (.hbbs .requireDeviceKey) s).1 && !ok) = true
  · rw [if_pos hrequired] at he
    obtain ⟨-, rfl⟩ := he
    cases hr
  rw [if_neg hrequired] at he
  by_cases hbound : (!sessionDeviceBindingOk session.deviceKeyPub
      (if ok then some req.deviceKeyPub else none)) = true
  · rw [if_pos hbound] at he
    obtain ⟨-, rfl⟩ := he
    cases hr
  rw [if_neg hbound] at he
  obtain ⟨s', he⟩ := he
  simp only [bind_eq, ret_bind] at he
  by_cases henabled : (AccountOp.sem A (.hbbs (.userIsEnabled session.username)) s').1 = true
  · rw [if_pos henabled] at he
    have hs := he.suffix
    have hs₁ : h₁ <:+ h' := ((List.suffix_cons _ _).trans (List.suffix_cons _ _)).trans hs
    obtain ⟨listed, hbook, hsent⟩ := exec_addressBookOf he hr
    refine ⟨⟨?_, ?_⟩, ⟨s', hs.subset List.mem_cons_self, henabled⟩, listed, hbook, ?_⟩
    · cases ok with
      | true => exact .inl (hproved rfl hs₁)
      | false =>
        refine .inr ⟨s, hs.subset (List.mem_cons_of_mem _ List.mem_cons_self), ?_⟩
        exact Bool.eq_false_iff.2 fun hflag => hrequired ((Bool.and_true _).trans hflag)
    · cases hbinding : sessionDeviceBindingOk session.deviceKeyPub
        (if ok then some req.deviceKeyPub else none) with
      | false =>
        rw [hbinding] at hbound
        exact absurd rfl hbound
      | true =>
        obtain hnone | hsome := sessionDeviceBindingOk_iff.1 hbinding
        · exact .inl hnone
        · obtain ⟨hok, hkey⟩ := Option.ite_none_right_eq_some.1 hsome
          exact .inr ⟨Option.some.inj hkey, hproved hok hs₁⟩
    · obtain ⟨-, hplain⟩ | ⟨pub, sk, sealedData, hseal, hsk, hsealed, hdata⟩ := hsent
      · exact .inl hplain
      · obtain ⟨hok, hpub⟩ := Option.ite_none_right_eq_some.1 hseal
        obtain rfl := Option.some.inj hpub
        exact .inr ⟨hdata.1, hproved (Bool.and_eq_true_iff.1 hok).1 hs₁, sk, sealedData, hsk,
          hsealed, hdata.2⟩
  · rw [if_neg henabled] at he
    obtain ⟨-, rfl⟩ := he
    cases hr

theorem exec_apiAbGet {authorization : Option String} {body : Option Json} {r : AbResult}
    (he : (apiAbGet A authorization body).Exec (AccountOp.sem A) h h' r) (hr : r.error = none) :
    ∃ token session s, Served A authorization (body.getD (.obj [])) h' r token session s := by
  unfold apiAbGet at he
  generalize body.getD (.obj []) = sent at he ⊢
  have hresolve := fun h₁ raw => @exec_resolveRequestBody A h h₁ sent raw
  generalize resolveRequestBody A sent = q at he hresolve
  obtain ⟨h₁, raw, hraw, he⟩ := exec_bind.1 he
  obtain e | raw := raw
  · obtain ⟨-, rfl⟩ := he
    cases hr
  simp only at he
  cases htoken : requestToken raw authorization with
  | none =>
    rw [htoken] at he
    obtain ⟨-, rfl⟩ := he
    cases hr
  | some token =>
    rw [htoken] at he
    obtain ⟨s, he⟩ := he
    simp only [bind_eq, ret_bind] at he
    cases hsession : (AccountOp.sem A (.hbbs (.sessionForToken token)) s).1 with
    | none =>
      rw [hsession] at he
      obtain ⟨-, rfl⟩ := he
      cases hr
    | some session =>
      rw [hsession] at he
      have hs := he.suffix
      have hopened := (hresolve h₁ raw hraw).mono ((List.suffix_cons _ _).trans hs)
      obtain ⟨hdevice, henabled, listed, hbook, hsent⟩ := exec_abGetSession he hr
      obtain ⟨hmem, hlive⟩ := live_of_sem hsession
      refine ⟨token, session, s, ?_, henabled, raw, listed, hopened, htoken, hdevice, hbook, hsent⟩
      exact ⟨hs.subset List.mem_cons_self, hmem, hlive⟩

/-! ## Answers -/

/-- The handlers leave the answer to who runs them. -/
def Inner : AccountOp → Prop
  | .reply _ => False
  | _ => True

theorem inner_of_not_telling {o : AccountOp} (ho : Telling o = false) : Inner o := by
  cases o with
  | reply r => cases ho
  | _ => trivial

theorem uses_inner_account {o : AccountOp} (ho : Inner o) : (account o).Uses Inner :=
  ⟨ho, fun _ => trivial⟩

theorem uses_apiLogin (sourceIp : Option String) (req : LoginRequest) :
    (apiLogin A sourceIp req).Uses Inner := by
  unfold apiLogin
  refine uses_bind ((uses_openLogin req).mono fun _ => inner_of_not_telling) fun r => ?_
  split
  · trivial
  refine uses_bind ((uses_provenDeviceKey _ _).mono fun _ => inner_of_not_telling) fun r => ?_
  split
  · trivial
  split
  · trivial
  refine uses_bind (uses_inner_account trivial) fun blocked => ?_
  split
  · trivial
  refine uses_bind (uses_inner_account trivial) fun cfg => ?_
  refine uses_bind (uses_inner_account trivial) fun answer => ?_
  split
  · refine uses_bind (uses_inner_account trivial) fun _ => ?_
    refine uses_bind (uses_inner_account trivial) fun recorded => ?_
    refine uses_bind (uses_inner_account trivial) fun required => ?_
    split
    · trivial
    · exact uses_bind (uses_inner_account trivial) fun _ => trivial
  · refine uses_bind (uses_inner_account trivial) fun _ => ?_
    exact uses_bind (uses_inner_account trivial) fun _ => trivial

theorem uses_handle_of {α : Type} {r : AccountRequest} {q : AccountHandler α} {f : α → AccountReply}
    (hhandle : r.handle A = q >>= fun a => pure (f a)) (hq : q.Uses Inner) :
    (r.handle A).Uses Inner := by
  rw [hhandle]
  exact uses_bind hq fun _ => trivial

theorem uses_handle (r : AccountRequest) : (r.handle A).Uses Inner := by
  cases r with
  | login sourceIp req =>
    exact uses_handle_of (f := .login) (AccountRequest.handle.eq_1 A sourceIp req)
      (uses_apiLogin sourceIp req)
  | logout authorization =>
    exact uses_handle_of (f := fun _ => .logout) (AccountRequest.handle.eq_2 A authorization)
      ((uses_apiLogout authorization).mono fun _ => inner_of_not_telling)
  | currentUser authorization =>
    exact uses_handle_of (f := .currentUser) (AccountRequest.handle.eq_3 A authorization)
      ((uses_apiCurrentUser authorization).mono fun _ => inner_of_not_telling)
  | abGet authorization body =>
    have hget := mute_apiAbGet (A := A) authorization body
    have hhandle := AccountRequest.handle.eq_4 A authorization body
    generalize apiAbGet A authorization body = q at hget hhandle
    rw [hhandle]
    exact uses_bind (hget.uses.mono fun _ => inner_of_not_telling) fun _ => trivial

/-- The handler of the request has returned the answer. -/
structure Replied (A : AccountSetup) (r : AccountRequest) (past : AccountPast)
    (answer : AccountReply) : Prop where
  exec : (r.handle A).Exec (AccountOp.sem A) [] past answer

variable (A) in
/-- An answer is what the handler of the request returned. -/
def Replies (r : AccountRequest) (past : AccountPast) : AccountOp → Prop
  | .reply answer => Replied A r past answer
  | _ => True

theorem replies_of_inner {r : AccountRequest} {past : AccountPast} {o : AccountOp} (ho : Inner o) :
    Replies A r past o := by
  cases o with
  | reply answer => exact ho.elim
  | _ => trivial

/-- Every request is answered with what its handler returned. -/
structure Answers (A : AccountSetup) (r : AccountRequest) : Prop where
  sat : (r.code A).Sat (AccountOp.sem A) (fun _ => True) (fun past o _ => Replies A r past o)
    (fun _ _ => True) []

theorem answers (r : AccountRequest) : Answers A r := by
  have hinner := uses_handle (A := A) r
  have hreturned : ∀ past answer, (r.handle A).Exec (AccountOp.sem A) [] past answer →
      Replied A r past answer := fun past answer he => ⟨he⟩
  refine ⟨?_⟩
  unfold AccountRequest.code
  generalize r.handle A = handler at hinner hreturned
  refine (hinner.sat fun _ _ _ _ _ ho => replies_of_inner ho).bind fun h answer _ he s _ => ?_
  exact ⟨hreturned h answer he.1, trivial⟩

variable (A) in
theorem verified_replies (init : AccountServer → Prop) : System.Verified (accounts A) init
    (fun _ => True) fun r past o _ => Replies A r past o where
  init _ _ := trivial
  code r := (answers r).sat
  call _ _ _ _ _ _ := trivial
  start _ _ _ _ _ := trivial
  env _ _ _ _ _ := trivial
  reboot _ _ := trivial

/-- A book that is answered was served. -/
theorem served_of_reply {init : AccountServer → Prop}
    {C : List AccountItem → AccountPool → Choice AccountRequest AccountEvent → Prop}
    {l : List AccountItem} {p : AccountPool} (hr : (accounts A).Run init C l p) {n : ℕ}
    {authorization : Option String} {body : Option Json} {answer : AbResult} {s : AccountServer}
    (hi : .step n (.abGet authorization body) past (.reply (.abGet answer)) s ∈ l)
    (hanswer : answer.error = none) :
    ∃ token session s',
      Served A authorization (body.getD (.obj [])) past answer token session s' := by
  obtain ⟨he⟩ : Replied A (.abGet authorization body) past (.abGet answer) :=
    hr.guarantee (verified_replies A init) n _ past _ s hi
  have hserved := @exec_apiAbGet A [] past authorization body answer
  rw [AccountRequest.handle] at he
  generalize apiAbGet A authorization body = q at he hserved
  obtain ⟨h₁, r, hexec, rfl, hreply⟩ := exec_bind.1 he
  obtain rfl := AccountReply.abGet.inj hreply
  exact hserved hexec hanswer

end Management

namespace Sample

/-- A login, a restart, and the address book asked for with the token. -/
def askBook : List (Choice AccountRequest AccountEvent) :=
  serve 0 signIn ++ .crash :: serve 1 (.abGet (some "Bearer token0") none)

def sendsBook (l : List AccountItem) (_ : AccountPool) : Bool :=
  match l with
  | .step _ (.abGet _ _) _ (.reply (.abGet answer)) _ :: _ => answer.error == none
  | _ => false

end Sample

namespace Management

open Integration

theorem exists_book : ∃ n authorization body past answer s l' p,
    (accounts Sample.accountSetup).Run AccountServer.Fresh System.Free
      (.step n (.abGet authorization body) past (.reply (.abGet answer)) s :: l') p ∧
    answer.error = none := by
  obtain ⟨l, p, hr, ht⟩ := System.exists_run (S := accounts Sample.accountSetup)
    Sample.accountServer_fresh Sample.askBook Sample.sendsBook (by decide +kernel)
  unfold Sample.sendsBook at ht
  split at ht
  next n authorization body past answer s l' =>
    exact ⟨n, authorization, body, past, answer, s, l', p, hr, beq_iff_eq.1 ht⟩
  next => cases ht

/-- A reader of the text finds the peers with these ids, in this order. -/
def ReadsAs (text : String) (ids : List String) : Prop :=
  ∃ listed : List AbPeer, listed.map (·.id) = ids ∧
    Json.read text = some (.obj [("tags", .arr []), ("peers", .arr (listed.map AbPeer.toJson))])

theorem readsAs_abDataText (listed : List AbPeer) :
    ReadsAs (abDataText listed) (listed.map (·.id)) := by
  refine ⟨listed, rfl, ?_⟩
  have hblanks : ∀ c ∈ ([] : List Char), Json.isBlank c = true := by simp
  have hread := Json.read_write
    (.obj [("tags", .arr []), ("peers", .arr (listed.map AbPeer.toJson))]) hblanks
  rwa [List.append_nil] at hread

variable {A : AccountSetup} {past : AccountPast}

theorem Lists.ids {isAdmin : Bool} {allowed : List String} {peers : List RegisteredPeer}
    {listed : List AbPeer} (hl : Lists A isAdmin allowed past peers listed) :
    listed.map (·.id) =
      (peers.map (·.id)).filter fun id => userAllowedTarget isAdmin allowed id := by
  induction hl with
  | nil => rfl
  | skip peer peers listed hno _ ih =>
    rw [ih, List.map_cons, List.filter_cons_of_neg (by simp [hno])]
  | keep peer peers listed s hyes _ _ ih =>
    rw [List.map_cons, ih, List.map_cons, List.filter_cons_of_pos hyes]
    rfl

variable (A past) in
/-- The text of a book, or the text that is signed and sealed in its place, has the machines that
were registered at one moment and that the user was allowed at another, in the order of the rows. -/
def Says (answer : AbResult) : Prop :=
  ∃ username s₁ s₂ text, ⟨.hbbs (.dbListRegistered 1000 0), s₁⟩ ∈ past ∧
    ⟨.hbbs (.effectivePermission username), s₂⟩ ∈ past ∧
    ReadsAs text (((Database.listRegisteredPeers A.toSetup s₁.hbbs.api.createdAt s₁.hbbs.db
        1000 0).map (·.id)).filter fun id =>
      userAllowedTarget (effectivePermission A.toSetup s₂.hbbs.cfg username).1
        (effectivePermission A.toSetup s₂.hbbs.cfg username).2 id) ∧
    (answer.data = some text ∧ answer.sealedData = none ∨
      answer.data = none ∧ ∃ pub sk sealedData,
        sealToDeviceKey A pub (A.sign text.toUTF8.toList sk) = some sealedData ∧
          answer.sealedData = some sealedData)

/-- In every run of the account API, whatever else the process does: a book reads as the registered
machines that the user was allowed, each of them and no other, in the order of their rows, as far as
the first thousand go, whatever happens to the rows and to the permissions while it is put
together. -/
theorem address_book_reads {init : AccountServer → Prop}
    {C : List AccountItem → AccountPool → Choice AccountRequest AccountEvent → Prop}
    {l : List AccountItem} {p : AccountPool} (hr : (accounts A).Run init C l p) {n : ℕ}
    {authorization : Option String} {body : Option Json} {answer : AbResult} {s : AccountServer}
    (hi : .step n (.abGet authorization body) past (.reply (.abGet answer)) s ∈ l)
    (hanswer : answer.error = none) :
    Says A past answer := by
  obtain ⟨token, session, s', hserved⟩ := served_of_reply hr hi hanswer
  obtain ⟨raw, listed, -, -, -, ⟨s₁, s₂, hrows, -, hpermission, hlists⟩, hsent⟩ := hserved.opened
  refine ⟨session.username, s₁, s₂, abDataText listed, hrows, hpermission, ?_, ?_⟩
  · exact hlists.ids ▸ readsAs_abDataText listed
  · obtain hplain | ⟨hdata, -, sk, sealedData, -, hseal, hsealed⟩ := hsent
    · exact .inl hplain
    · exact .inr ⟨hdata, _, sk, sealedData, hseal, hsealed⟩

/-- The book of a user who signed in reads as the machines of one moment. -/
theorem address_book_reads_sample : ∃ past answer, answer.error = none ∧
    Says Sample.accountSetup past answer := by
  obtain ⟨n, authorization, body, past, answer, s, l', p, hr, hanswer⟩ := exists_book
  exact ⟨past, answer, hanswer, address_book_reads hr List.mem_cons_self hanswer⟩

end Management

end NemoServer
