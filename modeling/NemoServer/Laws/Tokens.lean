import NemoServer.Foundations.Interleave
import NemoServer.Integration.Sessions
import NemoServer.Server.Sample

/-!
# Tokens over restarts

The sessions of a server over time: created, looked up, logged out, evicted by a change of
permissions, dropped with a device key, and loaded again at each restart, while the clock goes
on. What memory and file accept is the same at every moment, so that a token that is gone stays
gone.

* `InStep`: the invariant, on the sessions that have not expired.
* `sessions_survive`: the law, over every run.
-/

set_option autoImplicit false

namespace NemoServer

namespace Integration

open Str

/-- The sessions of a running server, and the second it is. -/
structure SessionState where
  store : SessionStore
  now : ℕ

/-- What happens to the sessions; each event takes their lock once. -/
inductive SessionEvent
  /-- A login; the token is a new uuid. -/
  | create (token username displayName email deviceKeyPub : String)
  | lookup (token : String)
  | logout (token : String)
  | permissionsChanged (oldPerms newPerms : Table String UserPermission)
  | deviceKeyRemoved (publicKey : String)
  | tick (secs : ℕ)

namespace SessionState

variable (X : Setup) (s : SessionState)

def apply : SessionEvent → SessionState
  | .create token username displayName email deviceKeyPub =>
    { s with store := s.store.createSession s.now token username displayName email deviceKeyPub }
  | .lookup token => { s with store := (s.store.sessionForToken s.now token).2 }
  | .logout token => { s with store := s.store.removeSession token }
  | .permissionsChanged oldPerms newPerms =>
    { s with store := (s.store.evictSessionsWithChangedPermissions X oldPerms newPerms).2 }
  | .deviceKeyRemoved publicKey => { s with store := s.store.dropSessionsOf publicKey }
  | .tick secs => { s with now := s.now + secs }

def restart : SessionState := { s with store := s.store.reload s.now }

/-- The session a token is accepted for. -/
def accepts (token : String) : Option Session := (s.store.sessionForToken s.now token).1

/-- A server that has just started. -/
def Booted : Prop := s.store = s.store.reload s.now

end SessionState

/-- The sessions as a system: its tasks are single events. -/
def sessions (X : Setup) : System Empty (fun _ => Unit) SessionState Empty SessionEvent where
  sem o _ := nomatch o
  code j := nomatch j
  start j _ := nomatch j
  env e s := some (s.apply X e)
  reboot s := s.restart

abbrev SessionItem := Item Empty SessionState Empty SessionEvent
abbrev SessionPool := Pool Empty (fun _ => Unit) SessionState Empty

/-- The event drops the session of a token: a logout, a change of permissions that concerns it, or
the removal of the key that proved it. -/
def Drops (X : Setup) (token : String) : SessionItem → Prop
  | .env (.logout t) _ => trim t = token
  | .env (.permissionsChanged oldPerms newPerms) s => ∃ session,
    s.store.sessions.lookup token = some session ∧
      permissionsChanged X oldPerms newPerms session = true
  | .env (.deviceKeyRemoved publicKey) s => ∃ session,
    s.store.sessions.lookup token = some session ∧ session.deviceKeyPub = publicKey
  | _ => False

/-- The session of a token has expired when the event comes. -/
def Expired (token : String) (i : SessionItem) : Prop :=
  ∃ session, i.pre.store.sessions.lookup token = some session ∧ session.expiresAt ≤ i.pre.now

/-- The event is a login that is given the token. -/
def Issues (token : String) : SessionItem → Prop
  | .env (.create t _ _ _ _) _ => t = token
  | _ => False

variable {X : Setup} {C : List SessionItem → SessionPool → Choice Empty SessionEvent → Prop}
  {l : List SessionItem} {p : SessionPool}

namespace SessionState

variable {s : SessionState} {token : String} {session : Session} {e : SessionEvent}

/-! ## Memory and file -/

/-- The file has a session. -/
def OnFile (s : SessionState) (token : String) (session : Session) : Prop :=
  ∃ f, s.store.file = some f ∧ f.lookup token = some session

/-- Memory and file agree on what has not expired. -/
def InStep (s : SessionState) : Prop := ∀ token session, s.now < session.expiresAt →
  (s.store.sessions.lookup token = some session ↔ s.OnFile token session)

theorem onFile_iff : s.OnFile token session ↔
    (s.store.file.getD ∅).lookup token = some session := by
  unfold OnFile
  cases s.store.file with
  | none => simp
  | some f => simp

theorem accepts_eq_some : s.accepts token = some session ↔
    trim token ≠ "" ∧ s.store.sessions.lookup (trim token) = some session ∧
      s.now < session.expiresAt :=
  s.store.sessionForToken_fst

/-- A token is accepted for a session that is in memory and has not expired. -/
theorem accepts_eq_none (h : ∀ session, s.store.sessions.lookup (trim token) = some session →
    session.expiresAt ≤ s.now) : s.accepts token = none := by
  cases ha : s.accepts token with
  | none => rfl
  | some session =>
    obtain ⟨-, hs, hlive⟩ := accepts_eq_some.1 ha
    have := h session hs
    omega

theorem inStep_restart : s.restart.InStep := by
  intro token session hlive
  change (SessionStore.pruned s.now (s.store.file.getD ∅)).lookup token = some session ↔ _
  rw [SessionStore.lookup_pruned, ← onFile_iff]
  exact ⟨And.left, fun h => ⟨h, hlive⟩⟩

theorem inStep_persisted (st : SessionStore) (now : ℕ) : InStep ⟨st.persistSessions, now⟩ := by
  intro token session _
  exact ⟨fun h => ⟨st.sessions, rfl, h⟩, fun ⟨f, hf, h⟩ => (Option.some.inj hf) ▸ h⟩

/-- Every event leaves memory and file in step: what it drops it drops from both. -/
theorem InStep.apply (h : s.InStep) : (s.apply X e).InStep := by
  cases e with
  | create token username displayName email deviceKeyPub => exact inStep_persisted _ _
  | lookup token =>
    simp only [SessionState.apply, SessionStore.sessionForToken]
    split
    · exact h
    · split
      · split
        · exact h
        · exact inStep_persisted _ _
      · exact h
  | logout token =>
    simp only [SessionState.apply, SessionStore.removeSession]
    split
    · exact inStep_persisted _ _
    · exact h
  | permissionsChanged oldPerms newPerms =>
    simp only [SessionState.apply, SessionStore.evictSessionsWithChangedPermissions]
    split
    · exact h
    · split
      next hempty =>
        -- nothing is left, and the file is deleted
        intro token session _
        have hnone := FinMap.lookup_of_size_eq_zero (List.length_eq_zero_iff.2 hempty) token
        simp only [hnone, OnFile]
        simp
      next => exact inStep_persisted _ _
  | deviceKeyRemoved publicKey =>
    simp only [SessionState.apply, SessionStore.dropSessionsOf]
    split
    · exact inStep_persisted _ _
    · exact h
  | tick secs =>
    intro token session hlive
    exact h token session (Nat.lt_of_le_of_lt (Nat.le_add_right _ _) hlive)

/-- In step, a restart changes no answer. -/
theorem InStep.accepts_restart (h : s.InStep) : s.restart.accepts token = s.accepts token := by
  refine Option.ext fun session => ?_
  rw [accepts_eq_some, accepts_eq_some]
  refine and_congr_right fun _ => ?_
  change (SessionStore.pruned s.now (s.store.file.getD ∅)).lookup _ = _ ∧ _ ↔ _
  rw [SessionStore.lookup_pruned, ← onFile_iff]
  constructor
  · rintro ⟨⟨hfile, hlive⟩, -⟩
    exact ⟨(h _ _ hlive).2 hfile, hlive⟩
  · rintro ⟨hmem, hlive⟩
    exact ⟨⟨(h _ _ hlive).1 hmem, hlive⟩, hlive⟩

/-! ## A token that is gone -/

/-- No session that has not expired stands under the token. -/
def Gone (s : SessionState) (token : String) : Prop :=
  ∀ session, s.store.sessions.lookup token = some session → session.expiresAt ≤ s.now

theorem Gone.accepts (h : s.Gone (trim token)) : s.accepts token = none := accepts_eq_none h

/-- What the new sessions have that have not expired, the old ones had. -/
theorem Gone.of_lookup {s' : SessionState} (h : s.Gone token) (hnow : s.now ≤ s'.now)
    (hold : ∀ session, s'.now < session.expiresAt →
      s'.store.sessions.lookup token = some session →
      s.store.sessions.lookup token = some session) : s'.Gone token := by
  intro session hs'
  by_contra hlive
  have := h session (hold session (by omega) hs')
  omega

/-- Only a login that is given the token brings it back. -/
theorem Gone.apply (h : s.Gone token)
    (hissue : ∀ username displayName email deviceKeyPub,
      e ≠ .create token username displayName email deviceKeyPub) : (s.apply X e).Gone token := by
  cases e with
  | create t username displayName email deviceKeyPub =>
    refine h.of_lookup (Nat.le_refl _) fun session hlive hs => ?_
    have hne : token ≠ t := fun heq => hissue username displayName email deviceKeyPub (by rw [heq])
    obtain ⟨rfl, -⟩ | ⟨-, hs⟩ := FinMap.lookup_insert_eq_some.1 hs
    · exact absurd rfl hne
    · exact (SessionStore.lookup_pruned.1 hs).1
  | lookup t =>
    exact h.of_lookup (Nat.le_refl _) fun session hlive hs =>
      (s.store.lookup_sessionForToken_snd hlive).1 hs
  | logout t =>
    exact h.of_lookup (Nat.le_refl _) fun session _ hs => (s.store.lookup_removeSession.1 hs).2
  | permissionsChanged oldPerms newPerms =>
    exact h.of_lookup (Nat.le_refl _) fun session _ hs => (s.store.lookup_evict X |>.1 hs).1
  | deviceKeyRemoved publicKey =>
    exact h.of_lookup (Nat.le_refl _) fun session _ hs => (s.store.lookup_dropSessionsOf.1 hs).1
  | tick secs => exact h.of_lookup (Nat.le_add_right _ _) fun session _ hs => hs

theorem Gone.restart (h : s.Gone token) (hstep : s.InStep) : s.restart.Gone token := by
  refine h.of_lookup (Nat.le_refl _) fun session hlive hs => ?_
  obtain ⟨hfile, -⟩ := SessionStore.lookup_pruned.1 hs
  exact (hstep _ _ hlive).2 (onFile_iff.2 hfile)

end SessionState

/-! ## Over the runs -/

open SessionState

theorem inStep_run (hr : (sessions X).Run Booted C l p) : p.shared.InStep := by
  induction hr using System.Run.induct with
  | hboot s hs =>
    change s.InStep
    have hrestart : s.restart = s := congrArg (SessionState.mk · s.now) hs.symm
    rw [← hrestart]
    exact inStep_restart
  | hstart l p j => exact j.elim
  | hstep l p n j => exact j.elim
  | henv l p e s _ _ hs ih =>
    obtain rfl := Option.some.inj hs
    exact ih.apply
  | hcrash l p _ _ ih => exact inStep_restart

/-- A session that is dropped, or has expired, is gone after the event. -/
theorem gone_post {token : String} {i : SessionItem} (hin : i.pre.InStep)
    (h : Drops X token i ∨ Expired token i) (hissue : ¬Issues token i) :
    ((sessions X).post i).Gone token := by
  obtain hdrops | ⟨session, hs, hexp⟩ := h
  · unfold Drops at hdrops
    split at hdrops
    next t s =>
      intro session hs
      exact absurd hdrops.symm (s.store.lookup_removeSession.1 hs).1
    next oldPerms newPerms s =>
      obtain ⟨session, hs, hchanged⟩ := hdrops
      intro session' hs'
      obtain ⟨hold, hkept⟩ := (s.store.lookup_evict X).1 hs'
      rw [hs, Option.some.injEq] at hold
      rw [hold, hkept] at hchanged
      cases hchanged
    next publicKey s =>
      obtain ⟨session, hs, hkey⟩ := hdrops
      intro session' hs'
      obtain ⟨hold, hkept⟩ := s.store.lookup_dropSessionsOf.1 hs'
      rw [hs, Option.some.injEq] at hold
      exact absurd (hold ▸ hkey) hkept
    next => exact hdrops.elim
  · have hgone : i.pre.Gone token := fun session' hs' => by
      rw [hs, Option.some.injEq] at hs'
      exact hs' ▸ hexp
    cases i with
    | start n j s => exact j.elim
    | step n j past o s => exact j.elim
    | env e s =>
      refine hgone.apply fun username displayName email deviceKeyPub heq => hissue ?_
      rw [heq]
      rfl
    | crash s => exact hgone.restart hin

/-- Memory and file accept the same tokens at every moment of a run; and a token that was logged
out, evicted, dropped with its device key or expired is accepted no more, in memory or after a
restart, unless a later login is given the same token. -/
theorem sessions_survive (X : Setup) (l : List SessionItem) (p : SessionPool)
    (hr : (sessions X).Run Booted System.Free l p) :
    (∀ token, p.shared.restart.accepts token = p.shared.accepts token) ∧
    ∀ late i before token, l = late ++ i :: before →
      Drops X (trim token) i ∨ Expired (trim token) i →
      (∀ j ∈ late ++ [i], ¬Issues (trim token) j) →
      p.shared.accepts token = none ∧ p.shared.restart.accepts token = none := by
  have hin := inStep_run hr
  refine ⟨fun token => hin.accepts_restart, ?_⟩
  rintro late i before token rfl hgone hissue
  have hbefore : ∀ a x b, late ++ [i] = a ++ x :: b → x.pre.InStep := by
    intro a x b hsplit
    obtain ⟨q, -, -, hq, -, -, -, hpre⟩ := hr.before x (b ++ before)
      ⟨a, by rw [← List.cons_append, ← List.append_assoc, ← hsplit]; simp⟩
    exact hpre ▸ inStep_run hq
  have hnow : p.shared.Gone (trim token) := by
    refine hr.carry (I := fun s => s.Gone (trim token)) ?_ ?_
    · exact gone_post (hbefore late i [] rfl) hgone (hissue i (by simp))
    · rintro a x b rfl hx
      have hissue' := hissue x (by simp)
      have hin' : x.pre.InStep := hbefore a x (b ++ [i]) (by simp)
      cases x with
      | start n j s => exact j.elim
      | step n j past o s => exact j.elim
      | env e s =>
        refine hx.apply fun username displayName email deviceKeyPub heq => hissue' ?_
        rw [heq]
        rfl
      | crash s => exact hx.restart hin'
  exact ⟨hnow.accepts, hin.accepts_restart.trans hnow.accepts⟩

namespace Sample

/-- Two logins, a logout and a restart. -/
def logoutRun : List (Choice Empty SessionEvent) :=
  [.env (.create "first" "alice" "Alice" "" ""), .env (.create "second" "bob" "Bob" "" "key"),
    .env (.logout " first "), .crash]

/-- The logout of the first login is the event before the restart, and the second is accepted. -/
def showsLogout (l : List SessionItem) (p : SessionPool) : Bool :=
  match l with
  | [.crash _, .env (.logout t) _, .env (.create _ _ _ _ _) _, .env (.create _ _ _ _ _) _] =>
    trim t == "first" && (p.shared.accepts "second").isSome
  | _ => false

end Sample

/-- The login that was logged out is gone after the restart, the other one is not. -/
theorem sessions_survive_logout : ∃ l p,
    (sessions (NemoServer.Sample.setup .offer false)).Run Booted System.Free l p ∧
      p.shared.restart.accepts "first" = none ∧ (p.shared.accepts "second").isSome = true := by
  have hboot : (SessionState.mk ⟨∅, none⟩ 1000).Booted := rfl
  obtain ⟨l, p, hr, ht⟩ := System.exists_run
    (S := sessions (NemoServer.Sample.setup .offer false)) hboot
    Sample.logoutRun Sample.showsLogout (by decide +kernel)
  refine ⟨l, p, hr, ?_⟩
  unfold Sample.showsLogout at ht
  split at ht
  next s t s' a b c d e s₁ a' b' c' d' e' s₂ =>
    obtain ⟨htrim, hsecond⟩ := Bool.and_eq_true_iff.1 ht
    have hfirst : trim "first" = trim t := (by decide +kernel : trim "first" = "first").trans
      (beq_iff_eq.1 htrim).symm
    refine ⟨?_, hsecond⟩
    exact ((sessions_survive _ _ p hr).2 [.crash s] (.env (.logout t) s') _ "first" rfl
      (.inl hfirst.symm) (by simp [Issues])).2
  next => cases ht

end Integration

end NemoServer
