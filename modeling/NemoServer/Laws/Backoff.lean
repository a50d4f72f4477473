import NemoServer.Integration.LoginLimits
import NemoServer.Laws.Login
import NemoServer.Laws.Usernames

/-!
# Whose failures a login clears

Failures are noted under the normal form of the name that was typed, and cleared under that of the
account name the directory answered with. For a mail address or a principal the two may differ:
then a login leaves the failures of its own name on record, and the next one goes on counting.
`counts_from_one_iff` says exactly when it does not.
-/

set_option autoImplicit false

namespace NemoServer

open Integration

/-! ## What the calls do to a name -/

section Names

variable (X : Setup)

/-- The name that a call notes a failure of. -/
def LimitOp.failing : LimitOp → Option String
  | .noteLoginFailure username => some (normalizeLookupUsername X username)
  | _ => none

/-- The name that a call clears. -/
def LimitOp.clearing : LimitOp → Option String
  | .clearLoginFailures username => some (normalizeLookupUsername X username)
  | _ => none

/-- The entry of a name, of a failure at `last`, outlasts the call: it is not cleared, nor is another
failure of the name noted, and a failure of any other finds it young. -/
structure LimitStep.Spares (key : String) (last : ℕ) (e : LimitStep) : Prop where
  uncleared : e.op.clearing X ≠ some key
  unrenewed : e.op.failing X ≠ some key
  young : (e.op.failing X).isSome → e.now - last < loginFailureWindowSecs

/-- A failure of the name is on record, outlasts the calls that follow and is less than
`LOGIN_FAILURE_WINDOW_SECS` old at `now`. -/
def LoginLimits.Remembers (L : LoginLimits) (key : String) (history : List LimitStep) (now : ℕ) :
    Prop :=
  ∃ entry, L.failures key = some entry ∧ (∀ e ∈ history, e.Spares X key entry.2) ∧
    now - entry.2 < loginFailureWindowSecs

/-- The same of a failure among the calls. -/
def FailedSince (key : String) (history : List LimitStep) (now : ℕ) : Prop :=
  ∃ before e after, history = before ++ e :: after ∧ e.op.failing X = some key ∧
    (∀ d ∈ after, d.Spares X key e.now) ∧ now - e.now < loginFailureWindowSecs

end Names

variable {X : Setup} {username key : String} {now : ℕ} {t : LoginFailures} {entry : ℕ × ℕ}

/-! ## The counter -/

/-- A failure goes on counting from an entry that is young. -/
theorem noteLoginFailure_of_young (h : t (normalizeLookupUsername X username) = some entry)
    (hyoung : now - entry.2 < loginFailureWindowSecs) :
    (noteLoginFailure X username now t).1 = min (entry.1 + 1) (2 ^ 32 - 1) := by
  have hkept : (t.retain fun _ entry => decide (now - entry.2 < loginFailureWindowSecs))
      (normalizeLookupUsername X username) = some entry :=
    Table.retain_eq_some.2 ⟨h, decide_eq_true hyoung⟩
  have hold : ¬ loginFailureWindowSecs ≤ now - entry.2 := by omega
  unfold noteLoginFailure
  simp only [hkept, Option.getD_some, if_neg hold]

/-- Without one it counts from the start. -/
theorem noteLoginFailure_of_old
    (h : ∀ entry, t (normalizeLookupUsername X username) = some entry →
      ¬ now - entry.2 < loginFailureWindowSecs) :
    (noteLoginFailure X username now t).1 = 1 := by
  have hnone : (t.retain fun _ entry => decide (now - entry.2 < loginFailureWindowSecs))
      (normalizeLookupUsername X username) = none := by
    rw [Option.eq_none_iff_forall_ne_some]
    intro entry hentry
    obtain ⟨hsome, hyoung⟩ := Table.retain_eq_some.1 hentry
    exact h entry hsome (of_decide_eq_true hyoung)
  have hnew : ¬ loginFailureWindowSecs ≤ now - now := by
    rw [Nat.sub_self]
    decide
  unfold noteLoginFailure
  simp only [hnone, Option.getD_none, if_neg hnew]
  decide

/-- Each entry on record counts a failure. -/
def Counted (t : LoginFailures) : Prop := ∀ key entry, t key = some entry → 0 < entry.1

theorem Counted.noteLoginFailure (h : Counted t) :
    Counted (noteLoginFailure X username now t).2 := by
  intro key entry hentry
  obtain ⟨-, rfl⟩ | ⟨-, hold⟩ := Table.insert_eq_some.1 hentry
  · simp only
    omega
  · exact h key entry (Table.retain_eq_some.1 hold).1

namespace LoginLimits

variable {L : LoginLimits} {e : LimitStep}

theorem counted_perform (h : Counted L.failures) : Counted (L.perform X e).failures := by
  unfold perform
  cases e.op with
  | loginSprayBlock source => exact h
  | noteLoginSpray source username => exact h
  | noteLoginFailure username => exact h.noteLoginFailure
  | clearLoginFailures username =>
    intro key entry hentry
    exact h key entry (Table.remove_eq_some.1 hentry).2

theorem counted_run (history : List LimitStep) (h : Counted L.failures) :
    Counted (L.run X history).failures := by
  induction history generalizing L with
  | nil => exact h
  | cons e history ih => exact ih (counted_perform h)

theorem counted_initial (history : List LimitStep) :
    Counted (initial.run X history).failures := by
  refine counted_run history ?_
  intro key entry hentry
  cases hentry

/-! ## The entry of a name while others log in -/

/-- A call that notes no failure of the name leaves its entry or drops it. -/
theorem failures_perform (hother : e.op.failing X ≠ some key) :
    (L.perform X e).failures key = some entry ↔
      L.failures key = some entry ∧ e.Spares X key entry.2 := by
  have hspares : e.Spares X key entry.2 ↔ e.op.clearing X ≠ some key ∧
      ((e.op.failing X).isSome → e.now - entry.2 < loginFailureWindowSecs) :=
    ⟨fun h => ⟨h.uncleared, h.young⟩, fun h => ⟨h.1, hother, h.2⟩⟩
  rw [hspares]
  unfold perform
  cases hop : e.op with
  | loginSprayBlock source => simp [LimitOp.clearing, LimitOp.failing]
  | noteLoginSpray source username => simp [LimitOp.clearing, LimitOp.failing]
  | noteLoginFailure username =>
    have hne : key ≠ normalizeLookupUsername X username := by
      rintro rfl
      rw [hop] at hother
      exact hother rfl
    simp only [LimitOp.clearing, LimitOp.failing, noteLoginFailure, Table.insert_of_ne _ _ hne,
      Table.retain_eq_some, decide_eq_true_iff]
    simp
  | clearLoginFailures username =>
    simp only [LimitOp.clearing, LimitOp.failing, clearLoginFailures, Table.remove_eq_some]
    constructor
    · rintro ⟨hne, hentry⟩
      exact ⟨hentry, fun h => hne (Option.some.inj h).symm, fun h => by cases h⟩
    · rintro ⟨hentry, hne, -⟩
      exact ⟨fun h => hne (congrArg some h.symm), hentry⟩

/-- So it is with a history. -/
theorem failures_run {history : List LimitStep}
    (hother : ∀ e ∈ history, e.op.failing X ≠ some key) :
    (L.run X history).failures key = some entry ↔
      L.failures key = some entry ∧ ∀ e ∈ history, e.Spares X key entry.2 := by
  induction history generalizing L with
  | nil => simp
  | cons e history ih =>
    have hrest := fun d hd => hother d (List.mem_cons_of_mem e hd)
    rw [run_cons, ih hrest, failures_perform (hother e List.mem_cons_self), List.forall_mem_cons,
      and_assoc]

/-- The entry of a name right after a failure of it. -/
theorem failures_perform_failing (h : e.op.failing X = some key) :
    ∃ count, (L.perform X e).failures key = some (count, e.now) := by
  unfold perform
  cases hop : e.op with
  | noteLoginFailure username =>
    rw [hop] at h
    obtain rfl := Option.some.inj h
    exact ⟨_, Table.insert_self _ _ _⟩
  | loginSprayBlock source =>
    rw [hop] at h
    cases h
  | noteLoginSpray source username =>
    rw [hop] at h
    cases h
  | clearLoginFailures username =>
    rw [hop] at h
    cases h

/-- A history that notes failures of a name notes a last one. -/
theorem exists_last_failing (X : Setup) (key : String) (history : List LimitStep) :
    (∀ e ∈ history, e.op.failing X ≠ some key) ∨
      ∃ before e after, history = before ++ e :: after ∧ e.op.failing X = some key ∧
        ∀ d ∈ after, d.op.failing X ≠ some key := by
  induction history with
  | nil => simp
  | cons e history ih =>
    obtain hnone | ⟨before, d, after, rfl, hd, hafter⟩ := ih
    · by_cases he : e.op.failing X = some key
      · exact .inr ⟨[], e, history, rfl, he, hnone⟩
      · exact .inl (List.forall_mem_cons.2 ⟨he, hnone⟩)
    · exact .inr ⟨e :: before, d, after, rfl, hd, hafter⟩

/-- After any calls, an entry of a name that is young is one that was remembered or a failure among
the calls. -/
theorem young_run_iff {history : List LimitStep} :
    (∃ entry, (L.run X history).failures key = some entry ∧
        now - entry.2 < loginFailureWindowSecs) ↔
      L.Remembers X key history now ∨ FailedSince X key history now := by
  constructor
  · rintro ⟨entry, hentry, hyoung⟩
    obtain hnone | ⟨before, e, after, rfl, he, hafter⟩ := exists_last_failing X key history
    · obtain ⟨hbefore, hspares⟩ := (failures_run hnone).1 hentry
      exact .inl ⟨entry, hbefore, hspares, hyoung⟩
    · obtain ⟨count, hcount⟩ := failures_perform_failing (L := L.run X before) he
      rw [run_append, run_cons, failures_run hafter, hcount] at hentry
      obtain ⟨hlast, hspares⟩ := hentry
      obtain rfl := Option.some.inj hlast
      exact .inr ⟨before, e, after, rfl, he, hspares, hyoung⟩
  · rintro (⟨entry, hentry, hspares, hyoung⟩ | ⟨before, e, after, rfl, he, hspares, hyoung⟩)
    · have hnone := fun d hd => (hspares d hd).unrenewed
      exact ⟨entry, (failures_run hnone).2 ⟨hentry, hspares⟩, hyoung⟩
    · obtain ⟨count, hcount⟩ := failures_perform_failing (L := L.run X before) he
      have hnone := fun d hd => (hspares d hd).unrenewed
      rw [run_append, run_cons]
      exact ⟨(count, e.now), (failures_run hnone).2 ⟨hcount, hspares⟩, hyoung⟩

/-- The next failure of a name counts from one exactly if none is remembered. -/
theorem noteLoginFailure_eq_one_iff {history : List LimitStep} (hcounted : Counted L.failures) :
    (noteLoginFailure X username now (L.run X history).failures).1 = 1 ↔
      ¬ L.Remembers X (normalizeLookupUsername X username) history now ∧
        ¬ FailedSince X (normalizeLookupUsername X username) history now := by
  rw [← not_or, ← young_run_iff]
  constructor
  · rintro hone ⟨entry, hentry, hyoung⟩
    have hpos := counted_run history hcounted _ _ hentry
    rw [noteLoginFailure_of_young hentry hyoung] at hone
    omega
  · intro hnone
    exact noteLoginFailure_of_old fun entry hentry hyoung => hnone ⟨entry, hentry, hyoung⟩

/-- Clearing a name forgets that name only. -/
theorem remembers_clear {history : List LimitStep} {answered : ℕ} :
    (L.perform X ⟨answered, .clearLoginFailures username⟩).Remembers X key history now ↔
      key ≠ normalizeLookupUsername X username ∧ L.Remembers X key history now := by
  have hcleared : (L.perform X ⟨answered, .clearLoginFailures username⟩).failures =
      L.failures.remove (normalizeLookupUsername X username) := rfl
  unfold Remembers
  rw [hcleared]
  simp only [Table.remove_eq_some]
  constructor
  · rintro ⟨entry, ⟨hne, hentry⟩, hspares, hyoung⟩
    exact ⟨hne, entry, hentry, hspares, hyoung⟩
  · rintro ⟨hne, entry, hentry, hspares, hyoung⟩
    exact ⟨entry, ⟨hne, hentry⟩, hspares, hyoung⟩

end LoginLimits

/-! ## The name a login clears -/

namespace Directory

open LoginLimits

variable {D : Directory} {cfg : LdapConfig} {T : Tls} {password : String} {user : LdapUser}
  {l : Option (String × String)}

/-- The login gets through, and this is what the directory answered about its account. -/
def Admits (D : Directory) (X : Setup) (cfg : LdapConfig) (T : Tls) (username password : String)
    (found : Found) : Prop :=
  ∃ connector l, checkLogin T cfg username password = .ok connector ∧
    D.Ends (proveLogin X cfg connector username password) [] ⟨0, none⟩ found l ∧
    canonicalUsername X found.attrs found.identity ≠ ""

/-- After a login that succeeded, whatever other logins do, the next failure typed in the same way
counts from one exactly if the name of the account that the directory answered with has the normal
form of the name typed, or no failure of the latter is remembered from before, and if none was
noted since. -/
theorem counts_from_one_iff
    (hlogin : D.Ends (authenticateLdap X cfg T username password) [] ⟨0, none⟩ user l)
    (past history : List LimitStep) (source : Option String) (answered now : ℕ) :
    ∃ found, D.Admits X cfg T username password found ∧
      ((noteLoginFailure X username now (((initial.run X past).run X
          ((answeredOps source username (.ok user)).map (LimitStep.mk answered))).run X
            history).failures).1 = 1 ↔
        (normalizeLookupUsername X (canonicalUsername X found.attrs found.identity) =
            normalizeLookupUsername X username ∨
          ¬ (initial.run X past).Remembers X (normalizeLookupUsername X username) history now) ∧
        ¬ FailedSince X (normalizeLookupUsername X username) history now) := by
  obtain ⟨connector, found, hcheck, hprove, hne, rfl⟩ := ends_authenticateLdap.1 hlogin
  refine ⟨found, ⟨connector, l, hcheck, hprove, hne⟩, ?_⟩
  rw [answeredOps, List.map_singleton, run_cons, run_nil,
    noteLoginFailure_eq_one_iff (counted_perform (counted_initial past)), remembers_clear,
    not_and_or, not_not, eq_comm]

/-! ## A principal and its account -/

/-- The failures and the login of `asmith`, under the principal `alice@corp`. -/
def principalFailures : List LimitStep :=
  [⟨1000, .noteLoginFailure "alice@corp"⟩, ⟨1001, .noteLoginFailure "alice@corp"⟩]

/-- The failures were more than a quarter of an hour ago. -/
theorem counts_from_one_iff_old :
    ∃ found, (twins true).Admits (Sample.setup .offer false) byAccountName sampleTls "alice@corp"
        "first" found ∧
      ((noteLoginFailure (Sample.setup .offer false) "alice@corp" 2000
          (((initial.run (Sample.setup .offer false) principalFailures).run
            (Sample.setup .offer false) ((answeredOps none "alice@corp"
              (.ok ⟨"asmith", "", "", "cn=a"⟩)).map (LimitStep.mk 1002))).run
                (Sample.setup .offer false) []).failures).1 = 1 ↔
        (normalizeLookupUsername (Sample.setup .offer false)
            (canonicalUsername (Sample.setup .offer false) found.attrs found.identity) =
              normalizeLookupUsername (Sample.setup .offer false) "alice@corp" ∨
          ¬ (initial.run (Sample.setup .offer false) principalFailures).Remembers
            (Sample.setup .offer false)
              (normalizeLookupUsername (Sample.setup .offer false) "alice@corp") [] 2000) ∧
        ¬ FailedSince (Sample.setup .offer false)
          (normalizeLookupUsername (Sample.setup .offer false) "alice@corp") [] 2000) :=
  counts_from_one_iff twins_ends principalFailures [] none 1002 2000

/-- The third failure is the one after the login. -/
theorem not_counts_from_one :
    ¬ ∀ (D : Directory) (X : Setup) (cfg : LdapConfig) (T : Tls) (username password : String)
      (user : LdapUser) (l : Option (String × String)), D.Truthful → FoldsCase X.toLowercase →
      D.Ends (authenticateLdap X cfg T username password) [] ⟨0, none⟩ user l →
      ∀ (past : List LimitStep) (source : Option String) (answered now : ℕ),
        (past.map LimitStep.now ++ [answered, now]).Pairwise (· ≤ ·) →
        (noteLoginFailure X username now ((initial.run X past).run X
          ((answeredOps source username (.ok user)).map (LimitStep.mk answered))).failures).1 = 1 := by
  intro h
  have hone := h (twins true) (Sample.setup .offer false) byAccountName sampleTls "alice@corp"
    "first" ⟨"asmith", "", "", "cn=a"⟩ (some ("alice@corp", "first")) (twins_truthful true)
    foldsCase_id twins_ends principalFailures none 1002 1003 (by decide)
  revert hone
  decide

end Directory

end NemoServer
