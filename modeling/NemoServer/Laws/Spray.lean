import Mathlib.Data.Finset.Option
import NemoServer.Integration.LoginLimits
import NemoServer.Server.Sample

/-!
# When a source that sprays is refused

The names that failed from an address are counted in windows: one begins at a failure that finds
none younger than `SPRAY_IP_WINDOW_SECS`, or with a cooldown, and what it counted is forgotten when
the next begins. Whatever the other logins do meanwhile, an eleventh name in a window is refused
(`blocked_of_countingWindow`); eleven names of a span that two windows share need not be
(`not_blocked_of_span`).
-/

set_option autoImplicit false

namespace NemoServer

open Integration

/-! ## What a call counts -/

variable (X : Setup) (ip : String)

/-- The name that a call counts against the address. -/
def LimitStep.failedName (e : LimitStep) : Option String :=
  match e.op with
  | .noteLoginSpray (some source) username =>
    if source = ip ∧ normalizeLookupUsername X username ≠ "" then
      some (normalizeLookupUsername X username)
    else none
  | _ => none

/-- The distinct names that a history counts against the address. -/
def failedNames (history : List LimitStep) : Finset String :=
  (history.filterMap (LimitStep.failedName X ip)).toFinset

theorem failedNames_cons (e : LimitStep) (history : List LimitStep) :
    failedNames X ip (e :: history) =
      (e.failedName X ip).toFinset ∪ failedNames X ip history := by
  unfold failedNames
  cases hname : e.failedName X ip with
  | none => rw [List.filterMap_cons_none hname, Option.toFinset_none, Finset.empty_union]
  | some name =>
    rw [List.filterMap_cons_some hname, List.toFinset_cons, Option.toFinset_some,
      Finset.insert_eq]

theorem failedNames_append (past history : List LimitStep) :
    failedNames X ip (past ++ history) = failedNames X ip past ∪ failedNames X ip history := by
  unfold failedNames
  rw [List.filterMap_append, List.toFinset_append]

namespace LoginLimits

variable (L : LoginLimits)

/-- Until when the address is refused. -/
def deadline : ℕ := (L.spray.byIp.lookup ip).elim 0 SprayWindow.blockedUntil

/-- A cooldown of the address begins with the call. -/
def BeginsCooldown (e : LimitStep) : Prop := L.deadline ip < (L.perform X e).deadline ip

instance (e : LimitStep) : Decidable (L.BeginsCooldown X ip e) :=
  inferInstanceAs (Decidable (_ < _))

/-- No cooldown of the address begins in the history. -/
def Quiet (L : LoginLimits) : List LimitStep → Prop
  | [] => True
  | e :: history => ¬ L.BeginsCooldown X ip e ∧ Quiet (L.perform X e) history

instance decidableQuiet (L : LoginLimits) :
    (history : List LimitStep) → Decidable (L.Quiet X ip history)
  | [] => .isTrue trivial
  | e :: history =>
    have := decidableQuiet (L.perform X e) history
    inferInstanceAs (Decidable (¬ _ ∧ _))

/-- A counting window of the address opens with the call: a failure that finds no window, or one
that has aged out, or that begins a cooldown. -/
structure OpensWindow (e : LimitStep) : Prop where
  failed : (e.failedName X ip).isSome
  fresh : (∀ w, L.spray.byIp.lookup ip = some w → w.started + sprayIpWindowSecs ≤ e.now) ∨
    L.BeginsCooldown X ip e
  /-- The table has room for the address. -/
  tracked : ip ∈ (L.perform X e).spray.byIp

/-- The distinct names that failed in a window: the failure that opens it counts unless it began a
cooldown. -/
def windowNames (e : LimitStep) (history : List LimitStep) : Finset String :=
  if L.BeginsCooldown X ip e then failedNames X ip history else failedNames X ip (e :: history)

/-- The window of the address began at `start` and has seen these names. -/
def Counting (start : ℕ) (names : Finset String) : Prop :=
  ∃ blockedUntil, L.spray.byIp.lookup ip = some ⟨names, start, blockedUntil⟩

end LoginLimits

variable {X ip}

/-! ## One window -/

namespace SprayWindow

variable {w : SprayWindow} {now window maxUsers cooldown : ℕ} {user : String}

theorem roll_of_lt (h : now - w.started < window) : w.roll now window = w := by
  unfold roll
  rw [if_neg (by omega)]

/-- In a window that goes on, the name is added, and above the limit a cooldown may begin. -/
theorem count_of_lt (h : now - w.started < window) :
    w.count now user window maxUsers cooldown =
      if maxUsers < (insert user w.users).card then
        { w with users := insert user w.users }.trip now cooldown
      else (false, { w with users := insert user w.users }) := by
  unfold count
  rw [roll_of_lt h]

/-- A fresh window starts with the name. -/
theorem count_of_le (h : w.started + window ≤ now) (hwindow : 0 < window) (hmax : 0 < maxUsers) :
    (w.count now user window maxUsers cooldown).2 = ⟨{user}, now, w.blockedUntil⟩ := by
  have hroll : w.roll now window = ⟨∅, now, w.blockedUntil⟩ := by
    unfold roll
    rw [if_pos (by omega)]
  unfold count
  simp only [hroll, insert_empty_eq, Finset.card_singleton]
  rw [if_neg (by omega)]

/-- The first name of a source that is new in the table. -/
theorem count_new (hwindow : 0 < window) (hmax : 0 < maxUsers) :
    ((new now).count now user window maxUsers cooldown).2 = ⟨{user}, now, 0⟩ := by
  have hage : now - (new now).started < window := by
    unfold new
    simp only
    omega
  have hcard : ¬ maxUsers < (insert user (new now).users).card := by
    simp only [new, insert_empty_eq, Finset.card_singleton]
    omega
  rw [count_of_lt hage, if_neg hcard]
  rfl

theorem blockedUntil_roll (w : SprayWindow) (now window : ℕ) :
    (w.roll now window).blockedUntil = w.blockedUntil := by
  unfold roll
  split
  · rfl
  · rfl

/-- The name is added, or a cooldown begins. -/
theorem count_cases (w : SprayWindow) (now : ℕ) (user : String) (window maxUsers cooldown : ℕ) :
    (w.count now user window maxUsers cooldown).2 =
        { w.roll now window with users := insert user (w.roll now window).users } ∨
      ¬ now < w.blockedUntil ∧
        (w.count now user window maxUsers cooldown).2 = ⟨∅, now, now + cooldown⟩ := by
  unfold count trip
  simp only
  split
  · split
    · exact .inl rfl
    · next hopen =>
      rw [blockedUntil_roll] at hopen
      exact .inr ⟨hopen, rfl⟩
  · exact .inl rfl

end SprayWindow

/-! ## The table -/

section Table

variable {byIp : FinMap String SprayWindow} {user source : String} {now : ℕ}

/-- What a failure from the address leaves of its entry. -/
theorem lookup_noteSource_self (ip user : String) (now : ℕ)
    (byIp : FinMap String SprayWindow) :
    (noteSource ip user now byIp).2.lookup ip =
        some ((((byIp.lookup ip).filter (sprayLive now)).getD (.new now)).count now user
          sprayIpWindowSecs sprayIpMaxUsers sprayIpCooldownSecs).2 ∨
      (byIp.lookup ip).filter (sprayLive now) = none ∧
        (noteSource ip user now byIp).2.lookup ip = none := by
  unfold noteSource
  simp only
  split
  · next hfull =>
    have hnone := AList.lookup_eq_none.2 hfull.2
    rw [FinMap.lookup_retain] at hnone
    rw [FinMap.lookup_retain]
    exact .inr ⟨hnone, hnone⟩
  · rw [AList.lookup_insert, FinMap.lookup_retain]
    exact .inl rfl

/-- A failure from another address prunes the entry at most. -/
theorem lookup_noteSource_of_ne (hne : ip ≠ source) :
    (noteSource source user now byIp).2.lookup ip = (byIp.lookup ip).filter (sprayLive now) := by
  rw [← FinMap.lookup_retain byIp fun _ w => sprayLive now w]
  unfold noteSource
  simp only
  split
  · rfl
  · rw [AList.lookup_insert_ne hne]

end Table

namespace LoginLimits

variable {L : LoginLimits} {e : LimitStep} {w : SprayWindow} {name : String} {start : ℕ}
  {names : Finset String}

theorem failedName_eq_some : e.failedName X ip = some name ↔
    ∃ username, e.op = .noteLoginSpray (some ip) username ∧ name ≠ "" ∧
      normalizeLookupUsername X username = name := by
  unfold LimitStep.failedName
  constructor
  · intro h
    split at h
    · next source username hop =>
      split at h
      · next hcond =>
        obtain ⟨rfl, hne⟩ := hcond
        obtain rfl := Option.some.inj h
        exact ⟨username, hop, hne, rfl⟩
      · cases h
    · cases h
  · rintro ⟨username, hop, hne, rfl⟩
    rw [hop]
    exact if_pos ⟨rfl, hne⟩

/-- A failure from the address counts in its window. -/
theorem lookup_perform_failed (h : e.failedName X ip = some name) :
    (L.perform X e).spray.byIp.lookup ip =
        some ((((L.spray.byIp.lookup ip).filter (sprayLive e.now)).getD (.new e.now)).count e.now
          name sprayIpWindowSecs sprayIpMaxUsers sprayIpCooldownSecs).2 ∨
      (L.spray.byIp.lookup ip).filter (sprayLive e.now) = none ∧
        (L.perform X e).spray.byIp.lookup ip = none := by
  obtain ⟨username, hop, hne, rfl⟩ := failedName_eq_some.1 h
  unfold perform noteLoginSpray
  simp only [hop, if_neg hne]
  exact lookup_noteSource_self ip _ e.now _

/-- Any other call leaves the entry of the address, or prunes it. -/
theorem lookup_perform_other (L : LoginLimits) (h : e.failedName X ip = none) :
    (L.perform X e).spray.byIp.lookup ip = L.spray.byIp.lookup ip ∨
      (L.perform X e).spray.byIp.lookup ip =
        (L.spray.byIp.lookup ip).filter (sprayLive e.now) := by
  unfold perform
  cases hop : e.op with
  | loginSprayBlock source =>
    exact .inl (congrArg (AList.lookup ip) (byIp_loginSprayBlock source e.now L.spray))
  | noteLoginSpray source username =>
    unfold noteLoginSpray
    simp only
    split
    · exact .inl rfl
    · next hne =>
      cases source with
      | none => exact .inl rfl
      | some other =>
        refine .inr (lookup_noteSource_of_ne ?_)
        rintro rfl
        have hcounted := failedName_eq_some.2 ⟨username, hop, hne, rfl⟩
        rw [h] at hcounted
        cases hcounted
  | noteLoginFailure username => exact .inl rfl
  | clearLoginFailures username => exact .inl rfl

/-! ## The window of an address -/

theorem deadline_of_lookup (hw : L.spray.byIp.lookup ip = some w) :
    L.deadline ip = w.blockedUntil := by
  unfold deadline
  rw [hw]
  rfl

/-- The age of a window that goes on. -/
theorem age_lt {now : ℕ} (hin : now < start + sprayIpWindowSecs) :
    now - start < sprayIpWindowSecs := by
  have hpos : 0 < sprayIpWindowSecs := by decide
  omega

/-- A window that goes on is kept. -/
theorem filter_of_age {now b : ℕ} (hw : L.spray.byIp.lookup ip = some ⟨names, start, b⟩)
    (hage : now - start < sprayIpWindowSecs) :
    (L.spray.byIp.lookup ip).filter (sprayLive now) = some ⟨names, start, b⟩ := by
  have hlive : sprayLive now ⟨names, start, b⟩ = true := by
    unfold sprayLive
    rw [decide_eq_true hage, Bool.or_true]
  rw [hw, Option.filter_some_pos hlive]

/-- A call within the window counts the name that failed from the address, if one did, and no
other, unless a cooldown begins. -/
theorem Counting.perform (h : L.Counting ip start names) (hin : e.now < start + sprayIpWindowSecs)
    (hquiet : ¬ L.BeginsCooldown X ip e) :
    (L.perform X e).Counting ip start (names ∪ (e.failedName X ip).toFinset) := by
  obtain ⟨blockedUntil, hw⟩ := h
  have hage := age_lt hin
  have hkept := filter_of_age hw hage
  cases hname : e.failedName X ip with
  | none =>
    refine ⟨blockedUntil, ?_⟩
    rw [Option.toFinset_none, Finset.union_empty]
    obtain hsame | hpruned := lookup_perform_other L hname
    · exact hsame.trans hw
    · exact hpruned.trans hkept
  | some name =>
    obtain hafter | ⟨hnone, -⟩ := lookup_perform_failed (L := L) hname
    · rw [hkept, Option.getD_some, SprayWindow.count_of_lt hage] at hafter
      have hunion : names ∪ (some name).toFinset = insert name names := by
        rw [Option.toFinset_some, Finset.union_comm, ← Finset.insert_eq]
      rw [hunion]
      split at hafter
      · unfold SprayWindow.trip at hafter
        split at hafter
        · exact ⟨blockedUntil, hafter⟩
        · next hopen =>
          -- a cooldown would begin
          refine absurd ?_ hquiet
          unfold BeginsCooldown
          rw [deadline_of_lookup hw, deadline_of_lookup hafter]
          have hpos : 0 < sprayIpCooldownSecs := by decide
          simp only at hopen ⊢
          omega
      · exact ⟨blockedUntil, hafter⟩
    · rw [hkept] at hnone
      cases hnone

/-- The entry that a failure is counted in has no later deadline. -/
theorem blockedUntil_kept_le (L : LoginLimits) (ip : String) (now : ℕ) :
    (((L.spray.byIp.lookup ip).filter (sprayLive now)).getD (.new now)).blockedUntil ≤
      L.deadline ip := by
  cases hkept : (L.spray.byIp.lookup ip).filter (sprayLive now) with
  | none => exact Nat.zero_le _
  | some w =>
    have hw := (Option.filter_eq_some_iff.1 hkept).1
    rw [deadline_of_lookup hw, Option.getD_some]

/-- What a window has seen when it opens. -/
theorem OpensWindow.counting (h : L.OpensWindow X ip e) :
    (L.perform X e).Counting ip e.now (L.windowNames X ip e []) := by
  obtain ⟨name, hname⟩ := Option.isSome_iff_exists.1 h.failed
  have hle := blockedUntil_kept_le L ip e.now
  obtain hafter | ⟨-, hnone⟩ := lookup_perform_failed (L := L) hname
  · unfold windowNames
    split
    · next hbegins =>
      obtain hcount | ⟨-, hcount⟩ := SprayWindow.count_cases
          (((L.spray.byIp.lookup ip).filter (sprayLive e.now)).getD (.new e.now)) e.now name
          sprayIpWindowSecs sprayIpMaxUsers sprayIpCooldownSecs
      · -- the deadline is the one it was
        rw [hcount] at hafter
        unfold BeginsCooldown at hbegins
        rw [deadline_of_lookup hafter, SprayWindow.blockedUntil_roll] at hbegins
        omega
      · rw [hcount] at hafter
        exact ⟨_, hafter⟩
    · next hno =>
      have hone : failedNames X ip [e] = {name} := by
        unfold failedNames
        rw [List.filterMap_cons_some hname]
        rfl
      have hold := h.fresh.resolve_right hno
      rw [hone]
      cases hkept : (L.spray.byIp.lookup ip).filter (sprayLive e.now) with
      | none =>
        rw [hkept, Option.getD_none, SprayWindow.count_new (by decide) (by decide)] at hafter
        exact ⟨_, hafter⟩
      | some w =>
        have hw := (Option.filter_eq_some_iff.1 hkept).1
        rw [hkept, Option.getD_some,
          SprayWindow.count_of_le (hold w hw) (by decide) (by decide)] at hafter
        exact ⟨_, hafter⟩
  · exact absurd h.tracked (AList.lookup_eq_none.1 hnone)

/-- Above the limit the address is refused after the failure. -/
theorem Counting.blocked (h : L.Counting ip start names) (hin : e.now < start + sprayIpWindowSecs)
    (hname : e.failedName X ip = some name) (hmany : sprayIpMaxUsers < (insert name names).card) :
    (loginSprayBlock (some ip) e.now (L.perform X e).spray).1.isSome := by
  obtain ⟨blockedUntil, hw⟩ := h
  have hage := age_lt hin
  have hkept := filter_of_age (b := blockedUntil) hw hage
  obtain hafter | ⟨hnone, -⟩ := lookup_perform_failed (L := L) hname
  · rw [hkept, Option.getD_some, SprayWindow.count_of_lt hage, if_pos hmany] at hafter
    unfold SprayWindow.trip at hafter
    split at hafter
    · next hblocked => exact loginSprayBlock_of_lt hafter hblocked
    · refine loginSprayBlock_of_lt hafter ?_
      have hpos : 0 < sprayIpCooldownSecs := by decide
      simp only
      omega
  · rw [hkept] at hnone
    cases hnone

/-- The names of the window, after a history in which no cooldown begins. -/
theorem Counting.run {history : List LimitStep} (h : L.Counting ip start names)
    (hin : ∀ e ∈ history, e.now < start + sprayIpWindowSecs) (hquiet : L.Quiet X ip history) :
    (L.run X history).Counting ip start (names ∪ failedNames X ip history) := by
  induction history generalizing L names with
  | nil =>
    have hnone : names ∪ failedNames X ip [] = names := Finset.union_empty names
    rw [hnone]
    exact h
  | cons e history ih =>
    have hstep := h.perform (hin e List.mem_cons_self) hquiet.1
    have hrun := ih hstep (fun d hd => hin d (List.mem_cons_of_mem e hd)) hquiet.2
    rw [Finset.union_assoc, ← failedNames_cons] at hrun
    exact hrun

theorem windowNames_append (L : LoginLimits) (X : Setup) (ip : String) (e : LimitStep)
    (history : List LimitStep) :
    L.windowNames X ip e history = L.windowNames X ip e [] ∪ failedNames X ip history := by
  unfold windowNames
  have hnone : failedNames X ip [] = ∅ := rfl
  split
  · rw [hnone, Finset.empty_union]
  · rw [failedNames_cons, failedNames_cons, hnone, Finset.union_empty]

/-- In a window of an address more than `SPRAY_IP_MAX_USERS` distinct names are refused: after the
failure that adds one too many the address is blocked, whatever other calls came in between. -/
theorem blocked_of_countingWindow {e₀ : LimitStep} {history : List LimitStep}
    (hopens : L.OpensWindow X ip e₀)
    (hord : (e₀ :: (history ++ [e])).Pairwise fun c d => c.now ≤ d.now)
    (hin : e.now < e₀.now + sprayIpWindowSecs)
    (hquiet : (L.perform X e₀).Quiet X ip history) (hfailed : (e.failedName X ip).isSome)
    (hmany : sprayIpMaxUsers < (L.windowNames X ip e₀ (history ++ [e])).card) :
    (loginSprayBlock (some ip) e.now (L.run X (e₀ :: (history ++ [e]))).spray).1.isSome := by
  obtain ⟨name, hname⟩ := Option.isSome_iff_exists.1 hfailed
  have hwithin : ∀ d ∈ history, d.now < e₀.now + sprayIpWindowSecs := by
    intro d hd
    have hle : d.now ≤ e.now :=
      (List.pairwise_append.1 (List.pairwise_cons.1 hord).2).2.2 d hd e (List.mem_singleton_self e)
    omega
  have hrun := hopens.counting.run hwithin hquiet
  have hnames : L.windowNames X ip e₀ (history ++ [e]) =
      insert name (L.windowNames X ip e₀ [] ∪ failedNames X ip history) := by
    rw [windowNames_append, failedNames_append, failedNames_cons, hname, Option.toFinset_some]
    ext other
    simp [failedNames]
  rw [hnames] at hmany
  rw [run_cons, run_append, run_cons, run_nil]
  exact hrun.blocked hin hname hmany

/-! ## Every failure has its window -/

theorem quiet_append (L : LoginLimits) (X : Setup) (ip : String) (history : List LimitStep)
    (e : LimitStep) : L.Quiet X ip (history ++ [e]) ↔
      L.Quiet X ip history ∧ ¬ (L.run X history).BeginsCooldown X ip e := by
  induction history generalizing L with
  | nil => simp [Quiet]
  | cons d history ih =>
    rw [List.cons_append, Quiet, Quiet, ih, run_cons, and_assoc]

/-- The entry of an address is a window that opened in the history, and since then no cooldown of
the address began. -/
theorem window_of_entry {history : List LimitStep}
    (hw : (initial.run X history).spray.byIp.lookup ip = some w) :
    ∃ past e₀ rest, history = past ++ e₀ :: rest ∧ e₀.now = w.started ∧
      (initial.run X past).OpensWindow X ip e₀ ∧
      ((initial.run X past).perform X e₀).Quiet X ip rest := by
  induction history using List.reverseRecOn generalizing w with
  | nil => cases hw
  | append_singleton history e ih =>
    rw [run_append, run_cons, run_nil] at hw
    by_cases hopens : (initial.run X history).OpensWindow X ip e
    · obtain ⟨blockedUntil, hafter⟩ := hopens.counting
      rw [hw] at hafter
      obtain rfl := Option.some.inj hafter
      exact ⟨history, e, [], rfl, rfl, hopens, trivial⟩
    · -- the entry was there, and keeps its window
      have hkeeps : ∃ w₀, (initial.run X history).spray.byIp.lookup ip = some w₀ ∧
          w₀.started = w.started ∧ ¬ (initial.run X history).BeginsCooldown X ip e := by
        cases hname : e.failedName X ip with
        | none =>
          have hbefore : (initial.run X history).spray.byIp.lookup ip = some w := by
            obtain hsame | hpruned := lookup_perform_other (initial.run X history) hname
            · exact hsame.symm.trans hw
            · exact (Option.filter_eq_some_iff.1 (hpruned.symm.trans hw)).1
          refine ⟨w, hbefore, rfl, ?_⟩
          unfold BeginsCooldown
          rw [deadline_of_lookup hbefore, deadline_of_lookup hw]
          exact lt_irrefl _
        | some name =>
          have htracked : ip ∈ ((initial.run X history).perform X e).spray.byIp :=
            AList.lookup_isSome.1 (by rw [hw]; rfl)
          have hfailed : (e.failedName X ip).isSome := by rw [hname]; rfl
          have hno : ¬ (initial.run X history).BeginsCooldown X ip e :=
            fun hbegins => hopens ⟨hfailed, .inr hbegins, htracked⟩
          have hyoung : ∃ w₀, (initial.run X history).spray.byIp.lookup ip = some w₀ ∧
              ¬ w₀.started + sprayIpWindowSecs ≤ e.now := by
            by_contra hold
            push Not at hold
            exact hopens ⟨hfailed, .inl hold, htracked⟩
          obtain ⟨w₀, hbefore, hage⟩ := hyoung
          have hcounting : (initial.run X history).Counting ip w₀.started w₀.users :=
            ⟨w₀.blockedUntil, hbefore⟩
          obtain ⟨blockedUntil, hafter⟩ := hcounting.perform (by omega) hno
          rw [hw] at hafter
          obtain rfl := Option.some.inj hafter
          exact ⟨w₀, hbefore, rfl, hno⟩
      obtain ⟨w₀, hbefore, hstart, hno⟩ := hkeeps
      obtain ⟨past, e₀, rest, rfl, hnow, hopen, hquiet⟩ := ih hbefore
      refine ⟨past, e₀, rest ++ [e], by rw [List.append_assoc, List.cons_append],
        hnow.trans hstart, hopen, ?_⟩
      rw [run_append, run_cons] at hno
      exact (quiet_append _ X ip rest e).2 ⟨hquiet, hno⟩

end LoginLimits

/-! ## Eleven names -/

namespace Sample

open LoginLimits

/-- Logins under these names fail from one address. -/
def failures (now : ℕ) (names : List String) : List LimitStep :=
  names.map fun name => ⟨now, .noteLoginSpray (some "10.0.0.9") name⟩

def tenUsers : List String := ["u1", "u2", "u3", "u4", "u5", "u6", "u7", "u8", "u9", "u10"]

/-- Ten names fail in a minute, and `u11` two minutes later. -/
theorem blocked_of_countingWindow_eleven :
    (loginSprayBlock (some "10.0.0.9") 1180
      (initial.run (setup .off false) (⟨1000, .noteLoginSpray (some "10.0.0.9") "u1"⟩ ::
        (failures 1060 tenUsers ++ [⟨1180, .noteLoginSpray (some "10.0.0.9") "u11"⟩]))).spray).1.isSome
    := by
  have hopens : initial.OpensWindow (setup .off false) "10.0.0.9"
      ⟨1000, .noteLoginSpray (some "10.0.0.9") "u1"⟩ := by
    constructor
    · decide
    · refine .inl fun w hw => ?_
      cases hw
    · exact AList.lookup_isSome.1 (by decide)
  have hquiet : (initial.perform (setup .off false)
      ⟨1000, .noteLoginSpray (some "10.0.0.9") "u1"⟩).Quiet (setup .off false) "10.0.0.9"
        (failures 1060 tenUsers) := by
    decide +kernel
  have hfailed : (LimitStep.failedName (setup .off false) "10.0.0.9"
      ⟨1180, .noteLoginSpray (some "10.0.0.9") "u11"⟩).isSome := by
    decide
  have hblocked := blocked_of_countingWindow hopens (by decide +kernel) (by decide) hquiet hfailed
    (by decide +kernel)
  exact hblocked

/-- `u1` fails; 299 seconds later the ten names do, which makes ten in this window, and a second
later `u11`, which is the first of the next. -/
theorem not_blocked_of_span :
    ¬ ∀ (X : Setup) (ip : String) (past history : List LimitStep) (e : LimitStep),
      (past ++ (history ++ [e])).Pairwise (fun c d => c.now ≤ d.now) →
      (initial.run X past).Quiet X ip history → (e.failedName X ip).isSome →
      ip ∈ (initial.run X (past ++ (history ++ [e]))).spray.byIp →
      sprayIpMaxUsers < (failedNames X ip ((history ++ [e]).filter fun d =>
        e.now - d.now < sprayIpWindowSecs)).card →
      (loginSprayBlock (some ip) e.now
        (initial.run X (past ++ (history ++ [e]))).spray).1.isSome := by
  intro h
  have hblocked := h (setup .off false) "10.0.0.9" []
    (⟨1000, .noteLoginSpray (some "10.0.0.9") "u1"⟩ :: failures 1299 tenUsers)
    ⟨1300, .noteLoginSpray (some "10.0.0.9") "u11"⟩ (by decide) (by decide +kernel) (by decide)
    (AList.lookup_isSome.1 (by decide +kernel)) (by decide +kernel)
  revert hblocked
  decide +kernel

end Sample

end NemoServer
