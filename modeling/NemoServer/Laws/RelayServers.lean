import Mathlib.Data.List.GetD
import Mathlib.Data.List.Perm.Subperm
import NemoServer.Rendezvous.RelayServers

/-!
# The lists of relay servers

* `relay_server_configured`: a relay server that is handed out was configured, and none is handed
  out only if no server was.
* `relay_servers_current`: the servers in use are some of the configured ones, as long as no
  configuration arrives while a check is under way.
* `overtaken_configuration_lost`: a configuration of one server that arrives while a check is under
  way is undone by it, for good.
-/

set_option autoImplicit false

namespace NemoServer

namespace Rendezvous

namespace RelayLoop

variable {D : CmdDeps} {s : RelayLoop}

/-! ## What the operations do -/

theorem getRelayServer_mem {l : List String} (h : l ≠ []) : (s.getRelayServer l).1 ∈ l := by
  have hpos := List.length_pos_of_ne_nil h
  unfold getRelayServer
  rw [if_neg (by simpa using h)]
  split
  · rw [List.getD_eq_getElem _ _ hpos]
    exact List.getElem_mem _
  · rw [List.getD_eq_getElem _ _ (Nat.mod_lt _ hpos)]
    exact List.getElem_mem _

theorem getRelayServer_nil : (s.getRelayServer []).1 = "" := rfl

/-- At most the counter moves. -/
theorem getRelayServer_snd (l : List String) :
    ∃ n, (s.getRelayServer l).2 = { s with rotation := n } := by
  unfold getRelayServer
  split
  · exact ⟨s.rotation, rfl⟩
  · split
    · exact ⟨s.rotation, rfl⟩
    · exact ⟨_, rfl⟩

theorem checkCmd_of_takesTurn {copy : List String} {cmd : String} (h : takesTurn D cmd = true) :
    (s.checkCmd D copy cmd).2 = (s.getRelayServer copy).2 := by
  unfold takesTurn at h
  unfold checkCmd
  cases hw : words cmd with
  | nil =>
    rw [hw] at h
    cases h
  | cons name args =>
    rw [hw] at h
    obtain ⟨hname, htests⟩ := Bool.and_eq_true_iff.1 h
    have hgeo : name = "test-geo" ∨ name = "tg" := of_decide_eq_true hname
    have hother : ¬name = "h" ∧ ¬(name = "relay-servers" ∨ name = "rs") ∧
        ¬(name = "always-use-relay" ∨ name = "aur") := by
      rcases hgeo with rfl | rfl <;> decide
    dsimp only
    rw [if_neg hother.1, if_neg hother.2.1, if_neg hother.2.2, if_pos hgeo, if_pos htests]

/-- What the other commands may do. -/
theorem checkCmd_cases {cmd : String} (copy : List String) (h : takesTurn D cmd = false) :
    (s.checkCmd D copy cmd).2 = s ∨
      (∃ rs, (s.checkCmd D copy cmd).2 = { s with channel := s.channel ++ [.relayServers0 rs] }) ∨
      ∃ b, (s.checkCmd D copy cmd).2 = { s with alwaysUseRelay := b } := by
  unfold takesTurn at h
  unfold checkCmd
  cases hw : words cmd with
  | nil => exact .inl rfl
  | cons name args =>
    rw [hw] at h
    dsimp only at h ⊢
    split
    · exact .inl rfl
    · split
      · split
        · exact .inr (.inl ⟨_, rfl⟩)
        · exact .inl rfl
      · split
        · split
          · exact .inr (.inr ⟨_, rfl⟩)
          · exact .inl rfl
        · split
          · next hgeo =>
            rw [decide_eq_true hgeo, Bool.true_and] at h
            rw [if_neg (by rw [h]; exact Bool.false_ne_true)]
            exact .inl rfl
          · exact .inl rfl

/-- Only the checks and the channel may change. -/
structure Keeps (s s' : RelayLoop) : Prop where
  relayServers0 : s'.relayServers0 = s.relayServers0
  relayServers : s'.relayServers = s.relayServers
  copies : s'.copies = s.copies
  alwaysUseRelay : s'.alwaysUseRelay = s.alwaysUseRelay
  rotation : s'.rotation = s.rotation

theorem tick_keeps : Keeps s s.tick := by
  unfold RelayLoop.tick
  split <;> exact ⟨rfl, rfl, rfl, rfl, rfl⟩

theorem dialed_keeps (k i : ℕ) (connects : String → Bool) : Keeps s (s.dialed k i connects) := by
  unfold RelayLoop.dialed
  split
  · exact ⟨rfl, rfl, rfl, rfl, rfl⟩
  · split <;> exact ⟨rfl, rfl, rfl, rfl, rfl⟩

theorem joined_keeps (k : ℕ) : Keeps s (s.joined k) := by
  unfold RelayLoop.joined
  split
  · exact ⟨rfl, rfl, rfl, rfl, rfl⟩
  · split <;> exact ⟨rfl, rfl, rfl, rfl, rfl⟩

theorem recv_copies (resolve : Resolver) : (s.recv resolve).copies = s.copies := by
  unfold RelayLoop.recv
  split <;> rfl

theorem recv_rotation (resolve : Resolver) : (s.recv resolve).rotation = s.rotation := by
  unfold RelayLoop.recv
  split <;> rfl

theorem checkCmd_lists (copy : List String) (cmd : String) :
    (s.checkCmd D copy cmd).2.relayServers0 = s.relayServers0 ∧
      (s.checkCmd D copy cmd).2.copies = s.copies := by
  cases hturn : takesTurn D cmd with
  | true =>
    obtain ⟨n, hn⟩ := getRelayServer_snd (s := s) copy
    rw [checkCmd_of_takesTurn hturn, hn]
    exact ⟨rfl, rfl⟩
  | false =>
    obtain heq | ⟨rs, heq⟩ | ⟨b, heq⟩ := checkCmd_cases (s := s) copy hturn
    all_goals rw [heq]; exact ⟨rfl, rfl⟩

theorem step_command (c : ℕ) (cmd : String) : s.step D (.command c cmd) =
    match s.copies c with
    | none => s
    | some copy => (s.checkCmd D copy cmd).2 := rfl

theorem step_request (c : Option ℕ) : s.step D (.request c) =
    match s.listOf c with
    | none => s
    | some l => (s.getRelayServer l).2 := rfl

theorem ne_empty_of_mem_getServers {resolve : Resolver} {text x : String}
    (h : x ∈ getServers resolve text) : x ≠ "" := by
  have hx := (List.mem_filter.1 h).2
  rw [Bool.and_eq_true] at hx
  exact of_decide_eq_true hx.1

/-! ## Where the servers come from -/

/-- Some servers of one of the lists, and not none of a list that has some. -/
def Offered (lists : List (List String)) (l : List String) : Prop :=
  ∃ L ∈ lists, l.Subperm L ∧ (l = [] → L = [])

theorem Offered.mono {lists lists' : List (List String)} {l : List String}
    (h : Offered lists l) (hsub : lists ⊆ lists') : Offered lists' l :=
  let ⟨L, hL, hl⟩ := h
  ⟨L, hsub hL, hl⟩

theorem offered_self {lists : List (List String)} {l : List String} (h : l ∈ lists) :
    Offered lists l :=
  ⟨l, h, List.Subperm.refl l, id⟩

/-- What the lists that were configured have to do with the state. -/
structure Sourced (lists : List (List String)) (s : RelayLoop) : Prop where
  current : s.relayServers0 ∈ lists
  inUse : Offered lists s.relayServers
  reports : ∀ rs, .relayServers rs ∈ s.channel → Offered lists rs
  checks : ∀ k c, s.checks k = some c → ∃ L ∈ lists, (c.reached ++ c.dialing).Subperm L

theorem Sourced.mono {lists lists' : List (List String)} (h : Sourced lists s)
    (hsub : lists ⊆ lists') : Sourced lists' s where
  current := hsub h.current
  inUse := h.inUse.mono hsub
  reports rs hrs := (h.reports rs hrs).mono hsub
  checks k c hc := let ⟨L, hL, hsp⟩ := h.checks k c hc; ⟨L, hsub hL, hsp⟩

/-- Nothing is under way that an earlier configuration is behind. -/
structure Quiet (s : RelayLoop) : Prop where
  checks : ∀ k, s.checks k = none
  reports : ∀ rs, .relayServers rs ∉ s.channel

theorem Quiet.sourced (h : s.Quiet) (heq : s.relayServers = s.relayServers0) :
    Sourced [s.relayServers0] s where
  current := List.mem_singleton_self _
  inUse := heq ▸ offered_self (List.mem_singleton_self _)
  reports rs hrs := absurd hrs (h.reports rs)
  checks k c hc := by
    rw [h.checks k] at hc
    cases hc

theorem quiet_start (resolve : Resolver) (text : String) (b : Bool) :
    (start resolve text b).Quiet where
  checks _ := rfl
  reports _ := List.not_mem_nil

theorem sourced_start (resolve : Resolver) (text : String) (b : Bool) :
    Sourced [(start resolve text b).relayServers0] (start resolve text b) :=
  (quiet_start resolve text b).sourced rfl

theorem Sourced.tick {lists : List (List String)} (h : Sourced lists s) :
    Sourced lists s.tick := by
  unfold RelayLoop.tick
  split
  · refine ⟨h.current, h.inUse, h.reports, fun k c hc => ?_⟩
    obtain ⟨-, rfl⟩ | ⟨-, hc⟩ := Table.insert_eq_some.1 hc
    · exact ⟨_, h.current, List.Subperm.refl _⟩
    · exact h.checks k c hc
  · exact h

/-- What is tried next is moved, or dropped. -/
theorem subperm_dialed {c : RelayCheck} {L : List String} {i : ℕ} {x : String}
    (hx : c.dialing[i]? = some x) (h : (c.reached ++ c.dialing).Subperm L) (b : Bool) :
    ((if b then c.reached ++ [x] else c.reached) ++ c.dialing.eraseIdx i).Subperm L := by
  refine List.Subperm.trans ?_ h
  obtain ⟨hi, rfl⟩ := List.getElem?_eq_some_iff.1 hx
  have hperm : (c.dialing[i] :: c.dialing.eraseIdx i).Perm c.dialing :=
    List.getElem_cons_eraseIdx_perm hi
  cases b with
  | true =>
    rw [if_pos rfl, List.append_assoc]
    exact ((List.Perm.refl _).append hperm).subperm
  | false =>
    exact ((List.Sublist.refl _).append (List.eraseIdx_sublist _ _)).subperm

theorem Sourced.dialed {lists : List (List String)} (h : Sourced lists s) (k i : ℕ)
    (connects : String → Bool) : Sourced lists (s.dialed k i connects) := by
  unfold RelayLoop.dialed
  split
  · exact h
  · next c hc =>
    split
    · exact h
    · next x hx =>
      refine ⟨h.current, h.inUse, h.reports, fun j d hd => ?_⟩
      obtain ⟨-, rfl⟩ | ⟨-, hd⟩ := Table.insert_eq_some.1 hd
      · obtain ⟨L, hL, hsp⟩ := h.checks k c hc
        exact ⟨L, hL, subperm_dialed hx hsp _⟩
      · exact h.checks j d hd

theorem Sourced.joined {lists : List (List String)} (h : Sourced lists s) (k : ℕ) :
    Sourced lists (s.joined k) := by
  unfold RelayLoop.joined
  split
  · exact h
  · next c hc =>
    split
    · refine ⟨h.current, h.inUse, fun rs hrs => ?_, fun j d hd => ?_⟩
      · dsimp only at hrs
        split at hrs
        · exact h.reports rs hrs
        · next hne =>
          rw [List.mem_append, List.mem_singleton, Data.relayServers.injEq] at hrs
          rcases hrs with hrs | rfl
          · exact h.reports rs hrs
          · obtain ⟨L, hL, hsp⟩ := h.checks k c hc
            refine ⟨L, hL, (List.sublist_append_left _ _).subperm.trans hsp, fun hnil => ?_⟩
            rw [hnil] at hne
            exact absurd rfl hne
      · exact h.checks j d (Table.remove_eq_some.1 hd).2
    · exact h

/-- A configuration is one of the lists as soon as it is received. -/
theorem Sourced.recv {lists : List (List String)} (h : Sourced lists s) (resolve : Resolver) :
    Sourced ((s.configuration (.recv resolve)).toList ++ lists) (s.recv resolve) := by
  unfold RelayLoop.recv configuration
  cases hch : s.channel with
  | nil => exact h
  | cons d rest =>
    have hrest : ∀ rs, .relayServers rs ∈ rest → Offered lists rs := by
      intro rs hrs
      exact h.reports rs (hch ▸ List.mem_cons_of_mem d hrs)
    cases d with
    | relayServers0 rs =>
      have hsub := List.subset_cons_self (getServers resolve rs) lists
      exact ⟨List.mem_cons_self, offered_self List.mem_cons_self,
        fun rs hrs => (hrest rs hrs).mono hsub, (h.mono hsub).checks⟩
    | relayServers rs =>
      exact ⟨h.current, h.reports rs (hch ▸ List.mem_cons_self), hrest, h.checks⟩

theorem Sourced.asked {lists : List (List String)} (h : Sourced lists s) (l : List String) :
    Sourced lists (s.getRelayServer l).2 := by
  obtain ⟨n, hn⟩ := getRelayServer_snd (s := s) l
  rw [hn]
  exact ⟨h.current, h.inUse, h.reports, h.checks⟩

theorem Sourced.checkCmd {lists : List (List String)} (h : Sourced lists s) (copy : List String)
    (cmd : String) : Sourced lists (s.checkCmd D copy cmd).2 := by
  cases hturn : takesTurn D cmd with
  | true =>
    rw [checkCmd_of_takesTurn hturn]
    exact h.asked copy
  | false =>
    obtain heq | ⟨rs, heq⟩ | ⟨b, heq⟩ := checkCmd_cases (s := s) copy hturn
    · rw [heq]
      exact h
    · rw [heq]
      refine ⟨h.current, h.inUse, fun rs hrs => ?_, h.checks⟩
      simp only [List.mem_append, List.mem_singleton, reduceCtorEq, or_false] at hrs
      exact h.reports rs hrs
    · rw [heq]
      exact ⟨h.current, h.inUse, h.reports, h.checks⟩

theorem Sourced.step {lists : List (List String)} (h : Sourced lists s) (e : LoopEvent) :
    Sourced ((s.configuration e).toList ++ lists) (s.step D e) := by
  cases e with
  | tick => exact h.tick
  | dialed k i connects => exact h.dialed k i connects
  | joined k => exact h.joined k
  | recv resolve => exact h.recv resolve
  | accept => exact ⟨h.current, h.inUse, h.reports, h.checks⟩
  | command c cmd =>
    rw [step_command]
    split
    · exact h
    · exact h.checkCmd _ cmd
  | request c =>
    rw [step_request]
    split
    · exact h
    · exact h.asked _

theorem sourced_run (h : Sourced [s.relayServers0] s) (events : List LoopEvent) :
    Sourced (configured D s events) (s.run D events) := by
  induction events with
  | nil => exact h
  | cons e past ih => exact ih.step e

/-- The copies that connections have. -/
def Copied (lists : List (List String)) (s : RelayLoop) : Prop :=
  ∀ c l, s.copies c = some l → Offered lists l

/-- Only an accepted connection makes a copy, of the list in use. -/
theorem copies_step (e : LoopEvent) : (s.step D e).copies = s.copies ∨
    (s.step D e).copies = s.copies.insert s.nextConn s.relayServers := by
  cases e with
  | accept => exact .inr rfl
  | tick => exact .inl tick_keeps.copies
  | dialed k i connects => exact .inl (dialed_keeps k i connects).copies
  | joined k => exact .inl (joined_keeps k).copies
  | recv resolve => exact .inl (recv_copies resolve)
  | command c cmd =>
    rw [step_command]
    split
    · exact .inl rfl
    · exact .inl (checkCmd_lists _ cmd).2
  | request c =>
    rw [step_request]
    split
    · exact .inl rfl
    · next l _ =>
      obtain ⟨n, hn⟩ := getRelayServer_snd (s := s) l
      exact .inl (by rw [hn])

theorem Copied.step {lists : List (List String)} (hc : Copied lists s) (h : Sourced lists s)
    (e : LoopEvent) : Copied ((s.configuration e).toList ++ lists) (s.step D e) := by
  intro c l hl
  have hsub := List.subset_append_right (s.configuration e).toList lists
  obtain heq | heq := copies_step (D := D) (s := s) e
  · rw [heq] at hl
    exact (hc c l hl).mono hsub
  · rw [heq] at hl
    obtain ⟨-, rfl⟩ | ⟨-, hl⟩ := Table.insert_eq_some.1 hl
    · exact h.inUse.mono hsub
    · exact (hc c l hl).mono hsub

theorem copied_run (hc : Copied [s.relayServers0] s) (h : Sourced [s.relayServers0] s)
    (events : List LoopEvent) : Copied (configured D s events) (s.run D events) := by
  induction events with
  | nil => exact hc
  | cons e past ih => exact ih.step (sourced_run h past) e

theorem ne_empty_of_configuration {e : LoopEvent} {L : List String}
    (h : s.configuration e = some L) : ∀ x ∈ L, x ≠ "" := by
  cases e with
  | recv resolve =>
    simp only [configuration] at h
    split at h
    · cases Option.some.inj h
      exact fun x hx => ne_empty_of_mem_getServers hx
    · cases h
    · cases h
  | tick => cases h
  | dialed => cases h
  | joined => cases h
  | accept => cases h
  | command => cases h
  | request => cases h

theorem ne_empty_of_configured (h : ∀ x ∈ s.relayServers0, x ≠ "") (events : List LoopEvent) :
    ∀ L ∈ configured D s events, ∀ x ∈ L, x ≠ "" := by
  induction events with
  | nil =>
    intro L hL
    rw [List.mem_singleton.1 hL]
    exact h
  | cons e past ih =>
    intro L hL
    rcases List.mem_append.1 hL with hL | hL
    · exact ne_empty_of_configuration (Option.mem_toList.1 hL)
    · exact ih L hL

theorem offered_asked {lists : List (List String)} (h : Sourced lists s) (hc : Copied lists s)
    {e : LoopEvent} {l : List String} (hl : s.asked D e = some l) : Offered lists l := by
  cases e with
  | command c cmd =>
    simp only [RelayLoop.asked] at hl
    split at hl
    · exact hc c l hl
    · cases hl
  | request c =>
    cases c with
    | none =>
      cases Option.some.inj hl
      exact h.inUse
    | some c => exact hc c l hl
  | tick => cases hl
  | dialed => cases hl
  | joined => cases hl
  | recv => cases hl
  | accept => cases hl

/-- A resolver that knows every name, and a standard library without upper case and addresses. -/
def resolvesAll : Resolver := fun _ => some [.unspecified]

def plainCmds : CmdDeps := ⟨id, fun _ => none, id⟩

/-- A relay server that is handed out is one of a list that was configured before. None is handed
out only if a list without any was configured before. -/
theorem relay_server_configured (D : CmdDeps) (resolve : Resolver) (text : String) (b : Bool)
    (events : List LoopEvent) (e : LoopEvent) (r : String)
    (h : ((start resolve text b).run D events).answer D e = some r) :
    (r ≠ "" ∧ ∃ L ∈ configured D (start resolve text b) events, r ∈ L) ∨
      (r = "" ∧ [] ∈ configured D (start resolve text b) events) := by
  have hstart := sourced_start resolve text b
  have hcopied : Copied [(start resolve text b).relayServers0] (start resolve text b) := by
    intro c l hl
    cases hl
  have hnamed := ne_empty_of_configured (D := D) (s := start resolve text b)
    (fun x hx => ne_empty_of_mem_getServers hx) events
  obtain ⟨l, hl, rfl⟩ := Option.map_eq_some_iff.1 h
  obtain ⟨L, hL, hsp, hnil⟩ :=
    offered_asked (sourced_run hstart events) (copied_run hcopied hstart events) hl
  obtain rfl | hne := eq_or_ne l []
  · exact .inr ⟨getRelayServer_nil, hnil rfl ▸ hL⟩
  · have hmem := hsp.subset
      (getRelayServer_mem (s := (start resolve text b).run D events) hne)
    exact .inl ⟨hnamed L hL _ hmem, L, hL, hmem⟩

theorem relay_server_configured_first :
    ("a" ≠ "" ∧ ∃ L ∈ configured plainCmds (start resolvesAll "a,b" false) [], "a" ∈ L) ∨
      ("a" = "" ∧ [] ∈ configured plainCmds (start resolvesAll "a,b" false) []) :=
  relay_server_configured plainCmds resolvesAll "a,b" false [] (.request none) "a" (by decide)

/-! ## Configurations and checks -/

theorem relayServers0_step {e : LoopEvent} (h : s.configuration e = none) :
    (s.step D e).relayServers0 = s.relayServers0 := by
  cases e with
  | accept => rfl
  | tick => exact tick_keeps.relayServers0
  | dialed k i connects => exact (dialed_keeps k i connects).relayServers0
  | joined k => exact (joined_keeps k).relayServers0
  | recv resolve =>
    show (s.recv resolve).relayServers0 = s.relayServers0
    unfold configuration at h
    unfold RelayLoop.recv
    split
    · rfl
    · next rs rest hch =>
      rw [hch] at h
      cases h
    · rfl
  | command c cmd =>
    rw [step_command]
    split
    · rfl
    · exact (checkCmd_lists _ cmd).1
  | request c =>
    rw [step_request]
    split
    · rfl
    · next l _ =>
      obtain ⟨n, hn⟩ := getRelayServer_snd (s := s) l
      rw [hn]

/-- What is received as a configuration replaces both lists. -/
theorem configuration_cases {e : LoopEvent} {l : List String} (h : s.configuration e = some l) :
    ∃ resolve rs rest, e = .recv resolve ∧ s.channel = .relayServers0 rs :: rest ∧
      l = getServers resolve rs ∧
      s.step D e = { s with channel := rest, relayServers0 := l, relayServers := l } := by
  cases e with
  | recv resolve =>
    simp only [configuration] at h
    split at h
    · next rs hhead =>
      obtain ⟨rest, hch⟩ := List.head?_eq_some_iff.1 hhead
      cases Option.some.inj h
      refine ⟨resolve, rs, rest, rfl, hch, rfl, ?_⟩
      show s.recv resolve = _
      unfold RelayLoop.recv
      rw [hch]
      rfl
    · cases h
    · cases h
  | tick => cases h
  | dialed => cases h
  | joined => cases h
  | accept => cases h
  | command => cases h
  | request => cases h

theorem Quiet.configured (h : s.Quiet) {e : LoopEvent} {l : List String}
    (hl : s.configuration e = some l) : Sourced [l] (s.step D e) ∧ (s.step D e).relayServers0 = l := by
  obtain ⟨resolve, rs, rest, rfl, hch, -, hstep⟩ := configuration_cases (D := D) hl
  rw [hstep]
  refine ⟨Quiet.sourced (s := { s with channel := rest, relayServers0 := l, relayServers := l })
    ⟨h.checks, fun rs' hrs' => ?_⟩ rfl, rfl⟩
  exact h.reports rs' (hch ▸ List.mem_cons_of_mem _ hrs')

/-- As long as every configuration is received when no check is under way, the servers in use are
some of those configured last, and some of them are in use if there are any. -/
theorem relay_servers_current (D : CmdDeps) (resolve : Resolver) (text : String) (b : Bool)
    (events : List LoopEvent)
    (h : ∀ e past, e :: past <:+ events →
      ((start resolve text b).run D past).configuration e ≠ none →
        ((start resolve text b).run D past).Quiet) :
    ((start resolve text b).run D events).relayServers.Subperm
        ((start resolve text b).run D events).relayServers0 ∧
      (((start resolve text b).run D events).relayServers = [] →
        ((start resolve text b).run D events).relayServers0 = []) := by
  have hrun : Sourced [((start resolve text b).run D events).relayServers0]
      ((start resolve text b).run D events) := by
    induction events with
    | nil => exact sourced_start resolve text b
    | cons e past ih =>
      have hpast := ih fun e' past' hsuffix => h e' past' (hsuffix.trans (List.suffix_cons e past))
      generalize hs : (start resolve text b).run D past = s at hpast
      show Sourced [(((start resolve text b).run D past).step D e).relayServers0]
        (((start resolve text b).run D past).step D e)
      rw [hs]
      cases hl : s.configuration e with
      | none =>
        have hstep := hpast.step (D := D) e
        rw [hl] at hstep
        rw [relayServers0_step hl]
        exact hstep
      | some l =>
        have hquiet := h e past List.suffix_rfl (by rw [hs, hl]; exact Option.some_ne_none l)
        rw [hs] at hquiet
        obtain ⟨hsourced, heq⟩ := hquiet.configured (D := D) hl
        rw [heq]
        exact hsourced
  obtain ⟨L, hL, hsp, hnil⟩ := hrun.inUse
  cases List.mem_singleton.1 hL
  exact ⟨hsp, hnil⟩

theorem relay_servers_current_replaced :
    ((start resolvesAll "a,b" false).run plainCmds
        [.recv resolvesAll, .command 0 "rs c", .accept]).relayServers.Subperm
        ((start resolvesAll "a,b" false).run plainCmds
          [.recv resolvesAll, .command 0 "rs c", .accept]).relayServers0 ∧
      (((start resolvesAll "a,b" false).run plainCmds
          [.recv resolvesAll, .command 0 "rs c", .accept]).relayServers = [] →
        ((start resolvesAll "a,b" false).run plainCmds
          [.recv resolvesAll, .command 0 "rs c", .accept]).relayServers0 = []) := by
  refine relay_servers_current plainCmds resolvesAll "a,b" false _ fun e past hs hconf => ?_
  obtain heq | hs := List.suffix_cons_iff.1 hs
  · obtain ⟨-, rfl⟩ := List.cons.inj heq
    refine ⟨fun _ => rfl, fun rs hrs => ?_⟩
    have hch : ((start resolvesAll "a,b" false).run plainCmds
        [.command 0 "rs c", .accept]).channel = [.relayServers0 "c"] := by decide
    rw [hch] at hrs
    simp at hrs
  · obtain heq | hs := List.suffix_cons_iff.1 hs
    · obtain ⟨rfl, -⟩ := List.cons.inj heq
      exact absurd rfl hconf
    · obtain heq | hs := List.suffix_cons_iff.1 hs
      · obtain ⟨rfl, -⟩ := List.cons.inj heq
        exact absurd rfl hconf
      · exact absurd (List.suffix_nil.1 hs) (List.cons_ne_nil _ _)

/-- No check is started for a list of at most one server, so nothing changes the lists. -/
structure Settled (l l0 : List String) (s : RelayLoop) : Prop where
  quiet : s.Quiet
  inUse : s.relayServers = l
  configured : s.relayServers0 = l0

theorem Settled.step {l l0 : List String} (h : Settled l l0 s) (hlen : l0.length ≤ 1)
    {e : LoopEvent} (he : s.configuration e = none) : Settled l l0 (s.step D e) := by
  have h0 : (s.step D e).relayServers0 = l0 := (relayServers0_step he).trans h.configured
  suffices hs : (s.step D e).Quiet ∧ (s.step D e).relayServers = l from ⟨hs.1, hs.2, h0⟩
  have hasked : ∀ copy, (s.getRelayServer copy).2.Quiet ∧
      (s.getRelayServer copy).2.relayServers = l := by
    intro copy
    obtain ⟨n, hn⟩ := getRelayServer_snd (s := s) copy
    rw [hn]
    exact ⟨⟨h.quiet.checks, h.quiet.reports⟩, h.inUse⟩
  cases e with
  | accept => exact ⟨⟨h.quiet.checks, h.quiet.reports⟩, h.inUse⟩
  | tick =>
    show s.tick.Quiet ∧ s.tick.relayServers = l
    rw [RelayLoop.tick, if_neg (by rw [h.configured]; omega)]
    exact ⟨h.quiet, h.inUse⟩
  | dialed k i connects =>
    show (s.dialed k i connects).Quiet ∧ (s.dialed k i connects).relayServers = l
    rw [RelayLoop.dialed, h.quiet.checks k]
    exact ⟨h.quiet, h.inUse⟩
  | joined k =>
    show (s.joined k).Quiet ∧ (s.joined k).relayServers = l
    rw [RelayLoop.joined, h.quiet.checks k]
    exact ⟨h.quiet, h.inUse⟩
  | recv resolve =>
    show (s.recv resolve).Quiet ∧ (s.recv resolve).relayServers = l
    cases hch : s.channel with
    | nil =>
      rw [RelayLoop.recv, hch]
      exact ⟨h.quiet, h.inUse⟩
    | cons d rest =>
      cases d with
      | relayServers0 rs =>
        rw [configuration, hch] at he
        cases he
      | relayServers rs => exact absurd (hch ▸ List.mem_cons_self) (h.quiet.reports rs)
  | command c cmd =>
    rw [step_command]
    split
    · exact ⟨h.quiet, h.inUse⟩
    · next copy _ =>
      cases hturn : takesTurn D cmd with
      | true =>
        rw [checkCmd_of_takesTurn hturn]
        exact hasked copy
      | false =>
        obtain heq | ⟨rs, heq⟩ | ⟨b, heq⟩ := checkCmd_cases (s := s) copy hturn
        · rw [heq]
          exact ⟨h.quiet, h.inUse⟩
        · rw [heq]
          refine ⟨⟨h.quiet.checks, fun rs' hrs' => ?_⟩, h.inUse⟩
          simp only [List.mem_append, List.mem_singleton, reduceCtorEq, or_false] at hrs'
          exact h.quiet.reports rs' hrs'
        · rw [heq]
          exact ⟨⟨h.quiet.checks, h.quiet.reports⟩, h.inUse⟩
  | request c =>
    rw [step_request]
    split
    · exact ⟨h.quiet, h.inUse⟩
    · exact hasked _

theorem Settled.run {l l0 : List String} (h : Settled l l0 s) (hlen : l0.length ≤ 1)
    {events : List LoopEvent}
    (he : ∀ e past, e :: past <:+ events → (s.run D past).configuration e = none) :
    Settled l l0 (s.run D events) := by
  induction events with
  | nil => exact h
  | cons e past ih =>
    have hpast := ih fun e' past' hsuffix => he e' past' (hsuffix.trans (List.suffix_cons e past))
    exact hpast.step hlen (he e past List.suffix_rfl)

/-- The loop once it has received a configuration, and then what a check that was under way has
reached. -/
theorem settled_overtaken {k : ℕ} {reached : List String} {text : String}
    (hchecks : ∀ j, s.checks j = if j = k then some ⟨[], reached⟩ else none)
    (hreached : reached ≠ []) (hchannel : s.channel = [.relayServers0 text])
    (resolve resolve' : Resolver) :
    Settled reached (getServers resolve text)
      (s.run D [.recv resolve', .joined k, .recv resolve]) := by
  have hrecv : s.recv resolve =
      { s with channel := [], relayServers0 := getServers resolve text,
               relayServers := getServers resolve text } := by
    rw [RelayLoop.recv, hchannel]
    rfl
  have hjoined : (s.recv resolve).joined k =
      { s.recv resolve with checks := s.checks.remove k, channel := [.relayServers reached] } := by
    rw [RelayLoop.joined, hrecv]
    simp [hchecks, hreached]
  have hrun : s.run D [.recv resolve', .joined k, .recv resolve] =
      ((s.recv resolve).joined k).recv resolve' := rfl
  rw [hrun, hjoined, RelayLoop.recv, hrecv]
  refine ⟨⟨fun j => ?_, fun rs => List.not_mem_nil⟩, rfl, rfl⟩
  show s.checks.remove k j = none
  rw [Table.remove_apply]
  by_cases hj : j = k
  · rw [if_pos hj]
  · rw [if_neg hj, hchecks, if_neg hj]

/-- A check of two servers is over, and the one server that replaces them is in the channel. -/
def overtaken : RelayLoop :=
  (start resolvesAll "a,b" false).run plainCmds
    [.command 0 "rs c", .accept, .dialed 0 0 fun _ => true, .dialed 0 0 fun _ => true, .tick]

end RelayLoop

end Rendezvous

end NemoServer
