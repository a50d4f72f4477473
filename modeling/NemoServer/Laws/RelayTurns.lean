import NemoServer.Foundations.RoundRobin
import NemoServer.Laws.RelayServers
import NemoServer.Server.System

/-!
# Taking turns among the relay servers

* `relay_servers_take_turns`: while one list is in use, each of its servers is handed out its share
  of the times.
* `RelayLoop.Follows.step`: to the tasks of hbbs the main loop is part of their environment.
-/

set_option autoImplicit false

namespace NemoServer

namespace Rendezvous

namespace RelayLoop

variable {D : CmdDeps} {s : RelayLoop}

/-! ## Turns -/

/-- The counter moves when a server is asked for, and only then. -/
theorem rotation_step (e : LoopEvent) : (s.step D e).rotation =
    (s.asked D e).elim s.rotation fun l => (s.getRelayServer l).2.rotation := by
  cases e with
  | accept => rfl
  | tick => exact tick_keeps.rotation
  | dialed k i connects => exact (dialed_keeps k i connects).rotation
  | joined k => exact (joined_keeps k).rotation
  | recv resolve => exact recv_rotation resolve
  | command c cmd =>
    rw [step_command]
    cases hturn : takesTurn D cmd with
    | true =>
      rw [RelayLoop.asked, if_pos hturn]
      cases s.copies c with
      | none => rfl
      | some copy => exact congrArg rotation (checkCmd_of_takesTurn hturn)
    | false =>
      rw [RelayLoop.asked, if_neg (by rw [hturn]; exact Bool.false_ne_true)]
      cases s.copies c with
      | none => rfl
      | some copy =>
        obtain heq | ⟨rs, heq⟩ | ⟨b, heq⟩ := checkCmd_cases (s := s) copy hturn
        all_goals
          dsimp only
          rw [heq]
          rfl
  | request c =>
    rw [step_request]
    rw [RelayLoop.asked]
    cases s.listOf c with
    | none => rfl
    | some l => rfl

theorem getRelayServer_turn {l : List String} (hl : 1 < l.length) :
    some (s.getRelayServer l).1 = RoundRobin.turn l s.rotation ∧
      (s.getRelayServer l).2.rotation = (s.rotation + 1) % 2 ^ 64 := by
  have hlt : s.rotation % l.length < l.length := Nat.mod_lt _ (by omega)
  have hne : ¬l.isEmpty = true := by
    rw [List.isEmpty_iff]
    rintro rfl
    simp at hl
  rw [getRelayServer, if_neg hne, if_neg (by omega), RoundRobin.turn]
  refine ⟨?_, rfl⟩
  rw [List.getD_eq_getElem _ _ hlt, List.getElem?_eq_getElem hlt]

theorem rotation_lt (h : s.rotation < 2 ^ 64) (events : List LoopEvent) :
    (s.run D events).rotation < 2 ^ 64 := by
  induction events with
  | nil => exact h
  | cons e past ih =>
    show ((s.run D past).step D e).rotation < 2 ^ 64
    rw [rotation_step]
    cases (s.run D past).asked D e with
    | none => exact ih
    | some l =>
      show ((s.run D past).getRelayServer l).2.rotation < 2 ^ 64
      unfold getRelayServer
      split
      · exact ih
      · split
        · exact ih
        · exact Nat.mod_lt _ (by decide)

/-- While one list is asked, its servers are returned in turn. -/
theorem answers_turns {l : List String} (hl : 1 < l.length) (hrot : s.rotation < 2 ^ 64)
    {events : List LoopEvent}
    (h : ∀ e past, e :: past <:+ events → ∀ l', (s.run D past).asked D e = some l' → l' = l)
    (hwrap : s.rotation + (answers D s events).length ≤ 2 ^ 64 ∨ l.length ∣ 2 ^ 64) :
    (s.run D events).rotation = (s.rotation + (answers D s events).length) % 2 ^ 64 ∧
      (answers D s events).map some =
        (RoundRobin.turns l s.rotation (answers D s events).length).reverse := by
  induction events with
  | nil => exact ⟨(Nat.mod_eq_of_lt hrot).symm, rfl⟩
  | cons e past ih =>
    have hpast : ∀ e' past', e' :: past' <:+ past → ∀ l',
        (s.run D past').asked D e' = some l' → l' = l :=
      fun e' past' hsuffix => h e' past' (hsuffix.trans (List.suffix_cons e past))
    have hstep : (s.run D (e :: past)).rotation = _ := rotation_step (s := s.run D past) e
    rw [hstep]
    show _ ∧ ((((s.run D past).answer D e).toList ++ answers D s past).map some) = _
    simp only [answers, answer] at hwrap ⊢
    cases hasked : (s.run D past).asked D e with
    | none =>
      rw [hasked] at hwrap
      exact ih hpast hwrap
    | some l' =>
      cases h e past List.suffix_rfl l' hasked
      rw [hasked] at hwrap
      simp only [Option.map_some, Option.toList_some, List.singleton_append, List.length_cons,
        List.map_cons] at hwrap ⊢
      have hpastwrap : s.rotation + (answers D s past).length ≤ 2 ^ 64 ∨ l.length ∣ 2 ^ 64 :=
        hwrap.imp_left fun hle => by omega
      obtain ⟨hturn, hanswers⟩ := ih hpast hpastwrap
      obtain ⟨hserver, hnext⟩ := getRelayServer_turn (s := s.run D past) hl
      refine ⟨?_, ?_⟩
      · rw [Option.elim_some, hnext, hturn, Nat.mod_add_mod, Nat.add_assoc]
      · -- the counter has the place in the list, also past the end of its range
        have hplace : (s.run D past).rotation % l.length =
            (s.rotation + (answers D s past).length) % l.length := by
          rw [hturn]
          rcases hwrap with hle | hdvd
          · have hlt : s.rotation + (answers D s past).length < 2 ^ 64 := by omega
            rw [Nat.mod_eq_of_lt hlt]
          · exact Nat.mod_mod_of_dvd _ hdvd
        rw [RoundRobin.turns_succ, List.reverse_append, List.reverse_singleton,
          List.singleton_append, hserver, RoundRobin.turn_of_modEq hplace, hanswers]

/-- Over any stretch of a run in which only one list is asked, each of its servers is returned its
share of the times, to within one round; the counter must not start over in it, unless the number
of servers is a power of two. -/
theorem relay_servers_take_turns (D : CmdDeps) (resolve : Resolver) (text : String) (b : Bool)
    (earlier later : List LoopEvent) (l : List String) (hl : 1 < l.length)
    (h : ∀ e past, e :: past <:+ later → ∀ l',
      (((start resolve text b).run D earlier).run D past).asked D e = some l' → l' = l)
    (hwrap : ((start resolve text b).run D earlier).rotation +
        (answers D ((start resolve text b).run D earlier) later).length ≤ 2 ^ 64 ∨
      l.length ∣ 2 ^ 64) (r : String) :
    (answers D ((start resolve text b).run D earlier) later).length / l.length * l.count r ≤
        (answers D ((start resolve text b).run D earlier) later).count r ∧
      (answers D ((start resolve text b).run D earlier) later).count r ≤
        ((answers D ((start resolve text b).run D earlier) later).length / l.length + 1) *
          l.count r := by
  have hstart : (start resolve text b).rotation < 2 ^ 64 := by
    show 0 < 2 ^ 64
    decide
  obtain ⟨-, hanswers⟩ := answers_turns hl (rotation_lt hstart earlier) h hwrap
  have hcount : (answers D ((start resolve text b).run D earlier) later).count r =
      (RoundRobin.turns l ((start resolve text b).run D earlier).rotation
        (answers D ((start resolve text b).run D earlier) later).length).count (some r) := by
    rw [← List.count_map_of_injective _ _ (Option.some_injective String), hanswers,
      List.count_reverse]
  rw [hcount]
  exact RoundRobin.count_turns _ _ r

theorem relay_servers_take_turns_pair :
    (answers plainCmds ((start resolvesAll "a,b" false).run plainCmds [])
          [.request none, .request none]).length / ["a", "b"].length * ["a", "b"].count "a" ≤
        (answers plainCmds ((start resolvesAll "a,b" false).run plainCmds [])
          [.request none, .request none]).count "a" ∧
      (answers plainCmds ((start resolvesAll "a,b" false).run plainCmds [])
          [.request none, .request none]).count "a" ≤
        ((answers plainCmds ((start resolvesAll "a,b" false).run plainCmds [])
          [.request none, .request none]).length / ["a", "b"].length + 1) *
          ["a", "b"].count "a" := by
  refine relay_servers_take_turns plainCmds resolvesAll "a,b" false [] _ ["a", "b"] (by decide)
    (fun e past hs l' hl' => ?_) (.inr (by decide)) "a"
  obtain heq | hs := List.suffix_cons_iff.1 hs
  · obtain ⟨rfl, rfl⟩ := List.cons.inj heq
    exact (Option.some.inj hl').symm
  · obtain heq | hs := List.suffix_cons_iff.1 hs
    · obtain ⟨rfl, rfl⟩ := List.cons.inj heq
      exact (Option.some.inj hl').symm
    · exact absurd (List.suffix_nil.1 hs) (List.cons_ne_nil _ _)

/-! ## The loop and the tasks -/

/-- hbbs as its tasks see it has what the loop has. -/
structure Follows (t : Server) (s : RelayLoop) : Prop where
  relayServers : t.relayServers = s.relayServers
  alwaysUseRelay : t.alwaysUseRelay = s.alwaysUseRelay
  rotation : t.rotation = s.rotation

variable {t : Server}

/-- `get_relay_server` of the tasks is that of the loop. -/
theorem Follows.getRelayServer (h : Follows t s) (l : List String) :
    (t.getRelayServer l).1 = (s.getRelayServer l).1 ∧
      Follows (t.getRelayServer l).2 (s.getRelayServer l).2 := by
  obtain ⟨h1, h2, h3⟩ := h
  rcases l with _ | ⟨r, _ | ⟨r', rest⟩⟩
  · exact ⟨rfl, h1, h2, h3⟩
  · exact ⟨rfl, h1, h2, h3⟩
  · have hserver : (t.getRelayServer (r :: r' :: rest)).1 =
        (s.getRelayServer (r :: r' :: rest)).1 := by
      show (r :: r' :: rest).getD (t.rotation % _) "" = (r :: r' :: rest).getD (s.rotation % _) ""
      rw [h3]
    refine ⟨hserver, h1, h2, ?_⟩
    show (t.rotation + 1) % 2 ^ 64 = (s.rotation + 1) % 2 ^ 64
    rw [h3]

/-- The other steps of the loop are actions of the environment of the tasks. -/
theorem Follows.step (h : Follows t s) (X : Setup) (e : LoopEvent) :
    ∃ t', Follows t' (s.step D e) ∧
      (t' = t ∨ (∃ a, Server.act X a t = some t') ∨ ∃ l, s.asked D e = some l ∧
        t' = (t.getRelayServer l).2) := by
  have hkeeps : ∀ s', Keeps s s' → Follows t s' := by
    intro s' hk
    exact ⟨h.relayServers.trans hk.relayServers.symm,
      h.alwaysUseRelay.trans hk.alwaysUseRelay.symm, h.rotation.trans hk.rotation.symm⟩
  cases e with
  | accept => exact ⟨t, ⟨h.relayServers, h.alwaysUseRelay, h.rotation⟩, .inl rfl⟩
  | tick => exact ⟨t, hkeeps _ tick_keeps, .inl rfl⟩
  | dialed k i connects => exact ⟨t, hkeeps _ (dialed_keeps k i connects), .inl rfl⟩
  | joined k => exact ⟨t, hkeeps _ (joined_keeps k), .inl rfl⟩
  | recv resolve =>
    have hflag : (s.recv resolve).alwaysUseRelay = s.alwaysUseRelay := by
      unfold RelayLoop.recv
      split <;> rfl
    exact ⟨{ t with relayServers := (s.recv resolve).relayServers },
      ⟨rfl, h.alwaysUseRelay.trans hflag.symm, h.rotation.trans (recv_rotation resolve).symm⟩,
      .inr (.inl ⟨.setRelayServers (s.recv resolve).relayServers, rfl⟩)⟩
  | command c cmd =>
    rw [step_command, RelayLoop.asked]
    cases s.copies c with
    | none => exact ⟨t, h, .inl rfl⟩
    | some copy =>
      cases hturn : takesTurn D cmd with
      | true =>
        refine ⟨(t.getRelayServer copy).2, ?_, .inr (.inr ⟨copy, if_pos rfl, rfl⟩)⟩
        dsimp only
        rw [checkCmd_of_takesTurn hturn]
        exact (h.getRelayServer copy).2
      | false =>
        obtain heq | ⟨rs, heq⟩ | ⟨b, heq⟩ := checkCmd_cases (s := s) copy hturn
        · dsimp only
          rw [heq]
          exact ⟨t, h, .inl rfl⟩
        · dsimp only
          rw [heq]
          exact ⟨t, ⟨h.relayServers, h.alwaysUseRelay, h.rotation⟩, .inl rfl⟩
        · dsimp only
          rw [heq]
          exact ⟨{ t with alwaysUseRelay := b }, ⟨h.relayServers, rfl, h.rotation⟩,
            .inr (.inl ⟨.setAlwaysUseRelay b, rfl⟩)⟩
  | request c =>
    rw [step_request]
    cases hl : s.listOf c with
    | none => exact ⟨t, h, .inl rfl⟩
    | some l => exact ⟨_, (h.getRelayServer l).2, .inr (.inr ⟨l, hl, rfl⟩)⟩

end RelayLoop

end Rendezvous

end NemoServer
