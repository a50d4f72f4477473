import NemoServer.Server.Verified

/-!
# Connections and their tasks

A connection has one task at a time: a handshake, then its frames one after the other. `Connected`
is the invariant of the pool that ties them together: while a task runs, the connection it serves
is held for it, under the address and the identity the task goes by.
-/

set_option autoImplicit false

namespace NemoServer

open Prog Management Rendezvous

variable {X : Setup} {C : List Step → Pool Op Op.Res Server Job → Choice Job Env → Prop}
  {l : List Step} {p : Pool Op Op.Res Server Job}

/-! ## The operations on a connection -/

/-- The connection an operation may change. -/
def Op.touches : Op → Option ConnId
  | .parkSink c _ => some c
  | .finishHandshake c _ _ => some c
  | .resume c => some c
  | .close c => some c
  | .abandon c => some c
  | _ => none

theorem setConn_of_ne {s : Server} {c d : ConnId} {f : Conn → Conn} (h : d ≠ c) :
    (s.setConn c f).conns d = s.conns d := if_neg h

theorem setConn_self {s : Server} {c : ConnId} {f : Conn → Conn} :
    (s.setConn c f).conns c = (s.conns c).map f := if_pos rfl

theorem parkSink_conns (s : Server) (c : ConnId) (addr : SocketAddr) :
    (s.parkSink X c addr).conns = s.conns ∨
      (s.parkSink X c addr).conns = (s.setConn c fun w => { w with sink := false }).conns := by
  unfold Server.parkSink
  split
  · split
    · exact .inr rfl
    · exact .inl rfl
  · exact .inl rfl

theorem finishHandshake_conns (s : Server) (c : ConnId) (authed : Option AuthedDevice)
    (secured : Bool) :
    (s.finishHandshake X c authed secured).1 = false ∧
      (s.finishHandshake X c authed secured).2 = s ∨
    (s.finishHandshake X c authed secured).1 = true ∧
      (authed = none → s.cfg.requireDeviceKey = false) ∧
      (s.finishHandshake X c authed secured).2 =
        s.setConn c fun w => { w with authed := authed, phase := .busy } := by
  unfold Server.finishHandshake
  split
  · exact .inl ⟨rfl, rfl⟩
  · next hkey =>
    split
    · exact .inl ⟨rfl, rfl⟩
    · refine .inr ⟨rfl, ?_, rfl⟩
      rintro rfl
      simpa using hkey

theorem close_conns (s : Server) (c : ConnId) :
    (s.close X c).conns = (s.setConn c fun w => { w with phase := .closed }).conns := by
  unfold Server.close
  split
  · simp only
    split <;> rfl
  · next hc =>
    funext d
    by_cases hd : d = c
    · subst hd
      rw [setConn_self, hc]
      rfl
    · rw [setConn_of_ne hd]

/-- An operation on one connection leaves the others alone. -/
theorem sem_conns_of_ne {o : Op} {s : Server} {d : ConnId} (h : o.touches ≠ some d) :
    (Op.sem X o s).2.conns d = s.conns d := by
  cases o with
  | parkSink c addr =>
    have hne : d ≠ c := fun heq => h (heq ▸ rfl)
    obtain heq | heq := parkSink_conns (X := X) s c addr
    · exact congrFun heq d
    · exact (congrFun heq d).trans (setConn_of_ne hne)
  | finishHandshake c authed secured =>
    have hne : d ≠ c := fun heq => h (heq ▸ rfl)
    obtain ⟨-, heq⟩ | ⟨-, -, heq⟩ := finishHandshake_conns (X := X) s c authed secured
    · exact congrFun (congrArg Server.conns heq) d
    · exact (congrFun (congrArg Server.conns heq) d).trans (setConn_of_ne hne)
  | resume c => exact setConn_of_ne fun heq => h (heq ▸ rfl)
  | close c =>
    have hne : d ≠ c := fun heq => h (heq ▸ rfl)
    exact (congrFun (close_conns s c) d).trans (setConn_of_ne hne)
  | abandon c => exact setConn_of_ne fun heq => h (heq ▸ rfl)
  | dispatch c authed msg => rfl
  | _ => exact congrFun (sem_conns (by simp [Op.kind]) (by simp [Op.kind]) (by simp [Op.kind])) d

/-- No operation makes a connection. -/
theorem sem_conns_none {o : Op} {s : Server} {c : ConnId} (h : s.conns c = none) :
    (Op.sem X o s).2.conns c = none := by
  have hset : ∀ f, (s.setConn c f).conns c = none := fun f => setConn_self.trans (by rw [h]; rfl)
  by_cases ht : o.touches = some c
  · cases o with
    | parkSink d addr =>
      obtain rfl := Option.some.inj ht
      obtain heq | heq := parkSink_conns (X := X) s d addr
      · exact (congrFun heq d).trans h
      · exact (congrFun heq d).trans (hset _)
    | finishHandshake d authed secured =>
      obtain rfl := Option.some.inj ht
      obtain ⟨-, heq⟩ | ⟨-, -, heq⟩ := finishHandshake_conns (X := X) s d authed secured
      · exact (congrFun (congrArg Server.conns heq) d).trans h
      · exact (congrFun (congrArg Server.conns heq) d).trans (hset _)
    | resume d => exact Option.some.inj ht ▸ hset _
    | close d =>
      obtain rfl := Option.some.inj ht
      exact (congrFun (close_conns s d) d).trans (hset _)
    | abandon d => exact Option.some.inj ht ▸ hset _
    | _ => cases ht
  · exact (sem_conns_of_ne ht).trans h

theorem Job.conn_of_handling {j : Job} {h : Handling} (hj : j.handling = some h) :
    j.conn = some h.conn := by
  unfold Job.handling at hj
  split at hj
  · cases hj; rfl
  · cases hj; rfl
  · cases hj

/-- A task changes only the connection it serves. -/
theorem conn_of_touches {j : Job} {past : Past} {o : Op} {c : ConnId} (h : OpRule X j past o)
    (ho : o.touches = some c) : j.conn = some c := by
  cases o with
  | parkSink d addr =>
    obtain ⟨h, q, hj, -, rfl, -⟩ := h
    exact (Job.conn_of_handling hj).trans ho
  | finishHandshake d authed secured =>
    obtain ⟨-, self, reply, rfl, -⟩ := h
    exact ho
  | resume d => exact h.1.trans ho
  | close d => exact h.1.trans ho
  | abandon d => exact h.trans ho
  | _ => cases ho

/-! ## The stages of a connection -/

/-- How the connection `c` is held for the task `j` that has made the calls `past`. -/
def Stage (X : Setup) (past : Past) (c : ConnId) (w : Conn) : Job → Prop
  | .handshake _ self _ => w.task = self ∧
      ((∀ authed, ¬ LetIn X past c authed) ∧ w.phase = .handshaking ∧ w.authed = none ∨
        ∃ authed, LetIn X past c authed ∧ w.phase = .busy ∧ w.authed = authed)
  | .frame _ self authed _ => w.task = self ∧ w.phase = .busy ∧ w.authed = authed
  | _ => w.phase = .busy

theorem Stage.phase {past : Past} {c : ConnId} {w : Conn} {j : Job} (h : Stage X past c w j) :
    w.phase = .handshaking ∨ w.phase = .busy := by
  cases j with
  | handshake d self reply =>
    obtain ⟨-, ⟨-, hp, -⟩ | ⟨authed, -, hp, -⟩⟩ := h
    · exact .inl hp
    · exact .inr hp
  | frame d self authed msg => exact .inr h.2.1
  | _ => exact .inr h

/-- The stage is a matter of the task, the phase, the identity and what let the connection in. -/
theorem Stage.congr {past past' : Past} {c : ConnId} {w w' : Conn} {j : Job}
    (h : Stage X past c w j) (htask : w'.task = w.task) (hphase : w'.phase = w.phase)
    (hauthed : w'.authed = w.authed)
    (hin : ∀ authed, LetIn X past' c authed ↔ LetIn X past c authed) : Stage X past' c w' j := by
  cases j with
  | handshake d self reply => simpa only [Stage, htask, hphase, hauthed, hin] using h
  | frame d self authed msg => simpa only [Stage, htask, hphase, hauthed] using h
  | _ => exact hphase.trans h

theorem letIn_cons {past : Past} {o : Op} {s : Server} {c : ConnId}
    (h : ∀ authed secured, o ≠ .finishHandshake c authed secured) (authed : Option AuthedDevice) :
    LetIn X (⟨o, s⟩ :: past) c authed ↔ LetIn X past c authed := by
  constructor
  · rintro ⟨secured, s', hm, hr⟩
    rcases List.mem_cons.1 hm with heq | hm
    · exact absurd (Call.mk.inj heq).1.symm (h authed secured)
    · exact ⟨secured, s', hm, hr⟩
  · rintro ⟨secured, s', hm, hr⟩
    exact ⟨secured, s', List.mem_cons_of_mem _ hm, hr⟩

/-- One operation of the task that serves a connection, if it is not its last. -/
theorem stage_step {j : Job} {past : Past} {o : Op} {s : Server} {c : ConnId} {w : Conn}
    (hrule : OpRule X j past o) (hlast : o.kind ≠ .final) (hj : j.conn = some c)
    (hc : s.conns c = some w) (h : Stage X past c w j) :
    ∃ w', (Op.sem X o s).2.conns c = some w' ∧ Stage X (⟨o, s⟩ :: past) c w' j := by
  by_cases ht : o.touches = some c
  · cases o with
    | parkSink d addr =>
      obtain rfl := Option.some.inj ht
      have hin : ∀ authed, LetIn X (⟨.parkSink d addr, s⟩ :: past) d authed ↔
          LetIn X past d authed := letIn_cons (by simp)
      obtain heq | heq := parkSink_conns (X := X) s d addr
      · exact ⟨w, (congrFun heq d).trans hc, h.congr rfl rfl rfl hin⟩
      · refine ⟨{ w with sink := false }, ?_, h.congr rfl rfl rfl hin⟩
        exact (congrFun heq d).trans (setConn_self.trans (by rw [hc]; rfl))
    | finishHandshake d authed secured =>
      obtain rfl := Option.some.inj ht
      obtain ⟨hgate, self, reply, rfl, -⟩ := hrule
      have hnot : ∀ authed', ¬ LetIn X past d authed' :=
        fun _ ⟨_, _, hm, _⟩ => hgate _ hm rfl
      obtain ⟨htask, ⟨-, hphase, hauthed⟩ | ⟨authed', hin, -⟩⟩ := h
      · obtain ⟨hres, heq⟩ | ⟨hres, -, heq⟩ := finishHandshake_conns (X := X) s d authed secured
        · refine ⟨w, (congrFun (congrArg Server.conns heq) d).trans hc, htask, .inl ⟨?_, hphase,
            hauthed⟩⟩
          rintro authed' ⟨secured', s', hm, hr⟩
          rcases List.mem_cons.1 hm with heq' | hm
          · obtain ⟨hop, rfl⟩ := Call.mk.inj heq'
            obtain ⟨-, rfl, rfl⟩ := Op.finishHandshake.inj hop
            rw [hres] at hr
            cases hr
          · exact hnot authed' ⟨secured', s', hm, hr⟩
        · refine ⟨{ w with authed := authed, phase := .busy }, ?_, htask, .inr ⟨authed,
            ⟨secured, s, List.mem_cons_self, hres⟩, rfl, rfl⟩⟩
          exact (congrFun (congrArg Server.conns heq) d).trans (setConn_self.trans (by rw [hc]; rfl))
      · exact absurd hin (hnot authed')
    | resume d => exact absurd rfl hlast
    | close d => exact absurd rfl hlast
    | abandon d => exact absurd rfl hlast
    | _ => cases ht
  · refine ⟨w, (sem_conns_of_ne ht).trans hc, h.congr rfl rfl rfl (letIn_cons ?_)⟩
    rintro authed secured rfl
    exact ht rfl

/-! ## The invariant -/

/-- Each connection that is being served is held for the one task that serves it. -/
structure Connected (X : Setup) (p : Pool Op Op.Res Server Job) : Prop where
  serves : ∀ n L c, p.live n = some L → L.job.conn = some c →
    ∃ w, p.shared.conns c = some w ∧ Stage X L.past c w L.job
  alone : ∀ n m L L' c, p.live n = some L → p.live m = some L' → L.job.conn = some c →
    L'.job.conn = some c → n = m
  unused : ∀ c, p.shared.nextConn ≤ c → p.shared.conns c = none

/-- A task starts on a new connection, or on an idle one, and holds it. -/
theorem beginJob_conns {j : Job} {s s' : Server} (h : s.beginJob j = some s') {c : ConnId}
    (hj : j.conn = some c) :
    (s.nextConn ≤ c ∧ s'.nextConn = c + 1 ∨
      (∃ w, s.conns c = some w ∧ w.phase = .idle) ∧ s'.nextConn = s.nextConn) ∧
      (∃ w, s'.conns c = some w ∧ Stage X [] c w j) ∧ ∀ d, d ≠ c → s'.conns d = s.conns d := by
  cases j with
  | handshake d self reply =>
    obtain rfl := Option.some.inj hj
    simp only [Server.beginJob, Option.ite_none_right_eq_some] at h
    obtain ⟨⟨hnew, -⟩, h⟩ := h
    obtain rfl := Option.some.inj h
    refine ⟨.inl ⟨hnew.ge, by rw [hnew]⟩, ⟨_, Table.insert_self _ _ _, rfl, .inl ⟨?_, rfl, rfl⟩⟩,
      fun e hne => Table.insert_of_ne _ _ hne⟩
    rintro authed ⟨secured, s', hm, -⟩
    cases hm
  | frame d self authed msg =>
    obtain rfl := Option.some.inj hj
    simp only [Server.beginJob] at h
    split at h
    · next w hw =>
      simp only [Option.ite_none_right_eq_some] at h
      obtain ⟨⟨hidle, htask, hauthed⟩, h⟩ := h
      obtain rfl := Option.some.inj h
      refine ⟨.inr ⟨⟨w, hw, hidle⟩, rfl⟩, ⟨{ w with phase := .busy }, ?_, htask, rfl, hauthed⟩,
        fun e hne => setConn_of_ne hne⟩
      exact setConn_self.trans (by rw [hw]; rfl)
    · cases h
  | hangup d =>
    obtain rfl := Option.some.inj hj
    simp only [Server.beginJob] at h
    split at h
    · next w hw =>
      simp only [Option.ite_none_right_eq_some] at h
      obtain ⟨hidle, h⟩ := h
      obtain rfl := Option.some.inj h
      refine ⟨.inr ⟨⟨w, hw, hidle⟩, rfl⟩, ⟨{ w with phase := .busy }, ?_, rfl⟩,
        fun e hne => setConn_of_ne hne⟩
      exact setConn_self.trans (by rw [hw]; rfl)
    · cases h
  | _ => cases hj

theorem beginJob_none {j : Job} {s s' : Server} (h : s.beginJob j = some s')
    (hj : j.conn = none) : s' = s := by
  cases j with
  | handshake => cases hj
  | frame => cases hj
  | hangup => cases hj
  | datagram self msg =>
    simp only [Server.beginJob, Option.ite_none_right_eq_some] at h
    exact (Option.some.inj h.2).symm
  | _ => exact (Option.some.inj h).symm

theorem connected_start {q : Pool Op Op.Res Server Job} {j : Job} {s : Server}
    (h : Connected X q) (hs : q.shared.beginJob j = some s) :
    Connected X ⟨s, Function.update q.live q.fresh (System.keep ⟨j, [], j.code X⟩),
      q.fresh + 1⟩ := by
  rcases hj : j.conn with _ | c
  · obtain rfl := beginJob_none hs hj
    refine ⟨fun n L d hL hd => ?_, fun n m L L' d hL hL' hd hd' => ?_, h.unused⟩
    · obtain ⟨-, rfl⟩ | ⟨-, hL⟩ := System.live_update hL
      · cases hj.symm.trans hd
      · exact h.serves n L d hL hd
    · obtain ⟨-, rfl⟩ | ⟨-, hL⟩ := System.live_update hL
      · cases hj.symm.trans hd
      · obtain ⟨-, rfl⟩ | ⟨-, hL'⟩ := System.live_update hL'
        · cases hj.symm.trans hd'
        · exact h.alone n m L L' d hL hL' hd hd'
  · obtain ⟨hwas, hnow, hothers⟩ := beginJob_conns (X := X) hs hj
    -- no running task serves the connection
    have hfree : ∀ n L, q.live n = some L → L.job.conn ≠ some c := by
      intro n L hL hc
      obtain ⟨w, hw, hst⟩ := h.serves n L c hL hc
      obtain ⟨hle, -⟩ | ⟨⟨w', hw', hidle⟩, -⟩ := hwas
      · cases (h.unused c hle).symm.trans hw
      · obtain rfl := Option.some.inj (hw.symm.trans hw')
        rcases hst.phase with hp | hp <;> cases hp.symm.trans hidle
    refine ⟨fun n L d hL hd => ?_, fun n m L L' d hL hL' hd hd' => ?_, fun d hd => ?_⟩
    · obtain ⟨-, rfl⟩ | ⟨-, hL⟩ := System.live_update hL
      · obtain rfl := Option.some.inj (hj.symm.trans hd)
        exact hnow
      · obtain ⟨w, hw, hst⟩ := h.serves n L d hL hd
        have hne : d ≠ c := fun heq => hfree n L hL (heq ▸ hd)
        exact ⟨w, (hothers d hne).trans hw, hst⟩
    · obtain ⟨rfl, rfl⟩ | ⟨-, hL⟩ := System.live_update hL <;>
        obtain ⟨rfl, rfl⟩ | ⟨-, hL'⟩ := System.live_update hL'
      · rfl
      · exact absurd (hd'.trans (hd.symm.trans hj)) (hfree m L' hL')
      · exact absurd (hd.trans (hd'.symm.trans hj)) (hfree n L hL)
      · exact h.alone n m L L' d hL hL' hd hd'
    · have hd : s.nextConn ≤ d := hd
      obtain ⟨hle, hnext⟩ | ⟨⟨w, hw, -⟩, hnext⟩ := hwas
      · have hne : d ≠ c := by omega
        exact (hothers d hne).trans (h.unused d (by omega))
      · have hunused := h.unused d (by omega)
        have hne : d ≠ c := by
          rintro rfl
          cases hunused.symm.trans hw
        exact (hothers d hne).trans hunused

theorem connected (hr : (hbbs X).Run Server.Booted C l p) : Connected X p := by
  induction hr using System.Run.induct with
  | hboot s hs =>
    refine ⟨fun n L c hL => (nomatch hL), fun n m L L' c hL => (nomatch hL), fun c _ => ?_⟩
    exact congrFun hs.conns c
  | hstart l p j s hr hc hs ih => exact connected_start ih hs
  | hstep l p n j past o k hr hc hl ih =>
    have hv := hbbs_verified X
    have hr' := System.Run.next hr hc (System.advance_step hl)
    have hrule := hr'.guarantee hv n j past o _ List.mem_cons_self
    refine ⟨fun m L c hL hc => ?_, fun m m' L L' c hL hL' hc hc' => ?_, fun c hle => ?_⟩
    · -- a task that is still running has not made its last call
      obtain ⟨o', hlacks, -⟩ := hr'.live_guarantee hv hL
      obtain ⟨rfl, rfl⟩ | ⟨hne, hL⟩ := System.live_update hL
      · obtain ⟨w, hw, hst⟩ := ih.serves m _ c hl hc
        exact stage_step hrule.2 (hlacks _ List.mem_cons_self) hc hw hst
      · obtain ⟨w, hw, hst⟩ := ih.serves m L c hL hc
        refine ⟨w, (sem_conns_of_ne fun ht => hne ?_).trans hw, hst⟩
        exact ih.alone m n L _ c hL hl hc (conn_of_touches hrule.2 ht)
    · -- either task ran before, with the same job
      have hran : ∀ {i L}, Function.update p.live n (System.keep ⟨j, ⟨o, p.shared⟩ :: past,
          k (Op.sem X o p.shared).1⟩) i = some L →
          ∃ L₀, p.live i = some L₀ ∧ L₀.job = L.job := by
        intro i L hL
        obtain ⟨rfl, rfl⟩ | ⟨-, hL⟩ := System.live_update hL
        · exact ⟨_, hl, rfl⟩
        · exact ⟨L, hL, rfl⟩
      obtain ⟨L₀, hL₀, heq⟩ := hran hL
      obtain ⟨L₁, hL₁, heq'⟩ := hran hL'
      exact ih.alone m m' L₀ L₁ c hL₀ hL₁ (heq ▸ hc) (heq' ▸ hc')
    · exact sem_conns_none (ih.unused c (sem_nextConn (X := X) (o := o) ▸ hle))
  | henv l p e s hr hc hs ih =>
    have heq := Server.act_eq hs
    have hconns : s.conns = p.shared.conns := (congrArg Server.conns heq).trans rfl
    have hnext : s.nextConn = p.shared.nextConn := (congrArg Server.nextConn heq).trans rfl
    refine ⟨fun n L c hL hj => ?_, ih.alone, fun c hle => ?_⟩
    · obtain ⟨w, hw, hst⟩ := ih.serves n L c hL hj
      exact ⟨w, (congrFun hconns c).trans hw, hst⟩
    · exact (congrFun hconns c).trans (ih.unused c (hnext ▸ hle))
  | hcrash l p hr hc ih =>
    exact ⟨fun n L c hL => (nomatch hL), fun n m L L' c hL => (nomatch hL), fun c _ => rfl⟩

/-! ## Connections in service -/

/-- The connection `c` has been let in as `authed`, and is not closed. -/
def Serving (s : Server) (c : ConnId) (authed : Option AuthedDevice) : Prop :=
  ∃ w, s.conns c = some w ∧ (w.phase = .idle ∨ w.phase = .busy) ∧ w.authed = authed

/-- No task that starts lets a connection in. -/
theorem serving_beginJob {j : Job} {s s' : Server} {c : ConnId} {authed : Option AuthedDevice}
    (h : s.beginJob j = some s') (hs : Serving s' c authed) : Serving s c authed := by
  obtain ⟨w, hw, hphase, hauthed⟩ := hs
  -- a connection that turns busy was idle
  have hbusy : ∀ d w₀, s.conns d = some w₀ → w₀.phase = .idle →
      (s.setConn d fun w => { w with phase := .busy }).conns c = some w → Serving s c authed := by
    intro d w₀ hd hidle hset
    by_cases hc : c = d
    · subst hc
      rw [setConn_self, hd] at hset
      obtain rfl := Option.some.inj hset
      exact ⟨w₀, hd, .inl hidle, hauthed⟩
    · rw [setConn_of_ne hc] at hset
      exact ⟨w, hset, hphase, hauthed⟩
  cases j with
  | handshake d self reply =>
    simp only [Server.beginJob, Option.ite_none_right_eq_some] at h
    obtain ⟨-, h⟩ := h
    obtain rfl := Option.some.inj h
    simp only [Table.insert_eq_some] at hw
    obtain ⟨rfl, rfl⟩ | ⟨-, hw⟩ := hw
    · rcases hphase with hp | hp <;> cases hp
    · exact ⟨w, hw, hphase, hauthed⟩
  | frame d self authed' msg =>
    simp only [Server.beginJob] at h
    split at h
    · next w₀ hd =>
      simp only [Option.ite_none_right_eq_some] at h
      obtain ⟨⟨hidle, -⟩, h⟩ := h
      obtain rfl := Option.some.inj h
      exact hbusy d w₀ hd hidle hw
    · cases h
  | hangup d =>
    simp only [Server.beginJob] at h
    split at h
    · next w₀ hd =>
      simp only [Option.ite_none_right_eq_some] at h
      obtain ⟨hidle, h⟩ := h
      obtain rfl := Option.some.inj h
      exact hbusy d w₀ hd hidle hw
    · cases h
  | _ =>
    rw [beginJob_none h rfl] at hw
    exact ⟨w, hw, hphase, hauthed⟩

/-- A connection comes into service by the end of its handshake only, unless there is no key
exchange and it proves nothing. -/
theorem serving_step {authed : Option AuthedDevice} (hmode : X.mode = .off → authed ≠ none)
    (hr : (hbbs X).Run Server.Booted C l p) {n : ℕ} {j : Job} {past : Past} {o : Op}
    {k : Op.Res o → Handler Unit} (hl : p.live n = some ⟨j, past, .call o k⟩)
    (hrule : OpRule X j past o) {c : ConnId} (hs : Serving (Op.sem X o p.shared).2 c authed) :
    Serving p.shared c authed ∨ ∃ secured, o = .finishHandshake c authed secured ∧
      (p.shared.finishHandshake X c authed secured).1 = true := by
  obtain ⟨w, hw, hphase, hauthed⟩ := hs
  by_cases ht : o.touches = some c
  · -- the task that acts on the connection serves it
    obtain ⟨w₀, hw₀, hst⟩ := (connected hr).serves n _ c hl (conn_of_touches hrule ht)
    have hset : ∀ {s' : Server} {f : Conn → Conn}, s'.conns = (p.shared.setConn c f).conns →
        s'.conns c = some w → w = f w₀ := by
      intro s' f heq hw
      rw [heq, setConn_self, hw₀] at hw
      exact (Option.some.inj hw).symm
    cases o with
    | parkSink d addr =>
      obtain rfl := Option.some.inj ht
      obtain heq | heq := parkSink_conns (X := X) p.shared d addr
      · exact .inl ⟨w, (congrFun heq d).symm.trans hw, hphase, hauthed⟩
      · obtain rfl := hset heq hw
        exact .inl ⟨w₀, hw₀, hphase, hauthed⟩
    | finishHandshake d authed' secured =>
      obtain rfl := Option.some.inj ht
      obtain ⟨-, heq⟩ | ⟨hres, -, heq⟩ :=
        finishHandshake_conns (X := X) p.shared d authed' secured
      · exact .inl ⟨w, (congrFun (congrArg Server.conns heq) d).symm.trans hw, hphase, hauthed⟩
      · obtain rfl := hset (congrArg Server.conns heq) hw
        obtain rfl := hauthed
        exact .inr ⟨secured, rfl, hres⟩
    | resume d =>
      obtain rfl := Option.some.inj ht
      obtain rfl := hset rfl hw
      refine .inl ⟨w₀, hw₀, .inr ?_, hauthed⟩
      obtain ⟨hconn, -, hin⟩ := hrule
      cases j with
      | handshake e self reply =>
        obtain rfl := Option.some.inj hconn
        obtain ⟨-, ⟨hnot, -, hnone⟩ | ⟨authed', -, hbusy, -⟩⟩ := hst
        · obtain hoff | ⟨authed', hin⟩ := hin e self reply rfl
          · exact absurd (hauthed.symm.trans hnone) (hmode hoff)
          · exact absurd hin (hnot authed')
        · exact hbusy
      | frame e self authed' msg => exact hst.2.1
      | _ => exact hst
    | close d =>
      obtain rfl := Option.some.inj ht
      obtain rfl := hset (close_conns p.shared d) hw
      rcases hphase with hp | hp <;> cases hp
    | abandon d =>
      obtain rfl := Option.some.inj ht
      obtain rfl := hset rfl hw
      rcases hphase with hp | hp <;> cases hp
    | _ => cases ht
  · exact .inl ⟨w, (sem_conns_of_ne ht).symm.trans hw, hphase, hauthed⟩

theorem serving_advance {authed : Option AuthedDevice} (hmode : X.mode = .off → authed ≠ none)
    (hr : (hbbs X).Run Server.Booted C l p) {ch : Choice Job Env} (hc : C l p ch) {i : Step}
    {p' : Pool Op Op.Res Server Job} (ha : (hbbs X).advance p ch = some (i, p')) {c : ConnId}
    (hs : Serving p'.shared c authed) : Serving p.shared c authed ∨
      ∃ n j past secured, i = .step n j past (.finishHandshake c authed secured) p.shared ∧
        (p.shared.finishHandshake X c authed secured).1 = true := by
  have hrule := (System.Run.next hr hc ha).guarantee (hbbs_verified X)
  cases ch with
  | start j =>
    obtain ⟨s, hs', heq⟩ := Option.map_eq_some_iff.1 ha
    obtain ⟨-, rfl⟩ := Prod.mk.inj heq
    exact .inl (serving_beginJob hs' hs)
  | step n =>
    simp only [System.advance] at ha
    split at ha
    · next j past o k hl =>
      obtain ⟨rfl, rfl⟩ := Prod.mk.inj (Option.some.inj ha)
      obtain hs | ⟨secured, rfl, hres⟩ := serving_step hmode hr hl
        (hrule n j past o p.shared List.mem_cons_self).2 hs
      · exact .inl hs
      · exact .inr ⟨n, j, past, secured, rfl, hres⟩
    · cases ha
  | env e =>
    obtain ⟨s, hs', heq⟩ := Option.map_eq_some_iff.1 ha
    obtain ⟨-, rfl⟩ := Prod.mk.inj heq
    have hconns : s.conns = p.shared.conns :=
      (congrArg Server.conns (Server.act_eq hs')).trans rfl
    obtain ⟨w, hw, hserve⟩ := hs
    exact .inl ⟨w, hconns ▸ hw, hserve⟩
  | crash =>
    obtain ⟨-, rfl⟩ := Prod.mk.inj (Option.some.inj ha)
    obtain ⟨w, hw, -⟩ := hs
    cases hw

end NemoServer
