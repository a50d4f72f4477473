import NemoServer.Management.Stamps

/-!
# Revocation stamps over crashes

What a restart reads back is at least every stamp that was returned, as long as the writes of
the calls do not get into each other's way: none begins while another one is on its way, none puts
an older copy in place of a newer one, and no crash comes between the beginning and the end of one.
`set_peer_terminate` sees to none of the three.

* `Stage`: how far a call has come.
* `Durable`: the invariant of the runs, one case for a file that is whole and one for a file that a
  single call is writing.
-/

set_option autoImplicit false

namespace NemoServer

namespace Management

open Prog

variable {J : StampJson}

abbrev StampItem := Item StampOp StampState String ℕ
abbrev StampPool := Pool StampOp StampOp.Res StampState String

/-- Every stamp of one map is no later than that of another. -/
def NoLater (map map' : List (String × ℕ)) : Prop := ∀ t, stampOf map t ≤ stampOf map' t

/-- A call has emptied the file, and not written all of its text. -/
def Writing (p : StampPool) : Prop :=
  ∃ n L off c k, p.live n = some L ∧ L.rest = .call (.writeAt off c) k

/-- The writes do not get into each other's way: a call only opens the file while no other call
writes it, and not to replace later stamps; and no crash comes while a call writes. -/
def Careful (J : StampJson) (_ : List StampItem) (p : StampPool) : Choice String ℕ → Prop
  | .step n => ∀ L snapshot, p.live n = some L → L.rest = persistStamps J L.job snapshot →
    ¬Writing p ∧ NoLater (J.load p.shared.file) snapshot
  | .crash => ¬Writing p
  | _ => True

/-! ## How far a call has come -/

variable (J) in
/-- A call is to make its copy, or to write it, or has written it up to some character. -/
inductive Stage (id : String) : StampHandler Unit → Prop
  | start : Stage id (setPeerTerminate J id)
  | ready (snapshot : List (String × ℕ)) : Stage id (persistStamps J id snapshot)
  | writes (snapshot : List (String × ℕ)) (off : ℕ) (h : off ≤ (J.text snapshot).length) :
    Stage id (resumeAt J id snapshot off)

/-- The call has written its copy, and is to return. -/
def Written (J : StampJson) (p : StampPool) (snapshot : List (String × ℕ)) : Prop :=
  ∃ n L, p.live n = some L ∧ L.rest = resumeAt J L.job snapshot (J.text snapshot).length

/-- A call has returned with this copy. -/
def Returned (l : List StampItem) (snapshot : List (String × ℕ)) : Prop :=
  ∃ n j past id s, .step n j past (.returned id snapshot) s ∈ l

/-- The invariant: the file is whole and holds what was written, or one call is writing it, up to
some character, and will put there what was written. -/
structure Durable (J : StampJson) (l : List StampItem) (p : StampPool) : Prop where
  stage : ∀ n L, p.live n = some L → Stage J L.job L.rest
  file : (¬Writing p ∧ ∀ m, Returned l m ∨ Written J p m → NoLater m (J.load p.shared.file)) ∨
    ∃ n L snapshot off, p.live n = some L ∧ off < (J.text snapshot).length ∧
      L.rest = resumeAt J L.job snapshot off ∧
      (∀ n' L' off' c k, p.live n' = some L' → L'.rest = .call (.writeAt off' c) k → n' = n) ∧
      p.shared.file = some ((J.text snapshot).take off) ∧
      ∀ m, Returned l m ∨ Written J p m → NoLater m snapshot

theorem NoLater.refl (map : List (String × ℕ)) : NoLater map map := fun _ => Nat.le_refl _

theorem NoLater.trans {m m' m'' : List (String × ℕ)} (h : NoLater m m') (h' : NoLater m' m'') :
    NoLater m m'' := fun t => (h t).trans (h' t)

theorem resumeAt_writeAt {id : String} {snapshot : List (String × ℕ)} {off off' : ℕ} {c : Char}
    {k : Unit → StampHandler Unit} (hoff : off ≤ (J.text snapshot).length)
    (h : resumeAt J id snapshot off = .call (.writeAt off' c) k) :
    off < (J.text snapshot).length := by
  refine lt_of_le_of_ne hoff fun heq => ?_
  rw [heq, resumeAt_length] at h
  cases h

/-- A call that is written is at its end, and has one copy. -/
theorem resumeAt_eq_end {id : String} {m m' : List (String × ℕ)} {off : ℕ}
    (hoff : off ≤ (J.text m).length)
    (h : resumeAt J id m off = resumeAt J id m' (J.text m').length) : m' = m := by
  rw [resumeAt_length] at h
  by_cases hlt : off < (J.text m).length
  · rw [resumeAt_lt hlt] at h
    cases h
  · rw [show off = (J.text m).length by omega, resumeAt_length] at h
    cases h
    rfl

/-! ## One step -/

section Step

variable {l l' : List StampItem} {p : StampPool} {n f : ℕ} {s : StampState}
  {L L' : Live StampOp StampOp.Res StampState String}

theorem writing_update (h : Writing ⟨s, Function.update p.live n (System.keep L'), f⟩) :
    (∃ off c k, L'.rest = .call (.writeAt off c) k) ∨
      ∃ n' L off c k, n' ≠ n ∧ p.live n' = some L ∧ L.rest = .call (.writeAt off c) k := by
  obtain ⟨m, L₁, off, c, k, hL, hrest⟩ := h
  obtain ⟨rfl, rfl⟩ | ⟨hne, hL⟩ := System.live_update hL
  · exact .inl ⟨off, c, k, hrest⟩
  · exact .inr ⟨m, L₁, off, c, k, hne, hL, hrest⟩

theorem written_update {m : List (String × ℕ)}
    (h : Written J ⟨s, Function.update p.live n (System.keep L'), f⟩ m) :
    L'.rest = resumeAt J L'.job m (J.text m).length ∨ Written J p m := by
  obtain ⟨n', L₁, hL, hrest⟩ := h
  obtain ⟨rfl, rfl⟩ | ⟨-, hL⟩ := System.live_update hL
  · exact .inl hrest
  · exact .inr ⟨n', L₁, hL, hrest⟩

theorem stage_update (h : ∀ n L, p.live n = some L → Stage J L.job L.rest)
    (hL' : System.keep L' = none ∨ Stage J L'.job L'.rest) :
    ∀ m L, (⟨s, Function.update p.live n (System.keep L'), f⟩ : StampPool).live m = some L →
      Stage J L.job L.rest := by
  intro m L₁ hL
  obtain ⟨rfl, rfl⟩ | ⟨-, hL⟩ := System.live_update hL
  · obtain hnone | hstage := hL'
    · simp [hnone] at hL
    · exact hstage
  · exact h m L₁ hL

/-- A task that writes nothing, before or after, leaves the file as it was. -/
theorem Durable.idle (h : Durable J l p)
    (hidle : ∀ L off c k, p.live n = some L → L.rest ≠ .call (.writeAt off c) k)
    (hidle' : ∀ off c k, L'.rest ≠ .call (.writeAt off c) k)
    (hstage : System.keep L' = none ∨ Stage J L'.job L'.rest) (hfile : s.file = p.shared.file)
    (hkept : ∀ m, Returned l' m ∨ L'.rest = resumeAt J L'.job m (J.text m).length →
      Returned l m ∨ Written J p m) :
    Durable J l' ⟨s, Function.update p.live n (System.keep L'), f⟩ := by
  have hold : ∀ m, Returned l' m ∨ Written J ⟨s, Function.update p.live n (System.keep L'), f⟩ m →
      Returned l m ∨ Written J p m := by
    rintro m (hm | hm)
    · exact hkept m (.inl hm)
    · obtain hm | hm := written_update hm
      · exact hkept m (.inr hm)
      · exact .inr hm
  refine ⟨stage_update h.stage hstage, ?_⟩
  obtain ⟨hquiet, hload⟩ | ⟨n₀, L₀, m₀, off₀, hL₀, hlt, hrest, hone, hfile₀, hkept₀⟩ := h.file
  · refine .inl ⟨fun hw => ?_, fun m hm => ?_⟩
    · obtain ⟨off, c, k, hw⟩ | ⟨n', L₁, off, c, k, -, hL, hw⟩ := writing_update hw
      · exact hidle' off c k hw
      · exact hquiet ⟨n', L₁, off, c, k, hL, hw⟩
    · rw [hfile]
      exact hload m (hold m hm)
  · have hne : n₀ ≠ n := by
      rintro rfl
      exact hidle L₀ _ _ _ hL₀ (hrest.trans (resumeAt_lt hlt))
    refine .inr ⟨n₀, L₀, m₀, off₀, ?_, hlt, hrest, ?_, hfile.trans hfile₀,
      fun m hm => hkept₀ m (hold m hm)⟩
    · exact (Function.update_of_ne hne _ _).trans hL₀
    · intro n' L₁ off c k hL hw
      obtain ⟨rfl, rfl⟩ | ⟨-, hL⟩ := System.live_update hL
      · exact absurd hw (hidle' off c k)
      · exact hone n' L₁ off c k hL hw

theorem keep_call {o : StampOp} {k : o.Res → StampHandler Unit} (h : L'.rest = .call o k) :
    System.keep L' = some L' := by
  unfold System.keep
  rw [h]

theorem keep_resumeAt {m : List (String × ℕ)} {off : ℕ} (hoff : off ≤ (J.text m).length)
    (h : L'.rest = resumeAt J L'.job m off) : System.keep L' = some L' := by
  by_cases hlt : off < (J.text m).length
  · exact keep_call (h.trans (resumeAt_lt hlt))
  · rw [show off = (J.text m).length by omega] at h
    exact keep_call (h.trans (resumeAt_length _ _))

/-- The file holds the text of a call up to where the call has come, and no other call writes. -/
theorem durable_of_writer (hJ : ∀ m, J.parse (J.text m) = some m) (h : Durable J l p)
    {m : List (String × ℕ)} {off : ℕ} (hoff : off ≤ (J.text m).length)
    (hrest : L'.rest = resumeAt J L'.job m off) (hfile : s.file = some ((J.text m).take off))
    (hothers : ∀ n' L off c k, n' ≠ n → p.live n' = some L → L.rest ≠ .call (.writeAt off c) k)
    (hkept : ∀ m', Returned l' m' ∨ Written J p m' → NoLater m' m) :
    Durable J l' ⟨s, Function.update p.live n (System.keep L'), f⟩ := by
  have hold : ∀ m', Returned l' m' ∨
      Written J ⟨s, Function.update p.live n (System.keep L'), f⟩ m' → NoLater m' m := by
    rintro m' (hm | hm)
    · exact hkept m' (.inl hm)
    · obtain hm | hm := written_update hm
      · rw [resumeAt_eq_end hoff (hrest.symm.trans hm)]
        exact NoLater.refl m
      · exact hkept m' (.inr hm)
  refine ⟨stage_update h.stage (.inr (hrest ▸ .writes m off hoff)), ?_⟩
  by_cases hlt : off < (J.text m).length
  · refine .inr ⟨n, L', m, off, ?_, hlt, hrest, ?_, hfile, hold⟩
    · exact (Function.update_self ..).trans (keep_resumeAt hoff hrest)
    · intro n' L₁ off' c k hL hw
      obtain ⟨rfl, -⟩ | ⟨hne, hL⟩ := System.live_update hL
      · rfl
      · exact absurd hw (hothers n' L₁ off' c k hne hL)
  · have hend : off = (J.text m).length := by omega
    refine .inl ⟨fun hw => ?_, fun m' hm' => ?_⟩
    · obtain ⟨off', c, k, hw⟩ | ⟨n', L₁, off', c, k, hne, hL, hw⟩ := writing_update hw
      · exact hlt (resumeAt_writeAt hoff (hrest.symm.trans hw))
      · exact hothers n' L₁ off' c k hne hL hw
    · change NoLater m' (J.load s.file)
      rw [hfile, hend, List.take_length, StampJson.load, Option.bind_some, hJ]
      exact hold m' hm'

end Step

/-! ## Over the runs -/

theorem returned_cons {l : List StampItem} {i : StampItem} {m : List (String × ℕ)}
    (hi : ∀ n j past id s, i ≠ .step n j past (.returned id m) s) (h : Returned (i :: l) m) :
    Returned l m := by
  obtain ⟨n, j, past, id, s, hmem⟩ := h
  obtain heq | hmem := List.mem_cons.1 hmem
  · exact absurd heq.symm (hi n j past id s)
  · exact ⟨n, j, past, id, s, hmem⟩

/-- The tasks after a step of task `n`, which is left with `rest`. -/
def stepped (p : StampPool) (n : ℕ) (j : String) (past : List (Call StampOp StampState))
    (o : StampOp) (rest : StampHandler Unit) : StampPool :=
  ⟨(StampOp.sem o p.shared).2,
    Function.update p.live n (System.keep ⟨j, ⟨o, p.shared⟩ :: past, rest⟩), p.fresh⟩

section Calls

variable {l : List StampItem} {p : StampPool} {n : ℕ} {j : String}
  {past : List (Call StampOp StampState)} {m : List (String × ℕ)}

/-- The call marks the machine, and has its copy. -/
theorem Durable.stamped (h : Durable J l p)
    (hl : p.live n = some ⟨j, past, setPeerTerminate J j⟩) :
    Durable J (.step n j past (.stamp j) p.shared :: l)
      (stepped p n j past (.stamp j) (persistStamps J j m)) := by
  refine h.idle ?_ ?_ (.inr (.ready _)) rfl ?_
  · intro L off c k hL hrest
    obtain rfl := Option.some.inj (hl.symm.trans hL)
    rw [setPeerTerminate_eq] at hrest
    cases hrest
  · intro off c k hrest
    cases hrest
  · rintro m' (hm | hm)
    · exact .inl (returned_cons (by simp) hm)
    · simp only [persistStamps_eq, resumeAt_length] at hm
      cases hm

/-- The call empties the file. No other one writes it, so the file was whole; and the copy is no
older than what was in it. -/
theorem Durable.created (hJ : ∀ m, J.parse (J.text m) = some m) (h : Durable J l p)
    (hc : Careful J l p (.step n)) (hl : p.live n = some ⟨j, past, persistStamps J j m⟩) :
    Durable J (.step n j past .create p.shared :: l)
      (stepped p n j past .create (resumeAt J j m 0)) := by
  obtain ⟨hquiet, hlater⟩ := hc _ m hl rfl
  obtain ⟨-, hload⟩ | ⟨n₀, L₀, m₀, off₀, hL₀, hlt, hrest₀, -⟩ := h.file
  · refine durable_of_writer hJ h (Nat.zero_le _) rfl rfl ?_ ?_
    · exact fun n' L off c k _ hL hw => hquiet ⟨n', L, off, c, k, hL, hw⟩
    · intro m' hm
      exact (hload m' (hm.imp_left (returned_cons (by simp)))).trans hlater
  · exact absurd ⟨n₀, L₀, off₀, _, _, hL₀, hrest₀.trans (resumeAt_lt hlt)⟩ hquiet

/-- The call writes a character: it is the one that writes the file. -/
theorem Durable.wrote (hJ : ∀ m, J.parse (J.text m) = some m) (h : Durable J l p) {off : ℕ}
    {c : Char} {k : Unit → StampHandler Unit}
    (hl : p.live n = some ⟨j, past, .call (.writeAt off c) k⟩) :
    Durable J (.step n j past (.writeAt off c) p.shared :: l)
      (stepped p n j past (.writeAt off c) (k ())) := by
  obtain ⟨hquiet, -⟩ | ⟨n₀, L₀, m₀, off₀, hL₀, hlt₀, hrest₀, hone, hfile, hkept⟩ := h.file
  · exact absurd ⟨n, _, off, _, _, hl, rfl⟩ hquiet
  · obtain rfl := hone n _ off _ _ hl rfl
    obtain rfl := Option.some.inj (hl.symm.trans hL₀)
    simp only [resumeAt_lt hlt₀] at hrest₀
    cases hrest₀
    refine durable_of_writer hJ h (Nat.succ_le_of_lt hlt₀) rfl ?_ ?_ ?_
    · simp only [StampOp.sem, hfile, Option.getD_some, writeChar_take hlt₀]
    · exact fun n' L off' c k hne hL hw => hne (hone n' L off' c k hL hw)
    · exact fun m' hm => hkept m' (hm.imp_left (returned_cons (by simp)))

/-- The call returns, and had written its copy. -/
theorem Durable.finished (h : Durable J l p)
    (hl : p.live n = some ⟨j, past, resumeAt J j m (J.text m).length⟩) :
    Durable J (.step n j past (.returned j m) p.shared :: l)
      (stepped p n j past (.returned j m) (.ret ())) := by
  refine h.idle ?_ ?_ (.inl rfl) rfl ?_
  · intro L off c k hL hrest
    obtain rfl := Option.some.inj (hl.symm.trans hL)
    rw [resumeAt_length] at hrest
    cases hrest
  · intro off c k hrest
    cases hrest
  · rintro m' (⟨n', j', past', id', s', hmem⟩ | hm)
    · obtain heq | hmem := List.mem_cons.1 hmem
      · cases heq
        exact .inr ⟨n, _, hl, rfl⟩
      · exact .inl ⟨n', j', past', id', s', hmem⟩
    · simp only [resumeAt_length] at hm
      cases hm

end Calls

theorem not_writing_of_none {s : StampState} {f : ℕ} : ¬Writing ⟨s, fun _ => none, f⟩ := by
  rintro ⟨n, L, off, c, k, hL, -⟩
  cases hL

theorem durable_run (hJ : ∀ m, J.parse (J.text m) = some m) {l : List StampItem} {p : StampPool}
    (hr : (stamps J).Run (StampState.Booted J) (Careful J) l p) : Durable J l p := by
  induction hr using System.Run.induct with
  | hboot s hs =>
    refine ⟨by simp [System.boot], .inl ⟨not_writing_of_none, ?_⟩⟩
    rintro m (⟨n, j, past, id, s, hmem⟩ | ⟨n, L, hL, -⟩)
    · cases hmem
    · cases hL
  | hstart l p j s hr _ hs ih =>
    obtain rfl := Option.some.inj hs
    refine ih.idle ?_ ?_ (.inr .start) rfl ?_
    · intro L off c k hL
      have := hr.lt_fresh.1 p.fresh L hL
      omega
    · intro off c k h
      cases h
    · rintro m (hm | hm)
      · exact .inl (returned_cons (by simp) hm)
      · simp only [resumeAt_length] at hm
        cases hm
  | hstep l p n j past o k _ hc hl ih =>
    have hstage : Stage J j (.call o k) := ih.stage n _ hl
    generalize hrest : Prog.call o k = rest at hstage
    rw [hrest] at hl
    cases hstage with
    | start =>
      rw [setPeerTerminate_eq] at hrest
      cases hrest
      exact ih.stamped hl
    | ready snapshot =>
      rw [persistStamps_eq] at hrest
      cases hrest
      exact ih.created hJ hc hl
    | writes snapshot off hoff =>
      by_cases hlt : off < (J.text snapshot).length
      · rw [resumeAt_lt hlt] at hrest
        cases hrest
        rw [resumeAt_lt hlt] at hl
        exact ih.wrote hJ hl
      · obtain rfl : off = (J.text snapshot).length := by omega
        rw [resumeAt_length] at hrest
        cases hrest
        exact ih.finished hl
  | henv l p e s _ _ hs ih =>
    obtain rfl := Option.some.inj hs
    refine ⟨ih.stage, ?_⟩
    obtain ⟨hquiet, hload⟩ | ⟨n₀, L₀, m₀, off₀, hL₀, hlt, hrest, hone, hfile₀, hkept₀⟩ := ih.file
    · exact .inl ⟨hquiet, fun m hm => hload m (hm.imp_left (returned_cons (by simp)))⟩
    · exact .inr ⟨n₀, L₀, m₀, off₀, hL₀, hlt, hrest, hone, hfile₀,
        fun m hm => hkept₀ m (hm.imp_left (returned_cons (by simp)))⟩
  | hcrash l p _ hc ih =>
    refine ⟨by simp, .inl ⟨not_writing_of_none, ?_⟩⟩
    obtain ⟨-, hload⟩ | ⟨n₀, L₀, m₀, off₀, hL₀, hlt, hrest, -⟩ := ih.file
    · rintro m (hm | ⟨n, L, hL, -⟩)
      · exact hload m (.inl (returned_cons (by simp) hm))
      · cases hL
    · exact absurd ⟨n₀, L₀, off₀, _, _, hL₀, hrest.trans (resumeAt_lt hlt)⟩ hc

/-- As long as the writes do not get into each other's way, a restart reads back at least what every
call that had returned was told, for its own machine and for all others. -/
theorem stamps_durable (J : StampJson) (hJ : ∀ m, J.parse (J.text m) = some m)
    (l : List StampItem) (p : StampPool)
    (hr : (stamps J).Run (StampState.Booted J) (Careful J) l p) (s : StampState)
    (l' : List StampItem) (hs : (.crash s :: l') <:+ l) (m : List (String × ℕ))
    (hret : Returned l' m) : NoLater m (J.load s.file) := by
  obtain ⟨q, c, q', hq, hc, ha, -, hpre⟩ := hr.before _ _ hs
  have hcrash : c = .crash := System.advance_choice ha
  subst hcrash
  obtain ⟨-, hload⟩ | ⟨n₀, L₀, m₀, off₀, hL₀, hlt, hrest, -⟩ := (durable_run hJ hq).file
  · have hfile := hload m (.inl hret)
    rwa [hpre] at hfile
  · exact absurd ⟨n₀, L₀, off₀, _, _, hL₀, hrest.trans (resumeAt_lt hlt)⟩ hc

namespace Sample

/-! ### A format for maps -/

/-- A map in letters: `k` begins a key, each character of it after a `c`, `v` begins a number in
unary, `;` ends it, and `.` ends the map. -/
def stampText : List (String × ℕ) → List Char
  | [] => ['.']
  | (k, v) :: map => 'k' :: (k.toList.flatMap fun c => ['c', c]) ++ 'v' ::
      (List.replicate v '1' ++ ';' :: stampText map)

/-- Where a reader of such a text stands. -/
inductive Place
  | between
  | key (k : List Char)
  | value (k : List Char) (v : ℕ)

def stampParse : Place → List Char → Option (List (String × ℕ))
  | .between, ['.'] => some []
  | .between, 'k' :: cs => stampParse (.key []) cs
  | .key k, 'c' :: c :: cs => stampParse (.key (k ++ [c])) cs
  | .key k, 'v' :: cs => stampParse (.value k 0) cs
  | .value k v, '1' :: cs => stampParse (.value k (v + 1)) cs
  | .value k v, ';' :: cs => (stampParse .between cs).map ((String.ofList k, v) :: ·)
  | _, _ => none

theorem stampParse_key (k ks rest : List Char) :
    stampParse (.key k) ((ks.flatMap fun c => ['c', c]) ++ 'v' :: rest) =
      stampParse (.value (k ++ ks) 0) rest := by
  induction ks generalizing k with
  | nil => simp [stampParse]
  | cons c ks ih =>
    have := ih (k ++ [c])
    rw [List.append_assoc, List.singleton_append] at this
    simpa [stampParse] using this

theorem stampParse_value (k : List Char) (v n : ℕ) (rest : List Char) :
    stampParse (.value k v) (List.replicate n '1' ++ ';' :: rest) =
      (stampParse .between rest).map ((String.ofList k, v + n) :: ·) := by
  induction n generalizing v with
  | zero => simp [stampParse]
  | succ n ih =>
    rw [List.replicate_succ, List.cons_append, stampParse, ih]
    rw [show v + 1 + n = v + (n + 1) by omega]

theorem stampParse_stampText (map : List (String × ℕ)) :
    stampParse .between (stampText map) = some map := by
  induction map with
  | nil => rfl
  | cons kv map ih =>
    obtain ⟨k, v⟩ := kv
    rw [stampText, List.cons_append, stampParse, stampParse_key, stampParse_value, ih]
    simp

def stampJson : StampJson := ⟨stampText, stampParse .between⟩

/-! ### Runs -/

/-- A server without a file, in its first second. -/
def noStamps : StampState := ⟨[], none, 1⟩

/-- A call runs to its end. -/
def stampA : List (Choice String ℕ) := .start "a" :: List.replicate 10 (.step 0)

/-- A second call empties the file, and the server crashes. -/
def crashInWrite : List (Choice String ℕ) := stampA ++ [.start "b", .step 1, .step 1, .crash]

/-- The task is about to write a character. -/
def isWriting : Option (Live StampOp StampOp.Res StampState String) → Bool
  | some ⟨_, _, .call (.writeAt _ _) _⟩ => true
  | _ => false

/-- The task is about to open the file. -/
def isOpening : Option (Live StampOp StampOp.Res StampState String) → Bool
  | some ⟨_, _, .call .create _⟩ => true
  | _ => false

/-- Nobody writes, and a task that opens the file finds nothing in it. -/
def mayAct (p : StampPool) : Choice String ℕ → Bool
  | .step n => !isOpening (p.live n) || (p.shared.file.isNone &&
      (List.range p.fresh).all fun n' => !isWriting (p.live n'))
  | .crash => (List.range p.fresh).all fun n' => !isWriting (p.live n')
  | _ => true

theorem not_writing {C : List StampItem → StampPool → Choice String ℕ → Prop}
    {l : List StampItem} {p : StampPool}
    (hr : (stamps stampJson).Run (StampState.Booted stampJson) C l p)
    (h : ((List.range p.fresh).all fun n' => !isWriting (p.live n')) = true) : ¬Writing p := by
  rintro ⟨n, ⟨j, past, rest⟩, off, c, k, hL, hrest⟩
  have hlt := hr.lt_fresh.1 n _ hL
  have hn := List.all_eq_true.1 h n (List.mem_range.2 hlt)
  simp only at hrest
  rw [hL, hrest] at hn
  cases hn

theorem careful_of_mayAct {l : List StampItem} {p : StampPool} {c : Choice String ℕ}
    (hr : (stamps stampJson).Run (StampState.Booted stampJson) (Careful stampJson) l p)
    (h : mayAct p c = true) : Careful stampJson l p c := by
  cases c with
  | start j => trivial
  | env e => trivial
  | crash => exact not_writing hr h
  | step n =>
    rintro ⟨j, past, rest⟩ snapshot hL hrest
    simp only at hrest
    rw [persistStamps_eq] at hrest
    rw [mayAct, hL, hrest] at h
    obtain ⟨hfile, hall⟩ := Bool.and_eq_true_iff.1 h
    refine ⟨not_writing hr hall, fun t => ?_⟩
    rw [Option.isNone_iff_eq_none.1 hfile]
    exact Nat.zero_le _

/-- A call has returned with a stamp, and then the server has crashed. -/
def showsCrash : List StampItem → Bool
  | .crash _ :: .step _ _ _ (.returned id m) _ :: _ => stampOf m id == 1
  | _ => false

/-- A call has returned with a stamp, and after a crash the stamp is gone. -/
def showsLost : List StampItem → Bool
  | [.crash s, _, _, _, .step _ _ _ (.returned id m) _, _, _, _, _, _, _, _, _, _, _] =>
    stampOf m id == 1 && stampOf (stampJson.load s.file) id == 0
  | _ => false

end Sample

/-- A stamp that is read back after a crash. -/
theorem stamps_durable_crash : ∃ (m : List (String × ℕ)) (s : StampState) (id : String),
    stampOf m id = 1 ∧ NoLater m (Sample.stampJson.load s.file) := by
  have hboot : Sample.noStamps.Booted Sample.stampJson := rfl
  have hr := (System.Run.boot hboot).execIf (S := stamps Sample.stampJson)
    (fun l p c hr h => Sample.careful_of_mayAct hr h) (Sample.stampA ++ [.crash])
  have ht : Sample.showsCrash ((stamps Sample.stampJson).execIf Sample.mayAct
    (Sample.stampA ++ [.crash]) [] (System.boot Sample.noStamps)).1 = true := by decide +kernel
  generalize ((stamps Sample.stampJson).execIf Sample.mayAct (Sample.stampA ++ [.crash]) []
    (System.boot Sample.noStamps)) = res at hr ht
  obtain ⟨l, p⟩ := res
  simp only at hr ht
  unfold Sample.showsCrash at ht
  split at ht
  next s n j past id m s' l' =>
    exact ⟨m, s, id, beq_iff_eq.1 ht, stamps_durable _ Sample.stampParse_stampText _ p hr s _
      List.suffix_rfl m ⟨n, j, past, id, s', List.mem_cons_self⟩⟩
  next => cases ht

/-- A crash while another call writes takes the stamps of every machine. -/
theorem not_stamps_durable : ¬∀ (J : StampJson), (∀ m, J.parse (J.text m) = some m) →
    ∀ (l : List StampItem) (p : StampPool),
    (stamps J).Run (StampState.Booted J) System.Free l p →
    ∀ s l', (.crash s :: l') <:+ l → ∀ m, Returned l' m → NoLater m (J.load s.file) := by
  intro h
  have hboot : Sample.noStamps.Booted Sample.stampJson := rfl
  obtain ⟨l, p, hr, ht⟩ := System.exists_run (S := stamps Sample.stampJson) hboot
    Sample.crashInWrite (fun l _ => Sample.showsLost l) (by decide +kernel)
  unfold Sample.showsLost at ht
  split at ht
  next s i₁ i₂ i₃ n j past id m s' _ _ _ _ _ _ _ _ _ _ =>
    obtain ⟨hone, hzero⟩ := Bool.and_eq_true_iff.1 ht
    have hle := h _ Sample.stampParse_stampText _ p hr s _ List.suffix_rfl m
      ⟨n, j, past, id, s', by simp⟩ id
    rw [beq_iff_eq.1 hone, beq_iff_eq.1 hzero] at hle
    omega
  next => cases ht

end Management

end NemoServer
