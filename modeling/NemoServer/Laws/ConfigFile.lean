import NemoServer.Integration.ConfigFile

/-!
# The configuration file is not destroyed

What is left of a configuration file after a start and any number of changes, wherever the process
stops and whatever calls of the file system fail. The file is lost exactly if it could not be read
or decoded, or could not be moved aside though it is no configuration, and a later change gets
through: then what replaces it has grown from the defaults.
-/

set_option autoImplicit false

namespace NemoServer

namespace Integration

open Prog Str

variable {C : Type}

abbrev ConfigCall (C : Type) := Call (ConfigOp C) (ConfigHost C)

/-- Which calls the file system fails. -/
def failing (faults : ℕ → Bool) (h : List (ConfigCall C)) (s : ConfigHost C) : ConfigHost C :=
  { s with fault := faults h.length }

/-- The changes that were made, the newest first. -/
def changesMade : List (ConfigCall C) → List (C → C)
  | [] => []
  | ⟨.update f, _⟩ :: h => f :: changesMade h
  | _ :: h => changesMade h

/-- The changes that were made when the file was last replaced. -/
def persisted : List (ConfigCall C) → Option (List (C → C))
  | [] => none
  | ⟨.file (.rename old new), s⟩ :: h =>
    if new = configPath ∧ ((FileOp.rename old new).sem s.fault s.disk).1 = true
    then some (changesMade h) else persisted h
  | _ :: h => persisted h

/-- Changes, the newest first, applied to a configuration. -/
def applied (changes : List (C → C)) (cfg : C) : C := changes.foldr (fun f cfg => f cfg) cfg

/-- The names of a start. -/
inductive Names (now pid : ℕ) : String → Prop
  | config : Names now pid configPath
  | corrupt : Names now pid (corruptPath now)
  | tmp : Names now pid (configTmp pid)

/-- The file is opened and read without a fault, and what it contains is a text. -/
def Readable (faults : ℕ → Bool) (original : List UInt8) : Prop :=
  faults 0 = false ∧ faults 1 = false ∧ fromUtf8 original ≠ none

/-- What may be left of the file `i`: what its configuration became, or the file itself, in place or
moved aside; a file that could not be read or decoded is not replaced. -/
structure Survives (J : ConfigJson C) (faults : ℕ → Bool) (now i : ℕ) (original : List UInt8)
    (h : List (ConfigCall C)) (d : Disk String) : Prop where
  kept : (∃ text cfg changes new, fromUtf8 original = some text ∧ J.fromStr text = some cfg ∧
      persisted h = some changes ∧ J.toStringPretty (applied changes cfg) = some new ∧
      d.text configPath = some (toUtf8 new)) ∨
    (d.paths configPath = some i ∨ d.paths (corruptPath now) = some i) ∧ d.content i = original
  unread : ¬Readable faults original → persisted h = none

/-- The text is that of a configuration, or the file can be moved aside. -/
def Recovered (J : ConfigJson C) (faults : ℕ → Bool) (original : List UInt8) : Prop :=
  Readable faults original ∧
    ((∃ text cfg, fromUtf8 original = some text ∧ J.fromStr text = some cfg) ∨ faults 2 = false)

/-! ## Names -/

theorem corruptPath_char (now : ℕ) : (corruptPath now).toList[17]? = some 'c' := by
  have hchars : (corruptPath now).toList =
      "nemo_integration.corrupt-".toList ++ (toString now).toList := String.toList_append
  have hchar : "nemo_integration.corrupt-".toList[17]? = some 'c' := by decide +kernel
  rw [hchars, List.getElem?_append_left (List.getElem?_eq_some_iff.1 hchar).1, hchar]

theorem configTmp_char {pid n : ℕ} {c : Char}
    (h : "nemo_integration.json.tmp-".toList[n]? = some c) : (configTmp pid).toList[n]? = some c := by
  have hchars : (configTmp pid).toList =
      "nemo_integration.json.tmp-".toList ++ (toString pid).toList := String.toList_append
  rw [hchars, List.getElem?_append_left (List.getElem?_eq_some_iff.1 h).1, h]

theorem corruptPath_ne_configPath (now : ℕ) : corruptPath now ≠ configPath := by
  intro h
  have hchar := corruptPath_char now
  rw [h] at hchar
  revert hchar
  decide +kernel

theorem configTmp_ne_configPath (pid : ℕ) : configTmp pid ≠ configPath := by
  intro h
  have hdot : "nemo_integration.json.tmp-".toList[21]? = some '.' := by decide +kernel
  have hchar : (configTmp pid).toList[21]? = some '.' := configTmp_char hdot
  rw [h] at hchar
  revert hchar
  decide +kernel

theorem configTmp_ne_corruptPath (pid now : ℕ) : configTmp pid ≠ corruptPath now := by
  intro h
  have hj : "nemo_integration.json.tmp-".toList[17]? = some 'j' := by decide +kernel
  have hchar : (configTmp pid).toList[17]? = some 'j' := configTmp_char hj
  rw [h, corruptPath_char] at hchar
  revert hchar
  decide +kernel

/-! ## Changes -/

section Changes

variable {J : ConfigJson C} {faults : ℕ → Bool} {now pid i : ℕ} {original : List UInt8}

/-- At the names other than the temporary one, the files and what they contain are the same. -/
structure SameFiles (now pid : ℕ) (d d' : Disk String) : Prop where
  paths : ∀ q, Names now pid q → q ≠ configTmp pid → d'.paths q = d.paths q
  content : ∀ q, Names now pid q → q ≠ configTmp pid → ∀ f, d.paths q = some f →
    d'.content f = d.content f
  tmp : ∀ f, d'.paths (configTmp pid) = some f → d.paths (configTmp pid) = some f ∨ d.fresh ≤ f
  fresh : d.fresh ≤ d'.fresh

/-- An invariant of a process that only makes changes: it is about the files at the other names, and
a change that gets through keeps it. -/
structure Lasting (J : ConfigJson C) (now pid : ℕ)
    (I : List (ConfigCall C) → Disk String → C → Prop) : Prop where
  apart : ∀ h d cfg, I h d cfg → d.Apart (Names now pid)
  quiet : ∀ c h d d' cfg, I h d cfg → changesMade (c :: h) = changesMade h →
    persisted (c :: h) = persisted h → d'.Apart (Names now pid) → SameFiles now pid d d' →
    I (c :: h) d' cfg
  update : ∀ f s h d cfg, I h d cfg → I (⟨.update f, s⟩ :: h) d (f cfg)
  publish : ∀ c h d cfg new f, I h d cfg → J.toStringPretty cfg = some new →
    d.paths (configTmp pid) = some f → d.content f = toUtf8 new →
    changesMade (c :: h) = changesMade h → persisted (c :: h) = some (changesMade h) →
    I (c :: h) (d.moved (configTmp pid) configPath f) cfg

variable (faults) in
/-- Wherever the program stops `I` holds, and where it returns `Q`. -/
abbrev Sustains (I : List (ConfigCall C) → Disk String → C → Prop) {α : Type} (p : ConfigProg C α)
    (Q : α → List (ConfigCall C) → Disk String → C → Prop) (h : List (ConfigCall C))
    (s : ConfigHost C) : Prop :=
  p.Stops ConfigOp.sem (failing faults) (fun h s => I h s.disk s.config)
    (fun a h s => Q a h s.disk s.config) h s

variable {I : List (ConfigCall C) → Disk String → C → Prop} {h : List (ConfigCall C)}
  {s : ConfigHost C}

theorem Sustains.then {α β : Type} {p : ConfigProg C α} {f : α → ConfigProg C β}
    {Q : α → List (ConfigCall C) → Disk String → C → Prop}
    {Q' : β → List (ConfigCall C) → Disk String → C → Prop} (hp : Sustains faults I p Q h s)
    (hf : ∀ a h s, Q a h s.disk s.config → Sustains faults I (f a) Q' h s) :
    Sustains faults I (p >>= f) Q' h s :=
  stops_bind.2 (hp.mono (fun _ _ hP => hP) hf)

/-- A call of the file system. -/
theorem sustains_fileOp {o : FileOp String}
    {Q : o.Res → List (ConfigCall C) → Disk String → C → Prop} (hI : I h s.disk s.config)
    (hfail : ∀ s', s'.fault = true → s'.disk = s.disk → faults h.length = true →
      Q (o.sem true s.disk).1 (⟨.file o, s'⟩ :: h) s.disk s.config)
    (hdone : ∀ s', s'.fault = false → s'.disk = s.disk → faults h.length = false →
      Q (o.sem false s.disk).1 (⟨.file o, s'⟩ :: h) (o.sem false s.disk).2 s.config) :
    Sustains faults I (fileOp o) Q h s := by
  refine ⟨hI, ?_⟩
  change Q (o.sem (faults h.length) s.disk).1 (⟨.file o, failing faults h s⟩ :: h)
    (o.sem (faults h.length) s.disk).2 s.config
  cases hfault : faults h.length with
  | true =>
    rw [FileOp.sem_fault]
    exact hfail _ hfault rfl hfault
  | false => exact hdone _ hfault rfl hfault

theorem SameFiles.refl (d : Disk String) : SameFiles now pid d d :=
  ⟨fun _ _ _ => rfl, fun _ _ _ _ _ => rfl, fun _ hf => .inl hf, Nat.le_refl _⟩

theorem sameFiles_create {d : Disk String} (hapart : d.Apart (Names now pid)) :
    SameFiles now pid d (d.create (configTmp pid)).2 := by
  have hcases := d.create_cases (configTmp pid)
  refine ⟨fun q _ hne => d.create_of_ne hne, fun q hq hne f hf => ?_, fun f hf => ?_, ?_⟩
  · refine d.content_create_of_ne fun heq => ?_
    have hleads := hapart.leads_create .tmp hq hne
    rw [d.create_of_ne hne, hf, heq] at hleads
    exact hleads rfl
  · rw [(d.create_leads _).1] at hf
    obtain rfl := Option.some.inj hf
    obtain ⟨hthere, -⟩ | ⟨-, hnew, -⟩ := hcases
    · exact .inl hthere
    · exact .inr (Nat.le_of_eq hnew.symm)
  · obtain ⟨-, hfresh⟩ | ⟨-, -, hfresh⟩ := hcases <;> omega

theorem sameFiles_writeAt {d : Disk String} (hapart : d.Apart (Names now pid)) {f : ℕ}
    (hf : d.paths (configTmp pid) = some f) (off : ℕ) (b : UInt8) :
    SameFiles now pid d (d.writeAt f off b) := by
  refine ⟨fun _ _ _ => rfl, fun q hq hne g hg => ?_, fun _ hg => .inl hg, Nat.le_refl _⟩
  refine Function.update_of_ne (fun heq => hne ?_) _ _
  exact hapart.separate _ _ _ hq .tmp (heq ▸ hg) hf

variable (hI : Lasting J now pid I)

include hI

theorem sustains_writeAllFrom {f : ℕ} (done : List UInt8) {bytes : List UInt8} {cfg : C}
    (hs : I h s.disk s.config) (hf : s.disk.paths (configTmp pid) = some f)
    (hdone : s.disk.content f = done) (hcfg : s.config = cfg) :
    Sustains faults I (writeAllFrom f done.length bytes) (fun ok h' d' cfg' => I h' d' cfg' ∧
      cfg' = cfg ∧ (ok = true → d'.paths (configTmp pid) = some f ∧
        d'.content f = done ++ bytes)) h s := by
  induction bytes generalizing done h s with
  | nil => exact ⟨hs, hcfg, fun _ => ⟨hf, by rw [hdone, List.append_nil]⟩⟩
  | cons b bytes ih =>
    refine Sustains.then (Q := fun ok h' d' cfg' => I h' d' cfg' ∧ cfg' = cfg ∧ (ok = true →
      d'.paths (configTmp pid) = some f ∧ d'.content f = done ++ [b])) ?_ ?_
    · refine sustains_fileOp hs (fun s' _ _ _ => ?_) (fun s' _ _ _ => ?_)
      · exact ⟨hI.quiet _ _ _ _ _ hs rfl rfl (hI.apart _ _ _ hs) (SameFiles.refl _), hcfg,
          fun hok => by cases hok⟩
      · have hapart := hI.apart _ _ _ hs
        refine ⟨hI.quiet _ _ _ _ _ hs rfl rfl (hapart.writeAt _ _ _)
          (sameFiles_writeAt hapart hf _ _), hcfg, fun _ => ⟨hf, ?_⟩⟩
        have hwrite : (s.disk.writeAt f done.length b).content f =
            (done ++ [b]).take (done.length + 1) :=
          s.disk.content_writeAt (by simp [hdone]) (by simp)
        rw [List.take_of_length_le (by simp)] at hwrite
        exact hwrite
    · rintro ok h' s' ⟨hs', hcfg', hok⟩
      cases ok with
      | false => exact ⟨hs', hcfg', fun hok' => by cases hok'⟩
      | true =>
        obtain ⟨hf', hdone'⟩ := hok rfl
        have hnext := ih (done ++ [b]) hs' hf' hdone' hcfg'
        rw [List.length_append, List.length_singleton, List.append_assoc] at hnext
        exact hnext

/-- The file is replaced by a complete one, or left. -/
theorem sustains_atomicWrite {text : String} (hs : I h s.disk s.config)
    (htext : J.toStringPretty s.config = some text) :
    Sustains faults I (atomicWrite pid text) (fun _ h' d' cfg' => I h' d' cfg') h s := by
  have hapart := hI.apart _ _ _ hs
  refine Sustains.then (Q := fun r h' d' cfg' => I h' d' cfg' ∧ cfg' = s.config ∧
    ∀ f, r = some f → d'.paths (configTmp pid) = some f ∧ d'.content f = []) ?_ ?_
  · refine sustains_fileOp hs (fun s' _ _ _ => ?_) (fun s' _ _ _ => ?_)
    · exact ⟨hI.quiet _ _ _ _ _ hs rfl rfl hapart (SameFiles.refl _), rfl,
        fun f hf => by cases hf⟩
    · refine ⟨hI.quiet _ _ _ _ _ hs rfl rfl (hapart.create .tmp) (sameFiles_create hapart), rfl,
        fun f hf => ?_⟩
      obtain rfl := Option.some.inj hf
      exact s.disk.create_leads _
  rintro r h₁ s₁ ⟨hs₁, hcfg₁, hr⟩
  cases r with
  | none => exact hs₁
  | some f =>
    obtain ⟨hf₁, hempty⟩ := hr f rfl
    refine (sustains_writeAllFrom hI [] hs₁ hf₁ hempty hcfg₁).then fun ok h₂ s₂ hok => ?_
    obtain ⟨hs₂, hcfg₂, hok⟩ := hok
    cases ok with
    | false => exact hs₂
    | true =>
      obtain ⟨hf₂, hcontent₂⟩ := hok rfl
      refine Sustains.then (Q := fun _ h' d' cfg' => I h' d' cfg' ∧ cfg' = s.config ∧
        d'.paths (configTmp pid) = some f ∧ d'.content f = toUtf8 text) ?_ ?_
      · have hquiet : ∀ s', I (⟨.file (.sync f), s'⟩ :: h₂) s₂.disk s₂.config := fun s' =>
          hI.quiet _ _ _ _ _ hs₂ rfl rfl (hI.apart _ _ _ hs₂) (SameFiles.refl _)
        exact sustains_fileOp hs₂ (fun s' _ _ _ => ⟨hquiet s', hcfg₂, hf₂, hcontent₂⟩)
          (fun s' _ _ _ => ⟨hquiet s', hcfg₂, hf₂, hcontent₂⟩)
      rintro synced h₃ s₃ ⟨hs₃, hcfg₃, hf₃, hcontent₃⟩
      cases synced with
      | false => exact hs₃
      | true =>
        have hrename := (hI.apart _ _ _ hs₃).rename .tmp .config (configTmp_ne_configPath pid) hf₃
        refine sustains_fileOp hs₃ (fun s' hfault _ _ => ?_) (fun s' hfault hdisk _ => ?_)
        · refine hI.quiet _ _ _ _ _ hs₃ rfl ?_ (hI.apart _ _ _ hs₃) (SameFiles.refl _)
          rw [persisted, if_neg]
          rintro ⟨-, hanswer⟩
          rw [hfault] at hanswer
          cases hanswer
        · have hsem : (FileOp.rename (configTmp pid) configPath).sem false s₃.disk =
              (true, s₃.disk.moved (configTmp pid) configPath f) := by
            simp [FileOp.sem, Disk.attempt, hrename]
          rw [hsem]
          refine hI.publish _ _ _ _ _ _ hs₃ (hcfg₃ ▸ htext) hf₃ hcontent₃ rfl ?_
          rw [persisted, if_pos]
          rw [hfault, hdisk, hsem]
          exact ⟨rfl, rfl⟩

theorem sustains_changeConfig (f : C → C) (hs : I h s.disk s.config) :
    Sustains faults I (changeConfig J pid f) (fun _ h' d' cfg' => I h' d' cfg') h s := by
  refine Sustains.then (Q := fun cfg h' d' cfg' => I h' d' cfg' ∧ cfg' = cfg)
    ⟨hs, hI.update _ _ _ _ _ hs, rfl⟩ ?_
  rintro cfg h' s' ⟨hs', rfl⟩
  unfold persist
  split
  · next text htext =>
    exact (sustains_atomicWrite hI hs' htext).then fun _ _ _ hs'' => hs''
  · exact hs'

theorem sustains_changeAll (changes : List (C → C)) (hs : I h s.disk s.config) :
    Sustains faults I (changeAll J pid changes) (fun _ h' d' cfg' => I h' d' cfg') h s := by
  induction changes generalizing h s with
  | nil => exact hs
  | cons f changes ih => exact (sustains_changeConfig hI f hs).then fun _ _ _ hs' => ih hs'

end Changes

/-! ## After the start -/

section Start

variable (J : ConfigJson C) (now pid i : ℕ) (original : List UInt8)

/-- The file is where it was. -/
def InPlace (d : Disk String) : Prop := d.paths configPath = some i ∧ d.content i = original

/-- The configuration was read from the file. -/
structure Grown (cfg₀ : C) (h : List (ConfigCall C)) (d : Disk String) (cfg : C) : Prop where
  apart : d.Apart (Names now pid)
  config : cfg = applied (changesMade h) cfg₀
  file : persisted h = none ∧ InPlace i original d ∨ ∃ changes new, persisted h = some changes ∧
    J.toStringPretty (applied changes cfg₀) = some new ∧ d.text configPath = some (toUtf8 new)

/-- The file is moved aside. -/
structure MovedAside (_h : List (ConfigCall C)) (d : Disk String) (_cfg : C) : Prop where
  apart : d.Apart (Names now pid)
  file : d.paths (corruptPath now) = some i ∧ d.content i = original

/-- The file is in place, until a change gets through: then it is gone. -/
structure Exposed (h : List (ConfigCall C)) (d : Disk String) (_cfg : C) : Prop where
  apart : d.Apart (Names now pid)
  bounded : i < d.fresh
  file : persisted h = none ∧ InPlace i original d ∨
    persisted h ≠ none ∧ ∀ q, Names now pid q → d.paths q ≠ some i

variable {J now pid i original}

theorem SameFiles.inPlace {d d' : Disk String} (h : SameFiles now pid d d')
    (hd : InPlace i original d) : InPlace i original d' := by
  have hne : configPath ≠ configTmp pid := (configTmp_ne_configPath pid).symm
  exact ⟨(h.paths _ .config hne).trans hd.1, (h.content _ .config hne i hd.1).trans hd.2⟩

theorem SameFiles.text {d d' : Disk String} (h : SameFiles now pid d d') :
    d'.text configPath = d.text configPath := by
  have hne : configPath ≠ configTmp pid := (configTmp_ne_configPath pid).symm
  rw [Disk.text, Disk.text, h.paths _ .config hne]
  cases hf : d.paths configPath with
  | none => rfl
  | some f => exact congrArg some (h.content _ .config hne f hf)

theorem lasting_grown (cfg₀ : C) : Lasting J now pid (Grown J now pid i original cfg₀) where
  apart _ _ _ hs := hs.apart
  quiet c h d d' cfg hs hmade hpersisted hapart hsame := by
    refine ⟨hapart, hmade ▸ hs.config, ?_⟩
    rw [hpersisted, hsame.text]
    obtain ⟨hnone, hplace⟩ | hnew := hs.file
    · exact .inl ⟨hnone, hsame.inPlace hplace⟩
    · exact .inr hnew
  update f s h d cfg hs := ⟨hs.apart, congrArg f hs.config, hs.file⟩
  publish c h d cfg new f hs hnew hf hcontent hmade hpersisted := by
    refine ⟨hs.apart.moved .tmp hf, hmade ▸ hs.config, .inr ⟨_, new, hpersisted, ?_, ?_⟩⟩
    · rw [← hs.config]
      exact hnew
    · rw [Disk.text_moved_new hf, Disk.text_of_leads _ hf, hcontent]

theorem lasting_movedAside : Lasting J now pid (MovedAside (C := C) now pid i original) where
  apart _ _ _ hs := hs.apart
  quiet c h d d' cfg hs _ _ hapart hsame := by
    have hne : corruptPath now ≠ configTmp pid := (configTmp_ne_corruptPath pid now).symm
    exact ⟨hapart, (hsame.paths _ .corrupt hne).trans hs.file.1,
      (hsame.content _ .corrupt hne i hs.file.1).trans hs.file.2⟩
  update _ _ _ _ _ hs := ⟨hs.apart, hs.file⟩
  publish c h d cfg new f hs hnew hf _ _ _ := by
    refine ⟨hs.apart.moved .tmp hf, ?_, hs.file.2⟩
    rw [Disk.paths_moved_of_ne (configTmp_ne_corruptPath pid now).symm
      (corruptPath_ne_configPath now)]
    exact hs.file.1

theorem lasting_exposed : Lasting J now pid (Exposed (C := C) now pid i original) where
  apart _ _ _ hs := hs.apart
  quiet c h d d' cfg hs _ hpersisted hapart hsame := by
    refine ⟨hapart, Nat.lt_of_lt_of_le hs.bounded hsame.fresh, ?_⟩
    rw [hpersisted]
    obtain ⟨hnone, hplace⟩ | ⟨hsome, hgone⟩ := hs.file
    · exact .inl ⟨hnone, hsame.inPlace hplace⟩
    · refine .inr ⟨hsome, fun q hq hleads => ?_⟩
      by_cases hne : q = configTmp pid
      · subst hne
        obtain hold | hnew := hsame.tmp i hleads
        · exact hgone _ .tmp hold
        · exact Nat.lt_irrefl _ (Nat.lt_of_lt_of_le hs.bounded hnew)
      · rw [hsame.paths q hq hne] at hleads
        exact hgone q hq hleads
  update _ _ _ _ _ hs := ⟨hs.apart, hs.bounded, hs.file⟩
  publish c h d cfg new f hs hnew hf _ _ hpersisted := by
    refine ⟨hs.apart.moved .tmp hf, hs.bounded, .inr ⟨by simp [hpersisted], fun q hq hleads => ?_⟩⟩
    -- the file that is renamed is not the one in place, and nothing else leads to that one
    have hfile : f ≠ i := by
      rintro rfl
      obtain ⟨-, hplace⟩ | ⟨-, hgone⟩ := hs.file
      · exact configTmp_ne_configPath pid (hs.apart.separate _ _ _ .tmp .config hf hplace.1)
      · exact hgone _ .tmp hf
    obtain ⟨-, heq⟩ | ⟨hqc, hq'⟩ := Table.insert_eq_some.1 hleads
    · exact hfile heq
    · have hold := (Table.remove_eq_some.1 hq').2
      obtain ⟨-, hplace⟩ | ⟨-, hgone⟩ := hs.file
      · exact hqc (hs.apart.separate _ _ _ hq .config hold hplace.1)
      · exact hgone q hq hold

variable {faults : ℕ → Bool} {h : List (ConfigCall C)} {d : Disk String} {cfg : C}

/-- The file survives exactly if it could be recovered, or is not replaced. -/
abbrev Outcome (J : ConfigJson C) (faults : ℕ → Bool) (now i : ℕ) (original : List UInt8)
    (h : List (ConfigCall C)) (d : Disk String) : Prop :=
  Survives J faults now i original h d ↔ Recovered J faults original ∨ persisted h = none

/-- Before any change gets through there is nothing to lose. -/
theorem outcome_of_none (hnone : persisted h = none)
    (hfile : (d.paths configPath = some i ∨ d.paths (corruptPath now) = some i) ∧
      d.content i = original) : Outcome J faults now i original h d :=
  ⟨fun _ => .inr hnone, fun _ => ⟨.inr hfile, fun _ => hnone⟩⟩

theorem Grown.survives {cfg₀ : C} {text : String} (hs : Grown J now pid i original cfg₀ h d cfg)
    (hread : Readable faults original) (htext : fromUtf8 original = some text)
    (hparse : J.fromStr text = some cfg₀) :
    Outcome J faults now i original h d := by
  refine ⟨fun _ => .inl ⟨hread, .inl ⟨text, cfg₀, htext, hparse⟩⟩, fun _ => ⟨?_, fun hn =>
    absurd hread hn⟩⟩
  obtain ⟨-, hplace⟩ | ⟨changes, new, hpersisted, hnew, hfile⟩ := hs.file
  · exact .inr ⟨.inl hplace.1, hplace.2⟩
  · exact .inl ⟨text, cfg₀, changes, new, htext, hparse, hpersisted, hnew, hfile⟩

theorem MovedAside.survives (hs : MovedAside now pid i original h d cfg)
    (hread : Readable faults original) (hfault : faults 2 = false) :
    Outcome J faults now i original h d :=
  ⟨fun _ => .inl ⟨hread, .inr hfault⟩,
    fun _ => ⟨.inr ⟨.inr hs.file.1, hs.file.2⟩, fun hn => absurd hread hn⟩⟩

theorem Exposed.survives (hs : Exposed now pid i original h d cfg)
    (hnot : ¬Recovered J faults original) :
    Outcome J faults now i original h d := by
  obtain ⟨hnone, hplace⟩ | ⟨hsome, hgone⟩ := hs.file
  · exact outcome_of_none hnone ⟨.inl hplace.1, hplace.2⟩
  · refine ⟨fun hsurvives => ?_, fun hcond => (hcond.resolve_left hnot |> hsome).elim⟩
    by_cases hread : Readable faults original
    · obtain ⟨text, cfg', -, -, htext, hparse, -⟩ | ⟨hplace | haside, -⟩ := hsurvives.kept
      · exact absurd ⟨hread, .inl ⟨text, cfg', htext, hparse⟩⟩ hnot
      · exact absurd hplace (hgone _ .config)
      · exact absurd haside (hgone _ .corrupt)
    · exact absurd (hsurvives.unread hread) hsome

/-! ## The start -/

variable (now pid i original) in
/-- Nothing was changed yet. -/
structure Unwritten (h : List (ConfigCall C)) (d : Disk String) (_cfg : C) : Prop where
  apart : d.Apart (Names now pid)
  place : InPlace i original d
  made : changesMade h = []
  persisted : persisted h = none

theorem Unwritten.next {o : FileOp String} {s' : ConfigHost C}
    (hs : Unwritten now pid i original h d cfg) (ho : ∀ a b, o ≠ .rename a b) :
    Unwritten now pid i original (⟨.file o, s'⟩ :: h) d cfg := by
  refine ⟨hs.apart, hs.place, hs.made, ?_⟩
  cases o with
  | rename a b => exact absurd rfl (ho a b)
  | _ => exact hs.persisted

theorem sustains_readConfigText {s : ConfigHost C}
    (hs : Unwritten now pid i original [] s.disk s.config) :
    Sustains faults (Unwritten now pid i original) readConfigText (fun r h' d' cfg' =>
      Unwritten now pid i original h' d' cfg' ∧
        ((∃ text, r = some text ∧ Readable faults original ∧ fromUtf8 original = some text ∧
          h'.length = 2) ∨ r = none ∧ ¬Readable faults original)) [] s := by
  refine Sustains.then (Q := fun r h' d' cfg' => Unwritten now pid i original h' d' cfg' ∧
    h'.length = 1 ∧ r = if faults 0 then none else some i) ?_ ?_
  · refine sustains_fileOp hs (fun s' _ _ hfault => ?_) (fun s' _ _ hfault => ?_)
    · exact ⟨hs.next (by simp), rfl, (if_pos hfault).symm⟩
    · have hnot : ¬faults 0 = true := ne_true_of_eq_false hfault
      refine ⟨hs.next (by simp), rfl, ?_⟩
      rw [if_neg hnot]
      exact hs.place.1
  rintro r h₁ s₁ ⟨hs₁, hlen, rfl⟩
  cases h0 : faults 0 with
  | true => exact ⟨hs₁, .inr ⟨rfl, fun hread => ne_true_of_eq_false hread.1 h0⟩⟩
  | false =>
    refine Sustains.then (Q := fun bytes h' d' cfg' => Unwritten now pid i original h' d' cfg' ∧
      h'.length = 2 ∧ bytes = if faults 1 then none else some original) ?_ ?_
    · refine sustains_fileOp hs₁ (fun s' _ _ hfault => ?_) (fun s' _ _ hfault => ?_)
      · rw [hlen] at hfault
        exact ⟨hs₁.next (by simp), congrArg (· + 1) hlen, (if_pos hfault).symm⟩
      · rw [hlen] at hfault
        have hnot : ¬faults 1 = true := ne_true_of_eq_false hfault
        refine ⟨hs₁.next (by simp), congrArg (· + 1) hlen, ?_⟩
        rw [if_neg hnot]
        exact congrArg some hs₁.place.2
    rintro bytes h₂ s₂ ⟨hs₂, hlen₂, rfl⟩
    cases h1 : faults 1 with
    | true => exact ⟨hs₂, .inr ⟨rfl, fun hread => ne_true_of_eq_false hread.2.1 h1⟩⟩
    | false =>
      cases htext : fromUtf8 original with
      | none => exact ⟨hs₂, .inr ⟨htext, fun hread => hread.2.2 htext⟩⟩
      | some text =>
        refine ⟨hs₂, .inl ⟨text, htext, ⟨h0, h1, ?_⟩, rfl, hlen₂⟩⟩
        rw [htext]
        exact Option.some_ne_none text

/-- How a configuration is loaded: from the file, or from nothing, with the file moved aside or
in place. -/
inductive Loaded (J : ConfigJson C) (faults : ℕ → Bool) (now pid i : ℕ) (original : List UInt8)
    (h : List (ConfigCall C)) (d : Disk String) : C → Prop
  | parsed (cfg₀ : C) (text : String) (hread : Readable faults original)
    (htext : fromUtf8 original = some text) (hparse : J.fromStr text = some cfg₀)
    (hs : Grown J now pid i original cfg₀ h d cfg₀) : Loaded J faults now pid i original h d cfg₀
  | aside (cfg : C) (hread : Readable faults original) (hfault : faults 2 = false)
    (hs : MovedAside now pid i original h d cfg) : Loaded J faults now pid i original h d cfg
  | exposed (cfg : C) (hnot : ¬Recovered J faults original)
    (hs : Exposed now pid i original h d cfg) : Loaded J faults now pid i original h d cfg

theorem Unwritten.outcome (hs : Unwritten now pid i original h d cfg) :
    Outcome J faults now i original h d :=
  outcome_of_none hs.persisted ⟨.inl hs.place.1, hs.place.2⟩

theorem Loaded.outcome (hl : Loaded J faults now pid i original h d cfg) :
    Outcome J faults now i original h d := by
  cases hl with
  | parsed text hread htext hparse hs => exact hs.survives hread htext hparse
  | aside hread hfault hs => exact hs.survives hread hfault
  | exposed hnot hs => exact hs.survives hnot

theorem Unwritten.exposed (hs : Unwritten now pid i original h d cfg) (cfg' : C) :
    Exposed now pid i original h d cfg' :=
  ⟨hs.apart, hs.apart.bounded _ _ hs.place.1, .inl ⟨hs.persisted, hs.place⟩⟩

theorem sustains_loadConfig {s : ConfigHost C}
    (hs : Unwritten now pid i original [] s.disk s.config) :
    Sustains faults (Unwritten now pid i original) (loadConfig J now)
      (fun cfg h' d' _ => Loaded J faults now pid i original h' d' cfg) [] s := by
  refine (sustains_readConfigText hs).then fun r h₁ s₁ hr => ?_
  obtain ⟨hs₁, ⟨text, rfl, hread, htext, hlen⟩ | ⟨rfl, hnot⟩⟩ := hr
  · dsimp only
    cases hparse : J.fromStr text with
    | some cfg₀ =>
      refine .parsed cfg₀ text hread htext hparse ⟨hs₁.apart, ?_, .inl ⟨hs₁.persisted, hs₁.place⟩⟩
      rw [hs₁.made]
      rfl
    | none =>
      refine Sustains.then
        (Q := fun _ h' d' _ => Loaded J faults now pid i original h' d' J.default) ?_
        fun _ _ _ hloaded => hloaded
      have hne : corruptPath now ≠ configPath := corruptPath_ne_configPath now
      have hpersisted : ∀ s', persisted (⟨.file (.rename configPath (corruptPath now)), s'⟩ :: h₁) =
          none := by
        intro s'
        rw [persisted, if_neg fun hpublish => hne hpublish.1]
        exact hs₁.persisted
      refine sustains_fileOp hs₁ (fun s' _ _ hfault => ?_) (fun s' _ _ hfault => ?_)
      · rw [hlen] at hfault
        refine .exposed _ ?_ ⟨hs₁.apart, hs₁.apart.bounded _ _ hs₁.place.1,
          .inl ⟨hpersisted s', hs₁.place⟩⟩
        rintro ⟨-, ⟨text', cfg', htext', hparse'⟩ | hworks⟩
        · rw [htext] at htext'
          obtain rfl := Option.some.inj htext'
          rw [hparse] at hparse'
          cases hparse'
        · rw [hfault] at hworks
          cases hworks
      · rw [hlen] at hfault
        have hrename := hs₁.apart.rename .config .corrupt hne.symm hs₁.place.1
        have hsem : (FileOp.rename configPath (corruptPath now)).sem false s₁.disk =
            (true, s₁.disk.moved configPath (corruptPath now) i) := by
          simp [FileOp.sem, Disk.attempt, hrename]
        rw [hsem]
        exact .aside _ hread hfault ⟨hs₁.apart.moved .config hs₁.place.1, Disk.paths_moved_new,
          hs₁.place.2⟩
  · exact .exposed _ (fun hrec => hnot hrec.1) (hs₁.exposed _)

end Start

/-- A process of which no more than `n` calls are made. -/
abbrev stoppedProcess (J : ConfigJson C) (now pid : ℕ) (changes : List (C → C))
    (faults : ℕ → Bool) (n : ℕ) (s : ConfigHost C) :
    Option Unit × List (ConfigCall C) × ConfigHost C :=
  (configProcess J now pid changes).stopped ConfigOp.sem (failing faults) n [] s

/-- Wherever a process with an existing file `i` stops, the file survives exactly if it was read
and decoded, and parsed or moved aside, or if no change got through. -/
theorem config_survives_iff (J : ConfigJson C) (now pid : ℕ) (changes : List (C → C))
    (faults : ℕ → Bool) (s : ConfigHost C) (hs : s.disk.Apart (Names now pid)) (i : ℕ)
    (hi : s.disk.paths configPath = some i) (n : ℕ) :
    Survives J faults now i (s.disk.content i) (stoppedProcess J now pid changes faults n s).2.1
        (stoppedProcess J now pid changes faults n s).2.2.disk ↔
      Recovered J faults (s.disk.content i) ∨
        persisted (stoppedProcess J now pid changes faults n s).2.1 = none := by
  have hstart : Unwritten now pid i (s.disk.content i) [] s.disk s.config :=
    ⟨hs, ⟨hi, rfl⟩, rfl, rfl⟩
  have hstops : (configProcess J now pid changes).Stops ConfigOp.sem (failing faults)
      (fun h s' => Outcome J faults now i (s.disk.content i) h s'.disk)
      (fun _ h s' => Outcome J faults now i (s.disk.content i) h s'.disk) [] s := by
    refine stops_bind.2 ((sustains_loadConfig (J := J) hstart).mono
      (fun h s' hs' => hs'.outcome) fun cfg h s' hloaded => ?_)
    refine ⟨hloaded.outcome, ?_⟩
    let h'' : List (ConfigCall C) := ⟨.install cfg, failing faults h s'⟩ :: h
    let s'' : ConfigHost C := { failing faults h s' with config := cfg }
    have hmore : ∀ I, Lasting J now pid I → I h'' s''.disk s''.config →
        Sustains faults I (changeAll J pid changes) (fun _ h d cfg => I h d cfg) h'' s'' :=
      fun _ hI hs' => sustains_changeAll hI changes hs'
    cases hloaded with
    | parsed text hread htext hparse hs' =>
      have hgrown := hmore _ (lasting_grown cfg) ⟨hs'.apart, hs'.config, hs'.file⟩
      exact hgrown.mono (fun _ _ hs => hs.survives hread htext hparse)
        fun _ _ _ hs => hs.survives hread htext hparse
    | aside hread hfault hs' =>
      have haside := hmore _ lasting_movedAside ⟨hs'.apart, hs'.file⟩
      exact haside.mono (fun _ _ hs => hs.survives hread hfault)
        fun _ _ _ hs => hs.survives hread hfault
    | exposed hnot hs' =>
      have hexposed := hmore _ lasting_exposed ⟨hs'.apart, hs'.bounded, hs'.file⟩
      exact hexposed.mono (fun _ _ hs => hs.survives hnot) fun _ _ _ hs => hs.survives hnot
  exact hstops.stopped (Q := fun _ h s' => Outcome J faults now i (s.disk.content i) h s'.disk) n

namespace Sample

/-- A configuration that only says whether a login is required. -/
def configJson : ConfigJson Bool where
  fromStr text := if text = "true" then some true else if text = "false" then some false else none
  toStringPretty cfg := some (if cfg then "true" else "false")
  default := false

/-- A directory with a configuration file only. -/
def configHost (original : List UInt8) : ConfigHost Bool where
  disk := ⟨Table.empty.insert configPath 0, fun _ => original, 1⟩
  fault := false
  config := false

theorem configHost_leads {original : List UInt8} {q : String} {f : ℕ}
    (h : (configHost original).disk.paths q = some f) : q = configPath ∧ f = 0 := by
  obtain ⟨hq, hf⟩ | ⟨-, hf⟩ := Table.insert_eq_some.1 h
  · exact ⟨hq, hf.symm⟩
  · cases hf

theorem configHost_apart (original : List UInt8) (now pid : ℕ) :
    (configHost original).disk.Apart (Names now pid) where
  separate p q f _ _ hp hq := by
    rw [(configHost_leads hp).1, (configHost_leads hq).1]
  bounded q f hq := by
    rw [(configHost_leads hq).2]
    exact Nat.zero_lt_one

end Sample

/-- A configuration that was read keeps its file, with the change that was made. -/
theorem config_survives_parsed :
    Survives Sample.configJson (fun _ => false) 7 0 (toUtf8 "true")
      (stoppedProcess Sample.configJson 7 9 [not] (fun _ => false) 100
        (Sample.configHost (toUtf8 "true"))).2.1
      (stoppedProcess Sample.configJson 7 9 [not] (fun _ => false) 100
        (Sample.configHost (toUtf8 "true"))).2.2.disk := by
  have htext : fromUtf8 (toUtf8 "true") = some "true" := by decide +kernel
  refine (config_survives_iff Sample.configJson 7 9 [not] (fun _ => false)
    (Sample.configHost (toUtf8 "true")) (Sample.configHost_apart _ _ _) 0 rfl 100).2 (.inl ?_)
  have hread : Readable (fun _ => false) (toUtf8 "true") :=
    ⟨rfl, rfl, ne_of_eq_of_ne htext (Option.some_ne_none "true")⟩
  exact ⟨hread, .inl ⟨"true", true, htext, rfl⟩⟩

/-- A file that is not UTF-8 is taken for none, and the first change replaces it. -/
theorem not_config_survives :
    ¬Survives Sample.configJson (fun _ => false) 7 0 [0xFF]
      (stoppedProcess Sample.configJson 7 9 [not] (fun _ => false) 100
        (Sample.configHost [0xFF])).2.1
      (stoppedProcess Sample.configJson 7 9 [not] (fun _ => false) 100
        (Sample.configHost [0xFF])).2.2.disk := by
  intro hsurvives
  have htext : fromUtf8 [0xFF] = none := by decide +kernel
  have hnone := hsurvives.unread fun hread => hread.2.2 htext
  have hsome : (persisted (stoppedProcess Sample.configJson 7 9 [not] (fun _ => false) 100
      (Sample.configHost [0xFF])).2.1).isSome = true := by decide +kernel
  rw [hnone] at hsome
  cases hsome

end Integration

end NemoServer
