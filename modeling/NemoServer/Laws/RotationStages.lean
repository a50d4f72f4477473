import NemoServer.Keys.Rotation
import NemoServer.Laws.KeyGeneration

/-!
# The stages of a rotation

The calls that went through say how far a rotation has come (`stageOf`), and this says what is at
the path of the key and in the file `.pub`, wherever the rotation stops, by a crash or by whatever
failures of the file system.

* `leaves_writeFile`: what holds while a file is written, byte by byte.
* `stage_stopped`: the key and its public copy at every stage.
-/

set_option autoImplicit false

namespace NemoServer

namespace Keys

open Prog Str

abbrev KeyCall := Call KeyOp KeyHost

/-- Which calls the file system fails, and what the clock says. -/
def script (faults : ℕ → Bool) (clocks : ℕ → ℕ) (h : List KeyCall) (s : KeyHost) : KeyHost :=
  { s with fault := faults h.length, clock := clocks h.length }

/-- The key pair that was generated last. -/
def lastMinted : List KeyCall → Option ℕ
  | [] => none
  | ⟨.genKeypair, s⟩ :: _ => some s.keypairs
  | _ :: h => lastMinted h

/-- What the last rename moved that did not fail. -/
def lastRename : List KeyCall → Option String
  | [] => none
  | ⟨.file (.rename old _), s⟩ :: h => if s.fault then lastRename h else some old
  | _ :: h => lastRename h

/-- Of the renames that did not fail, the last one is that of the key itself. -/
abbrev Aside (sk : String) (h : List KeyCall) : Prop := lastRename h = some sk

/-- How many bytes were written to `.pub`, once it was opened. -/
def copyWritten (sk : String) : List KeyCall → Option ℕ
  | [] => none
  | ⟨.file (.create path), s⟩ :: h =>
    if s.fault then copyWritten sk h else if path = pubFile sk then some 0 else none
  | ⟨.file (.writeAt _ _ _), s⟩ :: h =>
    if s.fault then copyWritten sk h else (copyWritten sk h).map (· + 1)
  | _ :: h => copyWritten sk h

/-! ## Stages -/

/-- How far a rotation has come. -/
inductive Stage
  /-- The key is in its place, or there was none. -/
  | kept
  /-- The key is moved aside. -/
  | aside
  /-- The key pair `k` is in its place. -/
  | replaced (k : ℕ)
  /-- And of its public half `j` bytes are in `.pub`. -/
  | copied (k j : ℕ)
  deriving DecidableEq

/-- What is at the path of the key, after `old`. -/
def Stage.key (X : KeyDeps) (old : Option Bytes) : Stage → Option Bytes
  | .kept => old
  | .aside => none
  | .replaced k => some (keyText X (keyOf X k).2)
  | .copied k _ => some (keyText X (keyOf X k).2)

/-- What is in `.pub`, after `old`. -/
def Stage.pub (X : KeyDeps) (old : Option Bytes) : Stage → Option Bytes
  | .copied k j => some ((toUtf8 (keyOf X k).1).take j)
  | _ => old

/-- The stage a rotation of the process `pid` has reached with the calls it made. -/
def stageOf (sk : String) (pid : ℕ) (h : List KeyCall) : Stage :=
  if lastRename h = some sk then .aside
  else if lastRename h = some (rotatingFile sk pid) then
    match lastMinted h, copyWritten sk h with
    | some k, some j => .copied k j
    | some k, none => .replaced k
    | none, _ => .kept
  else .kept

/-- The calls that lead to a stage. -/
def Stage.Calls (sk : String) (pid : ℕ) (h : List KeyCall) : Stage → Prop
  | .kept => lastRename h ≠ some sk ∧ lastRename h ≠ some (rotatingFile sk pid) ∧
    copyWritten sk h = none
  | .aside => lastRename h = some sk ∧ copyWritten sk h = none
  | .replaced k => lastRename h = some (rotatingFile sk pid) ∧ lastMinted h = some k ∧
    copyWritten sk h = none
  | .copied k j => lastRename h = some (rotatingFile sk pid) ∧ lastMinted h = some k ∧
    copyWritten sk h = some j

variable {X : KeyDeps} {sk : String} {pid : ℕ} {faults : ℕ → Bool} {clocks : ℕ → ℕ}
  {h : List KeyCall} {g : Stage}

theorem Stage.Calls.stageOf_eq (hg : g.Calls sk pid h) : stageOf sk pid h = g := by
  have hne : some (rotatingFile sk pid) ≠ some sk := fun heq =>
    rotatingFile_ne pid (Option.some.inj heq)
  unfold stageOf
  cases g with
  | kept => rw [if_neg hg.1, if_neg hg.2.1]
  | aside => rw [if_pos hg.1]
  | replaced k => rw [hg.1, if_neg hne, if_pos rfl, hg.2.1, hg.2.2]
  | copied k j => rw [hg.1, if_neg hne, if_pos rfl, hg.2.1, hg.2.2]

/-- Calls that say nothing of the stage. -/
theorem Stage.Calls.of_eq {h' : List KeyCall} (hrename : lastRename h' = lastRename h)
    (hminted : lastMinted h' = lastMinted h) (hcopy : copyWritten sk h' = copyWritten sk h)
    (hg : g.Calls sk pid h) : g.Calls sk pid h' := by
  cases g <;> simpa only [Stage.Calls, hrename, hminted, hcopy] using hg

/-- A call that fails. -/
theorem Stage.Calls.fault {o : FileOp String} {s' : KeyHost} (hfault : s'.fault = true)
    (hg : g.Calls sk pid h) : g.Calls sk pid (⟨.file o, s'⟩ :: h) := by
  refine hg.of_eq ?_ ?_ ?_
  · cases o <;> simp [lastRename, hfault]
  · cases o <;> rfl
  · cases o <;> simp [copyWritten, hfault]

/-! ## Programs over the directory -/

variable (X faults clocks) in
/-- Wherever the program stops `P` holds; where it returns, `Q`. -/
abbrev Leaving {α : Type} (P : List KeyCall → Disk String → Prop) (p : KeyHandler α)
    (Q : α → List KeyCall → Disk String → Prop) (h : List KeyCall) (s : KeyHost) : Prop :=
  p.Stops (KeyOp.sem X) (script faults clocks) (fun h s => P h s.disk)
    (fun a h s => Q a h s.disk) h s

variable {P : List KeyCall → Disk String → Prop}

theorem Leaving.then {α β : Type} {p : KeyHandler α} {f : α → KeyHandler β}
    {Q : α → List KeyCall → Disk String → Prop} {Q' : β → List KeyCall → Disk String → Prop}
    {s : KeyHost} (hp : Leaving X faults clocks P p Q h s)
    (hf : ∀ a h s, Q a h s.disk → Leaving X faults clocks P (f a) Q' h s) :
    Leaving X faults clocks P (p >>= f) Q' h s :=
  stops_bind.2 (Stops.mono hp (fun _ _ hP => hP) hf)

theorem Leaving.mono {α : Type} {p : KeyHandler α} {Q Q' : α → List KeyCall → Disk String → Prop}
    {s : KeyHost} (hp : Leaving X faults clocks P p Q h s) (hQ : ∀ a h d, Q a h d → Q' a h d) :
    Leaving X faults clocks P p Q' h s :=
  Stops.mono hp (fun _ _ hP => hP) fun a _ _ => hQ a _ _

/-- A call of the file system. -/
theorem leaving_file {o : FileOp String} {Q : o.Res → List KeyCall → Disk String → Prop}
    {s : KeyHost} (hP : P h s.disk)
    (hfail : ∀ s', s'.fault = true → Q (o.sem true s.disk).1 (⟨.file o, s'⟩ :: h) s.disk)
    (hdone : ∀ s', s'.fault = false →
      Q (o.sem false s.disk).1 (⟨.file o, s'⟩ :: h) (o.sem false s.disk).2) :
    Leaving X faults clocks P (file o) Q h s := by
  refine ⟨hP, ?_⟩
  change Q ((KeyOp.file o).sem X (script faults clocks h s)).1
    (⟨.file o, script faults clocks h s⟩ :: h)
    ((KeyOp.file o).sem X (script faults clocks h s)).2.disk
  cases hfault : (script faults clocks h s).fault with
  | true =>
    rw [sem_file_fault hfault]
    exact hfail _ hfault
  | false =>
    rw [sem_file hfault]
    exact hdone _ hfault

/-- Writing on: `J j` holds with `j` of the bytes written. -/
theorem leaving_writeFrom {J : ℕ → List KeyCall → Disk String → Prop} {i : ℕ} {bytes : Bytes}
    (hP : ∀ j h d, J j h d → P h d)
    (hfail : ∀ j b h d s', J j h d → s'.fault = true → J j (⟨.file (.writeAt i j b), s'⟩ :: h) d)
    (hdone : ∀ j b h d s', J j h d → bytes[j]? = some b → s'.fault = false →
      J (j + 1) (⟨.file (.writeAt i j b), s'⟩ :: h) (d.writeAt i j b))
    (rest done : Bytes) (hbytes : bytes = done ++ rest) {s : KeyHost}
    (hJ : J done.length h s.disk) :
    Leaving X faults clocks P (writeFrom i done.length rest) (fun ok h' d' =>
      ∃ j, J j h' d' ∧ (ok = true → j = bytes.length)) h s := by
  induction rest generalizing done h s with
  | nil =>
    rw [List.append_nil] at hbytes
    exact ⟨_, hJ, fun _ => by rw [hbytes]⟩
  | cons b rest ih =>
    have hb : bytes[done.length]? = some b := by
      rw [hbytes, List.getElem?_append_right (Nat.le_refl _), Nat.sub_self]
      rfl
    refine Leaving.then (Q := fun ok h' d' => if ok then J (done.length + 1) h' d'
      else J done.length h' d') ?_ fun ok h' s' hok => ?_
    · exact leaving_file (hP _ _ _ hJ) (fun s' => hfail _ _ _ _ s' hJ)
        fun s' => hdone _ _ _ _ s' hJ hb
    · cases ok with
      | false => exact ⟨_, hok, fun hok' => by cases hok'⟩
      | true =>
        have hnext := ih (done ++ [b]) (by rw [hbytes, List.append_assoc]; rfl)
          (by rw [List.length_append]; exact hok)
        rw [List.length_append] at hnext
        exact hnext

/-- Writing a file: `I` holds before it is opened, and `J i j` with `j` bytes in the file `i`. -/
theorem leaving_writeFile {I : List KeyCall → Disk String → Prop}
    {J : ℕ → ℕ → List KeyCall → Disk String → Prop} {path : String} {bytes : Bytes}
    (hI : ∀ h d, I h d → P h d) (hP : ∀ i j h d, J i j h d → P h d)
    (hunopened : ∀ h d s', I h d → s'.fault = true → I (⟨.file (.create path), s'⟩ :: h) d)
    (hopened : ∀ h d s', I h d → s'.fault = false →
      J (d.create path).1 0 (⟨.file (.create path), s'⟩ :: h) (d.create path).2)
    (hfail : ∀ i j b h d s', J i j h d → s'.fault = true →
      J i j (⟨.file (.writeAt i j b), s'⟩ :: h) d)
    (hdone : ∀ i j b h d s', J i j h d → bytes[j]? = some b → s'.fault = false →
      J i (j + 1) (⟨.file (.writeAt i j b), s'⟩ :: h) (d.writeAt i j b))
    {s : KeyHost} (hs : I h s.disk) :
    Leaving X faults clocks P (writeFile path bytes) (fun ok h' d' =>
      ok = false ∧ I h' d' ∨ ∃ i j, J i j h' d' ∧ (ok = true → j = bytes.length)) h s := by
  refine Leaving.then (Q := fun r h' d' => r = none ∧ I h' d' ∨ ∃ i, r = some i ∧ J i 0 h' d') ?_
    fun r h' s' hr => ?_
  · exact leaving_file (hI _ _ hs) (fun s' hfault => .inl ⟨rfl, hunopened _ _ s' hs hfault⟩)
      fun s' hfault => .inr ⟨_, rfl, hopened _ _ s' hs hfault⟩
  · obtain ⟨rfl, hs'⟩ | ⟨i, rfl, hs'⟩ := hr
    · exact .inl ⟨rfl, hs'⟩
    · refine (leaving_writeFrom (hP i) (hfail i) (hdone i) bytes [] rfl hs').mono
        fun ok h'' d'' hok => ?_
      obtain ⟨j, hj, hlen⟩ := hok
      exact .inr ⟨i, j, hj, hlen⟩

/-! ## The stages -/

/-- What a rotation that started on the disk `d₀` has made of the key and its copy. -/
structure At (X : KeyDeps) (sk : String) (pid : ℕ) (d₀ : Disk String) (g : Stage)
    (h : List KeyCall) (d : Disk String) : Prop where
  apart : d.Apart (Rotates sk)
  key : d.text sk = g.key X (d₀.text sk)
  pub : d.text (pubFile sk) = g.pub X (d₀.text (pubFile sk))
  calls : g.Calls sk pid h

/-- Before the new key is in its place, with the key pair `k`. -/
structure Minted (X : KeyDeps) (sk : String) (pid : ℕ) (d₀ : Disk String) (k : ℕ)
    (h : List KeyCall) (d : Disk String) : Prop where
  stage : At X sk pid d₀ .kept h d
  minted : lastMinted h = some k

/-- The replacement is complete, and waits to be published. -/
structure Ready (X : KeyDeps) (sk : String) (pid : ℕ) (d₀ : Disk String) (g : Stage) (k : ℕ)
    (h : List KeyCall) (d : Disk String) : Prop where
  stage : At X sk pid d₀ g h d
  minted : lastMinted h = some k
  uncopied : copyWritten sk h = none
  pub : d.text (pubFile sk) = d₀.text (pubFile sk)
  tmp : d.text (rotatingFile sk pid) = some (keyText X (keyOf X k).2)

variable {d₀ d : Disk String} {k : ℕ}

theorem At.fault {o : FileOp String} {s' : KeyHost} (hs : At X sk pid d₀ g h d)
    (hfault : s'.fault = true) : At X sk pid d₀ g (⟨.file o, s'⟩ :: h) d :=
  ⟨hs.apart, hs.key, hs.pub, hs.calls.fault hfault⟩

theorem lastMinted_file (o : FileOp String) (s' : KeyHost) :
    lastMinted (⟨.file o, s'⟩ :: h) = lastMinted h := by
  cases o <;> rfl

theorem copyWritten_fault {o : FileOp String} {s' : KeyHost} (hfault : s'.fault = true) :
    copyWritten sk (⟨.file o, s'⟩ :: h) = copyWritten sk h := by
  cases o <;> simp [copyWritten, hfault]

theorem Ready.fault {o : FileOp String} {s' : KeyHost} (hs : Ready X sk pid d₀ g k h d)
    (hfault : s'.fault = true) : Ready X sk pid d₀ g k (⟨.file o, s'⟩ :: h) d :=
  ⟨hs.stage.fault hfault, (lastMinted_file o s').trans hs.minted,
    (copyWritten_fault hfault).trans hs.uncopied, hs.pub, hs.tmp⟩

/-- A call that only looks. -/
theorem At.looks {o : KeyOp} (ho : o.Looks) {s' : KeyHost} (hs : At X sk pid d₀ .kept h d) :
    At X sk pid d₀ .kept (⟨o, s'⟩ :: h) d := by
  refine ⟨hs.apart, hs.key, hs.pub, ?_⟩
  cases o with
  | file o => cases o <;> first | exact hs.calls | exact ho.elim
  | _ => exact hs.calls

theorem disk_looks {o : KeyOp} (ho : o.Looks) (s : KeyHost) : (o.sem X s).2.disk = s.disk := by
  cases o with
  | file o => cases o <;> first | rfl | exact ho.elim
  | _ => rfl

/-! ## Renames -/

/-- What a rename does that the file system does not fail. -/
theorem rename_sem {a b : String} {i : ℕ} (hapart : d.Apart (Rotates sk)) (ha : Rotates sk a)
    (hb : Rotates sk b) (hab : a ≠ b) (hi : d.paths a = some i) :
    (FileOp.rename a b).sem false d = (true, d.moved a b i) := by
  simp [FileOp.sem, Disk.attempt, hapart.rename ha hb hab hi]

theorem leads_of_text {q : String} {t : Bytes} (ht : d.text q = some t) :
    ∃ i, d.paths q = some i := by
  obtain ⟨i, hi, -⟩ := Option.map_eq_some_iff.1 ht
  exact ⟨i, hi⟩

theorem lastRename_done {a b : String} {s' : KeyHost} (hfault : s'.fault = false) :
    lastRename (⟨.file (.rename a b), s'⟩ :: h) = some a := by
  rw [lastRename, if_neg (by simp [hfault])]

/-- The replacement takes the place of the key. -/
theorem Ready.publish {i : ℕ} {s' : KeyHost} (hs : Ready X sk pid d₀ g k h d)
    (hi : d.paths (rotatingFile sk pid) = some i) (hfault : s'.fault = false) :
    At X sk pid d₀ (.replaced k) (⟨.file (.rename (rotatingFile sk pid) sk), s'⟩ :: h)
      (d.moved (rotatingFile sk pid) sk i) where
  apart := hs.stage.apart.moved (.rotating pid) hi
  key := (Disk.text_moved_new hi).trans hs.tmp
  pub := (Disk.text_moved_of_ne (rotatingFile_ne_pubFile pid).symm pubFile_ne).trans hs.pub
  calls := ⟨lastRename_done hfault, hs.minted, hs.uncopied⟩

/-- The key is moved aside. -/
theorem Ready.park {i stamp : ℕ} {s' : KeyHost} (hs : Ready X sk pid d₀ g k h d)
    (hi : d.paths sk = some i) (hfault : s'.fault = false) :
    Ready X sk pid d₀ .aside k (⟨.file (.rename sk (archiveFile sk stamp)), s'⟩ :: h)
      (d.moved sk (archiveFile sk stamp) i) := by
  have hpub : (d.moved sk (archiveFile sk stamp) i).text (pubFile sk) =
      d₀.text (pubFile sk) :=
    (Disk.text_moved_of_ne pubFile_ne (archiveFile_ne_pubFile stamp).symm).trans hs.pub
  refine ⟨⟨hs.stage.apart.moved .key hi, ?_, hpub, lastRename_done hfault, hs.uncopied⟩,
    hs.minted, hs.uncopied, hpub, ?_⟩
  · exact Disk.text_moved_old (archiveFile_ne stamp).symm
  · rw [Disk.text_moved_of_ne (rotatingFile_ne pid) (rotatingFile_ne_archiveFile pid stamp)]
    exact hs.tmp

/-- The key is put back. -/
theorem Ready.unpark {i stamp : ℕ} {s' : KeyHost} (hs : Ready X sk pid d₀ g k h d)
    (hold : d.text (archiveFile sk stamp) = d₀.text sk)
    (hi : d.paths (archiveFile sk stamp) = some i) (hfault : s'.fault = false) :
    At X sk pid d₀ .kept (⟨.file (.rename (archiveFile sk stamp) sk), s'⟩ :: h)
      (d.moved (archiveFile sk stamp) sk i) := by
  refine ⟨hs.stage.apart.moved (.archive stamp) hi, (Disk.text_moved_new hi).trans hold,
    (Disk.text_moved_of_ne (archiveFile_ne_pubFile stamp).symm pubFile_ne).trans hs.pub, ?_⟩
  rw [Stage.Calls, lastRename_done hfault]
  refine ⟨fun heq => archiveFile_ne stamp (Option.some.inj heq), fun heq => ?_, hs.uncopied⟩
  exact rotatingFile_ne_archiveFile pid stamp (Option.some.inj heq).symm

/-- Removing the temporary file changes no text at another name. -/
theorem removeFile_keeps {path q : String} (hapart : d.Apart (Rotates sk)) (hq : q ≠ path) :
    ((FileOp.removeFile path).sem false d).2.Apart (Rotates sk) ∧
      ((FileOp.removeFile path).sem false d).2.text q = d.text q := by
  have hsem : ((FileOp.removeFile path).sem false d).2 =
      (d.attempt (if (d.paths path).isSome then some (d.without path) else none)).2 := rfl
  rw [hsem]
  split
  · exact ⟨hapart.without path, Disk.text_without_of_ne hq⟩
  · exact ⟨hapart, rfl⟩

/-- The temporary file is removed. -/
theorem At.removeFile {s' : KeyHost} (hs : At X sk pid d₀ g h d) :
    At X sk pid d₀ g (⟨.file (.removeFile (rotatingFile sk pid)), s'⟩ :: h)
      ((FileOp.removeFile (rotatingFile sk pid)).sem false d).2 := by
  have hkey : sk ≠ rotatingFile sk pid := (rotatingFile_ne pid).symm
  have hpub : pubFile sk ≠ rotatingFile sk pid := (rotatingFile_ne_pubFile pid).symm
  obtain ⟨hapart, hkey⟩ := removeFile_keeps hs.apart hkey
  obtain ⟨-, hpub⟩ := removeFile_keeps hs.apart hpub
  exact ⟨hapart, hkey.trans hs.key, hpub.trans hs.pub, hs.calls.of_eq rfl rfl rfl⟩

/-! ## The two files that are written -/

theorem Minted.create {s' : KeyHost} (hs : Minted X sk pid d₀ k h d) (hfault : s'.fault = false) :
    Minted X sk pid d₀ k (⟨.file (.create (rotatingFile sk pid)), s'⟩ :: h)
      (d.create (rotatingFile sk pid)).2 := by
  have hs' := hs.stage
  refine ⟨⟨hs'.apart.create (.rotating pid), ?_, ?_, hs'.calls.1, hs'.calls.2.1, ?_⟩, hs.minted⟩
  · rw [hs'.apart.text_create_of_ne (.rotating pid) .key (rotatingFile_ne pid).symm, hs'.key]
  · rw [hs'.apart.text_create_of_ne (.rotating pid) .pub (rotatingFile_ne_pubFile pid).symm,
      hs'.pub]
  · rw [copyWritten, if_neg (by simp [hfault]), if_neg (rotatingFile_ne_pubFile pid)]

theorem Minted.writeAt {i j : ℕ} {b : UInt8} {s' : KeyHost} (hs : Minted X sk pid d₀ k h d)
    (hi : d.paths (rotatingFile sk pid) = some i) (hfault : s'.fault = false) :
    Minted X sk pid d₀ k (⟨.file (.writeAt i j b), s'⟩ :: h) (d.writeAt i j b) := by
  have hs' := hs.stage
  refine ⟨⟨hs'.apart.writeAt i j b, ?_, ?_, hs'.calls.1, hs'.calls.2.1, ?_⟩, hs.minted⟩
  · rw [Disk.text_writeAt_of_ne (fun hsk => rotatingFile_ne pid
      (hs'.apart.separate _ _ _ (.rotating pid) .key hi hsk)), hs'.key]
  · rw [Disk.text_writeAt_of_ne (fun hpub => rotatingFile_ne_pubFile pid
      (hs'.apart.separate _ _ _ (.rotating pid) .pub hi hpub)), hs'.pub]
  · rw [copyWritten, if_neg (by simp [hfault]), hs'.calls.2.2]
    rfl

/-- `.pub` is opened. -/
theorem At.create {s' : KeyHost} (hs : At X sk pid d₀ (.replaced k) h d)
    (hfault : s'.fault = false) :
    At X sk pid d₀ (.copied k 0) (⟨.file (.create (pubFile sk)), s'⟩ :: h)
      (d.create (pubFile sk)).2 where
  apart := hs.apart.create .pub
  key := (hs.apart.text_create_of_ne .pub .key pubFile_ne.symm).trans hs.key
  pub := d.text_create (pubFile sk)
  calls := ⟨hs.calls.1, hs.calls.2.1, by rw [copyWritten, if_neg (by simp [hfault]), if_pos rfl]⟩

theorem At.writeAt {i j : ℕ} {b : UInt8} {s' : KeyHost} (hs : At X sk pid d₀ (.copied k j) h d)
    (hi : d.paths (pubFile sk) = some i)
    (htext : d.content i = (toUtf8 (keyOf X k).1).take j)
    (hb : (toUtf8 (keyOf X k).1)[j]? = some b) (hfault : s'.fault = false) :
    At X sk pid d₀ (.copied k (j + 1)) (⟨.file (.writeAt i j b), s'⟩ :: h) (d.writeAt i j b) := by
  refine ⟨hs.apart.writeAt i j b, ?_, ?_, hs.calls.1, hs.calls.2.1, ?_⟩
  · rw [Disk.text_writeAt_of_ne (fun hsk => pubFile_ne
      (hs.apart.separate _ _ _ .pub .key hi hsk)), hs.key]
    rfl
  · have hpaths : (d.writeAt i j b).paths (pubFile sk) = some i := hi
    rw [Disk.text_of_leads _ hpaths, d.content_writeAt htext hb]
    rfl
  · rw [copyWritten, if_neg (by simp [hfault]), hs.calls.2.2]
    rfl

/-! ## The whole rotation -/

variable (X sk pid d₀ faults clocks) in
/-- Wherever the program stops the rotation is at some stage. -/
abbrev Staged {α : Type} (p : KeyHandler α) (Q : α → List KeyCall → Disk String → Prop)
    (h : List KeyCall) (s : KeyHost) : Prop :=
  Leaving X faults clocks (fun h d => ∃ g, At X sk pid d₀ g h d) p Q h s

/-- Where a rotation returns; with an error the new key is not in its place. -/
def Returns (X : KeyDeps) (sk : String) (pid : ℕ) (d₀ : Disk String)
    (r : Except String (String × String)) (h : List KeyCall) (d : Disk String) : Prop :=
  ∃ g, At X sk pid d₀ g h d ∧ ∀ e, r = .error e → g = .kept ∨ g = .aside

variable {s : KeyHost}

/-- The temporary file is removed, and the error returned. -/
theorem staged_giveUp {e : String} (hs : At X sk pid d₀ g h s.disk)
    (hg : g = .kept ∨ g = .aside) :
    Staged X sk pid faults clocks d₀
      (do let _ ← file (.removeFile (rotatingFile sk pid)); pure (.error e))
      (Returns X sk pid d₀) h s := by
  refine Leaving.then (Q := fun _ h' d' => At X sk pid d₀ g h' d') ?_ fun _ h' s' hs' => ?_
  · exact leaving_file ⟨g, hs⟩ (fun _ hfault => hs.fault hfault) fun _ _ => hs.removeFile
  · exact ⟨g, hs', fun _ _ => hg⟩

/-- The new key is in its place, and the file `.pub` is written. -/
theorem staged_published {res : String × String} (hs : At X sk pid d₀ (.replaced k) h s.disk) :
    Staged X sk pid faults clocks d₀
      (do let _ ← writeFile (pubFile sk) (toUtf8 (keyOf X k).1); pure (.ok res))
      (Returns X sk pid d₀) h s := by
  refine (leaving_writeFile (I := At X sk pid d₀ (.replaced k)) (J := fun i j h d =>
    At X sk pid d₀ (.copied k j) h d ∧ d.paths (pubFile sk) = some i ∧
      d.content i = (toUtf8 (keyOf X k).1).take j) ?_ ?_ ?_ ?_ ?_ ?_ hs).then
    fun ok h' s' hok => ?_
  · exact fun h d hs => ⟨_, hs⟩
  · exact fun i j h d hs => ⟨_, hs.1⟩
  · exact fun h d s' hs hfault => hs.fault hfault
  · intro h d s' hs hfault
    obtain ⟨hi, hempty⟩ := d.create_leads (pubFile sk)
    exact ⟨hs.create hfault, hi, hempty⟩
  · exact fun i j b h d s' hs hfault => ⟨hs.1.fault hfault, hs.2⟩
  · rintro i j b h d s' ⟨hs, hi, htext⟩ hb hfault
    exact ⟨hs.writeAt hi htext hb hfault, hi, d.content_writeAt htext hb⟩
  · obtain ⟨-, hs'⟩ | ⟨i, j, ⟨hs', -⟩, -⟩ := hok
    · exact ⟨_, hs', fun e he => by cases he⟩
    · exact ⟨_, hs', fun e he => by cases he⟩

/-- The replacement is published over the key, or where there is none. -/
theorem staged_publish_over {archive : String} (hs : Ready X sk pid d₀ .kept k h s.disk) :
    Staged X sk pid faults clocks d₀
      (publishReplacement X sk (rotatingFile sk pid) archive (keyOf X k).1 false)
      (Returns X sk pid d₀) h s := by
  obtain ⟨i, hi⟩ := leads_of_text hs.tmp
  refine Leaving.then (Q := fun ok h' d' => if ok then At X sk pid d₀ (.replaced k) h' d'
    else At X sk pid d₀ .kept h' d') ?_ fun ok h' s' hok => ?_
  · refine leaving_file ⟨_, hs.stage⟩ (fun _ hfault => hs.stage.fault hfault) fun _ hfault => ?_
    rw [rename_sem hs.stage.apart (.rotating pid) .key (rotatingFile_ne pid) hi]
    exact hs.publish hi hfault
  · cases ok with
    | false => exact staged_giveUp hok (.inl rfl)
    | true => exact staged_published hok

/-- The replacement is published while the key is aside, or the key is put back, or neither. -/
theorem staged_publish_aside {stamp : ℕ} {old : Bytes} (hold : d₀.text sk = some old)
    (hs : Ready X sk pid d₀ .aside k h s.disk)
    (harchive : s.disk.text (archiveFile sk stamp) = some old) :
    Staged X sk pid faults clocks d₀
      (publishReplacement X sk (rotatingFile sk pid) (archiveFile sk stamp) (keyOf X k).1 true)
      (Returns X sk pid d₀) h s := by
  obtain ⟨i, hi⟩ := leads_of_text hs.tmp
  refine Leaving.then (Q := fun ok h' d' => if ok then At X sk pid d₀ (.replaced k) h' d'
    else Ready X sk pid d₀ .aside k h' d' ∧ d'.text (archiveFile sk stamp) = some old) ?_
    fun ok h' s' hok => ?_
  · refine leaving_file ⟨_, hs.stage⟩ (fun _ hfault => ⟨hs.fault hfault, harchive⟩)
      fun _ hfault => ?_
    rw [rename_sem hs.stage.apart (.rotating pid) .key (rotatingFile_ne pid) hi]
    exact hs.publish hi hfault
  · cases ok with
    | true => exact staged_published hok
    | false =>
      obtain ⟨hs', harchive'⟩ := hok
      obtain ⟨i', hi'⟩ := leads_of_text harchive'
      refine Leaving.then (Q := fun _ h' d' => At X sk pid d₀ .kept h' d' ∨
        At X sk pid d₀ .aside h' d') ?_ fun _ h'' s'' hs'' => ?_
      · refine leaving_file ⟨_, hs'.stage⟩ (fun _ hfault => .inr (hs'.stage.fault hfault))
          fun _ hfault => .inl ?_
        rw [rename_sem hs'.stage.apart (.archive stamp) .key (archiveFile_ne stamp) hi']
        exact hs'.unpark (harchive'.trans hold.symm) hi' hfault
      · obtain hkept | haside := hs''
        · exact staged_giveUp hkept (.inl rfl)
        · exact staged_giveUp haside (.inr rfl)

theorem looks_readToString (path : String) : (readToString path).Uses KeyOp.Looks := by
  refine uses_bind ⟨trivial, fun _ => trivial⟩ fun r => ?_
  cases r with
  | none => trivial
  | some i => exact ⟨trivial, fun _ => trivial⟩

theorem looks_serverPublicKeyOnDiskAt (sk : String) :
    (serverPublicKeyOnDiskAt X sk).Uses KeyOp.Looks := by
  refine uses_bind (looks_readToString _) fun pk => ?_
  dsimp only
  split
  · trivial
  · exact uses_bind (looks_readToString _) fun _ => trivial

/-- A program that only looks leaves the key where it is. -/
theorem staged_of_looks {α : Type} {p : KeyHandler α} (hp : p.Uses KeyOp.Looks)
    (hs : At X sk pid d₀ .kept h s.disk) :
    Staged X sk pid faults clocks d₀ p (fun _ h' d' => At X sk pid d₀ .kept h' d') h s := by
  have hstops : p.Stops (KeyOp.sem X) (script faults clocks)
      (fun h s => At X sk pid d₀ .kept h s.disk)
      (fun _ h s => At X sk pid d₀ .kept h s.disk) h s := by
    refine hp.stops hs fun o h s ho hs => ?_
    rw [disk_looks ho]
    exact hs.looks ho
  exact hstops.mono (fun _ _ hs => ⟨_, hs⟩) fun _ _ _ hs => hs

theorem staged_genUntilSafe (n : ℕ) (hs : At X sk pid d₀ .kept h s.disk) :
    Staged X sk pid faults clocks d₀ (genUntilSafe X n) (fun key h' d' =>
      ∃ k, key = keyOf X k ∧ Minted X sk pid d₀ k h' d') h s := by
  have hgen : ∀ {h : List KeyCall} {s : KeyHost}, At X sk pid d₀ .kept h s.disk →
      Staged X sk pid faults clocks d₀ (genFunc X) (fun key h' d' =>
        ∃ k, key = keyOf X k ∧ Minted X sk pid d₀ k h' d') h s := fun {h s} hs =>
    ⟨⟨_, hs⟩, s.keypairs, rfl, hs.looks (o := .genKeypair) trivial, rfl⟩
  induction n generalizing h s with
  | zero => exact hgen hs
  | succ n ih =>
    refine (hgen hs).then fun key h' s' hkey => ?_
    obtain ⟨k, hk, hs'⟩ := hkey
    split
    · exact ⟨k, hk, hs'⟩
    · exact ih hs'.stage

/-- The replacement is written to the temporary file. -/
theorem staged_writePrivate (hs : Minted X sk pid d₀ k h s.disk) :
    Staged X sk pid faults clocks d₀
      (writePrivate (rotatingFile sk pid) (keyText X (keyOf X k).2)) (fun ok h' d' =>
        At X sk pid d₀ .kept h' d' ∧ (ok = true → Ready X sk pid d₀ .kept k h' d')) h s := by
  refine (leaving_writeFile (I := Minted X sk pid d₀ k) (J := fun i j h d =>
    Minted X sk pid d₀ k h d ∧ d.paths (rotatingFile sk pid) = some i ∧
      d.content i = (keyText X (keyOf X k).2).take j) ?_ ?_ ?_ ?_ ?_ ?_ hs).mono
    fun ok h' d' hok => ?_
  · exact fun h d hs => ⟨_, hs.stage⟩
  · exact fun i j h d hs => ⟨_, hs.1.stage⟩
  · exact fun h d s' hs hfault => ⟨hs.stage.fault hfault, hs.minted⟩
  · intro h d s' hs hfault
    obtain ⟨hi, hempty⟩ := d.create_leads (rotatingFile sk pid)
    exact ⟨hs.create hfault, hi, hempty⟩
  · exact fun i j b h d s' hs hfault =>
      ⟨⟨hs.1.stage.fault hfault, hs.1.minted⟩, hs.2⟩
  · rintro i j b h d s' ⟨hs, hi, htext⟩ hb hfault
    exact ⟨hs.writeAt hi hfault, hi, d.content_writeAt htext hb⟩
  · obtain ⟨rfl, hs'⟩ | ⟨i, j, ⟨hs', hi, htext⟩, hlen⟩ := hok
    · exact ⟨hs'.stage, fun hok => by cases hok⟩
    · refine ⟨hs'.stage, fun hok => ⟨hs'.stage, hs'.minted, hs'.stage.calls.2.2, hs'.stage.pub, ?_⟩⟩
      rw [Disk.text_of_leads _ hi, htext, hlen hok, List.take_length]

theorem staged_rotateServerKeyAt (hs : At X sk pid d₀ .kept h s.disk) :
    Staged X sk pid faults clocks d₀ (rotateServerKeyAt X sk pid) (Returns X sk pid d₀) h s := by
  refine (staged_of_looks (looks_serverPublicKeyOnDiskAt sk) hs).then fun _ h₁ s₁ hs₁ => ?_
  refine (staged_genUntilSafe 300 hs₁).then fun key h₂ s₂ hkey => ?_
  obtain ⟨k, rfl, hs₂⟩ := hkey
  refine (staged_writePrivate hs₂).then fun ok h₃ s₃ hok => ?_
  cases ok with
  | false => exact ⟨_, hok.1, fun _ _ => .inl rfl⟩
  | true =>
    have hs₃ := hok.2 rfl
    have hlook : ∀ {o : KeyOp} {s' : KeyHost} {h d}, o.Looks → o ≠ .genKeypair →
        Ready X sk pid d₀ .kept k h d → Ready X sk pid d₀ .kept k (⟨o, s'⟩ :: h) d := by
      intro o s' h d ho hgen hs
      refine ⟨hs.stage.looks ho, ?_, (hs.stage.looks ho).calls.2.2, hs.pub, hs.tmp⟩
      cases o with
      | genKeypair => exact absurd rfl hgen
      | _ => exact hs.minted
    refine Leaving.then (Q := fun _ h' d' => Ready X sk pid d₀ .kept k h' d')
      ⟨⟨_, hs₃.stage⟩, hlook trivial (by simp) hs₃⟩ fun stamp h₄ s₄ hs₄ => ?_
    refine Leaving.then (Q := fun hadOld h' d' => Ready X sk pid d₀ .kept k h' d' ∧
      (hadOld = true → ∃ i, d'.paths sk = some i)) ?_ fun hadOld h₅ s₅ hs₅ => ?_
    · refine leaving_file ⟨_, hs₄.stage⟩ (fun _ hfault => ⟨hs₄.fault hfault, fun hok => ?_⟩)
        fun _ _ => ⟨hlook trivial (by simp) hs₄, fun hok => Option.isSome_iff_exists.1 hok⟩
      cases hok
    cases hadOld with
    | false => exact staged_publish_over hs₅.1
    | true =>
      obtain ⟨hs₅, hthere⟩ := hs₅
      obtain ⟨i, hi⟩ := hthere rfl
      have hold : d₀.text sk = some (s₅.disk.content i) :=
        hs₅.stage.key.symm.trans (Disk.text_of_leads _ hi)
      refine Leaving.then (Q := fun ok h' d' => if ok
        then Ready X sk pid d₀ .aside k h' d' ∧
          d'.text (archiveFile sk stamp) = some (s₅.disk.content i)
        else Ready X sk pid d₀ .kept k h' d') ?_ fun ok h₆ s₆ hok => ?_
      · refine leaving_file ⟨_, hs₅.stage⟩ (fun _ hfault => hs₅.fault hfault) fun _ hfault => ?_
        rw [rename_sem hs₅.stage.apart .key (.archive stamp) (archiveFile_ne stamp).symm hi]
        exact ⟨hs₅.park hi hfault, (Disk.text_moved_new hi).trans (Disk.text_of_leads _ hi)⟩
      · cases ok with
        | true => exact staged_publish_aside hold hok.1 hok.2
        | false => exact staged_giveUp hok.stage (.inl rfl)

/-- A rotation of which no more than `n` calls are made. -/
abbrev stoppedRotation (X : KeyDeps) (sk : String) (pid : ℕ) (faults : ℕ → Bool)
    (clocks : ℕ → ℕ) (n : ℕ) (s : KeyHost) :
    Option (Except String (String × String)) × List KeyCall × KeyHost :=
  (rotateServerKeyAt X sk pid).stopped (KeyOp.sem X) (script faults clocks) n [] s

/-- Wherever a rotation stops, the calls it made tell the stage, and the stage tells what is at the
path of the key and in its copy. -/
theorem stage_stopped (X : KeyDeps) (pid : ℕ) (faults : ℕ → Bool) (clocks : ℕ → ℕ)
    (hs : s.disk.Apart (Rotates sk)) (n : ℕ) :
    At X sk pid s.disk (stageOf sk pid (stoppedRotation X sk pid faults clocks n s).2.1)
        (stoppedRotation X sk pid faults clocks n s).2.1
        (stoppedRotation X sk pid faults clocks n s).2.2.disk ∧
      ∀ e, (stoppedRotation X sk pid faults clocks n s).1 = some (.error e) →
        stageOf sk pid (stoppedRotation X sk pid faults clocks n s).2.1 = .kept ∨
          stageOf sk pid (stoppedRotation X sk pid faults clocks n s).2.1 = .aside := by
  have hcalls : Stage.Calls sk pid [] .kept := by
    refine ⟨fun heq => ?_, fun heq => ?_, rfl⟩ <;> cases heq
  have hstart : At X sk pid s.disk .kept [] s.disk := ⟨hs, rfl, rfl, hcalls⟩
  have hstops : (rotateServerKeyAt X sk pid).Stops (KeyOp.sem X) (script faults clocks)
      (fun h s' => ∃ g, At X sk pid s.disk g h s'.disk)
      (fun r h s' => Returns X sk pid s.disk r h s'.disk) [] s := staged_rotateServerKeyAt hstart
  obtain ⟨g, hg, hr⟩ := Stops.stopped (Q := fun r h s' => ∃ g, At X sk pid s.disk g h s'.disk ∧
    ∀ e, r = some (.error e) → g = .kept ∨ g = .aside) (hstops.mono
      (fun h s' ⟨g, hg⟩ => ⟨g, hg, fun e he => by cases he⟩)
      fun r h s' ⟨g, hg, hr⟩ => ⟨g, hg, fun e he => hr e (Option.some.inj he)⟩) n
  rw [hg.calls.stageOf_eq]
  exact ⟨hg, hr⟩

end Keys

end NemoServer
