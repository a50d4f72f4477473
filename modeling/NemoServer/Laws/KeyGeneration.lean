import NemoServer.Foundations.Rely
import NemoServer.Keys.Generate
import NemoServer.Server.Sample
import NemoServer.Std.Base64

/-!
# First starts agree on a key

Any number of processes that start at once, on a host without a key file, end up with one key: one
of them publishes, what it publishes is complete and stays, and every process that goes on goes on
with what is in the file.

* `Leaves`: what a process counts on while others run.
* `Sane`: the invariant of the directory.
-/

set_option autoImplicit false

namespace NemoServer

namespace Keys

open Prog Str

variable {X : KeyDeps}

/-- What the law needs to know of base64 and of Ed25519. -/
structure KeyDeps.Sound (X : KeyDeps) : Prop where
  decode : ∀ b, X.base64Decode (X.base64Encode b) = some b
  trimmed : ∀ b, trim (X.base64Encode b) = X.base64Encode b
  length : ∀ n, (X.signKeypair n).2.length = 64
  half : ∀ n, (X.signKeypair n).2.drop 32 = (X.signKeypair n).1

/-! ## Names -/

theorem tmpFile_ne_skFile (suffix : String) : tmpFile suffix ≠ skFile := by
  intro h
  have hlen := congrArg String.length h
  rw [tmpFile, String.length_append, String.length_append] at hlen
  have hdash : ".tmp-".length = 5 := rfl
  omega

theorem tmpFile_ne_pubFile (suffix : String) : tmpFile suffix ≠ pubFile skFile := by
  intro h
  have hchars := congrArg String.toList h
  simp [tmpFile, pubFile, skFile] at hchars

theorem pubFile_ne_skFile : pubFile skFile ≠ skFile := by decide

/-! ## The directory -/

/-- The `k`-th key pair, as a process returns it. -/
def keyOf (X : KeyDeps) (k : ℕ) : ServerKey :=
  (X.base64Encode (X.signKeypair k).1, (X.signKeypair k).2)

/-- The invariant: what is at the path of the key is a complete key, and no other name leads there
but the temporary name it was published from. -/
structure Sane (X : KeyDeps) (s : KeyHost) : Prop where
  bounded : ∀ path i, s.disk.paths path = some i → i < s.disk.fresh
  separate : ∀ path path' i, s.disk.paths path = some i → s.disk.paths path' = some i →
    path ≠ skFile → path' ≠ skFile → path = path'
  whole : ∀ i, s.disk.paths skFile = some i → ∃ k, s.disk.content i = keyText X (keyOf X k).2
  alone : ∀ path i, path ∉ s.tmpNames → path ≠ skFile → s.disk.paths skFile = some i →
    s.disk.paths path ≠ some i
  named : ∀ path ∈ s.tmpNames, ∃ suffix, path = tmpFile suffix

/-- What others leave of the state to a process with the temporary file `tmp`: its file, as long as
it is not published, and the key. -/
structure Leaves (X : KeyDeps) (tmp : String) (s s' : KeyHost) : Prop where
  sane : Sane X s → Sane X s'
  own : s'.disk.paths tmp = s.disk.paths tmp
  kept : ∀ i, s.disk.paths tmp = some i → s.disk.paths skFile ≠ some i →
    s'.disk.content i = s.disk.content i ∧ s'.disk.paths skFile ≠ some i
  key : ∀ i, s.disk.paths skFile = some i →
    s'.disk.paths skFile = some i ∧ s'.disk.content i = s.disk.content i
  pub : ∀ i, s.disk.paths (pubFile skFile) = some i → s'.disk.paths (pubFile skFile) = some i
  names : s.tmpNames ⊆ s'.tmpNames

/-- The key is the one at the path of the key. -/
def InFile (X : KeyDeps) (key : ServerKey) (s : KeyHost) : Prop :=
  ∃ i k, s.disk.paths skFile = some i ∧ s.disk.content i = keyText X key.2 ∧ key = keyOf X k

/-- What every operation of a process sees to. -/
structure Sees (X : KeyDeps) (tmp : String) (o : KeyOp) (s : KeyHost) : Prop where
  leaves : ∀ tmp', tmp' ≠ tmp → tmp' ≠ skFile → tmp' ≠ pubFile skFile →
    Leaves X tmp' s (o.sem X s).2
  returns : ∀ key, o = .started (some key) → InFile X key s
  reads : ∀ i, o = .file (.read i) → s.disk.paths skFile = some i

theorem Leaves.refl (tmp : String) (s : KeyHost) : Leaves X tmp s s where
  sane := id
  own := rfl
  kept _ _ h := ⟨rfl, h⟩
  key _ h := ⟨h, rfl⟩
  pub _ h := h
  names _ h := h

theorem Leaves.trans {tmp : String} {s s' s'' : KeyHost} (h : Leaves X tmp s s')
    (h' : Leaves X tmp s' s'') : Leaves X tmp s s'' where
  sane hs := h'.sane (h.sane hs)
  own := h'.own.trans h.own
  kept i hi hne := by
    obtain ⟨hcontent, hne'⟩ := h.kept i hi hne
    obtain ⟨hcontent', hne''⟩ := h'.kept i (h.own.trans hi) hne'
    exact ⟨hcontent'.trans hcontent, hne''⟩
  key i hi := by
    obtain ⟨hi', hcontent⟩ := h.key i hi
    obtain ⟨hi'', hcontent'⟩ := h'.key i hi'
    exact ⟨hi'', hcontent'.trans hcontent⟩
  pub i hi := h'.pub i (h.pub i hi)
  names _ hi := h'.names (h.names hi)

theorem InFile.of_leaves {tmp : String} {key : ServerKey} {s s' : KeyHost} (h : InFile X key s)
    (hs : Leaves X tmp s s') : InFile X key s' := by
  obtain ⟨i, k, hi, hcontent, hkey⟩ := h
  obtain ⟨hi', hcontent'⟩ := hs.key i hi
  exact ⟨i, k, hi', hcontent'.trans hcontent, hkey⟩

/-! ## One operation -/

/-- An operation that does not touch the disk leaves everything to everybody. -/
theorem leaves_of_disk {tmp : String} {s s' : KeyHost} (hdisk : s'.disk = s.disk)
    (hnames : s.tmpNames ⊆ s'.tmpNames) (hnamed : ∀ path ∈ s'.tmpNames, path ∈ s.tmpNames ∨
      ∃ suffix, path = tmpFile suffix) : Leaves X tmp s s' where
  sane hs := by
    refine ⟨?_, ?_, ?_, ?_, ?_⟩
    · rw [hdisk]
      exact hs.bounded
    · rw [hdisk]
      exact hs.separate
    · rw [hdisk]
      exact hs.whole
    · rw [hdisk]
      exact fun path i hpath => hs.alone path i fun h => hpath (hnames h)
    · intro path hpath
      obtain h | h := hnamed path hpath
      · exact hs.named path h
      · exact h
  own := by rw [hdisk]
  kept i hi hne := by
    rw [hdisk]
    exact ⟨rfl, hne⟩
  key i hi := by
    rw [hdisk]
    exact ⟨hi, rfl⟩
  pub i hi := by
    rw [hdisk]
    exact hi
  names := hnames

/-- An operation after which the disk is the same, whatever the file system does. -/
def KeyOp.Looks : KeyOp → Prop
  | .file (.fileExists _) => True
  | .file (.openRead _) => True
  | .file (.read _) => True
  | .file _ => False
  | _ => True

theorem leaves_of_looks {o : KeyOp} (h : o.Looks) (tmp : String) (s : KeyHost) :
    Leaves X tmp s (o.sem X s).2 := by
  refine leaves_of_disk ?_ ?_ ?_
  · cases o with
    | file o => cases o <;> first | rfl | exact h.elim
    | _ => rfl
  · cases o <;> exact List.Subset.refl _
  · intro path hpath
    cases o <;> exact .inl hpath

/-- A call that fails changes nothing. -/
theorem leaves_of_fault {o : FileOp String} {s : KeyHost} (h : s.fault = true) (tmp : String) :
    Leaves X tmp s ((KeyOp.file o).sem X s).2 := by
  rw [sem_file_fault h]
  exact Leaves.refl tmp s

variable {tmp path : String} {s : KeyHost} {i : ℕ}

/-- A new or emptied file at a path that is not the key's. -/
theorem leaves_of_create (hs : Sane X s) (hpath : path ≠ skFile)
    (hfree : ∀ i, s.disk.paths path = some i → s.disk.paths skFile ≠ some i) (htmp : tmp ≠ path)
    (htmp' : tmp ≠ skFile) : Leaves X tmp s { s with disk := (s.disk.create path).2 } := by
  unfold Disk.create
  cases h : s.disk.paths path with
  | some f =>
    have hkey : s.disk.paths skFile ≠ some f := hfree f h
    refine ⟨fun _ => ⟨hs.bounded, hs.separate, ?_, hs.alone, hs.named⟩, rfl, ?_, ?_, fun _ h => h,
      List.Subset.refl _⟩
    · intro i hi
      obtain ⟨k, hk⟩ := hs.whole i hi
      have hne : i ≠ f := fun heq => hkey (heq ▸ hi)
      exact ⟨k, (Function.update_of_ne hne _ _).trans hk⟩
    · intro i hi hne
      have hif : i ≠ f := fun heq => htmp (hs.separate _ _ i hi (heq ▸ h) htmp' hpath)
      exact ⟨Function.update_of_ne hif _ _, hne⟩
    · intro i hi
      have hne : i ≠ f := fun heq => hkey (heq ▸ hi)
      exact ⟨hi, Function.update_of_ne hne _ _⟩
  | none =>
    have hnew : ∀ q i, s.disk.paths q = some i → i ≠ s.disk.fresh := fun q i hq =>
      Nat.ne_of_lt (hs.bounded q i hq)
    have hold : ∀ {q i}, q ≠ path → (s.disk.paths.insert path s.disk.fresh) q = some i →
        s.disk.paths q = some i := fun hq h => (Table.insert_of_ne _ _ hq).symm.trans h
    have hkeep : ∀ {q i}, s.disk.paths q = some i →
        (s.disk.paths.insert path s.disk.fresh) q = some i := by
      intro q i hq
      rw [Table.insert_of_ne _ _ (fun heq => by rw [heq, h] at hq; cases hq), hq]
    refine ⟨fun _ => ⟨?_, ?_, ?_, ?_, hs.named⟩, Table.insert_of_ne _ _ htmp, ?_, ?_,
      fun _ h => hkeep h, List.Subset.refl _⟩
    · intro q i hq
      obtain ⟨rfl, rfl⟩ | ⟨-, hq⟩ := Table.insert_eq_some.1 hq
      · exact Nat.lt_succ_self _
      · exact (hs.bounded q i hq).trans (Nat.lt_succ_self _)
    · intro q q' i hq hq' hne hne'
      obtain ⟨rfl, rfl⟩ | ⟨-, hq⟩ := Table.insert_eq_some.1 hq
      · obtain ⟨rfl, -⟩ | ⟨-, hq'⟩ := Table.insert_eq_some.1 hq'
        · rfl
        · exact absurd rfl (hnew _ _ hq')
      · obtain ⟨-, rfl⟩ | ⟨-, hq'⟩ := Table.insert_eq_some.1 hq'
        · exact absurd rfl (hnew _ _ hq)
        · exact hs.separate q q' i hq hq' hne hne'
    · intro i hi
      obtain hi := hold hpath.symm hi
      obtain ⟨k, hk⟩ := hs.whole i hi
      exact ⟨k, (Function.update_of_ne (hnew _ _ hi) _ _).trans hk⟩
    · intro q i hq hne hi hqi
      obtain hi := hold hpath.symm hi
      obtain ⟨-, rfl⟩ | ⟨-, hqi⟩ := Table.insert_eq_some.1 hqi
      · exact absurd rfl (hnew _ _ hi)
      · exact hs.alone q i hq hne hi hqi
    · intro i hi hne
      refine ⟨Function.update_of_ne (hnew _ _ hi) _ _, fun hsk => hne ?_⟩
      exact hold hpath.symm hsk
    · intro i hi
      exact ⟨hkeep hi, Function.update_of_ne (hnew _ _ hi) _ _⟩

/-- A byte of a file that is not the key's. -/
theorem leaves_of_writeAt (hs : Sane X s) (hpath : path ≠ skFile)
    (hi : s.disk.paths path = some i) (hkey : s.disk.paths skFile ≠ some i) (htmp : tmp ≠ path)
    (htmp' : tmp ≠ skFile) (off : ℕ) (b : UInt8) :
    Leaves X tmp s { s with disk := s.disk.writeAt i off b } := by
  refine ⟨fun _ => ⟨hs.bounded, hs.separate, ?_, hs.alone, hs.named⟩, rfl, ?_, ?_, fun _ h => h,
    List.Subset.refl _⟩
  · intro f hf
    obtain ⟨k, hk⟩ := hs.whole f hf
    have hne : f ≠ i := fun heq => hkey (heq ▸ hf)
    exact ⟨k, (Function.update_of_ne hne _ _).trans hk⟩
  · intro f hf hne
    have hfi : f ≠ i := fun heq => htmp (hs.separate _ _ f hf (heq ▸ hi) htmp' hpath)
    exact ⟨Function.update_of_ne hfi _ _, hne⟩
  · intro f hf
    have hne : f ≠ i := fun heq => hkey (heq ▸ hf)
    exact ⟨hf, Function.update_of_ne hne _ _⟩

/-- The key is published, from a temporary file that holds all of it. -/
theorem leaves_of_hardLink (hs : Sane X s) (hpath : path ∈ s.tmpNames)
    (hi : s.disk.paths path = some i) (hcontent : ∃ k, s.disk.content i = keyText X (keyOf X k).2)
    (hnone : s.disk.paths skFile = none) (htmp : tmp ≠ path) (htmp' : tmp ≠ skFile) :
    Leaves X tmp s { s with disk := { s.disk with paths := s.disk.paths.insert skFile i } } := by
  obtain ⟨suffix, hsuffix⟩ := hs.named path hpath
  have hpath' : path ≠ skFile := hsuffix ▸ tmpFile_ne_skFile suffix
  have hold : ∀ {q}, q ≠ skFile → (s.disk.paths.insert skFile i) q = s.disk.paths q :=
    fun hq => Table.insert_of_ne _ _ hq
  have hnew : ∀ {f}, (s.disk.paths.insert skFile i) skFile = some f → i = f :=
    fun h => Option.some.inj ((Table.insert_self ..).symm.trans h)
  refine ⟨fun _ => ⟨?_, ?_, ?_, ?_, hs.named⟩, hold htmp', ?_, ?_, ?_, List.Subset.refl _⟩
  · intro q f hq
    obtain ⟨-, rfl⟩ | ⟨-, hq⟩ := Table.insert_eq_some.1 hq
    · exact hs.bounded _ _ hi
    · exact hs.bounded q f hq
  · intro q q' f hq hq' hne hne'
    exact hs.separate q q' f ((hold hne).symm.trans hq) ((hold hne').symm.trans hq') hne hne'
  · intro f hf
    obtain rfl := hnew hf
    exact hcontent
  · intro q f hq hne hf hqf
    obtain rfl := hnew hf
    exact hq (hs.separate q path _ ((hold hne).symm.trans hqf) hi hne hpath' ▸ hpath)
  · intro f hf hne
    refine ⟨rfl, fun hsk => ?_⟩
    obtain rfl := hnew hsk
    exact htmp (hs.separate _ _ _ hf hi htmp' hpath')
  · intro f hf
    rw [hnone] at hf
    cases hf
  · intro f hf
    exact (hold pubFile_ne_skFile).trans hf

/-- A temporary name goes. -/
theorem leaves_of_removeFile (hpath : path ≠ skFile) (hpub : path ≠ pubFile skFile)
    (htmp : tmp ≠ path) :
    Leaves X tmp s { s with disk := { s.disk with paths := s.disk.paths.remove path } } := by
  have hold : ∀ {q}, q ≠ path → (s.disk.paths.remove path) q = s.disk.paths q := fun hq => by
    rw [Table.remove_apply, if_neg hq]
  have hsub : ∀ {q f}, (s.disk.paths.remove path) q = some f → s.disk.paths q = some f :=
    fun h => (Table.remove_eq_some.1 h).2
  refine ⟨fun hs => ⟨?_, ?_, ?_, ?_, hs.named⟩, hold htmp, ?_, ?_, ?_, List.Subset.refl _⟩
  · exact fun q f hq => hs.bounded q f (hsub hq)
  · exact fun q q' f hq hq' => hs.separate q q' f (hsub hq) (hsub hq')
  · exact fun f hf => hs.whole f (hsub hf)
  · exact fun q f hq hne hf hqf => hs.alone q f hq hne (hsub hf) (hsub hqf)
  · exact fun f _ hne => ⟨rfl, fun hsk => hne (hsub hsk)⟩
  · exact fun f hf => ⟨(hold hpath.symm).trans hf, rfl⟩
  · exact fun f hf => (hold hpub.symm).trans hf

/-! ## What a process does -/

/-- The operations of a program that runs with the temporary file `tmp` see to what they must. -/
abbrev Keeps (X : KeyDeps) (tmp : String) {α : Type} (p : KeyHandler α) (Q : α → KeyHost → Prop)
    (s : KeyHost) : Prop := p.Guards (KeyOp.sem X) (Leaves X tmp) (Sees X tmp) Q s

theorem Keeps.then {α β : Type} {Q : α → KeyHost → Prop} {Q' : β → KeyHost → Prop}
    {p : KeyHandler α} {f : α → KeyHandler β} (h : Keeps X tmp p Q s)
    (hf : ∀ a s, Q a s → Keeps X tmp (f a) Q' s) : Keeps X tmp (p >>= f) Q' s :=
  Guards.bind (Leaves.refl tmp) (h.mono hf)

theorem keeps_pure {α : Type} {Q : α → KeyHost → Prop} {a : α}
    (h : ∀ s', Leaves X tmp s s' → Q a s') : Keeps X tmp (pure a) Q s := h

/-- One operation: in whatever state it comes, it sees to what it must, and leads to `Q`. -/
theorem keeps_op {o : KeyOp} {Q : o.Res → KeyHost → Prop} (hstays : ∀ r s s', Q r s →
    Leaves X tmp s s' → Q r s') (h : ∀ s', Leaves X tmp s s' → Sees X tmp o s' ∧
      Q (o.sem X s').1 (o.sem X s').2) : Keeps X tmp o.perform Q s :=
  fun s' hs => ⟨(h s' hs).1, fun _ hs' => hstays _ _ _ (h s' hs).2 hs'⟩

theorem sees_of_looks {o : KeyOp} (h : o.Looks) (hstart : ∀ key, o ≠ .started key)
    (hread : ∀ i, o ≠ .file (.read i)) : Sees X tmp o s where
  leaves tmp' _ _ _ := leaves_of_looks h tmp' s
  returns _ heq := absurd heq (hstart _)
  reads i heq := absurd heq (hread i)

/-- A call that fails, or one that writes nothing but names and files of the process. -/
theorem sees_of_file {o : FileOp String} (hread : ∀ i, o ≠ .read i)
    (h : s.fault = false → ∀ tmp', tmp' ≠ tmp → tmp' ≠ skFile → tmp' ≠ pubFile skFile →
      Leaves X tmp' s ((KeyOp.file o).sem X s).2) : Sees X tmp (.file o) s where
  leaves tmp' h₁ h₂ h₃ := by
    cases hfault : s.fault with
    | true => exact leaves_of_fault hfault tmp'
    | false => exact h hfault tmp' h₁ h₂ h₃
  returns _ heq := by cases heq
  reads i heq := absurd (KeyOp.file.inj heq) (hread i)

/-- The key stays over the own steps of a process, and so does the invariant. -/
theorem Sees.later {suffix : String} {o : KeyOp} (h : Sees X (tmpFile suffix) o s) :
    ∃ tmp, Leaves X tmp s (o.sem X s).2 := by
  refine ⟨"", h.leaves "" ?_ ?_ ?_⟩
  · intro heq
    have hlen := congrArg String.length heq
    rw [tmpFile, String.length_append, String.length_append] at hlen
    have hdash : ".tmp-".length = 5 := rfl
    have hempty : "".length = 0 := rfl
    omega
  · decide
  · decide

theorem readContents_keyText (hX : X.Sound) (k : ℕ) :
    readContents X (some (keyText X (keyOf X k).2)) = .ok (some (keyOf X k)) := by
  have htext : fromUtf8 (keyText X (keyOf X k).2) = some (X.base64Encode (keyOf X k).2) := by
    simp [fromUtf8, keyText]
  unfold readContents parseSk
  rw [Option.bind_some, htext]
  dsimp only
  rw [hX.trimmed, hX.decode]
  simp [keyOf, hX.length, hX.half]

/-- A process that reads the file finds no key, or the key. -/
theorem keeps_readSk (hX : X.Sound) (hs : Sane X s) : Keeps X tmp (readSk X skFile)
    (fun r s' => Leaves X tmp s s' ∧ r ≠ .error () ∧
      ∀ key, r = .ok (some key) → InFile X key s') s := by
  intro s₁ h₁
  refine ⟨sees_of_looks trivial (by simp) (by simp), ?_⟩
  cases hopen : ((KeyOp.file (.openRead skFile)).sem X s₁).1 with
  | none => exact fun s₂ h₂ => ⟨h₁.trans h₂, by simp, by simp⟩
  | some i =>
    have hpath : s₁.disk.paths skFile = some i := by
      change (if s₁.fault then none else s₁.disk.paths skFile) = some i at hopen
      split at hopen
      · cases hopen
      · exact hopen
    intro s₂ h₂
    have hpath₂ := (h₂.key i hpath).1
    refine ⟨⟨fun tmp' _ _ _ => leaves_of_looks (o := .file (.read i)) trivial tmp' s₂, by simp,
      ?_⟩, ?_⟩
    · intro i' heq
      cases heq
      exact hpath₂
    obtain ⟨k, hk⟩ := (h₂.sane (h₁.sane hs)).whole i hpath₂
    have hread : ((KeyOp.file (.read i)).sem X s₂).1 =
        if s₂.fault then none else some (keyText X (keyOf X k).2) := by
      rw [← hk]
      rfl
    intro s₃ h₃
    refine ⟨(h₁.trans h₂).trans h₃, ?_⟩
    rw [hread]
    cases s₂.fault with
    | true => simp [readContents]
    | false =>
      have hfile : InFile X (keyOf X k) s₂ := ⟨i, k, hpath₂, hk, rfl⟩
      rw [if_neg Bool.false_ne_true, readContents_keyText hX]
      refine ⟨by simp, fun key hkey => ?_⟩
      cases hkey
      exact hfile.of_leaves h₃

theorem keeps_genFunc : Keeps X tmp (genFunc X)
    (fun key s' => Leaves X tmp s s' ∧ ∃ k, key = keyOf X k) s := by
  intro s₁ h₁
  refine ⟨sees_of_looks trivial (by simp) (by simp), fun s₂ h₂ => ⟨?_, s₁.keypairs, rfl⟩⟩
  exact (h₁.trans (leaves_of_looks (o := .genKeypair) trivial tmp s₁)).trans h₂

theorem keeps_genUntilSafe (n : ℕ) : Keeps X tmp (genUntilSafe X n)
    (fun key s' => Leaves X tmp s s' ∧ ∃ k, key = keyOf X k) s := by
  induction n generalizing s with
  | zero => exact keeps_genFunc
  | succ n ih =>
    refine keeps_genFunc.then fun key s₁ hkey => ?_
    split
    · exact fun s₂ h₂ => ⟨hkey.1.trans h₂, hkey.2⟩
    · exact ih.mono fun key' s₂ hkey' => ⟨hkey.1.trans hkey'.1, hkey'.2⟩

/-- A file of the process, which is not the key's. -/
structure Owns (X : KeyDeps) (path : String) (i : ℕ) (s : KeyHost) : Prop where
  sane : Sane X s
  leads : s.disk.paths path = some i
  apart : s.disk.paths skFile ≠ some i

/-- Writing a file of the process, of which `P off` holds when it is written up to `off`. -/
theorem keeps_writeFrom {P : ℕ → KeyHost → Prop} (hpath : path ≠ skFile)
    (hother : ∀ tmp', tmp' ≠ tmp → tmp' ≠ skFile → tmp' ≠ pubFile skFile → tmp' ≠ path)
    (hP : ∀ off s s', P off s → Leaves X tmp s s' → P off s')
    (howns : ∀ off s, P off s → Owns X path i s) {text : Bytes}
    (hwrite : ∀ off b s, text[off]? = some b → P off s →
      P (off + 1) { s with disk := s.disk.writeAt i off b })
    (done : Bytes) {bytes : Bytes} (htext : text = done ++ bytes) (hs : P done.length s) :
    Keeps X tmp (writeFrom i done.length bytes)
      (fun r s' => ∃ off, P off s' ∧ (r = true → off = text.length)) s := by
  induction bytes generalizing done s with
  | nil =>
    intro s₁ h₁
    rw [List.append_nil] at htext
    exact ⟨done.length, hP _ _ _ hs h₁, fun _ => by rw [htext]⟩
  | cons b bytes ih =>
    intro s₁ h₁
    have hs₁ := hP _ _ _ hs h₁
    obtain ⟨hsane, hleads, hapart⟩ := howns _ _ hs₁
    have hb : text[done.length]? = some b := by simp [htext]
    constructor
    · refine sees_of_file (by simp) fun hfault tmp' h₁ h₂ h₃ => ?_
      rw [sem_file hfault]
      exact leaves_of_writeAt hsane hpath hleads hapart (hother tmp' h₁ h₂ h₃) h₂ done.length b
    · cases hfault : s₁.fault with
      | true =>
        rw [sem_file_fault hfault]
        intro s₂ h₂
        exact ⟨done.length, hP _ _ _ hs₁ h₂, fun h => by cases h⟩
      | false =>
        rw [sem_file hfault]
        have hnext := ih (done ++ [b])
          (s := { s₁ with disk := s₁.disk.writeAt i done.length b })
        rw [List.length_append, List.length_singleton] at hnext
        exact hnext (by simp [htext]) (hwrite _ _ _ hb hs₁)

/-- The temporary name of the process, before it publishes. -/
structure Mine (X : KeyDeps) (tmp : String) (s : KeyHost) : Prop where
  sane : Sane X s
  named : tmp ∈ s.tmpNames
  apart : ∀ i, s.disk.paths tmp = some i → s.disk.paths skFile ≠ some i

theorem Mine.of_leaves {s' : KeyHost} (h : Mine X tmp s) (hs : Leaves X tmp s s') :
    Mine X tmp s' := by
  refine ⟨hs.sane h.sane, hs.names h.named, fun i hi => ?_⟩
  rw [hs.own] at hi
  exact (hs.kept i hi (h.apart i hi)).2

theorem Owns.mine (h : Owns X tmp i s) (hnamed : tmp ∈ s.tmpNames) : Mine X tmp s := by
  refine ⟨h.sane, hnamed, fun f hf => ?_⟩
  rw [h.leads] at hf
  obtain rfl := Option.some.inj hf
  exact h.apart

theorem empty_ne_tmpFile (suffix : String) : "" ≠ tmpFile suffix := by
  intro h
  have hlen := congrArg String.length h
  rw [tmpFile, String.length_append, String.length_append] at hlen
  have hdash : ".tmp-".length = 5 := rfl
  have hempty : "".length = 0 := rfl
  omega

/-- The file at a path of the process, as it is created. -/
theorem owns_create (hs : Sane X s) (hpath : path ≠ skFile) (hempty : "" ≠ path)
    (hfree : ∀ i, s.disk.paths path = some i → s.disk.paths skFile ≠ some i) :
    Owns X path (s.disk.create path).1 { s with disk := (s.disk.create path).2 } := by
  have hleaves := leaves_of_create hs hpath hfree hempty (by decide)
  refine ⟨hleaves.sane hs, (s.disk.create_leads path).1, fun hkey => ?_⟩
  have hkey' : s.disk.paths skFile = some (s.disk.create path).1 :=
    (s.disk.create_of_ne hpath.symm).symm.trans hkey
  unfold Disk.create at hkey'
  cases h : s.disk.paths path with
  | some f =>
    rw [h] at hkey'
    exact hfree f h hkey'
  | none =>
    rw [h] at hkey'
    exact absurd (hs.bounded _ _ hkey') (Nat.lt_irrefl _)

/-- A process with the temporary file `tmp` may write the file at `path`, as long as `P` holds. -/
structure Writable (X : KeyDeps) (tmp path : String) (P : KeyHost → Prop) : Prop where
  ne_key : path ≠ skFile
  ne_empty : "" ≠ path
  ne_other : ∀ tmp', tmp' ≠ tmp → tmp' ≠ skFile → tmp' ≠ pubFile skFile → tmp' ≠ path
  sane : ∀ s, P s → Sane X s
  free : ∀ s, P s → ∀ i, s.disk.paths path = some i → s.disk.paths skFile ≠ some i
  stays : ∀ s s', P s → Leaves X tmp s s' → P s'
  /-- What the process does at the path itself keeps `P`. -/
  own : ∀ s d, P s → Leaves X "" s { s with disk := d } →
    (∀ i, d.paths path = some i → d.paths skFile ≠ some i) → P { s with disk := d }
  leads : ∀ s s' i, P s → s.disk.paths path = some i → Leaves X tmp s s' →
    s'.disk.paths path = some i

theorem Owns.kept {s' : KeyHost} (h : Owns X tmp i s) (hs : Leaves X tmp s s') :
    s'.disk.content i = s.disk.content i := (hs.kept i h.leads h.apart).1

/-- Writing a file of the process from its creation on. -/
theorem keeps_writeFile {P : KeyHost → Prop} (hw : Writable X tmp path P) (bytes : Bytes)
    (hs : P s) : Keeps X tmp (writeFile path bytes) (fun r s' => P s' ∧ (r = true → path = tmp →
      ∃ i, s'.disk.paths path = some i ∧ s'.disk.content i = bytes)) s := by
  intro s₁ h₁
  have hs₁ := hw.stays _ _ hs h₁
  constructor
  · refine sees_of_file (by simp) fun hfault tmp' h₁ h₂ h₃ => ?_
    rw [sem_file hfault]
    exact leaves_of_create (hw.sane _ hs₁) hw.ne_key (hw.free _ hs₁) (hw.ne_other tmp' h₁ h₂ h₃) h₂
  · cases hfault : s₁.fault with
    | true =>
      rw [sem_file_fault hfault]
      exact fun s₂ h₂ => ⟨hw.stays _ _ hs₁ h₂, fun h => by cases h⟩
    | false =>
      rw [sem_file hfault]
      have hcreate := leaves_of_create (hw.sane _ hs₁) hw.ne_key (hw.free _ hs₁) hw.ne_empty
        (by decide)
      have howns := owns_create (hw.sane _ hs₁) hw.ne_key hw.ne_empty (hw.free _ hs₁)
      have hnew : P { s₁ with disk := (s₁.disk.create path).2 } :=
        hw.own _ _ hs₁ hcreate fun i hi => howns.leads.symm.trans hi ▸ howns.apart
      refine (keeps_writeFrom
        (P := fun off s => P s ∧ s.disk.paths path = some (s₁.disk.create path).1 ∧
          (path = tmp → s.disk.content (s₁.disk.create path).1 = bytes.take off))
        hw.ne_key hw.ne_other ?_ ?_ ?_ [] (bytes.nil_append).symm ?_).mono ?_
      · rintro off s s' ⟨hPs, hi, hcontent⟩ hl
        refine ⟨hw.stays _ _ hPs hl, hw.leads _ _ _ hPs hi hl, fun heq => ?_⟩
        subst heq
        have howns : Owns X path _ s := ⟨hw.sane _ hPs, hi, hw.free _ hPs _ hi⟩
        rw [howns.kept hl, hcontent rfl]
      · rintro off s ⟨hPs, hi, -⟩
        exact ⟨hw.sane _ hPs, hi, hw.free _ hPs _ hi⟩
      · rintro off b s hb ⟨hPs, hi, hcontent⟩
        refine ⟨hw.own _ _ hPs ?_ (hw.free _ hPs), hi, fun heq => ?_⟩
        · exact leaves_of_writeAt (hw.sane _ hPs) hw.ne_key hi (hw.free _ hPs _ hi) hw.ne_empty
            (by decide) off b
        · exact s.disk.content_writeAt (hcontent heq) hb
      · exact ⟨hnew, howns.leads, fun _ => (s₁.disk.create_leads path).2⟩
      · rintro r s' ⟨off, ⟨hPs, hi, hcontent⟩, hr⟩
        refine ⟨hPs, fun hr' heq => ⟨_, hi, ?_⟩⟩
        rw [hcontent heq, hr hr', List.take_length]

theorem writable_tmp (suffix : String) :
    Writable X (tmpFile suffix) (tmpFile suffix) (Mine X (tmpFile suffix)) where
  ne_key := tmpFile_ne_skFile suffix
  ne_empty := empty_ne_tmpFile suffix
  ne_other _ h _ _ := h
  sane _ h := h.sane
  free _ h := h.apart
  stays _ _ h hl := h.of_leaves hl
  own _ _ h hl hfree := ⟨hl.sane h.sane, h.named, hfree⟩
  leads _ _ _ _ hi hl := hl.own.trans hi

/-- The published key, or none. -/
def Published (X : KeyDeps) (key : Option ServerKey) (s : KeyHost) : Prop :=
  Sane X s ∧ ∀ key', key = some key' → InFile X key' s

theorem Published.of_leaves {key : Option ServerKey} {s' : KeyHost} (h : Published X key s)
    (hl : Leaves X tmp s s') : Published X key s' :=
  ⟨hl.sane h.1, fun key' heq => (h.2 key' heq).of_leaves hl⟩

theorem writable_pub (suffix : String) (key : Option ServerKey) :
    Writable X (tmpFile suffix) (pubFile skFile) (Published X key) where
  ne_key := pubFile_ne_skFile
  ne_empty := by decide
  ne_other _ _ _ h := h
  sane _ h := h.1
  free _ h i hi hkey := by
    refine h.1.alone _ i (fun hnamed => ?_) pubFile_ne_skFile hkey hi
    obtain ⟨suffix, heq⟩ := h.1.named _ hnamed
    exact tmpFile_ne_pubFile suffix heq.symm
  stays _ _ h hl := h.of_leaves hl
  own _ _ h hl _ := h.of_leaves hl
  leads _ _ i _ hi hl := hl.pub i hi

/-- The link is made, from a temporary file that is complete, or it is not. -/
theorem keeps_hardLink {suffix : String} {k : ℕ} (hs : Mine X (tmpFile suffix) s)
    (hi : s.disk.paths (tmpFile suffix) = some i)
    (hcontent : s.disk.content i = keyText X (keyOf X k).2) :
    Keeps X (tmpFile suffix) (file (.hardLink (tmpFile suffix) skFile))
      (fun r s' => Published X (if r then some (keyOf X k) else none) s') s := by
  refine keeps_op (fun r s s' h hl => h.of_leaves hl) fun s₁ h₁ => ?_
  have hs₁ := hs.of_leaves h₁
  have hi₁ : s₁.disk.paths (tmpFile suffix) = some i := h₁.own.trans hi
  have hcontent₁ : s₁.disk.content i = keyText X (keyOf X k).2 := by
    rw [(h₁.kept i hi (hs.apart i hi)).1, hcontent]
  have hnot : Published X none s₁ := ⟨hs₁.sane, fun key h => by cases h⟩
  cases hfault : s₁.fault with
  | true =>
    refine ⟨sees_of_file (by simp) fun h => ?_, ?_⟩
    · rw [hfault] at h
      cases h
    · rw [sem_file_fault hfault]
      exact hnot
  | false =>
    rw [sem_file hfault]
    cases hkey : s₁.disk.paths skFile with
    | some f =>
      have hfails : FileOp.sem false (.hardLink (tmpFile suffix) skFile) s₁.disk =
          (false, s₁.disk) := by
        simp [FileOp.sem, Disk.attempt, Disk.hardLink, hi₁, hkey]
      refine ⟨sees_of_file (by simp) fun _ tmp' _ _ _ => ?_, ?_⟩
      · rw [sem_file hfault, hfails]
        exact Leaves.refl tmp' s₁
      · rw [hfails]
        exact hnot
    | none =>
      have hlinks : FileOp.sem false (.hardLink (tmpFile suffix) skFile) s₁.disk =
          (true, { s₁.disk with paths := s₁.disk.paths.insert skFile i }) := by
        simp [FileOp.sem, Disk.attempt, Disk.hardLink, hi₁, hkey]
      have hleaves : ∀ tmp', tmp' ≠ tmpFile suffix → tmp' ≠ skFile → Leaves X tmp' s₁
          { s₁ with disk := { s₁.disk with paths := s₁.disk.paths.insert skFile i } } :=
        fun tmp' h h' => leaves_of_hardLink hs₁.sane hs₁.named hi₁ ⟨k, hcontent₁⟩ hkey h h'
      refine ⟨sees_of_file (by simp) fun _ tmp' h h' _ => ?_, ?_⟩
      · rw [sem_file hfault, hlinks]
        exact hleaves tmp' h h'
      · rw [hlinks]
        refine ⟨(hleaves "" (empty_ne_tmpFile suffix) (by decide)).sane hs₁.sane, fun key h => ?_⟩
        cases h
        exact ⟨i, k, Table.insert_self s₁.disk.paths skFile i, hcontent₁, rfl⟩

/-- The temporary name is given up; what is published stays. -/
theorem keeps_removeFile {suffix : String} {key : Option ServerKey} (hs : Published X key s) :
    Keeps X (tmpFile suffix) (file (.removeFile (tmpFile suffix)))
      (fun _ s' => Published X key s') s := by
  refine keeps_op (fun r s s' h hl => h.of_leaves hl) fun s₁ h₁ => ?_
  have hsees : Sees X (tmpFile suffix) (.file (.removeFile (tmpFile suffix))) s₁ := by
    refine sees_of_file (by simp) fun hfault tmp' h _ _ => ?_
    rw [sem_file hfault]
    by_cases hthere : (s₁.disk.paths (tmpFile suffix)).isSome
    · have hgoes : FileOp.sem false (.removeFile (tmpFile suffix)) s₁.disk =
          (true, { s₁.disk with paths := s₁.disk.paths.remove (tmpFile suffix) }) := by
        simp [FileOp.sem, Disk.attempt, Disk.removeFile, hthere]
      rw [hgoes]
      exact leaves_of_removeFile (tmpFile_ne_skFile suffix) (tmpFile_ne_pubFile suffix) h
    · have hfails : FileOp.sem false (.removeFile (tmpFile suffix)) s₁.disk =
          (false, s₁.disk) := by
        simp [FileOp.sem, Disk.attempt, Disk.removeFile, hthere]
      rw [hfails]
      exact Leaves.refl tmp' s₁
  have hlater := hsees.leaves "" (empty_ne_tmpFile suffix) (by decide) (by decide)
  exact ⟨hsees, (hs.of_leaves h₁).of_leaves hlater⟩

theorem keeps_generateAndPublishSk {suffix : String} (hs : Mine X (tmpFile suffix) s) :
    Keeps X (tmpFile suffix) (generateAndPublishSk X suffix) (fun r s' => Published X r s') s := by
  refine (keeps_genUntilSafe 300).then fun key s₁ hkey => ?_
  obtain ⟨h₁, k, rfl⟩ := hkey
  refine (keeps_writeFile (writable_tmp suffix) _ (hs.of_leaves h₁)).then fun ok s₂ hok => ?_
  obtain ⟨hs₂, hwritten⟩ := hok
  cases ok with
  | false =>
    have hnot : Published X none s₂ := ⟨hs₂.sane, fun key h => by cases h⟩
    exact (keeps_removeFile hnot).then fun _ s₃ hs₃ => fun s₄ h₄ => hs₃.of_leaves h₄
  | true =>
    obtain ⟨i, hi, hcontent⟩ := hwritten rfl rfl
    refine (keeps_hardLink hs₂ hi hcontent).then fun published s₃ hs₃ => ?_
    refine (keeps_removeFile hs₃).then fun _ s₄ hs₄ => ?_
    cases published with
    | false => exact fun s₅ h₅ => hs₄.of_leaves h₅
    | true =>
      refine (keeps_writeFile (writable_pub suffix _) _ hs₄).then fun _ s₅ hs₅ => ?_
      exact fun s₆ h₆ => hs₅.1.of_leaves h₆

theorem published_of_read {r : Except Unit (Option ServerKey)} {key : Option ServerKey}
    (hs : Sane X s) (h : ∀ key', r = .ok (some key') → InFile X key' s) (hr : r = .ok key) :
    Published X key s := by
  refine ⟨hs, fun key' heq => h key' ?_⟩
  rw [hr, heq]

theorem keeps_loadPublished (hX : X.Sound) (hs : Sane X s) :
    Keeps X tmp (loadPublished X) (fun r s' => Published X r s') s := by
  refine (keeps_readSk hX hs).then fun r s₁ hr => ?_
  obtain ⟨h₁, hne, hkey⟩ := hr
  cases r with
  | error e => exact absurd rfl hne
  | ok key => exact fun s₂ h₂ => (published_of_read (h₁.sane hs) hkey rfl).of_leaves h₂

theorem keeps_loadOrGenerate (hX : X.Sound) (mayGenerate : Bool) {suffix : String}
    (hs : Mine X (tmpFile suffix) s) : Keeps X (tmpFile suffix)
      (loadOrGenerate X mayGenerate suffix) (fun r s' => Published X r s') s := by
  refine (keeps_readSk hX hs.sane).then fun r s₁ hr => ?_
  obtain ⟨h₁, hne, hkey⟩ := hr
  have hs₁ := hs.of_leaves h₁
  cases r with
  | error e => exact absurd rfl hne
  | ok key =>
    have hread := published_of_read hs₁.sane hkey rfl
    cases key with
    | some key => exact fun s₂ h₂ => hread.of_leaves h₂
    | none =>
      cases mayGenerate with
      | false => exact fun s₂ h₂ => hread.of_leaves h₂
      | true =>
        refine (keeps_generateAndPublishSk hs₁).then fun key s₂ hs₂ => ?_
        cases key with
        | some key => exact fun s₃ h₃ => hs₂.of_leaves h₃
        | none => exact keeps_loadPublished hX hs₂.1

theorem keeps_genSk (hX : X.Sound) (wait : ℕ) (mayGenerate : Bool) {suffix : String}
    (hs : Mine X (tmpFile suffix) s) :
    Keeps X (tmpFile suffix) (genSk X wait mayGenerate suffix)
      (fun r s' => Published X r s') s := by
  unfold genSk
  split
  · intro s₁ h₁
    refine ⟨sees_of_looks trivial (by simp) (by simp), ?_⟩
    exact keeps_loadOrGenerate hX mayGenerate ((hs.of_leaves h₁).of_leaves
      (leaves_of_looks (o := .file (.fileExists skFile)) trivial _ _))
  · exact keeps_loadOrGenerate hX mayGenerate hs

/-- A process that starts, with a name for its temporary file that leads nowhere near the key. -/
theorem keeps_start (hX : X.Sound) {j : Start} (hs : Mine X (tmpFile j.suffix) s) :
    Keeps X (tmpFile j.suffix) (j.code X) (fun _ _ => True) s := by
  refine (keeps_genSk hX j.wait j.mayGenerate hs).then fun key s₁ hs₁ => ?_
  intro s₂ h₂
  refine ⟨⟨fun tmp' _ _ _ => leaves_of_looks (o := .started key) trivial tmp' s₂, ?_, by simp⟩,
    fun _ _ => trivial⟩
  intro key' heq
  exact (hs₁.of_leaves h₂).2 key' (KeyOp.started.inj heq)

/-! ## The law -/

abbrev StartItem := Item KeyOp KeyHost Start KeyEnv

/-- The processes that start fit together. -/
theorem starts_relies (hX : X.Sound) : Relies (starts X) KeyHost.Booted (Sane X)
    (fun s j => tmpFile j.suffix ∈ s.tmpNames)
    (fun j j' => tmpFile j.suffix ≠ tmpFile j'.suffix) (fun j => Leaves X (tmpFile j.suffix))
    (fun j => Sees X (tmpFile j.suffix)) where
  refl j s := Leaves.refl _ s
  trans j s s' s'' h h' := h.trans h'
  init s hs := by
    refine ⟨hs.bounded, fun path path' i h h' _ _ => hs.distinct path path' i h h', ?_, ?_, ?_⟩
    · intro i hi
      rw [hs.absent] at hi
      cases hi
    · intro path i _ _ hi
      rw [hs.absent] at hi
      cases hi
    · intro path hpath
      rw [hs.unused] at hpath
      cases hpath
  start j s s' hs h := by
    have hnew : tmpFile j.suffix ∉ s.tmpNames := by
      intro hmem
      simp [starts, hmem] at h
    obtain rfl : { s with tmpNames := tmpFile j.suffix :: s.tmpNames } = s' := by
      simpa [starts, hnew] using h
    have hleaves : ∀ tmp, Leaves X tmp s
        { s with tmpNames := tmpFile j.suffix :: s.tmpNames } := by
      intro tmp
      refine leaves_of_disk rfl (List.subset_cons_self _ _) fun path hpath => ?_
      obtain rfl | hpath := List.mem_cons.1 hpath
      · exact .inr ⟨_, rfl⟩
      · exact .inl hpath
    have hmine : Mine X (tmpFile j.suffix)
        { s with tmpNames := tmpFile j.suffix :: s.tmpNames } := by
      refine ⟨(hleaves "").sane hs, List.mem_cons_self, fun i hi hkey => ?_⟩
      exact hs.alone _ i hnew (tmpFile_ne_skFile _) hkey hi
    refine ⟨hmine.sane, List.mem_cons_self, keeps_start hX hmine, fun j' hj' => ?_⟩
    have hne : tmpFile j.suffix ≠ tmpFile j'.suffix := fun heq => hnew (heq ▸ hj')
    exact ⟨hne, hne.symm, List.mem_cons_of_mem _ hj', hleaves _⟩
  step j o s hs hj hsees := by
    have hlater := hsees.leaves "" (empty_ne_tmpFile _) (by decide) (by decide)
    refine ⟨hlater.sane hs, hlater.names hj, fun j' hj' hne => ⟨hlater.names hj', ?_⟩⟩
    exact hsees.leaves _ hne.symm (tmpFile_ne_skFile _) (tmpFile_ne_pubFile _)
  env e s s' hs h := by
    obtain rfl := Option.some.inj h
    have hleaves : ∀ tmp, Leaves X tmp s (e.act s) := fun tmp =>
      leaves_of_disk (by cases e <;> rfl) (by cases e <;> exact List.Subset.refl _)
        (by cases e <;> exact fun path hpath => .inl hpath)
    refine ⟨(hleaves "").sane hs, fun j hj => ⟨(hleaves "").names hj, hleaves _⟩⟩
  reboot s hs := hs

variable {C : List StartItem → Pool KeyOp KeyOp.Res KeyHost Start → Choice Start KeyEnv → Prop}
  {l : List StartItem} {p : Pool KeyOp KeyOp.Res KeyHost Start}

/-- A candidate is linked to the path of the key. -/
def Publishes (X : KeyDeps) : StartItem → Prop
  | .step _ _ _ (.file (.hardLink original link)) s =>
    link = skFile ∧ ((KeyOp.file (.hardLink original link)).sem X s).1 = true
  | _ => False

/-- What is at the path of the key stays there. -/
theorem key_stays (hX : X.Sound) (hr : (starts X).Run KeyHost.Booted C l p) {i : StartItem}
    (hi : i ∈ l) {text : Bytes} (h : i.pre.disk.text skFile = some text) :
    p.shared.disk.text skFile = some text := by
  have hleaves : ∀ {s s' : KeyHost} {tmp}, Leaves X tmp s s' →
      s.disk.text skFile = some text → s'.disk.text skFile = some text := by
    intro s s' tmp hl hs
    obtain ⟨i, hi, rfl⟩ := Option.map_eq_some_iff.1 hs
    obtain ⟨hi', hcontent⟩ := hl.key i hi
    exact Option.map_eq_some_iff.2 ⟨i, hi', hcontent⟩
  refine (starts_relies hX).stays hr (K := fun s => s.disk.text skFile = some text)
    ?_ ?_ ?_ ?_ hi h
  · intro j s s' hs hK
    by_cases hmem : tmpFile j.suffix ∈ s.tmpNames
    · simp [starts, hmem] at hs
    · obtain rfl : { s with tmpNames := tmpFile j.suffix :: s.tmpNames } = s' := by
        simpa [starts, hmem] using hs
      exact hK
  · intro j o s _ hsees hK
    obtain ⟨tmp, hl⟩ := hsees.later
    exact hleaves hl hK
  · intro e s s' hs hK
    obtain rfl := Option.some.inj hs
    cases e <;> exact hK
  · exact fun s hK => hK

/-- A link that is made needs a path that leads nowhere yet, and leaves one that leads to a key. -/
theorem hardLink_made {s : KeyHost} {original : String}
    (h : ((KeyOp.file (.hardLink original skFile)).sem X s).1 = true) :
    s.disk.text skFile = none ∧ ∃ text,
      ((KeyOp.file (.hardLink original skFile)).sem X s).2.disk.text skFile = some text := by
  cases hfault : s.fault with
  | true =>
    rw [sem_file_fault hfault] at h
    cases h
  | false =>
    rw [sem_file hfault] at h ⊢
    cases horiginal : s.disk.paths original with
    | none => simp [FileOp.sem, Disk.attempt, Disk.hardLink, horiginal] at h
    | some i =>
      cases hkey : s.disk.paths skFile with
      | some f => simp [FileOp.sem, Disk.attempt, Disk.hardLink, horiginal, hkey] at h
      | none => simp [FileOp.sem, Disk.attempt, Disk.hardLink, Disk.text, horiginal, hkey]

theorem published_of_mem (hX : X.Sound) (hr : (starts X).Run KeyHost.Booted C l p) {i : StartItem}
    (hi : i ∈ l) (h : Publishes X i) : ∃ text, p.shared.disk.text skFile = some text := by
  induction hr with
  | boot hs => cases hi
  | @next l p p' c i' hr hc ha ih =>
    obtain rfl | hmem := List.mem_cons.1 hi
    · rw [System.advance_post ha]
      unfold Publishes at h
      split at h
      · obtain ⟨rfl, hmade⟩ := h
        exact (hardLink_made hmade).2
      · exact h.elim
    · obtain ⟨text, htext⟩ := ih hmem
      have hr' := System.Run.next hr hc ha
      refine ⟨text, key_stays hX hr' (i := i') List.mem_cons_self ?_⟩
      rw [System.advance_pre ha]
      exact htext

theorem InFile.text {key : ServerKey} {s : KeyHost} (h : InFile X key s) :
    s.disk.text skFile = some (keyText X key.2) := by
  obtain ⟨i, k, hi, hcontent, -⟩ := h
  rw [Disk.text, hi, Option.map_some, hcontent]

/-- Processes that start side by side on a host without a key, whatever fails: at most one
candidate is published; what is published does not change; a process that goes on goes on with the
key in the file; and no process reads anything but the complete key. -/
theorem key_generation_converges (X : KeyDeps) (hX : X.Sound) (l : List StartItem)
    (p : Pool KeyOp KeyOp.Res KeyHost Start)
    (hr : (starts X).Run KeyHost.Booted System.Free l p) :
    (∀ new old i i', l = new ++ i :: old → i' ∈ old → Publishes X i → ¬Publishes X i') ∧
    (∀ i ∈ l, ∀ text, i.pre.disk.text skFile = some text →
      p.shared.disk.text skFile = some text) ∧
    (∀ n j past key s, .step n j past (.started (some key)) s ∈ l →
      s.disk.text skFile = some (keyText X key.2) ∧ ∃ k, key = keyOf X k) ∧
    ∀ n j past i s, .step n j past (.file (.read i)) s ∈ l →
      ∃ k, s.disk.text skFile = some (keyText X (keyOf X k).2) ∧
        s.disk.content i = keyText X (keyOf X k).2 := by
  refine ⟨?_, fun i hi text h => key_stays hX hr hi h, ?_, ?_⟩
  · rintro new old i i' rfl hi' h h'
    obtain ⟨q, c, q', hq, -, -, -, hpre⟩ := hr.before i old (List.suffix_append _ _)
    obtain ⟨text, htext⟩ := published_of_mem hX hq hi' h'
    rw [hpre] at htext
    unfold Publishes at h
    split at h
    · obtain ⟨rfl, hmade⟩ := h
      have hnone := (hardLink_made hmade).1
      change _ = some text at htext
      rw [Item.pre, hnone] at htext
      cases htext
    · exact h
  · intro n j past key s hi
    obtain ⟨-, hsees⟩ := (starts_relies hX).guarantee hr hi
    have hfile := hsees.returns key rfl
    refine ⟨hfile.text, ?_⟩
    obtain ⟨-, k, -, -, hkey⟩ := hfile
    exact ⟨k, hkey⟩
  · intro n j past i s hi
    obtain ⟨hsane, hsees⟩ := (starts_relies hX).guarantee hr hi
    have hleads := hsees.reads i rfl
    obtain ⟨k, hk⟩ := hsane.whole i hleads
    refine ⟨k, ?_, hk⟩
    rw [Disk.text, hleads, Option.map_some, hk]

namespace Sample

open NemoServer.Sample

/-- Ed25519 keys of the right length: the public key is the second half of the secret one. -/
def keyDeps : KeyDeps where
  toDeps := { (NemoServer.Sample.setup .offer false).toDeps with
    base64Encode := fun b => String.ofList (base64Chars b)
    base64Decode := fun s => base64Bytes s.toList }
  signKeypair n := (List.replicate 32 (UInt8.ofNat n),
    List.replicate 32 (UInt8.ofNat (n + 100)) ++ List.replicate 32 (UInt8.ofNat n))
  ioError := "disk error"

/-- An empty directory. -/
def emptyHost : KeyHost := ⟨⟨Table.empty, fun _ => [], 0⟩, false, 1000, 0, []⟩

/-- Two processes take turns. -/
def raceRun : List (Choice Start KeyEnv) :=
  [.start ⟨0, true, "1-0"⟩, .start ⟨0, true, "2-0"⟩] ++
    (List.replicate 150 [.step 0, .step 1]).flatten

/-- The key the process goes on with. -/
def keyOfStart (n : ℕ) : StartItem → Option ServerKey
  | .step m _ _ (.started key) _ => if m = n then key else none
  | _ => none

def showsRace (l : List StartItem) (_ : Pool KeyOp KeyOp.Res KeyHost Start) : Bool :=
  (l.findSome? (keyOfStart 0)).isSome && (l.findSome? (keyOfStart 1)).isSome

theorem emptyHost_booted : emptyHost.Booted := by
  refine ⟨rfl, ?_, ?_, rfl⟩
  · intro path path' i h
    cases h
  · intro path i h
    cases h

theorem keyDeps_sound : keyDeps.Sound where
  decode b := by
    change base64Bytes (String.ofList (base64Chars b)).toList = some b
    rw [String.toList_ofList, base64Bytes_base64Chars]
  trimmed b := trim_base64Chars b
  length n := by simp [keyDeps]
  half n := by simp [keyDeps]

end Sample

/-- Two processes that take turns go on with the one key in the file. -/
theorem key_generation_converges_race : ∃ l p,
    (starts Sample.keyDeps).Run KeyHost.Booted System.Free l p ∧
      ∃ key key' j j' past past' s s', .step 0 j past (.started (some key)) s ∈ l ∧
        .step 1 j' past' (.started (some key')) s' ∈ l ∧
        p.shared.disk.text skFile = some (keyText Sample.keyDeps key.2) ∧
        p.shared.disk.text skFile = some (keyText Sample.keyDeps key'.2) := by
  obtain ⟨l, p, hr, ht⟩ := System.exists_run (S := starts Sample.keyDeps) Sample.emptyHost_booted
    Sample.raceRun Sample.showsRace (by decide +kernel)
  have hgoes : ∀ n, (l.findSome? (Sample.keyOfStart n)).isSome → ∃ key j past s,
      .step n j past (.started (some key)) s ∈ l := by
    intro n hn
    obtain ⟨key, hkey⟩ := Option.isSome_iff_exists.1 hn
    obtain ⟨i, hi, hstart⟩ := List.exists_of_findSome?_eq_some hkey
    unfold Sample.keyOfStart at hstart
    split at hstart
    · split at hstart
      · next h =>
        subst h
        subst hstart
        exact ⟨_, _, _, _, hi⟩
      · cases hstart
    · cases hstart
  obtain ⟨h₀, h₁⟩ := Bool.and_eq_true_iff.1 ht
  obtain ⟨key, j, past, s, hi⟩ := hgoes 0 h₀
  obtain ⟨key', j', past', s', hi'⟩ := hgoes 1 h₁
  have hfile := (key_generation_converges Sample.keyDeps Sample.keyDeps_sound l p hr).2
  refine ⟨l, p, hr, key, key', j, j', past, past', s, s', hi, hi', ?_, ?_⟩
  · exact hfile.1 _ hi _ (hfile.2.1 _ _ _ _ _ hi).1
  · exact hfile.1 _ hi' _ (hfile.2.1 _ _ _ _ _ hi').1

end Keys

end NemoServer
