import Mathlib.Data.List.TakeDrop
import Mathlib.Data.Nat.Notation
import NemoServer.Foundations.Table

/-!
# Files

A directory of one file system, as the programs that only name, write and rename files see it: a
path leads to a file, and a file has a content. Two paths may lead to one file, which is what a
hard link is for; a rename changes where two paths lead and copies nothing. `FileOp` are the calls
a program may make, each of them atomic, and each of them free to fail without an effect. `Apart`
is for names that are the only ones of their files.
-/

set_option autoImplicit false

namespace NemoServer

/-- The paths of a directory, and the contents of the files they lead to. Numbers from `fresh` on
are no files yet. -/
structure Disk (P : Type) where
  paths : Table P ℕ
  content : ℕ → List UInt8
  fresh : ℕ

/-- The calls of a program; a file that was opened goes by its number. -/
inductive FileOp (P : Type)
  | fileExists (path : P)
  /-- Open for reading. -/
  | openRead (path : P)
  | read (file : ℕ)
  /-- Open for writing; a file that is there is emptied. -/
  | create (path : P)
  | writeAt (file off : ℕ) (byte : UInt8)
  | sync (file : ℕ)
  | rename (old new : P)
  | hardLink (original link : P)
  | removeFile (path : P)
  deriving DecidableEq

/-- The answers; of a call that failed, `none` or `false`. -/
@[reducible] def FileOp.Res {P : Type} : FileOp P → Type
  | .openRead _ => Option ℕ
  | .read _ => Option (List UInt8)
  | .create _ => Option ℕ
  | _ => Bool

namespace Disk

variable {P : Type} [DecidableEq P] (d : Disk P)

/-- What is found at a path. -/
def text (path : P) : Option (List UInt8) := (d.paths path).map d.content

def create (path : P) : ℕ × Disk P :=
  match d.paths path with
  | some i => (i, { d with content := Function.update d.content i [] })
  | none => (d.fresh, ⟨d.paths.insert path d.fresh, Function.update d.content d.fresh [],
      d.fresh + 1⟩)

/-- Write a byte; a gap before it is filled with zeroes. -/
def writeAt (i off : ℕ) (byte : UInt8) : Disk P :=
  { d with
    content := Function.update d.content i
      ((d.content i).takeD off 0 ++ byte :: (d.content i).drop (off + 1)) }

/-- Two paths to one file are left alone, as POSIX has it. -/
def rename (old new : P) : Option (Disk P) :=
  match d.paths old with
  | none => none
  | some i =>
    if d.paths new = some i then some d
    else some { d with paths := (d.paths.remove old).insert new i }

def hardLink (original link : P) : Option (Disk P) :=
  match d.paths original, d.paths link with
  | some i, none => some { d with paths := d.paths.insert link i }
  | _, _ => none

def removeFile (path : P) : Option (Disk P) :=
  if (d.paths path).isSome then some { d with paths := d.paths.remove path } else none

/-- A call that may fail for reasons of its own: it leaves the disk if it does. -/
def attempt (d' : Option (Disk P)) : Bool × Disk P :=
  match d' with
  | some d' => (true, d')
  | none => (false, d)

end Disk

variable {P : Type} [DecidableEq P]

/-- What a call answers and does; with a fault it fails. -/
def FileOp.sem (fault : Bool) : (o : FileOp P) → Disk P → o.Res × Disk P
  | .fileExists path, d => (!fault && (d.paths path).isSome, d)
  | .openRead path, d => (if fault then none else d.paths path, d)
  | .read i, d => (if fault then none else some (d.content i), d)
  | .create path, d => if fault then (none, d) else ((some (d.create path).1), (d.create path).2)
  | .writeAt i off byte, d => if fault then (false, d) else (true, d.writeAt i off byte)
  | .sync _, d => (!fault, d)
  | .rename old new, d => d.attempt (if fault then none else d.rename old new)
  | .hardLink original link, d => d.attempt (if fault then none else d.hardLink original link)
  | .removeFile path, d => d.attempt (if fault then none else d.removeFile path)

/-- A call that fails leaves the disk as it is. -/
@[simp] theorem FileOp.sem_fault (o : FileOp P) (d : Disk P) : (o.sem true d).2 = d := by
  cases o <;> rfl

namespace Disk

variable (d : Disk P)

/-- What `create` returns is the empty file at the path. -/
theorem create_leads (path : P) : (d.create path).2.paths path = some (d.create path).1 ∧
    (d.create path).2.content (d.create path).1 = [] := by
  unfold create
  cases h : d.paths path with
  | some i => exact ⟨h, Function.update_self ..⟩
  | none => exact ⟨Table.insert_self .., Function.update_self ..⟩

theorem create_of_ne {path q : P} (h : q ≠ path) : (d.create path).2.paths q = d.paths q := by
  unfold create
  cases d.paths path with
  | some i => rfl
  | none => exact Table.insert_of_ne _ _ h

/-- The file that is created is the one at the path, or a new one. -/
theorem create_cases (path : P) :
    d.paths path = some (d.create path).1 ∧ (d.create path).2.fresh = d.fresh ∨
      d.paths path = none ∧ (d.create path).1 = d.fresh ∧
        (d.create path).2.fresh = d.fresh + 1 := by
  unfold create
  cases h : d.paths path with
  | some i => exact .inl ⟨rfl, rfl⟩
  | none => exact .inr ⟨rfl, rfl, rfl⟩

theorem content_create_of_ne {path : P} {i : ℕ} (h : i ≠ (d.create path).1) :
    (d.create path).2.content i = d.content i := by
  unfold create at h ⊢
  cases hp : d.paths path with
  | some f =>
    rw [hp] at h
    exact Function.update_of_ne h _ _
  | none =>
    rw [hp] at h
    exact Function.update_of_ne h _ _

omit [DecidableEq P] in
/-- Writing on where the file ends. -/
theorem content_writeAt {i off : ℕ} {text : List UInt8} {byte : UInt8}
    (h : d.content i = text.take off) (hbyte : text[off]? = some byte) :
    (d.writeAt i off byte).content i = text.take (off + 1) := by
  obtain ⟨hlt, rfl⟩ := List.getElem?_eq_some_iff.1 hbyte
  have hlen : (text.take off).length = off := by
    rw [List.length_take]
    omega
  have hcontent : (d.writeAt i off text[off]).content i =
      (d.content i).takeD off 0 ++ text[off] :: (d.content i).drop (off + 1) :=
    Function.update_self ..
  rw [hcontent, h, List.takeD_eq_take _ (by omega), List.drop_eq_nil_of_le (by omega),
    List.take_take, Nat.min_self, List.take_add_one, hbyte, Option.toList_some]

/-! ## Names apart

Of names no two of which lead to one file, the directory is a map from names to texts: each call
changes the texts at the names it is about and no other. -/

/-- No two of the names `N` lead to one file. -/
structure Apart (N : P → Prop) (d : Disk P) : Prop where
  bounded : ∀ path i, d.paths path = some i → i < d.fresh
  separate : ∀ p q i, N p → N q → d.paths p = some i → d.paths q = some i → p = q

/-- A file that goes by another name. -/
def moved (old new : P) (i : ℕ) : Disk P :=
  { d with paths := (d.paths.remove old).insert new i }

def without (path : P) : Disk P := { d with paths := d.paths.remove path }

omit [DecidableEq P] in
theorem text_of_leads {path : P} {i : ℕ} (h : d.paths path = some i) :
    d.text path = some (d.content i) := by
  rw [text, h, Option.map_some]

omit [DecidableEq P] in
theorem text_eq_none {path : P} : d.text path = none ↔ d.paths path = none :=
  Option.map_eq_none_iff

theorem text_create (path : P) : (d.create path).2.text path = some [] := by
  obtain ⟨hleads, hcontent⟩ := d.create_leads path
  rw [text_of_leads _ hleads, hcontent]

theorem removeFile_eq (path : P) :
    d.removeFile path = if (d.paths path).isSome then some (d.without path) else none := rfl

variable {d} {N : P → Prop} {old new path q : P} {i : ℕ}

theorem Apart.leads_create (h : d.Apart N) (hpath : N path) (hq : N q) (hne : q ≠ path) :
    (d.create path).2.paths q ≠ some (d.create path).1 := by
  intro hleads
  rw [d.create_of_ne hne] at hleads
  obtain ⟨hp, -⟩ | ⟨-, hnew, -⟩ := d.create_cases path
  · exact hne (h.separate _ _ _ hq hpath hleads hp)
  · rw [hnew] at hleads
    exact absurd (h.bounded _ _ hleads) (Nat.lt_irrefl _)

theorem Apart.create (h : d.Apart N) (hpath : N path) : (d.create path).2.Apart N := by
  constructor
  · intro q f hq
    by_cases hne : q = path
    · subst hne
      rw [(d.create_leads q).1] at hq
      obtain rfl := Option.some.inj hq
      obtain ⟨hp, hfresh⟩ | ⟨-, hnew, hfresh⟩ := d.create_cases q
      · rw [hfresh]
        exact h.bounded _ _ hp
      · omega
    · rw [d.create_of_ne hne] at hq
      have hlt := h.bounded _ _ hq
      obtain ⟨-, hfresh⟩ | ⟨-, -, hfresh⟩ := d.create_cases path <;> omega
  · intro p q f hp hq hpf hqf
    by_cases hpp : p = path
    · subst hpp
      rw [(d.create_leads p).1] at hpf
      obtain rfl := Option.some.inj hpf
      by_contra hne
      exact h.leads_create hp hq (Ne.symm hne) hqf
    · by_cases hqq : q = path
      · subst hqq
        rw [(d.create_leads q).1] at hqf
        obtain rfl := Option.some.inj hqf
        exact absurd hpf (h.leads_create hq hp hpp)
      · rw [d.create_of_ne hpp] at hpf
        rw [d.create_of_ne hqq] at hqf
        exact h.separate p q f hp hq hpf hqf

theorem Apart.text_create_of_ne (h : d.Apart N) (hpath : N path) (hq : N q) (hne : q ≠ path) :
    (d.create path).2.text q = d.text q := by
  have hapart := h.leads_create hpath hq hne
  rw [d.create_of_ne hne] at hapart
  rw [text, text, d.create_of_ne hne]
  cases hleads : d.paths q with
  | none => rfl
  | some f =>
    have hfile : f ≠ (d.create path).1 := fun heq => hapart (heq ▸ hleads)
    exact congrArg some (d.content_create_of_ne hfile)

omit [DecidableEq P] in
theorem Apart.writeAt (h : d.Apart N) (i off : ℕ) (b : UInt8) : (d.writeAt i off b).Apart N :=
  ⟨h.bounded, h.separate⟩

omit [DecidableEq P] in
theorem text_writeAt_of_ne (hq : d.paths q ≠ some i) (off : ℕ) (b : UInt8) :
    (d.writeAt i off b).text q = d.text q := by
  have hpaths : (d.writeAt i off b).paths q = d.paths q := rfl
  cases hleads : d.paths q with
  | none => rw [text_eq_none .. |>.2 hleads, text_eq_none, hpaths, hleads]
  | some f =>
    have hfile : f ≠ i := fun heq => hq (heq ▸ hleads)
    rw [text_of_leads _ hleads, text_of_leads _ (hpaths.trans hleads)]
    exact congrArg some (Function.update_of_ne hfile _ _)

theorem Apart.rename (h : d.Apart N) (hold : N old) (hnew : N new) (hne : old ≠ new)
    (hi : d.paths old = some i) : d.rename old new = some (d.moved old new i) := by
  have hnot : d.paths new ≠ some i := fun hleads => hne (h.separate _ _ i hold hnew hi hleads)
  simp only [Disk.rename, hi, if_neg hnot]
  rfl

theorem paths_moved_of_ne (hq : q ≠ old) (hq' : q ≠ new) :
    (d.moved old new i).paths q = d.paths q := by
  have hpaths : (d.moved old new i).paths q = ((d.paths.remove old).insert new i) q := rfl
  rw [hpaths, Table.insert_of_ne _ _ hq', Table.remove_apply, if_neg hq]

theorem paths_moved_old (hne : old ≠ new) : (d.moved old new i).paths old = none := by
  have hpaths : (d.moved old new i).paths old = ((d.paths.remove old).insert new i) old := rfl
  rw [hpaths, Table.insert_of_ne _ _ hne, Table.remove_self]

theorem paths_moved_new : (d.moved old new i).paths new = some i := Table.insert_self ..

theorem Apart.moved (h : d.Apart N) (hold : N old) (hi : d.paths old = some i) :
    (d.moved old new i).Apart N := by
  have hcases : ∀ {q f}, (d.moved old new i).paths q = some f →
      q = new ∧ i = f ∨ q ≠ new ∧ q ≠ old ∧ d.paths q = some f := by
    intro q f hq
    obtain hq | ⟨hne, hq⟩ := Table.insert_eq_some.1 hq
    · exact .inl hq
    · exact .inr ⟨hne, Table.remove_eq_some.1 hq⟩
  constructor
  · intro q f hq
    obtain ⟨-, rfl⟩ | ⟨-, -, hq⟩ := hcases hq
    · exact h.bounded _ _ hi
    · exact h.bounded _ _ hq
  · intro p q f hp hq hpf hqf
    obtain ⟨rfl, rfl⟩ | ⟨-, hpo, hpf'⟩ := hcases hpf
    · obtain ⟨rfl, -⟩ | ⟨-, hqo, hqf'⟩ := hcases hqf
      · rfl
      · exact absurd (h.separate _ _ _ hq hold hqf' hi) hqo
    · obtain ⟨rfl, rfl⟩ | ⟨-, -, hqf'⟩ := hcases hqf
      · exact absurd (h.separate _ _ _ hp hold hpf' hi) hpo
      · exact h.separate p q f hp hq hpf' hqf'

theorem text_moved_of_ne (hq : q ≠ old) (hq' : q ≠ new) : (d.moved old new i).text q = d.text q := by
  have hcontent : (d.moved old new i).content = d.content := rfl
  rw [text, text, paths_moved_of_ne hq hq', hcontent]

theorem text_moved_old (hne : old ≠ new) : (d.moved old new i).text old = none := by
  rw [text_eq_none, paths_moved_old hne]

theorem text_moved_new (hi : d.paths old = some i) : (d.moved old new i).text new = d.text old := by
  rw [text_of_leads _ hi, text_of_leads _ paths_moved_new]
  rfl

theorem Apart.without (h : d.Apart N) (path : P) : (d.without path).Apart N := by
  have hsub : ∀ {q f}, (d.without path).paths q = some f → d.paths q = some f :=
    fun hq => (Table.remove_eq_some.1 hq).2
  exact ⟨fun q f hq => h.bounded q f (hsub hq),
    fun p q f hp hq hpf hqf => h.separate p q f hp hq (hsub hpf) (hsub hqf)⟩

theorem text_without_of_ne (hq : q ≠ path) : (d.without path).text q = d.text q := by
  have hpaths : (d.without path).paths q = d.paths q := by
    have hremove : (d.without path).paths q = (d.paths.remove path) q := rfl
    rw [hremove, Table.remove_apply, if_neg hq]
  have hcontent : (d.without path).content = d.content := rfl
  rw [text, text, hpaths, hcontent]

end Disk

/-- The name a call may make. -/
def FileOp.makes : FileOp P → Option P
  | .create path => some path
  | .rename _ new => some new
  | .hardLink _ link => some link
  | _ => none

/-- A name that leads to a file did so before, or the call made it. -/
theorem FileOp.sem_paths {fault : Bool} (o : FileOp P) {d : Disk P} {q : P}
    (h : ((o.sem fault d).2.paths q).isSome) : (d.paths q).isSome ∨ o.makes = some q := by
  cases fault with
  | true =>
    rw [FileOp.sem_fault] at h
    exact .inl h
  | false =>
    by_cases hmakes : o.makes = some q
    · exact .inr hmakes
    refine .inl ?_
    have hattempt : ∀ {d' : Option (Disk P)}, ((d.attempt d').2.paths q).isSome →
        (∀ e, d' = some e → (e.paths q).isSome → (d.paths q).isSome) → (d.paths q).isSome := by
      intro d' hq hd'
      cases d' with
      | none => exact hq
      | some e => exact hd' e rfl hq
    have hinsert : ∀ {t : Table P ℕ} {k : P} {i : ℕ}, q ≠ k → ((t.insert k i) q).isSome →
        (t q).isSome := by
      intro t k i hne hq
      rwa [Table.insert_of_ne _ _ hne] at hq
    have hremove : ∀ {k : P}, ((d.paths.remove k) q).isSome → (d.paths q).isSome := by
      intro k hq
      obtain ⟨i, hi⟩ := Option.isSome_iff_exists.1 hq
      rw [(Table.remove_eq_some.1 hi).2]
      rfl
    cases o with
    | create path =>
      have hne : q ≠ path := fun heq => hmakes (congrArg some heq.symm)
      have hcreate : (((FileOp.create path).sem false d).2.paths q) = d.paths q :=
        d.create_of_ne hne
      rwa [hcreate] at h
    | rename old new =>
      have hne : q ≠ new := fun heq => hmakes (congrArg some heq.symm)
      refine hattempt h fun e he hq => ?_
      rw [if_neg Bool.false_ne_true, Disk.rename] at he
      split at he
      · cases he
      · split at he
        · obtain rfl := Option.some.inj he
          exact hq
        · obtain rfl := Option.some.inj he
          exact hremove (hinsert hne hq)
    | hardLink original link =>
      have hne : q ≠ link := fun heq => hmakes (congrArg some heq.symm)
      refine hattempt h fun e he hq => ?_
      rw [if_neg Bool.false_ne_true, Disk.hardLink] at he
      split at he
      · obtain rfl := Option.some.inj he
        exact hinsert hne hq
      · cases he
    | removeFile path =>
      refine hattempt h fun e he hq => ?_
      rw [if_neg Bool.false_ne_true, Disk.removeFile_eq] at he
      split at he
      · obtain rfl := Option.some.inj he
        exact hremove hq
      · cases he
    | _ => exact h

end NemoServer
