import NemoServer.Std.Search

/-!
# Search filters of LDAP

The text of a filter (RFC 4515) and what it means: conjunctions, disjunctions and negations of
assertions, each of an attribute and a pattern. A pattern is the list of texts between its
wildcards, as octets, so that one without a wildcard is a list of one; in the text an octet may be
written as `\xx`, and must be if it stands for a parenthesis, a wildcard, a backslash or NUL.

A text has at most one meaning: `read` finds the one that the grammar gives it (`Means.read`).
-/

set_option autoImplicit false

namespace NemoServer

namespace LdapFilter

open Str

inductive Filter
  | and (fs : List Filter)
  | or (fs : List Filter)
  | not (f : Filter)
  | item (attr : List Char) (pattern : List (List UInt8))

/-- The value of a hexadecimal digit. -/
def hexValue (c : Char) : Option ℕ :=
  if c.isDigit then some (c.toNat - '0'.toNat)
  else if 'a' ≤ c ∧ c ≤ 'f' then some (c.toNat - 'a'.toNat + 10)
  else if 'A' ≤ c ∧ c ≤ 'F' then some (c.toNat - 'A'.toNat + 10)
  else none

/-- The characters that stand for themselves nowhere. -/
def Special (c : Char) : Prop := c = '(' ∨ c = ')' ∨ c = '*' ∨ c = '\\' ∨ c = Char.ofNat 0

instance (c : Char) : Decidable (Special c) := by
  unfold Special
  infer_instance

/-- The octets that a part of a value stands for. -/
def unescape : List Char → Option (List UInt8)
  | [] => some []
  | '\\' :: h :: l :: cs => do
    let high ← hexValue h
    let low ← hexValue l
    return UInt8.ofNat (16 * high + low) :: (← unescape cs)
  | c :: cs => if Special c then none else return String.utf8EncodeChar c ++ (← unescape cs)

/-- The pattern that a value stands for. -/
def readPattern (value : List Char) : Option (List (List UInt8)) :=
  (value.splitOnP (· == '*')).mapM unescape

/-- A character of an attribute description or of a matching rule. -/
def isAttrChar (c : Char) : Bool := c.isAlphanum || c == '-' || c == '.' || c == ';' || c == ':'

/-- The assertion, without its parentheses. -/
def readItem (body : List Char) : Option Filter := do
  let (attr, value) ← splitOnce '=' body
  if attr ≠ [] ∧ attr.all isAttrChar then return .item attr (← readPattern value) else none

/-- The filters that a text begins with, and the rest of the text. -/
def readList : ℕ → List Char → Option (List Filter × List Char)
  | n + 1, '(' :: '&' :: cs => do
    let (fs, rest) ← readList n cs
    let (gs, rest) ← readList n (← stripPrefix [')'] rest)
    return (.and fs :: gs, rest)
  | n + 1, '(' :: '|' :: cs => do
    let (fs, rest) ← readList n cs
    let (gs, rest) ← readList n (← stripPrefix [')'] rest)
    return (.or fs :: gs, rest)
  | n + 1, '(' :: '!' :: cs => do
    let (fs, rest) ← readList n cs
    let (gs, rest) ← readList n (← stripPrefix [')'] rest)
    match fs with
    | [f] => return (.not f :: gs, rest)
    | _ => none
  | n + 1, '(' :: cs => do
    let (body, rest) ← splitOnce ')' cs
    let f ← readItem body
    let (gs, rest) ← readList n rest
    return (f :: gs, rest)
  | _, cs => some ([], cs)

/-- The filter a text is. Every round takes two characters at least, so the length is fuel
enough. -/
def read (cs : List Char) : Option Filter :=
  match readList cs.length cs with
  | some ([f], []) => some f
  | _ => none

/-- The grammar: what filters mean that stand one behind the other. -/
inductive Means : List Char → List Filter → Prop
  | nil : Means [] []
  | and {cs ds : List Char} {fs gs : List Filter} (h : Means cs fs) (hrest : Means ds gs) :
    Means ('(' :: '&' :: (cs ++ ')' :: ds)) (.and fs :: gs)
  | or {cs ds : List Char} {fs gs : List Filter} (h : Means cs fs) (hrest : Means ds gs) :
    Means ('(' :: '|' :: (cs ++ ')' :: ds)) (.or fs :: gs)
  | not {cs ds : List Char} {f : Filter} {gs : List Filter} (h : Means cs [f])
    (hrest : Means ds gs) : Means ('(' :: '!' :: (cs ++ ')' :: ds)) (.not f :: gs)
  | item {attr value ds : List Char} {pattern : List (List UInt8)} {gs : List Filter}
    (hne : attr ≠ []) (hattr : attr.all isAttrChar = true)
    (hvalue : readPattern value = some pattern) (hrest : Means ds gs) :
    Means ('(' :: (attr ++ '=' :: (value ++ ')' :: ds))) (.item attr pattern :: gs)

theorem Means.append {cs ds : List Char} {fs gs : List Filter} (h : Means cs fs)
    (hds : Means ds gs) : Means (cs ++ ds) (fs ++ gs) := by
  induction h with
  | nil => exact hds
  | and h hrest ih ihrest => simpa using Means.and h ihrest
  | or h hrest ih ihrest => simpa using Means.or h ihrest
  | not h hrest ih ihrest => simpa using Means.not h ihrest
  | item hne hattr hvalue hrest ih => simpa using Means.item hne hattr hvalue ih

/-! ## What the values contain -/

theorem unescape_paren {cs : List Char} {b : List UInt8} (h : unescape cs = some b) :
    ')' ∉ cs := by
  induction cs using unescape.induct generalizing b with
  | case1 => exact List.not_mem_nil
  | case2 x y cs ih =>
    rw [unescape] at h
    obtain ⟨high, hhigh, h⟩ := Option.bind_eq_some_iff.1 h
    obtain ⟨low, hlow, h⟩ := Option.bind_eq_some_iff.1 h
    obtain ⟨rest, hrest, -⟩ := Option.bind_eq_some_iff.1 h
    have hparen : hexValue ')' = none := by decide
    intro hmem
    simp only [List.mem_cons] at hmem
    obtain heq | rfl | rfl | hmem := hmem
    · exact absurd heq (by decide)
    · cases hparen.symm.trans hhigh
    · cases hparen.symm.trans hlow
    · exact ih hrest hmem
  | case3 c cs hno hspecial =>
    rw [unescape, if_pos hspecial] at h
    · cases h
    · exact hno
  | case4 c cs hno hspecial ih =>
    rw [unescape, if_neg hspecial] at h
    · obtain ⟨rest, hrest, -⟩ := Option.bind_eq_some_iff.1 h
      intro hmem
      obtain rfl | hmem := List.mem_cons.1 hmem
      · exact hspecial (by decide)
      · exact ih hrest hmem
    · exact hno

theorem mapM_some_of_mem {α β : Type} {f : α → Option β} {l : List α} {r : List β}
    (h : l.mapM f = some r) {a : α} (ha : a ∈ l) : ∃ b, f a = some b := by
  induction l generalizing r with
  | nil => cases ha
  | cons x l ih =>
    rw [List.mapM_cons] at h
    obtain ⟨y, hy, h⟩ := Option.bind_eq_some_iff.1 h
    obtain ⟨ys, hys, -⟩ := Option.bind_eq_some_iff.1 h
    obtain rfl | ha := List.mem_cons.1 ha
    · exact ⟨y, hy⟩
    · exact ih hys ha

theorem readPattern_paren {value : List Char} {pattern : List (List UInt8)}
    (h : readPattern value = some pattern) : ')' ∉ value := by
  intro hmem
  have hflat : ')' ∈ (value.splitOnP (· == '*')).flatten := by
    rw [flatten_splitOnP, List.mem_filter]
    exact ⟨hmem, by decide⟩
  obtain ⟨part, hpart, hin⟩ := List.mem_flatten.1 hflat
  obtain ⟨b, hb⟩ := mapM_some_of_mem h hpart
  exact unescape_paren hb hin

/-! ## The one meaning of a text -/

theorem attrChar_ne {attr : List Char} (hattr : attr.all isAttrChar = true) {c : Char}
    (hc : isAttrChar c = false) : c ∉ attr := by
  intro hmem
  cases hc.symm.trans (List.all_eq_true.1 hattr c hmem)

theorem readItem_append {attr value : List Char} {pattern : List (List UInt8)} (hne : attr ≠ [])
    (hattr : attr.all isAttrChar = true) (hvalue : readPattern value = some pattern) :
    readItem (attr ++ '=' :: value) = some (.item attr pattern) := by
  rw [readItem, splitOnce_append (attrChar_ne hattr (by decide))]
  simp only [Option.bind_eq_bind, Option.bind_some, if_pos (And.intro hne hattr), hvalue]
  rfl

/-- Where no filter begins none is read. -/
theorem readList_nil (n : ℕ) {cs : List Char} (h : cs.head? ≠ some '(') :
    LdapFilter.readList n cs = some ([], cs) := by
  cases cs with
  | nil => cases n <;> rfl
  | cons c cs =>
    have hc : c ≠ '(' := fun heq => h (by rw [heq]; rfl)
    rw [LdapFilter.readList]
    all_goals simp [hc]

/-- An assertion is read up to its parenthesis. -/
theorem readList_item {n : ℕ} {attr value rest : List Char} {pattern : List (List UInt8)}
    (hne : attr ≠ []) (hattr : attr.all isAttrChar = true)
    (hvalue : readPattern value = some pattern) :
    LdapFilter.readList (n + 1) ('(' :: (attr ++ '=' :: (value ++ ')' :: rest))) =
      (LdapFilter.readList n rest).map fun r => (.item attr pattern :: r.1, r.2) := by
  have hparen : ')' ∉ attr ++ '=' :: value := by
    simp [attrChar_ne hattr (c := ')') (by decide), readPattern_paren hvalue]
  have hshape : attr ++ '=' :: (value ++ ')' :: rest) = (attr ++ '=' :: value) ++ ')' :: rest := by
    simp
  obtain ⟨c, attr, rfl⟩ := List.exists_cons_of_ne_nil hne
  have hc : isAttrChar c = true := List.all_eq_true.1 hattr c List.mem_cons_self
  have hbegin : ∀ d, isAttrChar d = false → c ≠ d := by
    rintro d hd rfl
    cases hd.symm.trans hc
  have hand : c ≠ '&' := hbegin '&' (by decide)
  have hor : c ≠ '|' := hbegin '|' (by decide)
  have hnot : c ≠ '!' := hbegin '!' (by decide)
  rw [LdapFilter.readList, hshape, splitOnce_append hparen]
  · simp only [Option.bind_eq_bind, Option.bind_some, readItem_append hne hattr hvalue]
    cases LdapFilter.readList n rest with
    | none => rfl
    | some r => rfl
  all_goals simp [hand, hor, hnot]

/-- What a group and the filters behind it are read from: the filters in it end at its parenthesis,
and the others where no more begin. -/
structure Group (n : ℕ) (cs ds rest : List Char) (fs gs : List Filter) : Prop where
  inner : readList n (cs ++ ')' :: (ds ++ rest)) = some (fs, ')' :: (ds ++ rest))
  behind : readList n (ds ++ rest) = some (gs, rest)

namespace Group

variable {n : ℕ} {cs ds rest : List Char} {fs gs : List Filter} {f : Filter}

theorem shape (op : Char) (cs ds rest : List Char) : '(' :: op :: (cs ++ ')' :: ds) ++ rest =
    '(' :: op :: (cs ++ ')' :: (ds ++ rest)) := by
  simp

theorem stripParen (cs : List Char) : stripPrefix [')'] (')' :: cs) = some cs :=
  stripPrefix_append [')'] cs

theorem and (h : Group n cs ds rest fs gs) :
    readList (n + 1) ('(' :: '&' :: (cs ++ ')' :: ds) ++ rest) = some (.and fs :: gs, rest) := by
  rw [shape, readList, h.inner]
  simp only [Option.bind_eq_bind, Option.bind_some, stripParen, h.behind]
  rfl

theorem or (h : Group n cs ds rest fs gs) :
    readList (n + 1) ('(' :: '|' :: (cs ++ ')' :: ds) ++ rest) = some (.or fs :: gs, rest) := by
  rw [shape, readList, h.inner]
  simp only [Option.bind_eq_bind, Option.bind_some, stripParen, h.behind]
  rfl

theorem not (h : Group n cs ds rest [f] gs) :
    readList (n + 1) ('(' :: '!' :: (cs ++ ')' :: ds) ++ rest) = some (.not f :: gs, rest) := by
  rw [shape, readList, h.inner]
  simp only [Option.bind_eq_bind, Option.bind_some, stripParen, h.behind]
  rfl

/-- One round for the group leaves fuel for both. -/
theorem fuel {op : Char} (h : ('(' :: op :: (cs ++ ')' :: ds)).length ≤ n) :
    ∃ m, n = m + 1 ∧ cs.length ≤ m ∧ ds.length ≤ m := by
  simp only [List.length_cons, List.length_append] at h
  exact ⟨n - 1, by omega, by omega, by omega⟩

end Group

/-- Filters that end where no other begins are read as the grammar has them. -/
theorem Means.readList {cs : List Char} {fs : List Filter} (h : Means cs fs) {n : ℕ}
    (hn : cs.length ≤ n) {rest : List Char} (hrest : rest.head? ≠ some '(') :
    LdapFilter.readList n (cs ++ rest) = some (fs, rest) := by
  have hclose : ∀ r : List Char, (')' :: r).head? ≠ some '(' := by simp
  induction h generalizing n rest with
  | nil => exact readList_nil n hrest
  | and h hds ih ihds =>
    obtain ⟨m, rfl, hcs, hfuel⟩ := Group.fuel hn
    exact Group.and ⟨ih hcs (hclose _), ihds hfuel hrest⟩
  | or h hds ih ihds =>
    obtain ⟨m, rfl, hcs, hfuel⟩ := Group.fuel hn
    exact Group.or ⟨ih hcs (hclose _), ihds hfuel hrest⟩
  | not h hds ih ihds =>
    obtain ⟨m, rfl, hcs, hfuel⟩ := Group.fuel hn
    exact Group.not ⟨ih hcs (hclose _), ihds hfuel hrest⟩
  | @item attr value ds pattern gs hne hattr hvalue hds ih =>
    obtain ⟨m, rfl⟩ : ∃ m, n = m + 1 := ⟨n - 1, by simp at hn; omega⟩
    simp only [List.length_cons, List.length_append] at hn
    have hshape : '(' :: (attr ++ '=' :: (value ++ ')' :: ds)) ++ rest =
        '(' :: (attr ++ '=' :: (value ++ ')' :: (ds ++ rest))) := by simp
    rw [hshape, readList_item hne hattr hvalue, ih (n := m) (by omega) hrest]
    rfl

/-- A text that is a filter by the grammar is read as that filter. -/
theorem Means.read {cs : List Char} {f : Filter} (h : Means cs [f]) :
    LdapFilter.read cs = some f := by
  have hlist : LdapFilter.readList cs.length (cs ++ []) = some ([f], []) :=
    h.readList (Nat.le_refl _) (by simp)
  rw [List.append_nil] at hlist
  rw [LdapFilter.read, hlist]

end LdapFilter

end NemoServer
