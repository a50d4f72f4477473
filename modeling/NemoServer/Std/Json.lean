import NemoServer.Std.Parts

/-!
# JSON texts

The values of a JSON text, the text `serde_json` writes for a value without blanks, and a reader of
the grammar of RFC 8259, blanks and escapes included. What is written is read back
(`Json.read_write`).
-/

set_option autoImplicit false

namespace NemoServer

open Str

namespace Json

/-! ## Numbers -/

/-- The characters of a number. -/
def isNumberChar (c : Char) : Bool :=
  c.isDigit || c == '-' || c == '+' || c == '.' || c == 'e' || c == 'E'

/-- What follows at least one digit. -/
def skipDigits (l : List Char) : Option (List Char) :=
  if (l.head?.map Char.isDigit).getD false then some (l.dropWhile Char.isDigit) else none

/-- What follows the part of a number that `c` begins, if there is one. -/
def skipPart (begins : Char → Bool) (sign : Bool) (l : List Char) : Option (List Char) :=
  match l with
  | c :: rest =>
    if begins c then
      match rest with
      | d :: rest' => skipDigits (if sign && (d == '+' || d == '-') then rest' else rest)
      | [] => none
    else some l
  | [] => some []

/-- Whether a text is a number: a sign, digits without a leading zero, a fraction, an exponent. -/
def isNumber (l : List Char) : Bool :=
  let digits := if l.head? = some '-' then l.tail else l
  let rest := if digits.head? = some '0' then some digits.tail else skipDigits digits
  ((rest.bind (skipPart (· == '.') false)).bind
    (skipPart (fun c => c == 'e' || c == 'E') true)) == some []

/-- A number as it is written. -/
structure Number where
  text : List Char
  valid : isNumber text = true

end Json

inductive Json
  | null
  | bool (b : Bool)
  | number (n : Json.Number)
  | str (s : String)
  | arr (items : List Json)
  | obj (members : List (String × Json))

namespace Json

/-! ## Induction -/

/-- Induction over the items of arrays and the members of objects. -/
@[elab_as_elim, induction_eliminator]
theorem induct {motive : Json → Prop} (null : motive null) (bool : ∀ b, motive (bool b))
    (number : ∀ n, motive (number n)) (str : ∀ s, motive (str s))
    (arr : ∀ items, (∀ j ∈ items, motive j) → motive (arr items))
    (obj : ∀ members, (∀ e ∈ members, motive e.2) → motive (obj members)) (j : Json) : motive j :=
  @Json.rec motive (fun l => ∀ j ∈ l, motive j) (fun l => ∀ e ∈ l, motive e.2)
    (fun e => motive e.2) null bool number str arr obj
    (fun _ hj => absurd hj List.not_mem_nil)
    (fun _ _ hhead htail => List.forall_mem_cons.2 ⟨hhead, htail⟩)
    (fun _ he => absurd he List.not_mem_nil)
    (fun _ _ hhead htail => List.forall_mem_cons.2 ⟨hhead, htail⟩)
    (fun _ _ hvalue => hvalue) j

/-! ## Writing -/

/-- A digit in hexadecimal. -/
def hexDigit (n : ℕ) : Char := if n < 10 then Char.ofNat (0x30 + n) else Char.ofNat (0x57 + n)

/-- The characters with an escape of their own. -/
def shortEscapes : List (Char × Char) :=
  [('"', '"'), ('\\', '\\'), ('\x08', 'b'), ('\x0c', 'f'), ('\n', 'n'), ('\r', 'r'), ('\t', 't')]

/-- A character of a string, as it is written. -/
def escape (c : Char) : List Char :=
  match shortEscapes.lookup c with
  | some e => ['\\', e]
  | none =>
    if c.toNat < 0x20 then ['\\', 'u', '0', '0', hexDigit (c.toNat / 16), hexDigit (c.toNat % 16)]
    else [c]

def writeStr (s : String) : List Char := '"' :: (s.toList.flatMap escape ++ ['"'])

mutual

def write : Json → List Char
  | null => "null".toList
  | bool b => (toString b).toList
  | number n => n.text
  | str s => writeStr s
  | arr [] => ['[', ']']
  | arr (j :: items) => '[' :: (write j ++ writeItems items)
  | obj [] => ['\x7b', '\x7d']
  | obj ((name, j) :: members) =>
    '\x7b' :: (writeStr name ++ ':' :: (write j ++ writeMembers members))

/-- The items after the first, and the end of the array. -/
def writeItems : List Json → List Char
  | [] => [']']
  | j :: items => ',' :: (write j ++ writeItems items)

def writeMembers : List (String × Json) → List Char
  | [] => ['\x7d']
  | (name, j) :: members => ',' :: (writeStr name ++ ':' :: (write j ++ writeMembers members))

end

/-! ## Reading -/

def isBlank (c : Char) : Bool := c == ' ' || c == '\n' || c == '\t' || c == '\r'

def skipBlanks (l : List Char) : List Char := l.dropWhile isBlank

/-- What follows the character `c`, after blanks. -/
def expect (c : Char) (l : List Char) : Option (List Char) :=
  match skipBlanks l with
  | [] => none
  | d :: rest => if d = c then some rest else none

def hexDigitValue (c : Char) : Option ℕ :=
  if c.isDigit then some (c.toNat - 0x30)
  else if 'a' ≤ c ∧ c ≤ 'f' then some (c.toNat - 0x57)
  else if 'A' ≤ c ∧ c ≤ 'F' then some (c.toNat - 0x37)
  else none

/-- Four digits in hexadecimal. -/
def readUnit : List Char → Option (ℕ × List Char)
  | a :: b :: c :: d :: rest => do
    let a ← hexDigitValue a
    let b ← hexDigitValue b
    let c ← hexDigitValue c
    let d ← hexDigitValue d
    some (((a * 16 + b) * 16 + c) * 16 + d, rest)
  | _ => none

/-- The second half of a surrogate pair whose first half is `high`. -/
def readLowSurrogate (high : ℕ) : List Char → Option (Char × List Char)
  | s :: u :: rest =>
    if s = '\\' ∧ u = 'u' then do
      let (low, rest) ← readUnit rest
      if 0xDC00 ≤ low ∧ low < 0xE000 then
        some (Char.ofNat (0x10000 + (high - 0xD800) * 0x400 + (low - 0xDC00)), rest)
      else none
    else none
  | _ => none

/-- What stands for the characters after a backslash. -/
def readableEscapes : List (Char × Char) := ('/', '/') :: shortEscapes.map Prod.swap

/-- An escape after its backslash. -/
def readEscape : List Char → Option (Char × List Char)
  | [] => none
  | e :: rest =>
    if e = 'u' then do
      let (unit, rest) ← readUnit rest
      if 0xD800 ≤ unit ∧ unit < 0xDC00 then readLowSurrogate unit rest
      else if 0xDC00 ≤ unit ∧ unit < 0xE000 then none
      else some (Char.ofNat unit, rest)
    else (readableEscapes.lookup e).map fun c => (c, rest)

/-- The characters up to the quote that ends a string, of at most so many. -/
def readChars : ℕ → List Char → Option (List Char × List Char)
  | 0, _ => none
  | _ + 1, [] => none
  | n + 1, c :: rest =>
    if c = '"' then some ([], rest)
    else if c = '\\' then do
      let (c, rest) ← readEscape rest
      let (cs, rest) ← readChars n rest
      some (c :: cs, rest)
    else if c.toNat < 0x20 then none
    else do
      let (cs, rest) ← readChars n rest
      some (c :: cs, rest)

/-- A string after its first quote. -/
def readStr (l : List Char) : Option (String × List Char) :=
  (readChars (l.length + 1) l).map fun (cs, rest) => (String.ofList cs, rest)

/-- The words, and what they stand for. -/
def words : List (String × Json) := [("null", null), ("true", bool true), ("false", bool false)]

def readWord (l : List Char) : Option (Json × List Char) :=
  words.findSome? fun w => (stripPrefix w.1.toList l).map fun rest => (w.2, rest)

def readNumber (l : List Char) : Option (Json × List Char) :=
  if h : isNumber (l.takeWhile isNumberChar) = true then
    some (number ⟨l.takeWhile isNumberChar, h⟩, l.dropWhile isNumberChar)
  else none

mutual

/-- The value a text begins with, and what follows it. The number bounds the steps. -/
def readValue : ℕ → List Char → Option (Json × List Char)
  | 0, _ => none
  | n + 1, l =>
    match skipBlanks l with
    | [] => none
    | c :: rest =>
      if c = '"' then (readStr rest).map fun (s, rest) => (str s, rest)
      else if c = '[' then
        match expect ']' rest with
        | some rest => some (arr [], rest)
        | none => (readItems n rest).map fun (items, rest) => (arr items, rest)
      else if c = '\x7b' then
        match expect '\x7d' rest with
        | some rest => some (obj [], rest)
        | none => (readMembers n rest).map fun (members, rest) => (obj members, rest)
      else if isNumberChar c && c != 'e' && c != 'E' then readNumber (c :: rest)
      else readWord (c :: rest)

/-- The items of an array and its end. -/
def readItems : ℕ → List Char → Option (List Json × List Char)
  | 0, _ => none
  | n + 1, l => do
    let (j, rest) ← readValue n l
    match expect ']' rest with
    | some rest => some ([j], rest)
    | none => do
      let rest ← expect ',' rest
      let (items, rest) ← readItems n rest
      some (j :: items, rest)

def readMembers : ℕ → List Char → Option (List (String × Json) × List Char)
  | 0, _ => none
  | n + 1, l => do
    let rest ← expect '"' l
    let (name, rest) ← readStr rest
    let rest ← expect ':' rest
    let (j, rest) ← readValue n rest
    match expect '\x7d' rest with
    | some rest => some ([(name, j)], rest)
    | none => do
      let rest ← expect ',' rest
      let (members, rest) ← readMembers n rest
      some ((name, j) :: members, rest)

end

/-- `serde_json::from_str`: one value, with nothing after it. -/
def read (s : String) : Option Json :=
  match readValue (2 * s.length + 2) s.toList with
  | some (j, rest) => if skipBlanks rest = [] then some j else none
  | none => none

/-! ## Numbers are read back -/

theorem isNumberChar_of_isDigit {c : Char} (h : c.isDigit = true) : isNumberChar c = true := by
  simp [isNumberChar, h]

theorem skipDigits_some {l rest : List Char} (h : skipDigits l = some rest) :
    ∃ digits, l = digits ++ rest ∧ digits ≠ [] ∧ ∀ c ∈ digits, c.isDigit = true := by
  unfold skipDigits at h
  split at h
  · next hhead =>
    cases h
    refine ⟨l.takeWhile Char.isDigit, List.takeWhile_append_dropWhile.symm, fun hnil => ?_,
      fun c hc => List.mem_takeWhile_imp hc⟩
    cases l with
    | nil => cases hhead
    | cons c l =>
      have hc : c.isDigit = true := hhead
      rw [List.takeWhile_cons_of_pos hc] at hnil
      cases hnil
  · cases h

theorem skipPart_some {begins : Char → Bool} {sign : Bool} {l rest : List Char}
    (hbegins : ∀ c, begins c = true → isNumberChar c = true)
    (h : skipPart begins sign l = some rest) :
    ∃ part, l = part ++ rest ∧ ∀ c ∈ part, isNumberChar c = true := by
  cases l with
  | nil =>
    cases h
    exact ⟨[], rfl, fun c hc => absurd hc List.not_mem_nil⟩
  | cons c l =>
    unfold skipPart at h
    dsimp only at h
    split at h
    · next hc =>
      cases l with
      | nil => cases h
      | cons d l =>
        dsimp only at h
        split at h
        · next hd =>
          obtain ⟨digits, rfl, -, hdigits⟩ := skipDigits_some h
          refine ⟨c :: d :: digits, rfl, fun x hx => ?_⟩
          obtain rfl | hx := List.mem_cons.1 hx
          · exact hbegins x hc
          · obtain rfl | hx := List.mem_cons.1 hx
            · simp only [Bool.and_eq_true, Bool.or_eq_true, beq_iff_eq] at hd
              obtain ⟨-, rfl | rfl⟩ := hd
              · rfl
              · rfl
            · exact isNumberChar_of_isDigit (hdigits x hx)
        · obtain ⟨digits, heq, -, hdigits⟩ := skipDigits_some h
          refine ⟨c :: digits, congrArg (c :: ·) heq, fun x hx => ?_⟩
          obtain rfl | hx := List.mem_cons.1 hx
          · exact hbegins x hc
          · exact isNumberChar_of_isDigit (hdigits x hx)
    · cases h
      exact ⟨[], rfl, fun c hc => absurd hc List.not_mem_nil⟩

/-- A number begins with a digit or a sign, and has no other characters than those of numbers. -/
theorem isNumber_spec {l : List Char} (h : isNumber l = true) :
    (∃ c rest, l = c :: rest ∧ (c.isDigit = true ∨ c = '-')) ∧
      ∀ c ∈ l, isNumberChar c = true := by
  unfold isNumber at h
  generalize hdigits : (if l.head? = some '-' then l.tail else l) = digits at h
  dsimp only at h
  generalize hrest : (if digits.head? = some '0' then some digits.tail else skipDigits digits) =
    rest at h
  rw [beq_iff_eq, Option.bind_eq_some_iff] at h
  obtain ⟨y, hy, hexp⟩ := h
  obtain ⟨x, hx, hfrac⟩ := Option.bind_eq_some_iff.1 hy
  obtain ⟨exp, rfl, hexpchars⟩ := skipPart_some (fun c hc => by
    simp only [Bool.or_eq_true, beq_iff_eq] at hc
    obtain rfl | rfl := hc
    · rfl
    · rfl) hexp
  obtain ⟨frac, rfl, hfracchars⟩ := skipPart_some (fun c hc => by
    rw [beq_iff_eq] at hc
    subst hc
    rfl) hfrac
  subst hx
  obtain ⟨int, hint, hne, hintchars⟩ : ∃ int, digits = int ++ (frac ++ (exp ++ [])) ∧ int ≠ [] ∧
      ∀ c ∈ int, c.isDigit = true := by
    split at hrest
    · next hzero =>
      cases digits with
      | nil => cases hzero
      | cons c digits =>
        cases hzero
        cases hrest
        refine ⟨['0'], rfl, List.cons_ne_nil _ _, fun c hc => ?_⟩
        rw [List.mem_singleton.1 hc]
        rfl
    · exact skipDigits_some hrest
  have hchars : ∀ c ∈ digits, isNumberChar c = true := by
    intro c hc
    rw [hint, List.mem_append, List.mem_append, List.append_nil] at hc
    rcases hc with hc | hc | hc
    · exact isNumberChar_of_isDigit (hintchars c hc)
    · exact hfracchars c hc
    · exact hexpchars c hc
  split at hdigits
  · next hsign =>
    cases l with
    | nil => cases hsign
    | cons c l =>
      cases hsign
      cases hdigits
      refine ⟨⟨'-', l, rfl, .inr rfl⟩, fun c hc => ?_⟩
      obtain rfl | hc := List.mem_cons.1 hc
      · rfl
      · exact hchars c hc
  · subst hdigits
    refine ⟨?_, hchars⟩
    obtain ⟨c, int, rfl⟩ := List.exists_cons_of_ne_nil hne
    exact ⟨c, _, hint, .inl (hintchars c List.mem_cons_self)⟩

theorem isDigit_ne {c d : Char} (hc : c.isDigit = true) (hd : d.isDigit = false) : c ≠ d := by
  rintro rfl
  exact Bool.noConfusion (hc.symm.trans hd)

/-- A positive number has no leading zero. -/
theorem toDigits_head {n : ℕ} (h : 0 < n) : ∃ c rest, Nat.toDigits 10 n = c :: rest ∧ c ≠ '0' := by
  induction n using Nat.strong_induction_on with
  | _ n ih =>
    by_cases hn : n < 10
    · have hdigit : ∀ m < 10, 0 < m → m.digitChar ≠ '0' := by decide
      exact ⟨n.digitChar, [], Nat.toDigits_of_lt_base hn, hdigit n hn h⟩
    · obtain ⟨c, rest, hdigits, hc⟩ := ih (n / 10) (by omega) (by omega)
      refine ⟨c, rest ++ [(n % 10).digitChar], ?_, hc⟩
      rw [Nat.toDigits_of_base_le (by omega) (by omega), hdigits]
      rfl

theorem isNumber_toDigits (n : ℕ) : isNumber (Nat.toDigits 10 n) = true := by
  rcases Nat.eq_zero_or_pos n with rfl | hn
  · rw [Nat.toDigits_zero]
    rfl
  · obtain ⟨c, rest, hdigits, hc⟩ := toDigits_head hn
    have hall : ∀ d ∈ c :: rest, d.isDigit = true := by
      intro d hd
      rw [← hdigits] at hd
      exact Nat.isDigit_of_mem_toDigits (by omega) (by omega) hd
    have hdigit := hall c List.mem_cons_self
    have hsign : c ≠ '-' := isDigit_ne hdigit rfl
    have hskip : skipDigits (c :: rest) = some [] := by
      rw [skipDigits, if_pos (by exact hdigit), List.dropWhile_eq_nil_iff.2 hall]
    rw [hdigits, isNumber]
    simp [hsign, hc, hskip, skipPart]

/-- The number `n`. -/
def Number.nat (n : ℕ) : Number := ⟨Nat.toDigits 10 n, isNumber_toDigits n⟩

/-- A text that cannot go on with a number. -/
def Ends (l : List Char) : Prop := ∀ c ∈ l.head?, isNumberChar c = false

theorem readNumber_append (n : Number) {rest : List Char} (hrest : Ends rest) :
    readNumber (n.text ++ rest) = some (number n, rest) := by
  have hchars := (isNumber_spec n.valid).2
  have htake : (n.text ++ rest).takeWhile isNumberChar = n.text := by
    rw [List.takeWhile_append_of_pos hchars]
    cases rest with
    | nil => simp
    | cons c rest => simp [hrest c rfl]
  have hdrop : (n.text ++ rest).dropWhile isNumberChar = rest := by
    rw [List.dropWhile_append_of_pos hchars]
    cases rest with
    | nil => rfl
    | cons c rest => exact List.dropWhile_cons_of_neg (by simp [hrest c rfl])
  unfold readNumber
  simp only [htake, hdrop, n.valid, dite_true]

/-! ## Strings are read back -/

theorem hexDigitValue_hexDigit {n : ℕ} (h : n < 16) : hexDigitValue (hexDigit n) = some n := by
  have hall : ∀ m < 16, hexDigitValue (hexDigit m) = some m := by decide
  exact hall n h

theorem mem_of_lookup {l : List (Char × Char)} {c e : Char} (h : l.lookup c = some e) :
    (c, e) ∈ l := by
  obtain ⟨front, back, rfl, -⟩ := List.lookup_eq_some_iff.1 h
  exact List.mem_append_right _ List.mem_cons_self

theorem readEscape_short {c e : Char} (h : shortEscapes.lookup c = some e) (rest : List Char) :
    readEscape (e :: rest) = some (c, rest) := by
  have hall : (shortEscapes.all fun p =>
      p.2 != 'u' && readableEscapes.lookup p.2 == some p.1) = true := by decide
  have hpair := List.all_eq_true.1 hall (c, e) (mem_of_lookup h)
  rw [Bool.and_eq_true, bne_iff_ne, beq_iff_eq] at hpair
  rw [readEscape, if_neg hpair.1, hpair.2]
  rfl

theorem readEscape_control {n : ℕ} (h : n < 0x20) (rest : List Char) :
    readEscape ('u' :: '0' :: '0' :: hexDigit (n / 16) :: hexDigit (n % 16) :: rest) =
      some (Char.ofNat n, rest) := by
  have hzero : hexDigitValue '0' = some 0 := rfl
  have hunit : readUnit ('0' :: '0' :: hexDigit (n / 16) :: hexDigit (n % 16) :: rest) =
      some (n, rest) := by
    simp only [readUnit, hzero, hexDigitValue_hexDigit (n := n / 16) (by omega),
      hexDigitValue_hexDigit (n := n % 16) (by omega), Option.bind_eq_bind, Option.bind_some]
    rw [show ((0 * 16 + 0) * 16 + n / 16) * 16 + n % 16 = n by omega]
  rw [readEscape, if_pos rfl, hunit]
  simp only [Option.bind_eq_bind, Option.bind_some]
  rw [if_neg (by omega), if_neg (by omega)]

/-- A character is read back. -/
theorem readChars_escape (c : Char) (n : ℕ) (rest : List Char) :
    readChars (n + 1) (escape c ++ rest) =
      (readChars n rest).map fun p => (c :: p.1, p.2) := by
  have hbackslash {e : Char} {l rest' : List Char} (he : readEscape l = some (e, rest')) :
      readChars (n + 1) ('\\' :: l) = (readChars n rest').map fun p => (e :: p.1, p.2) := by
    rw [readChars, if_neg (by decide), if_pos rfl, he, Option.bind_eq_bind, Option.bind_some]
    dsimp only
    cases readChars n rest' with
    | none => rfl
    | some p => rfl
  unfold escape
  cases hshort : shortEscapes.lookup c with
  | some e => exact hbackslash (readEscape_short hshort rest)
  | none =>
    dsimp only
    split
    · next hcontrol =>
      refine (hbackslash (readEscape_control hcontrol rest)).trans ?_
      rw [Char.ofNat_toNat]
    · next hprinted =>
      have hquote : c ≠ '"' := fun heq => by
        rw [heq] at hshort
        cases hshort
      have hslash : c ≠ '\\' := fun heq => by
        rw [heq] at hshort
        cases hshort
      rw [List.singleton_append, readChars, if_neg hquote, if_neg hslash, if_neg hprinted]
      cases readChars n rest with
      | none => rfl
      | some p => rfl

theorem length_escape_pos (c : Char) : 0 < (escape c).length := by
  unfold escape
  split
  · exact Nat.succ_pos _
  · split
    · exact Nat.succ_pos _
    · exact Nat.succ_pos _

theorem readChars_flatMap (cs rest : List Char) {n : ℕ} (h : cs.length < n) :
    readChars n (cs.flatMap escape ++ '"' :: rest) = some (cs, rest) := by
  induction cs generalizing n with
  | nil =>
    obtain ⟨m, rfl⟩ := Nat.exists_eq_succ_of_ne_zero (Nat.ne_of_gt h)
    rw [List.flatMap_nil, List.nil_append, readChars, if_pos rfl]
  | cons c cs ih =>
    rw [List.length_cons] at h
    obtain ⟨m, rfl⟩ := Nat.exists_eq_succ_of_ne_zero (n := n) (by omega)
    rw [List.flatMap_cons, List.append_assoc, readChars_escape, ih (by omega)]
    rfl

theorem length_le_flatMap_escape (cs : List Char) : cs.length ≤ (cs.flatMap escape).length := by
  induction cs with
  | nil => exact Nat.le_refl 0
  | cons c cs ih =>
    have hpos := length_escape_pos c
    rw [List.flatMap_cons, List.length_append, List.length_cons]
    omega

theorem readStr_flatMap (s : String) (rest : List Char) :
    readStr (s.toList.flatMap escape ++ '"' :: rest) = some (s, rest) := by
  have hlen := length_le_flatMap_escape s.toList
  unfold readStr
  rw [readChars_flatMap _ _ (by
    rw [List.length_append]
    omega)]
  show some (String.ofList s.toList, rest) = some (s, rest)
  rw [String.ofList_toList]

/-! ## Values are read back -/

theorem expect_self {c : Char} (hc : isBlank c = false) (rest : List Char) :
    expect c (c :: rest) = some rest := by
  unfold expect skipBlanks
  rw [List.dropWhile_cons_of_neg (by simp [hc])]
  exact if_pos rfl

theorem expect_of_ne {c d : Char} (hd : isBlank d = false) (hne : d ≠ c) (rest : List Char) :
    expect c (d :: rest) = none := by
  unfold expect skipBlanks
  rw [List.dropWhile_cons_of_neg (by simp [hd])]
  exact if_neg hne

/-- The characters a value begins with. -/
def Begins (c : Char) : Prop :=
  c = '"' ∨ c = '[' ∨ c = '\x7b' ∨ c = 'n' ∨ c = 't' ∨ c = 'f' ∨ c.isDigit = true ∨ c = '-'

theorem Begins.not_blank {c : Char} (h : Begins c) : isBlank c = false := by
  obtain rfl | rfl | rfl | rfl | rfl | rfl | h | rfl := h
  case inr.inr.inr.inr.inr.inr.inl =>
    have hspace := isDigit_ne (d := ' ') h rfl
    have hline := isDigit_ne (d := '\n') h rfl
    have htab := isDigit_ne (d := '\t') h rfl
    have hreturn := isDigit_ne (d := '\r') h rfl
    simp [isBlank, hspace, hline, htab, hreturn]
  all_goals rfl

theorem Begins.ne {c : Char} (h : Begins c) {d : Char} (hd : d = ']' ∨ d = '\x7d') : c ≠ d := by
  have hdigit : d.isDigit = false := by
    obtain rfl | rfl := hd
    · rfl
    · rfl
  obtain rfl | rfl | rfl | rfl | rfl | rfl | h | rfl := h
  case inr.inr.inr.inr.inr.inr.inl => exact isDigit_ne h hdigit
  all_goals
    obtain rfl | rfl := hd
    all_goals decide

theorem exists_write_eq (j : Json) : ∃ c rest, write j = c :: rest ∧ Begins c := by
  cases j with
  | null => exact ⟨'n', _, rfl, by simp [Begins]⟩
  | bool b =>
    cases b with
    | false => exact ⟨'f', _, rfl, by simp [Begins]⟩
    | true => exact ⟨'t', _, rfl, by simp [Begins]⟩
  | number n =>
    obtain ⟨c, rest, heq, hc⟩ := (isNumber_spec n.valid).1
    refine ⟨c, rest, heq, ?_⟩
    rcases hc with hc | hc
    · simp [Begins, hc]
    · simp [Begins, hc]
  | str s => exact ⟨'"', _, rfl, by simp [Begins]⟩
  | arr items =>
    cases items with
    | nil => exact ⟨'[', _, rfl, by simp [Begins]⟩
    | cons j items => exact ⟨'[', _, rfl, by simp [Begins]⟩
  | obj members =>
    cases members with
    | nil => exact ⟨'\x7b', _, rfl, by simp [Begins]⟩
    | cons e members => exact ⟨'\x7b', _, rfl, by simp [Begins]⟩

theorem expect_write {d : Char} (hd : d = ']' ∨ d = '\x7d') (j : Json) (rest : List Char) :
    expect d (write j ++ rest) = none := by
  obtain ⟨c, cs, heq, hc⟩ := exists_write_eq j
  rw [heq, List.cons_append]
  exact expect_of_ne hc.not_blank (hc.ne hd) _

/-- What is read of a value, `n` steps at most, and of what follows it. -/
def ReadsBack (j : Json) : Prop := ∀ n rest, 2 * (write j).length ≤ n → Ends rest →
  readValue n (write j ++ rest) = some (j, rest)

theorem readsBack_word {j : Json} {c : Char} (word : List Char) (hwrite : write j = c :: word)
    (hc : c = 'n' ∨ c = 't' ∨ c = 'f')
    (hword : ∀ rest, readWord (c :: word ++ rest) = some (j, rest)) : ReadsBack j := by
  intro n rest hn _
  rw [hwrite, List.length_cons] at hn
  obtain ⟨m, rfl⟩ := Nat.exists_eq_succ_of_ne_zero (n := n) (by omega)
  have hblank : isBlank c = false := by
    obtain rfl | rfl | rfl := hc
    all_goals rfl
  have hkinds : c ≠ '"' ∧ c ≠ '[' ∧ c ≠ '\x7b' ∧ isNumberChar c = false := by
    obtain rfl | rfl | rfl := hc
    all_goals decide
  rw [hwrite, ← hword rest, readValue, skipBlanks, List.cons_append,
    List.dropWhile_cons_of_neg (by simp [hblank])]
  dsimp only
  rw [if_neg hkinds.1, if_neg hkinds.2.1, if_neg hkinds.2.2.1, hkinds.2.2.2]
  rfl

theorem readsBack_number (number : Number) : ReadsBack (.number number) := by
  intro n rest hn hrest
  obtain ⟨⟨c, cs, htext, hc⟩, hchars⟩ := isNumber_spec number.valid
  have hwrite : write (.number number) = number.text := rfl
  rw [hwrite, htext, List.length_cons] at hn
  obtain ⟨m, rfl⟩ := Nat.exists_eq_succ_of_ne_zero (n := n) (by omega)
  have hbegins : Begins c := by
    rcases hc with hc | hc
    · simp [Begins, hc]
    · simp [Begins, hc]
  have hother {d : Char} (hd : d.isDigit = false) (hminus : d ≠ '-') : c ≠ d := by
    rcases hc with hc | rfl
    · exact isDigit_ne hc hd
    · exact hminus.symm
  have hnumber : (isNumberChar c && c != 'e' && c != 'E') = true := by
    rw [hchars c (htext ▸ List.mem_cons_self)]
    simp [hother (d := 'e') rfl (by decide), hother (d := 'E') rfl (by decide)]
  rw [hwrite, ← readNumber_append number hrest, htext, readValue, skipBlanks, List.cons_append,
    List.dropWhile_cons_of_neg (by simp [hbegins.not_blank])]
  dsimp only
  rw [if_neg (hother rfl (by decide)), if_neg (hother rfl (by decide)),
    if_neg (hother rfl (by decide)), if_pos hnumber]

theorem readsBack_str (s : String) : ReadsBack (.str s) := by
  intro n rest hn _
  have hwrite : write (.str s) = '"' :: (s.toList.flatMap escape ++ ['"']) := rfl
  rw [hwrite, List.length_cons] at hn
  obtain ⟨m, rfl⟩ := Nat.exists_eq_succ_of_ne_zero (n := n) (by omega)
  rw [hwrite, List.cons_append, List.append_assoc, List.singleton_append, readValue, skipBlanks,
    List.dropWhile_cons_of_neg (by decide)]
  dsimp only
  rw [if_pos rfl, readStr_flatMap]
  rfl

theorem ends_cons {c : Char} (h : isNumberChar c = false) (l : List Char) : Ends (c :: l) := by
  intro d hd
  cases hd
  exact h

theorem ends_writeItems (items : List Json) (rest : List Char) :
    Ends (writeItems items ++ rest) := by
  cases items with
  | nil => exact ends_cons rfl _
  | cons j items => exact ends_cons rfl _

theorem ends_writeMembers (members : List (String × Json)) (rest : List Char) :
    Ends (writeMembers members ++ rest) := by
  cases members with
  | nil => exact ends_cons rfl _
  | cons e members => exact ends_cons rfl _

/-- The items are read back one after the other. -/
theorem readItems_write {items : List Json} (j : Json)
    (h : ∀ x ∈ j :: items, ReadsBack x) (n : ℕ) (rest : List Char)
    (hn : 2 * (write j ++ writeItems items).length + 1 ≤ n) :
    readItems n (write j ++ (writeItems items ++ rest)) = some (j :: items, rest) := by
  induction items generalizing j n with
  | nil =>
    rw [List.length_append] at hn
    obtain ⟨m, rfl⟩ := Nat.exists_eq_succ_of_ne_zero (n := n) (by omega)
    have hj := h j List.mem_cons_self m (writeItems [] ++ rest) (by omega) (ends_writeItems [] rest)
    have hend : expect ']' (writeItems [] ++ rest) = some rest := expect_self rfl rest
    rw [readItems, hj, Option.bind_eq_bind, Option.bind_some]
    dsimp only
    rw [hend]
  | cons i items ih =>
    rw [List.length_append] at hn
    have hlen : (writeItems (i :: items)).length = (write i ++ writeItems items).length + 1 := rfl
    obtain ⟨m, rfl⟩ := Nat.exists_eq_succ_of_ne_zero (n := n) (by omega)
    have hj := h j List.mem_cons_self m (writeItems (i :: items) ++ rest) (by omega)
      (ends_writeItems _ rest)
    have htext : writeItems (i :: items) ++ rest =
        ',' :: (write i ++ (writeItems items ++ rest)) := by
      rw [writeItems, List.cons_append, List.append_assoc]
    have hend : expect ']' (writeItems (i :: items) ++ rest) = none := by
      rw [htext]
      exact expect_of_ne rfl (by decide) _
    have hnext : expect ',' (writeItems (i :: items) ++ rest) =
        some (write i ++ (writeItems items ++ rest)) := by
      rw [htext]
      exact expect_self rfl _
    have hitems := ih i (fun x hx => h x (List.mem_cons_of_mem j hx)) m (by omega)
    rw [readItems, hj, Option.bind_eq_bind, Option.bind_some]
    dsimp only
    rw [hend]
    dsimp only
    rw [hnext, Option.bind_eq_bind, Option.bind_some, hitems]
    rfl

theorem writeStr_append (s : String) (rest : List Char) :
    writeStr s ++ rest = '"' :: (s.toList.flatMap escape ++ '"' :: rest) := by
  rw [writeStr, List.cons_append, List.append_assoc]
  rfl

theorem readMembers_write {members : List (String × Json)} (name : String) (j : Json)
    (h : ∀ x ∈ (name, j) :: members, ReadsBack x.2) (n : ℕ) (rest : List Char)
    (hn : 2 * (writeStr name ++ ':' :: (write j ++ writeMembers members)).length + 1 ≤ n) :
    readMembers n (writeStr name ++ ':' :: (write j ++ (writeMembers members ++ rest))) =
      some ((name, j) :: members, rest) := by
  induction members generalizing name j n with
  | nil =>
    rw [List.length_append, List.length_cons, List.length_append] at hn
    obtain ⟨m, rfl⟩ := Nat.exists_eq_succ_of_ne_zero (n := n) (by omega)
    have hj : readValue m (write j ++ (writeMembers [] ++ rest)) =
        some (j, writeMembers [] ++ rest) :=
      h (name, j) List.mem_cons_self m _ (show 2 * (write j).length ≤ m by omega)
        (ends_writeMembers [] rest)
    have hend : expect '\x7d' (writeMembers [] ++ rest) = some rest := expect_self rfl rest
    rw [readMembers, writeStr_append, expect_self rfl, Option.bind_eq_bind, Option.bind_some,
      readStr_flatMap, Option.bind_eq_bind, Option.bind_some]
    dsimp only
    rw [expect_self rfl, Option.bind_eq_bind, Option.bind_some, hj, Option.bind_eq_bind,
      Option.bind_some]
    dsimp only
    rw [hend]
  | cons e members ih =>
    rw [List.length_append, List.length_cons, List.length_append] at hn
    have hlen : (writeMembers (e :: members)).length =
        (writeStr e.1 ++ ':' :: (write e.2 ++ writeMembers members)).length + 1 := rfl
    obtain ⟨m, rfl⟩ := Nat.exists_eq_succ_of_ne_zero (n := n) (by omega)
    have hj : readValue m (write j ++ (writeMembers (e :: members) ++ rest)) =
        some (j, writeMembers (e :: members) ++ rest) :=
      h (name, j) List.mem_cons_self m _ (show 2 * (write j).length ≤ m by omega)
        (ends_writeMembers _ rest)
    have htext : writeMembers (e :: members) ++ rest =
        ',' :: (writeStr e.1 ++ ':' :: (write e.2 ++ (writeMembers members ++ rest))) := by
      obtain ⟨name', j'⟩ := e
      rw [writeMembers, List.cons_append, List.append_assoc, List.cons_append, List.append_assoc]
    have hend : expect '\x7d' (writeMembers (e :: members) ++ rest) = none := by
      rw [htext]
      exact expect_of_ne rfl (by decide) _
    have hnext : expect ',' (writeMembers (e :: members) ++ rest) =
        some (writeStr e.1 ++ ':' :: (write e.2 ++ (writeMembers members ++ rest))) := by
      rw [htext]
      exact expect_self rfl _
    have hmembers := ih e.1 e.2 (fun x hx => h x (List.mem_cons_of_mem _ hx)) m (by omega)
    rw [readMembers, writeStr_append, expect_self rfl, Option.bind_eq_bind, Option.bind_some,
      readStr_flatMap, Option.bind_eq_bind, Option.bind_some]
    dsimp only
    rw [expect_self rfl, Option.bind_eq_bind, Option.bind_some, hj, Option.bind_eq_bind,
      Option.bind_some]
    dsimp only
    rw [hend]
    dsimp only
    rw [hnext, Option.bind_some, hmembers]
    rfl

theorem readsBack (j : Json) : ReadsBack j := by
  induction j with
  | null => exact readsBack_word "ull".toList rfl (.inl rfl) fun rest => rfl
  | bool b =>
    cases b with
    | false =>
      exact readsBack_word "alse".toList rfl (.inr (.inr rfl)) fun rest => rfl
    | true =>
      exact readsBack_word "rue".toList rfl (.inr (.inl rfl)) fun rest => rfl
  | number n => exact readsBack_number n
  | str s => exact readsBack_str s
  | arr items ih =>
    intro n rest hn _
    cases items with
    | nil =>
      obtain ⟨m, rfl⟩ := Nat.exists_eq_succ_of_ne_zero (n := n) (fun h0 => by
        rw [h0] at hn
        exact Nat.not_succ_le_zero _ hn)
      rfl
    | cons j items =>
      have hwrite : write (.arr (j :: items)) = '[' :: (write j ++ writeItems items) := rfl
      rw [hwrite, List.length_cons] at hn
      obtain ⟨m, rfl⟩ := Nat.exists_eq_succ_of_ne_zero (n := n) (by omega)
      rw [hwrite, List.cons_append, List.append_assoc, readValue, skipBlanks,
        List.dropWhile_cons_of_neg (by decide)]
      dsimp only
      rw [if_neg (by decide), if_pos rfl, expect_write (.inl rfl)]
      dsimp only
      rw [readItems_write j ih m rest (by omega)]
      rfl
  | obj members ih =>
    intro n rest hn _
    cases members with
    | nil =>
      obtain ⟨m, rfl⟩ := Nat.exists_eq_succ_of_ne_zero (n := n) (fun h0 => by
        rw [h0] at hn
        exact Nat.not_succ_le_zero _ hn)
      rfl
    | cons e members =>
      have hwrite : write (.obj (e :: members)) =
          '\x7b' :: (writeStr e.1 ++ ':' :: (write e.2 ++ writeMembers members)) := rfl
      rw [hwrite, List.length_cons] at hn
      obtain ⟨m, rfl⟩ := Nat.exists_eq_succ_of_ne_zero (n := n) (by omega)
      have hend : expect '\x7d' (writeStr e.1 ++
          ':' :: (write e.2 ++ (writeMembers members ++ rest))) = none := by
        rw [writeStr_append]
        exact expect_of_ne rfl (by decide) _
      rw [hwrite, List.cons_append, List.append_assoc, List.cons_append, List.append_assoc,
        readValue, skipBlanks, List.dropWhile_cons_of_neg (by decide)]
      dsimp only
      rw [if_neg (by decide), if_neg (by decide), if_pos rfl, hend]
      dsimp only
      rw [readMembers_write e.1 e.2 ih m rest (by omega)]
      rfl

/-- What is written is read back, also before blanks. -/
theorem read_write (j : Json) {blanks : List Char} (h : ∀ c ∈ blanks, isBlank c = true) :
    read (String.ofList (write j ++ blanks)) = some j := by
  have hends : Ends blanks := by
    intro c hc
    have hblank := h c (List.mem_of_mem_head? hc)
    simp only [isBlank, Bool.or_eq_true, beq_iff_eq] at hblank
    obtain ((rfl | rfl) | rfl) | rfl := hblank
    all_goals rfl
  have hskip : skipBlanks blanks = [] := List.dropWhile_eq_nil_iff.2 h
  unfold read
  rw [String.toList_ofList, String.length_ofList,
    readsBack j _ blanks (by
      rw [List.length_append]
      omega) hends]
  dsimp only
  rw [if_pos hskip]

/-! ## Plain texts -/

/-- A text that is written as it is. -/
def Plain (s : String) : Prop := ∀ c ∈ s.toList, escape c = [c]

theorem escape_of_printed {c : Char} (hlow : 0x20 ≤ c.toNat) (hquote : c ≠ '"') (hslash : c ≠ '\\') :
    escape c = [c] := by
  have hall : (shortEscapes.all fun p =>
      p.1 == '"' || p.1 == '\\' || decide (p.1.toNat < 0x20)) = true := by decide
  have hnone : shortEscapes.lookup c = none := by
    cases hlook : shortEscapes.lookup c with
    | none => rfl
    | some e =>
      have hp := List.all_eq_true.1 hall (c, e) (mem_of_lookup hlook)
      simp only [Bool.or_eq_true, beq_iff_eq, decide_eq_true_eq] at hp
      obtain (hp | hp) | hp := hp
      · exact absurd hp hquote
      · exact absurd hp hslash
      · omega
  unfold escape
  rw [hnone]
  exact if_neg (by omega)

theorem escape_of_isAlphanum {c : Char} (h : c.isAlphanum = true) : escape c = [c] := by
  have hne {d : Char} (hd : d.isAlphanum = false) : c ≠ d := by
    rintro rfl
    exact Bool.noConfusion (h.symm.trans hd)
  have hlow := (printed_of_isAlphanum h).1
  exact escape_of_printed (by omega) (hne rfl) (hne rfl)

theorem plain_append {s t : String} (hs : Plain s) (ht : Plain t) : Plain (s ++ t) := by
  intro c hc
  rw [String.toList_append, List.mem_append] at hc
  rcases hc with hc | hc
  · exact hs c hc
  · exact ht c hc

theorem plain_toString (n : ℕ) : Plain (toString n) := fun c hc =>
  escape_of_isAlphanum (by
    rw [Char.isAlphanum, isDigit_of_mem_toString hc, Bool.or_true])

theorem plain_literal {s : String} (h : (s.toList.all fun c => escape c == [c]) = true) :
    Plain s :=
  fun c hc => beq_iff_eq.1 (List.all_eq_true.1 h c hc)

theorem plain_intercalate {sep : String} {l : List String} (hsep : Plain sep)
    (h : ∀ s ∈ l, Plain s) : Plain (sep.intercalate l) := by
  intro c hc
  rw [String.toList_intercalate] at hc
  induction l with
  | nil => exact absurd hc List.not_mem_nil
  | cons s l ih =>
    have hs := h s List.mem_cons_self
    have hl := fun t ht => h t (List.mem_cons_of_mem s ht)
    cases l with
    | nil =>
      rw [List.map_singleton, List.intercalate_singleton] at hc
      exact hs c hc
    | cons t l =>
      rw [List.map_cons, List.map_cons, List.intercalate_cons_cons, List.mem_append,
        List.mem_append] at hc
      rcases hc with (hc | hc) | hc
      · exact hs c hc
      · exact hsep c hc
      · exact ih hl hc

theorem write_str_of_plain {s : String} (h : Plain s) :
    write (.str s) = '"' :: (s.toList ++ ['"']) := by
  have hflat : ∀ l : List Char, (∀ c ∈ l, escape c = [c]) → l.flatMap escape = l := by
    intro l hl
    induction l with
    | nil => rfl
    | cons c l ih =>
      rw [List.flatMap_cons, hl c List.mem_cons_self,
        ih fun d hd => hl d (List.mem_cons_of_mem c hd)]
      rfl
  show '"' :: (s.toList.flatMap escape ++ ['"']) = _
  rw [hflat s.toList h]

theorem write_nat (n : ℕ) : write (.number (Number.nat n)) = (toString n).toList :=
  Nat.toList_repr.symm

/-- An array is its items, joined with commas. -/
theorem write_arr (items : List Json) :
    write (.arr items) = '[' :: ([','].intercalate (items.map write) ++ [']']) := by
  have hitems : ∀ (j : Json) (l : List Json),
      write j ++ writeItems l = [','].intercalate ((j :: l).map write) ++ [']'] := by
    intro j l
    induction l generalizing j with
    | nil => simp [writeItems, List.intercalate]
    | cons i l ih =>
      rw [writeItems, ih i]
      simp [List.intercalate]
  cases items with
  | nil => rfl
  | cons j items => exact congrArg ('[' :: ·) (hitems j items)

end Json

end NemoServer
