import Mathlib.Data.List.DropRight

/-!
# Strings

The string operations of the Rust standard library that the server uses, on the list of
characters of the string. Lengths are in bytes of UTF-8 (`String.utf8ByteSize`), as `str::len`
counts them.
-/

namespace NemoServer

namespace Str

/-- `char::is_whitespace`: the Unicode property White_Space. -/
def isWhitespace (c : Char) : Bool :=
  let n := c.toNat
  (9 ≤ n && n ≤ 13) || n == 0x20 || n == 0x85 || n == 0xA0 || n == 0x1680 ||
    (0x2000 ≤ n && n ≤ 0x200A) || n == 0x2028 || n == 0x2029 || n == 0x202F || n == 0x205F ||
    n == 0x3000

/-- The characters left after the leading ones that satisfy `p` and the trailing ones. -/
def trimChars (p : Char → Bool) (l : List Char) : List Char := (l.dropWhile p).rdropWhile p

/-- `str::trim`. -/
def trim (s : String) : String := String.ofList (trimChars isWhitespace s.toList)

/-- The rest of the text after the first occurrence of `pat`. -/
def afterFirst (pat : List Char) : List Char → Option (List Char)
  | [] => if pat = [] then some [] else none
  | c :: cs => if pat.isPrefixOf (c :: cs) then some ((c :: cs).drop pat.length)
    else afterFirst pat cs

/-- `split_whitespace().next()`. -/
def firstToken (l : List Char) : Option (List Char) :=
  match (l.dropWhile isWhitespace).takeWhile (fun c => !isWhitespace c) with
  | [] => none
  | t => some t

/-- The text before and after the first `c`. -/
def splitOnce (c : Char) (l : List Char) : Option (List Char × List Char) :=
  match l.dropWhile (· != c) with
  | [] => none
  | _ :: rest => some (l.takeWhile (· != c), rest)

/-- `str::eq_ignore_ascii_case`. -/
def eqIgnoreAsciiCase (s t : String) : Bool :=
  s.toList.map Char.toLower == t.toList.map Char.toLower

/-- `str::strip_prefix`. -/
def stripPrefix (pat l : List Char) : Option (List Char) :=
  if pat.isPrefixOf l then some (l.drop pat.length) else none

/-- `str::to_ascii_lowercase`. -/
def toAsciiLowercase (s : String) : String := String.ofList (s.toList.map Char.toLower)

/-- `str::replace` with a pattern that is not empty; the number counts the characters that are
left of the last occurrence. -/
def replaceChars (pat new : List Char) : ℕ → List Char → List Char
  | _, [] => []
  | n + 1, _ :: cs => replaceChars pat new n cs
  | 0, c :: cs =>
    if pat.isPrefixOf (c :: cs) then new ++ replaceChars pat new (pat.length - 1) cs
    else c :: replaceChars pat new 0 cs

def replace (pat new s : String) : String :=
  String.ofList (replaceChars pat.toList new.toList 0 s.toList)

theorem trimChars_idem (p : Char → Bool) (l : List Char) :
    trimChars p (trimChars p l) = trimChars p l := by
  have hstart : (trimChars p l).dropWhile p = trimChars p l := by
    obtain ⟨t, ht⟩ : trimChars p l <+: l.dropWhile p := List.rdropWhile_prefix p _
    rcases h : trimChars p l with _ | ⟨c, cs⟩
    · rfl
    · rw [h, List.cons_append] at ht
      have hc : p c = false := by
        have hhead := List.head_dropWhile_not p (l := l) (by simp [← ht])
        simpa [← ht] using hhead
      exact List.dropWhile_cons_of_neg (by simp [hc])
  rw [trimChars, hstart, trimChars, List.rdropWhile_idempotent]

theorem trimChars_eq_self {p : Char → Bool} {l : List Char} (h : ∀ c ∈ l, p c = false) :
    trimChars p l = l := by
  have hstart : l.dropWhile p = l := by
    cases l with
    | nil => rfl
    | cons c cs => exact List.dropWhile_cons_of_neg (by simp [h])
  rw [trimChars, hstart, List.rdropWhile_eq_self_iff]
  intro hne
  simp [h]

@[simp] theorem trim_trim (s : String) : trim (trim s) = trim s := by
  unfold trim
  rw [String.toList_ofList, trimChars_idem]

end Str

end NemoServer
