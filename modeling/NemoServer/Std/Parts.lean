import Mathlib.Data.List.DropRight
import Mathlib.Data.String.Basic
import NemoServer.Std.Utf8

/-!
# Parts of a text

What the validators of `nemo_management.rs` take texts apart with: the text after the last
occurrence of a character, the text up to the first character of a kind, and ports. A text that was
put together is taken apart again, and a port has one canonical text (`parseU16_toString`).
-/

set_option autoImplicit false

namespace NemoServer

namespace Str

/-- `char::is_control`: the Unicode category Cc. -/
def isControl (c : Char) : Bool :=
  let n := c.toNat
  n ≤ 0x1F || (0x7F ≤ n && n ≤ 0x9F)

/-- `u8::is_ascii_hexdigit`, on a character. -/
def isAsciiHexdigit (c : Char) : Bool :=
  let n := c.toNat
  (0x30 ≤ n && n ≤ 0x39) || (0x41 ≤ n && n ≤ 0x46) || (0x61 ≤ n && n ≤ 0x66)

/-- `rsplit_once`: the text before and after the last `c`. -/
def rsplitOnce (c : Char) (l : List Char) : Option (List Char × List Char) :=
  (splitOnce c l.reverse).map fun (last, first) => (first.reverse, last.reverse)

/-- `rfind`, counted in characters. -/
def rfind (c : Char) (l : List Char) : Option ℕ :=
  (l.reverse.findIdx? (· == c)).map fun i => l.length - 1 - i

/-- `rsplit(c).next()`: the text after the last `c`, all of it if there is none. -/
def afterLast (c : Char) (l : List Char) : List Char := l.rtakeWhile (· != c)

/-- `str::parse::<u16>`. -/
def parseU16 (s : String) : Option ℕ := (parseU64 s).filter (· < 2 ^ 16)

/-! ## Characters -/

/-- A test of each character of a text, evaluated. -/
theorem forall_of_all {l : List Char} {p : Char → Bool} {b : Bool}
    (h : (l.all fun c => p c == b) = true) : ∀ c ∈ l, p c = b :=
  fun c hc => beq_iff_eq.1 (List.all_eq_true.1 h c hc)

theorem isAsciiHexdigit_iff {c : Char} : isAsciiHexdigit c = true ↔
    0x30 ≤ c.toNat ∧ c.toNat ≤ 0x39 ∨ 0x41 ≤ c.toNat ∧ c.toNat ≤ 0x46 ∨
      0x61 ≤ c.toNat ∧ c.toNat ≤ 0x66 := by
  simp [isAsciiHexdigit, or_assoc]

/-- No blank is among the printed characters of ASCII. -/
theorem isWhitespace_of_printed {c : Char} (hlow : 0x20 < c.toNat) (hhigh : c.toNat < 0x7F) :
    isWhitespace c = false := by
  simp only [isWhitespace, Bool.or_eq_false_iff, Bool.and_eq_false_iff, decide_eq_false_iff_not,
    beq_eq_false_iff_ne]
  omega

theorem isWhitespace_of_isAsciiHexdigit {c : Char} (h : isAsciiHexdigit c = true) :
    isWhitespace c = false := by
  rw [isAsciiHexdigit_iff] at h
  exact isWhitespace_of_printed (by omega) (by omega)

theorem isWhitespace_of_isDigit {c : Char} (h : c.isDigit = true) : isWhitespace c = false := by
  simp only [Char.isDigit, Bool.and_eq_true, decide_eq_true_eq] at h
  have hge : 48 ≤ c.toNat := h.1
  have hle : c.toNat ≤ 57 := h.2
  exact isWhitespace_of_printed (by omega) (by omega)

theorem printed_of_isAlphanum {c : Char} (h : c.isAlphanum = true) :
    0x20 < c.toNat ∧ c.toNat < 0x7F := by
  have hclasses : c.isAlphanum = ((decide (65 ≤ c.val ∧ c.val ≤ 90) ||
      (decide (97 ≤ c.val) && decide (c.val ≤ 122))) ||
        (decide (48 ≤ c.val) && decide (c.val ≤ 57))) := rfl
  have hrange : 48 ≤ c.toNat ∧ c.toNat ≤ 57 ∨ 65 ≤ c.toNat ∧ c.toNat ≤ 90 ∨
      97 ≤ c.toNat ∧ c.toNat ≤ 122 := by
    rw [hclasses] at h
    simp only [Bool.or_eq_true, Bool.and_eq_true, decide_eq_true_eq,
      UInt32.le_iff_toNat_le] at h
    obtain (⟨h₁, h₂⟩ | ⟨h₁, h₂⟩) | ⟨h₁, h₂⟩ := h
    · exact .inr (.inl ⟨h₁, h₂⟩)
    · exact .inr (.inr ⟨h₁, h₂⟩)
    · exact .inl ⟨h₁, h₂⟩
  omega

theorem isWhitespace_of_isAlphanum {c : Char} (h : c.isAlphanum = true) :
    isWhitespace c = false :=
  isWhitespace_of_printed (printed_of_isAlphanum h).1 (printed_of_isAlphanum h).2

/-! ## Trimming -/

theorem mem_trimChars {p : Char → Bool} {l : List Char} {c : Char} (hc : c ∈ l)
    (hp : p c = false) : c ∈ trimChars p l := by
  have hstart : c ∈ l.dropWhile p := by
    have happ := List.takeWhile_append_dropWhile (p := p) (l := l)
    rw [← happ, List.mem_append] at hc
    refine hc.resolve_left fun htake => ?_
    rw [List.mem_takeWhile_imp htake] at hp
    cases hp
  have happ : trimChars p l ++ (l.dropWhile p).rtakeWhile p = l.dropWhile p :=
    List.rdropWhile_append_rtakeWhile
  rw [← happ, List.mem_append] at hstart
  refine hstart.resolve_right fun htake => ?_
  rw [List.mem_rtakeWhile_imp htake] at hp
  cases hp

/-- What stands between two characters that are trimmed. -/
theorem trimChars_between {p : Char → Bool} {c d : Char} {l : List Char} (hc : p c = true)
    (hd : p d = true) (hne : l ≠ []) (h : ∀ x ∈ l, p x = false) :
    trimChars p (c :: l ++ [d]) = l := by
  have hstart : (c :: l ++ [d]).dropWhile p = l ++ [d] := by
    obtain ⟨x, xs, rfl⟩ := List.exists_cons_of_ne_nil hne
    rw [List.cons_append, List.dropWhile_cons_of_pos hc, List.cons_append]
    exact List.dropWhile_cons_of_neg (by simp [h x List.mem_cons_self])
  rw [trimChars, hstart, List.rdropWhile_concat_pos p l d hd, List.rdropWhile_eq_self_iff]
  intro hl
  simp [h]

theorem mem_trim {s : String} {c : Char} (hc : c ∈ s.toList) (hp : isWhitespace c = false) :
    c ∈ (trim s).toList := by
  rw [trim, String.toList_ofList]
  exact mem_trimChars hc hp

theorem trim_eq_self {s : String} (h : ∀ c ∈ s.toList, isWhitespace c = false) : trim s = s := by
  rw [trim, trimChars_eq_self h, String.ofList_toList]

/-! ## Lower case -/

theorem toLower_toLower (c : Char) : c.toLower.toLower = c.toLower := by
  unfold Char.toLower
  by_cases h : c.val ≥ 'A'.val ∧ c.val ≤ 'Z'.val
  · rw [dif_pos h, dif_neg]
    have hge : 65 ≤ c.val.toNat := h.1
    have hle : c.val.toNat ≤ 90 := h.2
    rintro ⟨-, hz⟩
    have hz' : (c.val + ('a'.val - 'A'.val)).toNat ≤ 90 := hz
    rw [UInt32.toNat_add] at hz'
    have h32 : ('a'.val - 'A'.val).toNat = 32 := rfl
    omega
  · rw [dif_neg h, dif_neg h]

@[simp] theorem toAsciiLowercase_idem (s : String) :
    toAsciiLowercase (toAsciiLowercase s) = toAsciiLowercase s := by
  unfold toAsciiLowercase
  rw [String.toList_ofList, List.map_map]
  congr 1
  exact List.map_congr_left fun c _ => toLower_toLower c

/-! ## What was put together -/

theorem rsplitOnce_append {c : Char} {first last : List Char} (h : c ∉ last) :
    rsplitOnce c (first ++ c :: last) = some (first, last) := by
  have hrev : (first ++ c :: last).reverse = last.reverse ++ c :: first.reverse := by simp
  unfold rsplitOnce
  rw [hrev, splitOnce_append (by simpa using h)]
  simp

theorem rsplitOnce_some {c : Char} {l first last : List Char}
    (h : rsplitOnce c l = some (first, last)) : l = first ++ c :: last ∧ c ∉ last := by
  unfold rsplitOnce at h
  rw [Option.map_eq_some_iff] at h
  obtain ⟨parts, hparts, heq⟩ := h
  obtain ⟨rfl, rfl⟩ := Prod.mk.inj heq
  have hl := congrArg List.reverse (splitOnce_some hparts)
  refine ⟨by simpa using hl, ?_⟩
  simpa using splitOnce_some_notMem hparts

theorem findIdx_reverse_eq_none {c : Char} {l : List Char} (h : c ∉ l) :
    l.reverse.findIdx? (· == c) = none := by
  rw [List.findIdx?_eq_none_iff]
  intro d hd
  rw [beq_eq_false_iff_ne]
  rintro rfl
  exact h (List.mem_reverse.1 hd)

theorem rfind_append {c : Char} {first last : List Char} (h : c ∉ last) :
    rfind c (first ++ c :: last) = some first.length := by
  have hrev : (first ++ c :: last).reverse = last.reverse ++ c :: first.reverse := by simp
  have hnone := findIdx_reverse_eq_none h
  unfold rfind
  rw [hrev, List.findIdx?_append, hnone, List.findIdx?_cons]
  simp only [beq_self_eq_true, if_true, Option.map_some, List.length_reverse, List.length_append,
    List.length_cons, Option.none_or]
  rw [Option.some.injEq]
  omega

theorem rfind_append_left {c : Char} {first last : List Char} (h : c ∉ last) :
    rfind c (first ++ last) = rfind c first := by
  have hnone := findIdx_reverse_eq_none h
  unfold rfind
  rw [List.reverse_append, List.findIdx?_append, hnone, Option.none_or, Option.map_map]
  refine congrArg (fun f => Option.map f _) ?_
  funext i
  simp only [Function.comp_apply, List.length_append, List.length_reverse]
  omega

theorem rfind_eq_none {c : Char} {l : List Char} (h : c ∉ l) : rfind c l = none := by
  unfold rfind
  rw [findIdx_reverse_eq_none h, Option.map_none]

/-- What is found stands in the text. -/
theorem rfind_lt {c : Char} {l : List Char} {i : ℕ} (h : rfind c l = some i) : i < l.length := by
  unfold rfind at h
  obtain ⟨j, hj, rfl⟩ := Option.map_eq_some_iff.1 h
  have hlt : j < l.reverse.length := by
    obtain ⟨hlt, -⟩ := List.findIdx?_eq_some_iff_getElem.1 hj
    exact hlt
  rw [List.length_reverse] at hlt
  omega

theorem stripPrefix_some {pat l rest : List Char} (h : stripPrefix pat l = some rest) :
    l = pat ++ rest := by
  unfold stripPrefix at h
  split at h
  · next hpre =>
    obtain ⟨rest', hrest⟩ := List.isPrefixOf_iff_prefix.1 hpre
    rw [← hrest, List.drop_left] at h
    rw [← hrest, Option.some.inj h]
  · cases h

theorem stripPrefix_append (pat rest : List Char) : stripPrefix pat (pat ++ rest) = some rest := by
  unfold stripPrefix
  rw [if_pos (List.isPrefixOf_iff_prefix.2 ⟨rest, rfl⟩), List.drop_left]

/-- Nothing stands after the last `c` exactly if `c` stands last, or nothing at all. -/
theorem afterLast_eq_nil {c : Char} {l : List Char} :
    afterLast c l = [] ↔ ∀ hl : l ≠ [], l.getLast hl = c := by
  rw [afterLast, List.rtakeWhile_eq_nil_iff]
  simp

/-! ## Markers in a text -/

theorem afterFirst_eq_none {pat l : List Char} (hpat : pat ≠ []) (h : ¬ pat <:+: l) :
    afterFirst pat l = none := by
  induction l with
  | nil => rw [afterFirst, if_neg hpat]
  | cons c cs ih =>
    have hpre : ¬ pat.isPrefixOf (c :: cs) = true := fun hpre =>
      h (List.isPrefixOf_iff_prefix.1 hpre).isInfix
    rw [afterFirst, if_neg hpre]
    exact ih fun hin => h (hin.trans (List.suffix_cons c cs).isInfix)

/-- A pattern whose last character occurs nowhere else in it does not begin within a text that it
follows, unless it stands in that text. -/
theorem not_prefix_append {body pre rest : List Char} {d : Char} (hd : d ∉ body) (hpre : pre ≠ [])
    (h : ¬ (body ++ [d]) <:+: pre) : ¬ (body ++ [d]) <+: pre ++ ((body ++ [d]) ++ rest) := by
  intro hstart
  have hpre' : pre <+: pre ++ ((body ++ [d]) ++ rest) := List.prefix_append _ _
  obtain hin | hlong := List.prefix_or_prefix_of_prefix hstart hpre'
  · exact h hin.isInfix
  · obtain ⟨last, hlast⟩ := hlong
    rw [← hlast, List.prefix_append_right_inj] at hstart
    -- what is left of the pattern begins it again, and is shorter
    have hlen : last.length ≤ body.length := by
      have hsum := congrArg List.length hlast
      have hpos := List.length_pos_of_ne_nil hpre
      simp only [List.length_append, List.length_singleton] at hsum
      omega
    have hbody : last <+: body := by
      rw [hlast, List.append_assoc] at hstart
      exact List.prefix_of_prefix_length_le hstart (List.prefix_append _ _) hlen
    have hne : last ≠ [] := by
      rintro rfl
      rw [List.append_nil] at hlast
      exact h (hlast ▸ List.infix_rfl)
    have hgetLast : last.getLast hne = d := by
      have hend : (pre ++ last).getLast (List.append_ne_nil_of_right_ne_nil _ hne) = d := by
        simp [hlast]
      rwa [List.getLast_append_of_ne_nil _ hne] at hend
    exact hd (hbody.subset (hgetLast ▸ List.getLast_mem hne))

/-- The first such pattern is found. -/
theorem afterFirst_append {body pre : List Char} {d : Char} (hd : d ∉ body)
    (h : ¬ (body ++ [d]) <:+: pre) (rest : List Char) :
    afterFirst (body ++ [d]) (pre ++ ((body ++ [d]) ++ rest)) = some rest := by
  induction pre with
  | nil =>
    obtain ⟨c, cs, hcons⟩ := List.exists_cons_of_ne_nil (l := body ++ [d]) (by simp)
    have hpre : (c :: cs).isPrefixOf (c :: (cs ++ rest)) = true :=
      List.isPrefixOf_iff_prefix.2 ⟨rest, rfl⟩
    rw [List.nil_append, hcons, List.cons_append, afterFirst, if_pos hpre, ← List.cons_append,
      List.drop_left]
  | cons c pre ih =>
    have hnot : ¬ (body ++ [d]) <+: (c :: pre) ++ ((body ++ [d]) ++ rest) :=
      not_prefix_append hd (List.cons_ne_nil c pre) h
    rw [List.cons_append] at hnot ⊢
    rw [afterFirst, if_neg fun hpre => hnot (List.isPrefixOf_iff_prefix.1 hpre)]
    exact ih fun hin => h (hin.trans (List.suffix_cons c pre).isInfix)

theorem firstToken_append {token rest : List Char} (hne : token ≠ [])
    (h : ∀ c ∈ token, isWhitespace c = false) (hrest : ∀ c ∈ rest.head?, isWhitespace c = true) :
    firstToken (token ++ rest) = some token := by
  have hstart : (token ++ rest).dropWhile isWhitespace = token ++ rest := by
    obtain ⟨c, cs, rfl⟩ := List.exists_cons_of_ne_nil hne
    rw [List.cons_append]
    exact List.dropWhile_cons_of_neg (by simp [h c List.mem_cons_self])
  have htake : (token ++ rest).takeWhile (fun c => !isWhitespace c) = token := by
    rw [List.takeWhile_append_of_pos fun c hc => by simp [h c hc]]
    cases rest with
    | nil => simp
    | cons c rest => simp [hrest c rfl]
  unfold firstToken
  rw [hstart, htake]
  cases token with
  | nil => exact absurd rfl hne
  | cons c cs => rfl

/-! ## Ports -/

theorem isDigit_of_mem_toString {n : ℕ} {c : Char} (h : c ∈ (toString n).toList) :
    c.isDigit = true := by
  change c ∈ n.repr.toList at h
  rw [Nat.toList_repr] at h
  exact Nat.isDigit_of_mem_toDigits (by omega) (by omega) h

/-- A number is parsed from its own text. -/
theorem parseU64_toString {n : ℕ} (h : n < 2 ^ 64) : parseU64 (toString n) = some n := by
  have htext : (toString n).toList = Nat.toDigits 10 n := Nat.toList_repr
  have hplus : ∀ cs, Nat.toDigits 10 n ≠ '+' :: cs := by
    intro cs heq
    have hdigit : '+'.isDigit = true := isDigit_of_mem_toString (n := n) (by rw [htext, heq]; simp)
    revert hdigit
    decide
  have hall : (Nat.toDigits 10 n).all Char.isDigit = true := by
    rw [List.all_eq_true]
    intro c hc
    exact isDigit_of_mem_toString (htext ▸ hc)
  have hval : (Nat.toDigits 10 n).foldl (fun n c => 10 * n + (c.toNat - '0'.toNat)) 0 = n := by
    have hdigits := Nat.ofDigitChars_ten_toDigits (n := n)
    rwa [Nat.ofDigitChars_eq_foldl] at hdigits
  unfold parseU64
  rw [htext]
  split
  · next cs heq => exact absurd heq (hplus cs)
  · rw [if_pos ⟨Nat.toDigits_ne_nil, hall⟩]
    simp only [hval]
    rw [if_pos h]

theorem parseU16_toString {n : ℕ} (h : n < 2 ^ 16) : parseU16 (toString n) = some n := by
  rw [parseU16, parseU64_toString (by omega), Option.filter_some, if_pos (by simpa using h)]

/-- Digits count for no more than a power of ten. -/
theorem ofDigits_lt {l : List Char} (h : ∀ c ∈ l, c.isDigit = true) (m : ℕ) :
    l.foldl (fun n c => 10 * n + (c.toNat - '0'.toNat)) m < (m + 1) * 10 ^ l.length := by
  induction l generalizing m with
  | nil => simp
  | cons c l ih =>
    have hc : c.toNat - '0'.toNat ≤ 9 := by
      have hdigit := h c List.mem_cons_self
      simp only [Char.isDigit, Bool.and_eq_true, decide_eq_true_eq] at hdigit
      have hle : c.toNat ≤ 57 := hdigit.2
      have hzero : '0'.toNat = 48 := rfl
      omega
    rw [List.foldl_cons, List.length_cons, pow_succ]
    refine (ih (fun d hd => h d (List.mem_cons_of_mem _ hd)) _).trans_le ?_
    calc (10 * m + (c.toNat - '0'.toNat) + 1) * 10 ^ l.length
        ≤ (10 * (m + 1)) * 10 ^ l.length := Nat.mul_le_mul_right _ (by omega)
      _ = (m + 1) * (10 ^ l.length * 10) := by rw [Nat.mul_comm 10, Nat.mul_assoc, Nat.mul_comm 10]

/-- The canonical text of a number is not longer than any other. -/
theorem length_toString_le {s : String} {n : ℕ} (h : parseU64 s = some n) :
    (toString n).toList.length ≤ s.toList.length := by
  have hdigits : ∃ l : List Char, l ≠ [] ∧ l.length ≤ s.toList.length ∧
      (∀ c ∈ l, c.isDigit = true) ∧
      l.foldl (fun n c => 10 * n + (c.toNat - '0'.toNat)) 0 = n := by
    unfold parseU64 at h
    simp only [Option.ite_none_right_eq_some, List.all_eq_true, Option.some.injEq] at h
    obtain ⟨⟨hne, hall⟩, -, rfl⟩ := h
    refine ⟨_, hne, ?_, hall, rfl⟩
    split
    · next cs heq => rw [heq]; simp
    · exact Nat.le_refl _
  obtain ⟨l, hne, hlen, hall, rfl⟩ := hdigits
  refine Nat.le_trans ?_ hlen
  have hlt := ofDigits_lt hall 0
  rw [Nat.zero_add, one_mul] at hlt
  change (Nat.repr _).toList.length ≤ _
  rw [Nat.toList_repr]
  exact (Nat.length_toDigits_le_iff (by omega) (List.length_pos_of_ne_nil hne)).2 hlt

theorem length_le_utf8Len (l : List Char) : l.length ≤ String.utf8Len l := by
  induction l with
  | nil => simp
  | cons c l ih =>
    have hpos := c.utf8Size_pos
    rw [List.length_cons, String.utf8Len_cons]
    omega

theorem utf8Len_digits {l : List Char} (h : ∀ c ∈ l, c.isDigit = true) :
    String.utf8Len l = l.length := by
  induction l with
  | nil => simp
  | cons c l ih =>
    have hc : c.utf8Size = 1 := by
      have hdigit := h c List.mem_cons_self
      simp only [Char.isDigit, Bool.and_eq_true, decide_eq_true_eq] at hdigit
      have hle : c.val.toNat ≤ 57 := hdigit.2
      rw [Char.utf8Size_eq_one_iff, UInt32.le_iff_toNat_le]
      exact hle.trans (by decide)
    rw [List.length_cons, String.utf8Len_cons, ih fun d hd => h d (List.mem_cons_of_mem _ hd), hc]

/-- The canonical text of a number has no more bytes than any other. -/
theorem utf8Len_toString_le {s : String} {n : ℕ} (h : parseU64 s = some n) :
    String.utf8Len (toString n).toList ≤ String.utf8Len s.toList := by
  rw [utf8Len_digits fun c => isDigit_of_mem_toString]
  exact (length_toString_le h).trans (length_le_utf8Len _)

end Str

end NemoServer
