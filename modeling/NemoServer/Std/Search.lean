import NemoServer.Std.Parts

/-!
# Searching and wrapping texts

`str::find`, `str::split`, `str::split_whitespace` and `slice::chunks`. What a search finds in a
text that is put together from parts follows from where a pattern cannot begin (`find_append`): a
pattern does not begin in a part that ends with a character it has not, nor in one without its
first character.
-/

set_option autoImplicit false

namespace NemoServer

namespace Str

/-- `str::find`, counted in characters. -/
def find (pat : List Char) : List Char → Option ℕ
  | [] => if pat = [] then some 0 else none
  | c :: cs => if pat.isPrefixOf (c :: cs) then some 0 else (find pat cs).map (· + 1)

/-- `str::split_whitespace`. -/
def splitWhitespace (l : List Char) : List (List Char) :=
  (l.splitOnP isWhitespace).filter (· ≠ [])

/-- `str::split` at a character. -/
def split (c : Char) (s : String) : List String :=
  (s.toList.splitOnP (· == c)).map String.ofList

section Chunks

variable {α β : Type}

/-- The chunks of the first `fuel` rounds. -/
def chunksFrom (n : ℕ) : ℕ → List α → List (List α)
  | 0, _ => []
  | fuel + 1, l => if l.isEmpty then [] else l.take n :: chunksFrom n fuel (l.drop n)

/-- `slice::chunks`; every round takes one at least, so the length is fuel enough. -/
def chunks (n : ℕ) (l : List α) : List (List α) := chunksFrom n l.length l

theorem flatten_chunksFrom {n fuel : ℕ} (hn : 0 < n) {l : List α} (hfuel : l.length ≤ fuel) :
    (chunksFrom n fuel l).flatten = l := by
  induction fuel generalizing l with
  | zero =>
    obtain rfl : l = [] := List.length_eq_zero_iff.1 (by omega)
    rfl
  | succ fuel ih =>
    cases l with
    | nil => rfl
    | cons a l =>
      have hrest : ((a :: l).drop n).length ≤ fuel := by
        rw [List.length_drop]
        simp only [List.length_cons] at hfuel ⊢
        omega
      rw [chunksFrom, if_neg (by simp), List.flatten_cons, ih hrest, List.take_append_drop]

/-- The chunks make up the list. -/
theorem flatten_chunks {n : ℕ} (hn : 0 < n) (l : List α) : (chunks n l).flatten = l :=
  flatten_chunksFrom hn (Nat.le_refl _)

theorem chunksFrom_map (f : α → β) (n fuel : ℕ) (l : List α) :
    chunksFrom n fuel (l.map f) = (chunksFrom n fuel l).map (List.map f) := by
  induction fuel generalizing l with
  | zero => rfl
  | succ fuel ih =>
    cases l with
    | nil => rfl
    | cons a l =>
      have hmore : ∀ (γ : Type) (c : γ) (t : List γ), chunksFrom n (fuel + 1) (c :: t) =
          (c :: t).take n :: chunksFrom n fuel ((c :: t).drop n) := fun γ c t => rfl
      rw [List.map_cons, hmore, hmore, List.map_cons, ← ih, List.map_take, List.map_drop,
        List.map_cons]

theorem chunks_map (f : α → β) (n : ℕ) (l : List α) :
    chunks n (l.map f) = (chunks n l).map (List.map f) := by
  rw [chunks, List.length_map, chunksFrom_map]
  rfl

end Chunks

/-! ## Words -/

theorem flatten_filter_ne_nil (ls : List (List Char)) :
    (ls.filter (· ≠ [])).flatten = ls.flatten := by
  induction ls with
  | nil => rfl
  | cons l ls ih =>
    cases l with
    | nil => simpa using ih
    | cons c cs => simpa using ih

theorem flatten_splitOnP (p : Char → Bool) (l : List Char) :
    (l.splitOnP p).flatten = l.filter fun c => !p c := by
  induction l with
  | nil => rfl
  | cons c l ih =>
    rw [List.splitOnP_cons_eq_if_modifyHead]
    cases hc : p c with
    | true => simp [hc, ih]
    | false =>
      obtain ⟨first, rest, hsplit⟩ := List.exists_cons_of_ne_nil (List.splitOnP_ne_nil p l)
      rw [hsplit] at ih ⊢
      simpa [hc] using ih

/-- The words of a text, put together, are the text without its blanks. -/
theorem flatten_splitWhitespace (l : List Char) :
    (splitWhitespace l).flatten = l.filter fun c => !isWhitespace c := by
  rw [splitWhitespace, flatten_filter_ne_nil, flatten_splitOnP]

theorem splitWhitespace_of_blank {l : List Char} (h : ∀ c ∈ l, isWhitespace c = true)
    (rest : List Char) : splitWhitespace (l ++ rest) = splitWhitespace rest := by
  induction l with
  | nil => rfl
  | cons c l ih =>
    have hc := h c List.mem_cons_self
    have hrest := ih fun d hd => h d (List.mem_cons_of_mem c hd)
    unfold splitWhitespace at hrest ⊢
    rw [List.cons_append, List.splitOnP_cons_eq_if_modifyHead, if_pos hc,
      List.filter_cons_of_neg (by simp), hrest]

theorem splitWhitespace_append_blank {l : List Char} (h : ∀ c ∈ l, isWhitespace c = true)
    (front : List Char) : splitWhitespace (front ++ l) = splitWhitespace front := by
  cases l with
  | nil => rw [List.append_nil]
  | cons c l =>
    have hrest : splitWhitespace (l ++ []) = splitWhitespace [] :=
      splitWhitespace_of_blank (fun d hd => h d (List.mem_cons_of_mem c hd)) []
    rw [List.append_nil] at hrest
    unfold splitWhitespace at hrest ⊢
    rw [List.splitOnP_append_cons _ _ (h c List.mem_cons_self), List.filter_append, hrest]
    simp

/-- Trimming a text changes none of its words. -/
theorem splitWhitespace_trimChars (l : List Char) :
    splitWhitespace (trimChars isWhitespace l) = splitWhitespace l := by
  have hfront := List.takeWhile_append_dropWhile (p := isWhitespace) (l := l)
  have hback := List.rdropWhile_append_rtakeWhile (p := isWhitespace)
    (l := l.dropWhile isWhitespace)
  calc splitWhitespace (trimChars isWhitespace l)
      = splitWhitespace (trimChars isWhitespace l ++
          (l.dropWhile isWhitespace).rtakeWhile isWhitespace) :=
        (splitWhitespace_append_blank (fun c hc => List.mem_rtakeWhile_imp hc) _).symm
    _ = splitWhitespace (l.dropWhile isWhitespace) := by rw [trimChars, hback]
    _ = splitWhitespace (l.takeWhile isWhitespace ++ l.dropWhile isWhitespace) :=
        (splitWhitespace_of_blank (fun c hc => List.mem_takeWhile_imp hc) _).symm
    _ = splitWhitespace l := by rw [hfront]

/-! ## What a search finds -/

theorem find_some {pat l : List Char} {n : ℕ} (h : find pat l = some n) :
    ∃ pre rest, l = pre ++ (pat ++ rest) ∧ pre.length = n := by
  induction l generalizing n with
  | nil =>
    rw [find] at h
    split at h
    · next hpat =>
      obtain rfl := Option.some.inj h
      exact ⟨[], [], by rw [hpat]; rfl, rfl⟩
    · cases h
  | cons c cs ih =>
    rw [find] at h
    split at h
    · next hpre =>
      obtain rfl := Option.some.inj h
      obtain ⟨rest, hrest⟩ := List.isPrefixOf_iff_prefix.1 hpre
      exact ⟨[], rest, hrest.symm, rfl⟩
    · obtain ⟨m, hm, rfl⟩ := Option.map_eq_some_iff.1 h
      obtain ⟨pre, rest, hrest, hlen⟩ := ih hm
      exact ⟨c :: pre, rest, congrArg (c :: ·) hrest, congrArg (· + 1) hlen⟩

/-- A pattern that does not begin within the first part is searched in the second. -/
theorem find_append {pat pre rest : List Char}
    (h : ∀ part, part <:+ pre → part ≠ [] → ¬pat <+: part ++ rest) :
    find pat (pre ++ rest) = (find pat rest).map (· + pre.length) := by
  induction pre with
  | nil => simp
  | cons c pre ih =>
    have hnot : ¬pat.isPrefixOf (c :: (pre ++ rest)) = true := fun hpre =>
      h (c :: pre) List.suffix_rfl (List.cons_ne_nil c pre) (List.isPrefixOf_iff_prefix.1 hpre)
    rw [List.cons_append, find, if_neg hnot,
      ih fun part hpart => h part (hpart.trans (List.suffix_cons c pre)), Option.map_map]
    rfl

/-- What a pattern begins with stands where it is found. -/
theorem find_of_prefix {pat rest : List Char} (h : pat ≠ []) : find pat (pat ++ rest) = some 0 := by
  obtain ⟨c, cs, rfl⟩ := List.exists_cons_of_ne_nil h
  rw [List.cons_append, find, ← List.cons_append,
    if_pos (List.isPrefixOf_iff_prefix.2 (List.prefix_append _ _))]

/-- The first part ends with a character that the pattern has not. -/
theorem find_append_of_last {pat pre rest : List Char} {d : Char} (hd : d ∉ pat)
    (h : ¬pat <:+: pre ++ [d]) :
    find pat (pre ++ [d] ++ rest) = (find pat rest).map (· + (pre ++ [d]).length) := by
  refine find_append fun part hpart hne hpre => ?_
  obtain ⟨front, hfront⟩ := hpart
  have hlast : part.getLast hne = d := by
    have happ := List.getLast_append_of_ne_nil (List.append_ne_nil_of_right_ne_nil front hne) hne
    rw [← happ]
    simp [hfront]
  obtain hin | hlong := List.prefix_or_prefix_of_prefix hpre (List.prefix_append part rest)
  · exact h (hin.isInfix.trans ⟨front, [], by simpa using hfront⟩)
  · exact hd (hlong.subset (hlast ▸ List.getLast_mem hne))

/-- The first part has not the character that the pattern begins with. -/
theorem find_append_of_head {pat pre rest : List Char} {c : Char} (h : c ∉ pre) :
    find (c :: pat) (pre ++ rest) = (find (c :: pat) rest).map (· + pre.length) := by
  refine find_append fun part hpart hne hpre => ?_
  obtain ⟨d, part, rfl⟩ := List.exists_cons_of_ne_nil hne
  rw [List.cons_append, List.cons_prefix_cons] at hpre
  exact h (hpart.subset (hpre.1 ▸ List.mem_cons_self))

/-! ## What a replacement leaves -/

/-- Characters of a kind that neither the pattern nor the replacement has stay as they are. -/
theorem filter_replaceChars {p : Char → Bool} {pat new : List Char} (hpat : ∀ c ∈ pat, p c = false)
    (hnew : ∀ c ∈ new, p c = false) (hne : pat ≠ []) (n : ℕ) (l : List Char) :
    (replaceChars pat new n l).filter p = (l.drop n).filter p := by
  have hnone : ∀ m : List Char, (∀ c ∈ m, p c = false) → m.filter p = [] :=
    fun m hm => List.filter_eq_nil_iff.2 fun c hc => by simp [hm c hc]
  induction l generalizing n with
  | nil => cases n <;> simp [replaceChars]
  | cons c cs ih =>
    cases n with
    | succ n => exact ih n
    | zero =>
      rw [replaceChars, List.drop_zero]
      split
      · next hpre =>
        obtain ⟨rest, hrest⟩ := List.isPrefixOf_iff_prefix.1 hpre
        obtain ⟨d, ds, rfl⟩ := List.exists_cons_of_ne_nil hne
        obtain ⟨rfl, rfl⟩ := List.cons.inj hrest
        have hdrop : (ds.append rest).drop ds.length = rest := List.drop_left
        have hsplit : d :: ds.append rest = (d :: ds) ++ rest := rfl
        rw [List.filter_append, hnone new hnew, List.nil_append, ih, List.length_cons,
          Nat.add_sub_cancel, hdrop, hsplit, List.filter_append, hnone _ hpat, List.nil_append]
      · rw [List.filter_cons, List.filter_cons, ih 0, List.drop_zero]

theorem filter_replace {p : Char → Bool} {pat new : String} (hpat : ∀ c ∈ pat.toList, p c = false)
    (hnew : ∀ c ∈ new.toList, p c = false) (hne : pat ≠ "") (s : String) :
    (replace pat new s).toList.filter p = s.toList.filter p := by
  have hne' : pat.toList ≠ [] := fun h => hne (String.toList_eq_nil_iff.1 h)
  rw [replace, String.toList_ofList, filter_replaceChars hpat hnew hne', List.drop_zero]

/-! ## Texts of ASCII -/

/-- A character of ASCII is a byte of its own. -/
theorem utf8EncodeChar_of_ascii {c : Char} (h : c.toNat < 0x80) :
    String.utf8EncodeChar c = [c.toUInt8] := by
  refine String.utf8EncodeChar_eq_singleton (Char.utf8Size_eq_one_iff.2 ?_)
  rw [UInt32.le_iff_toNat_le]
  have hval : c.val.toNat = c.toNat := rfl
  have hmax : (127 : UInt32).toNat = 127 := rfl
  omega

theorem toUtf8_of_ascii {s : String} (h : ∀ c ∈ s.toList, c.toNat < 0x80) :
    toUtf8 s = s.toList.map Char.toUInt8 := by
  unfold toUtf8
  have hmap : ∀ l : List Char, (∀ c ∈ l, c.toNat < 0x80) →
      l.flatMap String.utf8EncodeChar = l.map Char.toUInt8 := by
    intro l
    induction l with
    | nil => exact fun _ => rfl
    | cons c l ih =>
      intro hl
      rw [List.flatMap_cons, utf8EncodeChar_of_ascii (hl c List.mem_cons_self),
        ih fun d hd => hl d (List.mem_cons_of_mem c hd), List.map_cons, List.singleton_append]
  exact hmap s.toList h

@[simp] theorem fromUtf8_toUtf8 (s : String) : fromUtf8 (toUtf8 s) = some s := by
  rw [fromUtf8, fromUtf8Lossy_toUtf8, if_pos rfl]

end Str

end NemoServer
