import NemoServer.Integration.SearchFilter
import NemoServer.Std.LdapFilter

/-!
# Names and queries in search filters

A name that is put into the template of a filter, and a query that a filter is built from, are
escaped: what they consist of is looked for, and nothing of it is read as a part of the filter.

* `filters_injection_free`: a template that is filled in has the parentheses of the template, and no
  more wildcards and NULs; the filter of a query is the one that its words say; what is escaped is
  what it was when it is read.
-/

set_option autoImplicit false

namespace NemoServer

namespace Integration

open Str LdapFilter

/-- A parenthesis, a wildcard or NUL. -/
def isMeta (c : Char) : Bool := c == '(' || c == ')' || c == '*' || c == Char.ofNat 0

/-! ## Templates -/

theorem isMeta_of_any {l : List Char} (h : l.any isMeta = false) : ∀ c ∈ l, isMeta c = false :=
  fun c hc => Bool.eq_false_of_not_eq_true (List.any_eq_false.1 h c hc)

theorem isMeta_escapeChar (c : Char) : ∀ d ∈ escapeChar c, isMeta d = false := by
  have hcode : ∀ l ∈ ["\\5c".toList, "\\2a".toList, "\\28".toList, "\\29".toList, "\\00".toList,
      "\\2f".toList], l.any isMeta = false := by decide
  unfold escapeChar
  split_ifs with hback hstar hopen hclose hnul hslash
  rotate_left 6
  · intro d hd
    rw [List.mem_singleton.1 hd]
    simp [isMeta, hstar, hopen, hclose, hnul]
  all_goals exact isMeta_of_any (hcode _ (by simp))

theorem isMeta_escapeFilter (s : String) : ∀ c ∈ (escapeFilter s).toList, isMeta c = false := by
  intro c hc
  rw [escapeFilter, String.toList_ofList] at hc
  obtain ⟨d, -, hd⟩ := List.mem_flatMap.1 hc
  exact isMeta_escapeChar d c hd

/-- The parentheses, wildcards and NULs of a filled template are those of the template. -/
theorem filter_buildSearchFilter (template username domain : String) :
    (buildSearchFilter template username domain).toList.filter isMeta =
      template.toList.filter isMeta := by
  have hupn : ∀ c ∈ "\x7bupn\x7d".toList, isMeta c = false := isMeta_of_any (by decide)
  have hraw : ∀ c ∈ "\x7braw_username\x7d".toList, isMeta c = false := isMeta_of_any (by decide)
  have huser : ∀ c ∈ "\x7busername\x7d".toList, isMeta c = false := isMeta_of_any (by decide)
  unfold buildSearchFilter
  dsimp only
  rw [filter_replace hupn (isMeta_escapeFilter _) (by decide),
    filter_replace hraw (isMeta_escapeFilter _) (by decide),
    filter_replace huser (isMeta_escapeFilter _) (by decide)]

/-- What is counted of a filled template, if it is of these characters. -/
theorem filter_of_isMeta {p : Char → Bool} (hp : ∀ c, p c = true → isMeta c = true)
    (template username domain : String) :
    (buildSearchFilter template username domain).toList.filter p = template.toList.filter p := by
  have hsub : ∀ l : List Char, l.filter p = (l.filter isMeta).filter p := by
    intro l
    rw [List.filter_filter]
    refine List.filter_congr fun c _ => ?_
    cases hc : p c with
    | false => rfl
    | true => rw [hp c hc, Bool.and_self]
  rw [hsub, filter_buildSearchFilter, ← hsub]

theorem count_of_isMeta {d : Char} (hd : isMeta d = true) (template username domain : String) :
    (buildSearchFilter template username domain).toList.count d = template.toList.count d := by
  have hsame := filter_of_isMeta (p := (· == d)) (fun c hc => by rwa [beq_iff_eq.1 hc])
    template username domain
  rw [List.count_eq_countP, List.count_eq_countP, List.countP_eq_length_filter, hsame,
    List.countP_eq_length_filter]

/-! ## Values -/

/-- An escaped character stands for itself. -/
theorem unescape_escapeChar (c : Char) (cs : List Char) :
    unescape (escapeChar c ++ cs) = (unescape cs).map (String.utf8EncodeChar c ++ ·) := by
  have hcode : ∀ x y n, hexValue x = some (n / 16) → hexValue y = some (n % 16) →
      unescape ('\\' :: x :: y :: cs) = (unescape cs).map ([UInt8.ofNat n] ++ ·) := by
    intro x y n hx hy
    have hsum : 16 * (n / 16) + n % 16 = n := Nat.div_add_mod n 16
    rw [unescape, hx, hy]
    simp only [Option.bind_eq_bind, Option.bind_some, hsum]
    cases unescape cs <;> rfl
  unfold escapeChar
  split_ifs with hback hstar hopen hclose hnul hslash
  · subst hback
    exact hcode '5' 'c' 0x5C rfl rfl
  · subst hstar
    exact hcode '2' 'a' 0x2A rfl rfl
  · subst hopen
    exact hcode '2' '8' 0x28 rfl rfl
  · subst hclose
    exact hcode '2' '9' 0x29 rfl rfl
  · subst hnul
    exact hcode '0' '0' 0x00 rfl rfl
  · subst hslash
    exact hcode '2' 'f' 0x2F rfl rfl
  · have hspecial : ¬Special c := by simp [Special, hback, hstar, hopen, hclose, hnul]
    rw [List.singleton_append, unescape, if_neg hspecial]
    · cases unescape cs <;> rfl
    · rintro h l cs' rfl
      exact absurd rfl hback

theorem unescape_flatMap (l : List Char) :
    unescape (l.flatMap escapeChar) = some (l.flatMap String.utf8EncodeChar) := by
  induction l with
  | nil => rfl
  | cons c l ih =>
    rw [List.flatMap_cons, unescape_escapeChar, ih, Option.map_some, List.flatMap_cons]

/-- What is escaped is read as it was. -/
theorem unescape_escapeFilter (s : String) :
    unescape (escapeFilter s).toList = some (toUtf8 s) := by
  rw [escapeFilter, String.toList_ofList, unescape_flatMap]
  rfl

/-! ## Words of a query -/

theorem escapeKeepChar_of_ne {c : Char} (h : c ≠ '*') : escapeKeepChar c = escapeChar c := by
  simp [escapeKeepChar, escapeChar, h]

theorem star_notMem_escapeChar (c : Char) : '*' ∉ escapeChar c := by
  intro hmem
  have hmeta := isMeta_escapeChar c '*' hmem
  exact absurd hmeta (by decide)

theorem splitOnP_append_of_notMem {a : List Char} (ha : '*' ∉ a) (l : List Char) :
    (a ++ l).splitOnP (· == '*') = (l.splitOnP (· == '*')).modifyHead (a ++ ·) := by
  induction a with
  | nil =>
    obtain ⟨first, rest, hsplit⟩ := List.exists_cons_of_ne_nil (List.splitOnP_ne_nil (· == '*') l)
    rw [List.nil_append, hsplit]
    rfl
  | cons c a ih =>
    rw [List.mem_cons, not_or] at ha
    have hc : ¬(c == '*') = true := by simpa using Ne.symm ha.1
    rw [List.cons_append, List.splitOnP_cons_eq_if_modifyHead, if_neg hc, ih ha.2,
      List.modifyHead_modifyHead]
    rfl

/-- Escaping keeps the wildcards, and what is between them is escaped by itself. -/
theorem splitOnP_escapeKeep (l : List Char) :
    (l.flatMap escapeKeepChar).splitOnP (· == '*') =
      (l.splitOnP (· == '*')).map (List.flatMap escapeChar) := by
  induction l with
  | nil => rfl
  | cons c l ih =>
    rw [List.flatMap_cons, List.splitOnP_cons_eq_if_modifyHead]
    by_cases hc : c = '*'
    · subst hc
      have hkeep : escapeKeepChar '*' = ['*'] := by decide
      rw [hkeep, List.singleton_append, List.splitOnP_cons_eq_if_modifyHead, if_pos (by rfl),
        if_pos (by rfl), ih]
      rfl
    · rw [escapeKeepChar_of_ne hc, splitOnP_append_of_notMem (star_notMem_escapeChar c), ih,
        if_neg (by simpa using hc)]
      obtain ⟨first, rest, hsplit⟩ :=
        List.exists_cons_of_ne_nil (List.splitOnP_ne_nil (· == '*') l)
      rw [hsplit]
      rfl

theorem mapM_map_some {α β γ : Type} {f : α → β} {g : β → Option γ} {r : α → γ} (l : List α)
    (h : ∀ a ∈ l, g (f a) = some (r a)) : (l.map f).mapM g = some (l.map r) := by
  induction l with
  | nil => rfl
  | cons a l ih =>
    rw [List.map_cons, List.mapM_cons, h a List.mem_cons_self,
      ih fun b hb => h b (List.mem_cons_of_mem a hb)]
    rfl

/-- What is looked for of a word: the texts between its wildcards, or the word anywhere. -/
def termPattern (term : List Char) : List (List UInt8) :=
  if '*' ∈ term then (term.splitOnP (· == '*')).map (List.flatMap String.utf8EncodeChar)
  else [[], term.flatMap String.utf8EncodeChar, []]

theorem readPattern_escapeKeep (l : List Char) : readPattern (l.flatMap escapeKeepChar) =
    some ((l.splitOnP (· == '*')).map (List.flatMap String.utf8EncodeChar)) := by
  rw [readPattern, splitOnP_escapeKeep]
  exact mapM_map_some _ fun part _ => unescape_flatMap part

/-- A word without a wildcard is looked for anywhere. -/
theorem readPattern_anywhere {l : List Char} (h : '*' ∉ l) :
    readPattern ('*' :: (l.flatMap escapeKeepChar ++ ['*'])) =
      some [[], l.flatMap String.utf8EncodeChar, []] := by
  have hsplit : ('*' :: (l.flatMap escapeKeepChar ++ ['*'])).splitOnP (· == '*') =
      [] :: ((l.flatMap escapeKeepChar).splitOnP (· == '*') ++ [[]]) := by
    rw [List.splitOnP_cons_eq_if_modifyHead, if_pos (by rfl),
      List.splitOnP_append_cons _ _ (by rfl)]
    rfl
  have hone : l.splitOnP (· == '*') = [l] :=
    List.splitOnP_eq_singleton fun c hc => by
      have hne : c ≠ '*' := fun heq => h (heq ▸ hc)
      simpa using hne
  rw [readPattern, hsplit, splitOnP_escapeKeep, hone]
  simp [unescape_flatMap, unescape]

/-! ## The filter of a query -/

/-- The assertion that the attribute has the word. -/
def termItem (term : List Char) (attr : String) : Filter := .item attr.toList (termPattern term)

/-- The group of a word: an assertion for each attribute. -/
def termGroup (term : List Char) : Filter := .or (directorySearchAttrs.map (termItem term))

/-- `DIRECTORY_BASELINE`, as the filters it is. -/
def baselineFilters : List Filter :=
  [.item "objectCategory".toList [toUtf8 "person"], .item "objectClass".toList [toUtf8 "user"],
    .not (.item "userAccountControl:1.2.840.113556.1.4.803:".toList [toUtf8 "2"]),
    .not (.item "isCriticalSystemObject".toList [toUtf8 "TRUE"]),
    .not (.item "sAMAccountName".toList [[], toUtf8 "$"])]

/-- A well-formed attribute. -/
abbrev IsAttr (attr : String) : Prop :=
  attr.toList ≠ [] ∧ attr.toList.all isAttrChar = true

theorem items_means {term value : List Char} (hvalue : readPattern value = some (termPattern term))
    {attrs : List String} (hattrs : ∀ attr ∈ attrs, IsAttr attr) :
    Means (attrs.flatMap fun attr => '(' :: (attr.toList ++ '=' :: (value ++ [')'])))
      (attrs.map (termItem term)) := by
  induction attrs with
  | nil => exact .nil
  | cons attr attrs ih =>
    obtain ⟨hne, hall⟩ := hattrs attr List.mem_cons_self
    have hrest := ih fun a ha => hattrs a (List.mem_cons_of_mem attr ha)
    rw [List.flatMap_cons, List.map_cons]
    simpa [termItem] using Means.item hne hall hvalue hrest

theorem directorySearchAttrs_isAttr : ∀ attr ∈ directorySearchAttrs, IsAttr attr := by decide

/-- What is appended for a word is its group. -/
theorem termFilter_means (term : List Char) :
    Means (termFilter (String.ofList term)).toList [termGroup term] := by
  obtain ⟨value, hvalue, htext⟩ : ∃ value, readPattern value = some (termPattern term) ∧
      (termFilter (String.ofList term)).toList = '(' :: '|' ::
        ((directorySearchAttrs.flatMap fun attr =>
          '(' :: (attr.toList ++ '=' :: (value ++ [')']))) ++ [')']) := by
    by_cases hstar : '*' ∈ term
    · refine ⟨term.flatMap escapeKeepChar, ?_, ?_⟩
      · rw [readPattern_escapeKeep, termPattern, if_pos hstar]
      · simp [termFilter, escapeFilterKeepWildcard, hstar, String.toList_join, List.flatMap_map]
    · refine ⟨'*' :: (term.flatMap escapeKeepChar ++ ['*']), ?_, ?_⟩
      · rw [readPattern_anywhere hstar, termPattern, if_neg hstar]
      · simp [termFilter, escapeFilterKeepWildcard, hstar, String.toList_join, List.flatMap_map]
  rw [htext]
  exact .or (items_means hvalue directorySearchAttrs_isAttr) .nil

theorem terms_means (terms : List (List Char)) :
    Means (terms.flatMap fun term => (termFilter (String.ofList term)).toList)
      (terms.map termGroup) := by
  induction terms with
  | nil => exact .nil
  | cons term terms ih => exact (termFilter_means term).append ih

theorem baseline_means : Means directoryBaseline.toList baselineFilters := by
  have htext : directoryBaseline.toList =
      '(' :: ("objectCategory".toList ++ '=' :: ("person".toList ++ ')' ::
      '(' :: ("objectClass".toList ++ '=' :: ("user".toList ++ ')' ::
      '(' :: '!' :: (('(' :: ("userAccountControl:1.2.840.113556.1.4.803:".toList ++ '=' ::
        ("2".toList ++ ')' :: []))) ++ ')' ::
      '(' :: '!' :: (('(' :: ("isCriticalSystemObject".toList ++ '=' ::
        ("TRUE".toList ++ ')' :: []))) ++ ')' ::
      '(' :: '!' :: (('(' :: ("sAMAccountName".toList ++ '=' :: ("*$".toList ++ ')' :: []))) ++
        ')' :: []))))))) := by
    decide +kernel
  rw [htext]
  refine .item (by decide) (by decide) (by decide) ?_
  refine .item (by decide) (by decide) (by decide) ?_
  refine .not (.item (by decide) (by decide) (by decide) .nil) ?_
  refine .not (.item (by decide) (by decide) (by decide) .nil) ?_
  exact .not (.item (by decide) (by decide) (by decide) .nil) .nil

/-- The words of a query, each in its group, behind the baseline. -/
theorem directorySearchFilter_means (query : String) :
    Means (directorySearchFilter query).toList
      [.and (baselineFilters ++ (splitWhitespace query.toList).map termGroup)] := by
  have hwords : splitWhitespace (trim query).toList = splitWhitespace query.toList := by
    rw [trim, String.toList_ofList, splitWhitespace_trimChars]
  have htext : (directorySearchFilter query).toList = '(' :: '&' :: ((directoryBaseline.toList ++
      (splitWhitespace query.toList).flatMap fun term =>
        (termFilter (String.ofList term)).toList) ++ ')' :: []) := by
    rw [← hwords, directorySearchFilter]
    dsimp only
    by_cases hempty : trim query = ""
    · have hnone : splitWhitespace "".toList = [] := rfl
      rw [if_pos hempty, hempty, hnone]
      simp
    · rw [if_neg hempty]
      simp [String.toList_join, List.flatMap_map]
  rw [htext]
  exact .and (baseline_means.append (terms_means _)) .nil

/-! ## The law -/

/-- A template that is filled in has the parentheses of the template, in their order, and no more
wildcards and NULs. The filter of a query is the baseline and a group for each of its words, which
has one assertion for each attribute. What is escaped is read as it was. -/
theorem filters_injection_free :
    (∀ template username domain,
      (buildSearchFilter template username domain).toList.filter (fun c => c == '(' || c == ')') =
          template.toList.filter (fun c => c == '(' || c == ')') ∧
        (buildSearchFilter template username domain).toList.count '*' ≤ template.toList.count '*' ∧
        (buildSearchFilter template username domain).toList.count (Char.ofNat 0) ≤
          template.toList.count (Char.ofNat 0)) ∧
    (∀ query, LdapFilter.read (directorySearchFilter query).toList =
      some (.and (baselineFilters ++ (splitWhitespace query.toList).map fun term =>
        .or (directorySearchAttrs.map fun attr => .item attr.toList (termPattern term))))) ∧
    ∀ s, (unescape (escapeFilter s).toList).bind fromUtf8 = some s := by
  refine ⟨fun template username domain => ⟨?_, ?_, ?_⟩, fun query => ?_, fun s => ?_⟩
  · refine filter_of_isMeta (fun c hc => ?_) template username domain
    obtain h | h := Bool.or_eq_true_iff.1 hc <;> simp [isMeta, h]
  · exact (count_of_isMeta (by decide) template username domain).le
  · exact (count_of_isMeta (by decide) template username domain).le
  · exact (directorySearchFilter_means query).read
  · rw [unescape_escapeFilter, Option.bind_some, fromUtf8_toUtf8]

end Integration

end NemoServer
