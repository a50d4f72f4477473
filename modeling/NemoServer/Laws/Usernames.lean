import NemoServer.Integration.Users
import NemoServer.Server.Sample
import NemoServer.Std.Utf8

/-!
# The name a user is known by

The permissions, the sessions and the limits of failed logins are kept under
`normalize_lookup_username` of a name, which each place applies anew, also to names that were
normalised before. What it strips may leave another name to strip: `corp\alice@corp.local` is known
as `alice@corp.local`, and that as `alice`.

* `normalize_idempotent_iff`: a second normalisation changes nothing exactly if what is left of the
  name has no blank at its ends and no sign to strip at.
-/

set_option autoImplicit false

namespace NemoServer

namespace Integration

open Str

/-- What the text has at its ends and between its parts: blanks, and the signs that are split at. -/
def Separates (c : Char) : Prop := isWhitespace c = true ∨ c = '\\' ∨ c = '@'

/-- Folding the case of letters: what is folded stays, and no other sign comes or goes. -/
structure FoldsCase (lower : String → String) : Prop where
  fold : ∀ s, lower (lower s) = lower s
  count : ∀ s c, Separates c → (lower s).toList.count c = s.toList.count c
  trimmed : ∀ s, trim (lower s) = lower s ↔ trim s = s

/-- What is left of the name, by where it is split, is no name to strip again. -/
def Settled (input : String) : Prop :=
  match splitOnce '\\' (trim input).toList with
  | some (_, rest) => '\\' ∉ rest ∧ '@' ∉ rest ∧ trimChars isWhitespace rest = rest
  | none =>
    match splitOnce '@' (trim input).toList with
    | some (head, _) => trimChars isWhitespace head = head
    | none => True

instance (input : String) : Decidable (Settled input) :=
  match h : splitOnce '\\' (trim input).toList with
  | some (_, rest) =>
    decidable_of_iff ('\\' ∉ rest ∧ '@' ∉ rest ∧ trimChars isWhitespace rest = rest)
      (by rw [Settled, h])
  | none =>
    match h' : splitOnce '@' (trim input).toList with
    | some (head, _) =>
      decidable_of_iff (trimChars isWhitespace head = head) (by rw [Settled, h, h'])
    | none => .isTrue (by rw [Settled, h, h']; trivial)

/-! ## Stripping -/

theorem trimChars_sublist (l : List Char) : (trimChars isWhitespace l).Sublist l :=
  ((List.rdropWhile_prefix _ _).sublist).trans (List.dropWhile_sublist _)

theorem toList_trim (s : String) : (trim s).toList = trimChars isWhitespace s.toList := by
  unfold trim
  exact String.toList_ofList

theorem trim_eq_self_iff {s : String} :
    trim s = s ↔ trimChars isWhitespace s.toList = s.toList := by
  rw [← toList_trim]
  exact String.toList_inj.symm

/-- A text that is no shorter after its blanks are trimmed has none at its ends. -/
theorem trimChars_eq_self_of_count {l : List Char}
    (h : ∀ c, isWhitespace c = true → (trimChars isWhitespace l).count c = l.count c) :
    trimChars isWhitespace l = l := by
  -- what is trimmed are blanks, and the count of each blank is the same without them
  have hstart : l.dropWhile isWhitespace = l := by
    cases l with
    | nil => rfl
    | cons a l =>
      refine List.dropWhile_cons_of_neg fun ha => ?_
      have hcount := h a ha
      have hsub : (trimChars isWhitespace (a :: l)).Sublist l := by
        unfold trimChars
        rw [List.dropWhile_cons_of_pos ha]
        exact trimChars_sublist l
      have := hsub.count_le a
      rw [hcount, List.count_cons_self] at this
      omega
  have htrim : trimChars isWhitespace l = l.rdropWhile isWhitespace := by
    rw [trimChars, hstart]
  rw [htrim, List.rdropWhile_eq_self_iff]
  intro hne hlast
  have hcount := h (l.getLast hne) hlast
  rw [htrim] at hcount
  have hsplit := List.dropLast_append_getLast hne
  have hsub : (l.rdropWhile isWhitespace).Sublist l.dropLast := by
    have hdrop := List.rdropWhile_concat_pos isWhitespace l.dropLast _ hlast
    rw [hsplit] at hdrop
    rw [hdrop]
    exact (List.rdropWhile_prefix _ _).sublist
  have hle := hsub.count_le (l.getLast hne)
  have hmore : l.count (l.getLast hne) = l.dropLast.count (l.getLast hne) + 1 := by
    have happ := congrArg (List.count (l.getLast hne)) hsplit
    rw [List.count_append, List.count_singleton_self] at happ
    exact happ.symm
  omega

/-- What stripping makes of a name, by where it is split. -/
theorem rawUsername_cases (input : String) :
    (∃ before rest, (trim input).toList = before ++ '\\' :: rest ∧
      splitOnce '\\' (trim input).toList = some (before, rest) ∧
      (rawUsername input).toList = rest) ∨
    ('\\' ∉ (trim input).toList ∧ ∃ head after, (trim input).toList = head ++ '@' :: after ∧
      '@' ∉ head ∧ splitOnce '@' (trim input).toList = some (head, after) ∧
      (rawUsername input).toList = head) ∨
    ('\\' ∉ (trim input).toList ∧ '@' ∉ (trim input).toList ∧ rawUsername input = trim input) := by
  unfold rawUsername
  dsimp only
  cases hback : splitOnce '\\' (trim input).toList with
  | some parts =>
    obtain ⟨before, rest⟩ := parts
    exact .inl ⟨before, rest, splitOnce_some hback, rfl, String.toList_ofList⟩
  | none =>
    have hnoback := splitOnce_eq_none.1 hback
    cases hat : splitOnce '@' (trim input).toList with
    | some parts =>
      obtain ⟨head, after⟩ := parts
      exact .inr (.inl ⟨hnoback, head, after, splitOnce_some hat, splitOnce_some_notMem hat, rfl,
        String.toList_ofList⟩)
    | none => exact .inr (.inr ⟨hnoback, splitOnce_eq_none.1 hat, String.ofList_toList⟩)

/-! ## Names with nothing left to strip -/

/-- A name that stripping leaves as it is. -/
def Bare (l : List Char) : Prop := '\\' ∉ l ∧ '@' ∉ l ∧ trimChars isWhitespace l = l

theorem rawUsername_of_bare {s : String} (h : Bare s.toList) : rawUsername s = s := by
  obtain ⟨hback, hat, htrim⟩ := h
  have hnoback := splitOnce_eq_none.2 hback
  have hnoat := splitOnce_eq_none.2 hat
  unfold rawUsername
  simp only [toList_trim, htrim, hnoback, hnoat]
  exact String.ofList_toList

/-- What is stripped changes how often a separator occurs. -/
theorem bare_of_count {s : String}
    (h : ∀ c, Separates c → (rawUsername s).toList.count c = s.toList.count c) :
    Bare s.toList := by
  have hsub : (trim s).toList.Sublist s.toList := by
    rw [toList_trim]
    exact trimChars_sublist _
  obtain ⟨before, rest, htrim, -, hraw⟩ | ⟨-, head, after, htrim, -, -, hraw⟩ |
    ⟨hback, hat, hraw⟩ := rawUsername_cases s
  · -- one backslash is gone
    have hcount := h '\\' (.inr (.inl rfl))
    have hle := hsub.count_le '\\'
    rw [hraw] at hcount
    rw [htrim, List.count_append, List.count_cons_self] at hle
    omega
  · -- one at-sign is gone
    have hcount := h '@' (.inr (.inr rfl))
    have hle := hsub.count_le '@'
    rw [hraw] at hcount
    rw [htrim, List.count_append, List.count_cons_self] at hle
    omega
  · have htrimmed : trimChars isWhitespace s.toList = s.toList := by
      refine trimChars_eq_self_of_count fun c hc => ?_
      rw [← toList_trim, ← hraw]
      exact h c (.inl hc)
    rw [toList_trim, htrimmed] at hback hat
    exact ⟨hback, hat, htrimmed⟩

theorem settled_iff (input : String) : Settled input ↔ Bare (rawUsername input).toList := by
  unfold Settled Bare
  obtain ⟨before, rest, -, hsplit, hraw⟩ | ⟨hback, head, after, htrim, hhead, hsplit, hraw⟩ |
    ⟨hback, hat, hraw⟩ := rawUsername_cases input
  · rw [hsplit, hraw]
  · have hnone : '\\' ∉ head := by
      intro h
      rw [htrim] at hback
      exact hback (List.mem_append_left _ h)
    rw [splitOnce_eq_none.2 hback, hsplit, hraw]
    exact ⟨fun h => ⟨hnone, hhead, h⟩, fun h => h.2.2⟩
  · rw [splitOnce_eq_none.2 hback, splitOnce_eq_none.2 hat, hraw]
    refine iff_of_true trivial ⟨hback, hat, ?_⟩
    rw [toList_trim, trimChars_idem]

section Folding

variable {lower : String → String} (hlower : FoldsCase lower)

include hlower

theorem FoldsCase.mem_iff {c : Char} (hc : Separates c) (s : String) :
    c ∈ (lower s).toList ↔ c ∈ s.toList := by
  rw [← List.count_pos_iff, ← List.count_pos_iff, hlower.count s c hc]

theorem FoldsCase.bare_iff (s : String) : Bare (lower s).toList ↔ Bare s.toList := by
  have htrim := hlower.trimmed s
  rw [trim_eq_self_iff, trim_eq_self_iff] at htrim
  unfold Bare
  rw [hlower.mem_iff (.inr (.inl rfl)), hlower.mem_iff (.inr (.inr rfl)), htrim]

/-- A folded name is normal exactly if there is nothing to strip from it. -/
theorem FoldsCase.fixed_iff (s : String) :
    lower (rawUsername (lower s)) = lower s ↔ Bare s.toList := by
  rw [← hlower.bare_iff]
  constructor
  · intro h
    refine bare_of_count fun c hc => ?_
    have hcount := hlower.count (rawUsername (lower s)) c hc
    rw [h] at hcount
    exact hcount.symm
  · intro h
    rw [rawUsername_of_bare h, hlower.fold]

end Folding

/-- Normalising a name a second time changes nothing exactly if what the first time left of it, the
part behind its first backslash or else before its first at-sign, is no name to strip again. -/
theorem normalize_idempotent_iff (X : Setup) (input : String) (hlower : FoldsCase X.toLowercase) :
    normalizeLookupUsername X (normalizeLookupUsername X input) =
      normalizeLookupUsername X input ↔ Settled input := by
  rw [settled_iff]
  exact hlower.fixed_iff (rawUsername input)

theorem foldsCase_id : FoldsCase id where
  fold _ := rfl
  count _ _ _ := rfl
  trimmed _ := Iff.rfl

theorem normalize_idempotent_domain :
    normalizeLookupUsername (Sample.setup .off false)
        (normalizeLookupUsername (Sample.setup .off false) "corp\\alice") =
      normalizeLookupUsername (Sample.setup .off false) "corp\\alice" :=
  (normalize_idempotent_iff (Sample.setup .off false) "corp\\alice" foldsCase_id).2 (by decide)

theorem not_normalize_idempotent :
    ∃ (X : Setup) (input : String), FoldsCase X.toLowercase ∧
      normalizeLookupUsername X (normalizeLookupUsername X input) ≠
        normalizeLookupUsername X input :=
  ⟨Sample.setup .off false, "corp\\alice@corp.local", foldsCase_id, by decide⟩

end Integration

end NemoServer
