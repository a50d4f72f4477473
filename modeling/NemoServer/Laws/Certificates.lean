import Mathlib.Tactic.Tauto
import NemoServer.Integration.Certificates
import NemoServer.Server.Sample
import NemoServer.Std.Base64

/-!
# The text of a pinned certificate

A certificate is read from its text as it was, whatever its length, and whatever stands around it:
a line of the text has no dash, so that the marker of the end is found behind the last of them, and
the breaks between them are dropped.

* `pem_round_trip`: a certificate that was written is read again, behind any whole lines without a
  marker and before any text; a text without the two markers has none.
-/

set_option autoImplicit false

namespace NemoServer

namespace Integration

open Str

variable {X : Deps}

/-- What the law needs to know of base64: what is encoded is decoded, and the encoding uses the
letters, the digits, `+`, `/` and `=`. -/
structure Base64Codec (X : Deps) : Prop where
  decode : ∀ b, X.base64Decode (X.base64Encode b) = some b
  alphabet : ∀ b, ∀ c ∈ (X.base64Encode b).toList, c.isAlphanum ∨ c = '+' ∨ c = '/' ∨ c = '='

/-- The text ends where a line ends. -/
def WholeLines (text : String) : Prop := text = "" ∨ ∃ front, text = front ++ "\n"

/-- The text has the one marker, and behind it the other. -/
def Marked (text : String) : Prop :=
  ∃ before body after, text = before ++ pemBegin ++ body ++ pemEnd ++ after

/-! ## The lines -/

namespace Base64Codec

variable (h : Base64Codec X) (b : Bytes)

include h

/-- What the encoding uses is printed. -/
theorem printed : ∀ c ∈ (X.base64Encode b).toList, 0x20 < c.toNat ∧ c.toNat < 0x7F := by
  intro c hc
  obtain halpha | rfl | rfl | rfl := h.alphabet b c hc
  · exact printed_of_isAlphanum halpha
  all_goals decide

theorem isWhitespace : ∀ c ∈ (X.base64Encode b).toList, isWhitespace c = false :=
  fun c hc => isWhitespace_of_printed (h.printed b c hc).1 (h.printed b c hc).2

theorem dash_notMem : '-' ∉ (X.base64Encode b).toList := by
  intro hc
  obtain halpha | heq | heq | heq := h.alphabet b _ hc
  · exact absurd halpha (by decide)
  all_goals exact absurd heq (by decide)

end Base64Codec

/-- The lines of a text, each with its end. -/
def wrapped (text : List Char) : List Char := (chunks 64 text).flatMap (· ++ ['\n'])

/-- Of the lines nothing but the text is left without the blanks. -/
theorem filter_wrapped {text : List Char} (h : ∀ c ∈ text, isWhitespace c = false) :
    (wrapped text).filter (fun c => !isWhitespace c) = text := by
  have hlines : ∀ ls : List (List Char), (∀ c ∈ ls.flatten, isWhitespace c = false) →
      (ls.flatMap (· ++ ['\n'])).filter (fun c => !isWhitespace c) = ls.flatten := by
    intro ls
    induction ls with
    | nil => exact fun _ => rfl
    | cons l ls ih =>
      intro hl
      have hline : l.filter (fun c => !isWhitespace c) = l :=
        List.filter_eq_self.2 fun c hc => by simp [hl c (by simp [hc])]
      have hbreak : isWhitespace '\n' = true := by decide
      rw [List.flatMap_cons, List.filter_append, List.filter_append, hline, ih fun c hc =>
        hl c (by simp only [List.flatten_cons, List.mem_append, hc, or_true])]
      simp [hbreak]
  have hflat := flatten_chunks (n := 64) (by omega) text
  rw [wrapped, hlines _ (by rwa [hflat]), hflat]

theorem mem_wrapped {text : List Char} {c : Char} (hc : c ∈ wrapped text) :
    c ∈ text ∨ c = '\n' := by
  obtain ⟨line, hline, hmem⟩ := List.mem_flatMap.1 hc
  obtain hmem | hmem := List.mem_append.1 hmem
  · refine .inl ?_
    rw [← flatten_chunks (n := 64) (by omega) text]
    exact List.mem_flatten.2 ⟨line, hline, hmem⟩
  · exact .inr (List.mem_singleton.1 hmem)

/-- The text of a certificate: a line for each marker, and those of its encoding between them. -/
theorem toList_derToPem (h : Base64Codec X) (der : Bytes) :
    (derToPem X der).toList = pemBegin.toList ++
      ('\n' :: wrapped (X.base64Encode der).toList ++ (pemEnd.toList ++ ['\n'])) := by
  have hascii : ∀ c ∈ (X.base64Encode der).toList, c.toNat < 0x80 := fun c hc => by
    have := (h.printed der c hc).2
    omega
  have hfold : ∀ (ls : List (List Char)) (out : String), (∀ c ∈ ls.flatten, c.toNat < 0x80) →
      ((ls.map (List.map Char.toUInt8)).foldl
        (fun out chunk => out ++ (fromUtf8 chunk).getD "" ++ "\n") out).toList =
        out.toList ++ ls.flatMap (· ++ ['\n']) := by
    intro ls
    induction ls with
    | nil => simp
    | cons l ls ih =>
      intro out hl
      have hline : fromUtf8 (l.map Char.toUInt8) = some (String.ofList l) := by
        have hbytes : toUtf8 (String.ofList l) = l.map Char.toUInt8 := by
          rw [toUtf8_of_ascii, String.toList_ofList]
          rw [String.toList_ofList]
          exact fun c hc => hl c (by simp [hc])
        rw [← hbytes, fromUtf8_toUtf8]
      rw [List.map_cons, List.foldl_cons, ih _ fun c hc => hl c (by
        simp only [List.flatten_cons, List.mem_append, hc, or_true]), hline]
      simp
  have hflat := flatten_chunks (n := 64) (by omega) (X.base64Encode der).toList
  rw [derToPem, toUtf8_of_ascii hascii, chunks_map, String.toList_append, String.toList_append,
    hfold _ _ (by rwa [hflat]), wrapped]
  simp

/-! ## The law -/

/-- What is read between the first marker and a body without dashes. -/
theorem pemToDer_of_find {pem : String} {before body after : List Char}
    (hpem : pem.toList = before ++ (pemBegin.toList ++ (body ++ (pemEnd.toList ++ after))))
    (hstart : find pemBegin.toList pem.toList = some before.length) (hdash : '-' ∉ body) :
    pemToDer X pem = X.base64Decode (String.ofList (body.filter fun c => !isWhitespace c)) := by
  have hrest : pem.toList.drop (before.length + pemBegin.length) =
      body ++ (pemEnd.toList ++ after) := by
    rw [hpem, ← List.append_assoc, ← String.length_toList, ← List.length_append, List.drop_left]
  have hstop : find pemEnd.toList (body ++ (pemEnd.toList ++ after)) = some body.length := by
    have hend : pemEnd.toList = '-' :: "----END CERTIFICATE-----".toList := rfl
    rw [hend, find_append_of_head hdash, find_of_prefix (List.cons_ne_nil _ _), Option.map_some,
      Nat.zero_add]
  rw [pemToDer, hstart]
  simp only [Option.bind_eq_bind, Option.bind_some, hrest, hstop, List.take_left,
    flatten_splitWhitespace]

/-- No marker begins in whole lines that have none. -/
theorem find_pemBegin {before : String} (hlines : WholeLines before)
    (hnone : ¬pemBegin.toList <:+: before.toList) (rest : List Char) :
    find pemBegin.toList (before.toList ++ (pemBegin.toList ++ rest)) =
      some before.toList.length := by
  have hbegin : find pemBegin.toList (pemBegin.toList ++ rest) = some 0 :=
    find_of_prefix (by decide)
  obtain rfl | ⟨front, rfl⟩ := hlines
  · exact hbegin
  · have hbreak : '\n' ∉ pemBegin.toList := by decide
    rw [String.toList_append] at hnone ⊢
    have hbreaks : "\n".toList = ['\n'] := rfl
    rw [hbreaks] at hnone ⊢
    rw [find_append_of_last hbreak hnone, hbegin, Option.map_some, Nat.zero_add]

theorem pemToDer_of_not_marked {text : String} (h : ¬Marked text) : pemToDer X text = none := by
  by_contra hne
  obtain ⟨der, hder⟩ := Option.ne_none_iff_exists'.1 hne
  rw [pemToDer] at hder
  obtain ⟨start, hstart, hder⟩ := Option.bind_eq_some_iff.1 hder
  obtain ⟨stop, hstop, -⟩ := Option.bind_eq_some_iff.1 hder
  obtain ⟨before, rest, hbefore, rfl⟩ := find_some hstart
  have hrest : text.toList.drop (before.length + pemBegin.length) = rest := by
    rw [hbefore, ← List.append_assoc, ← String.length_toList, ← List.length_append,
      List.drop_left]
  rw [hrest] at hstop
  obtain ⟨body, after, rfl, -⟩ := find_some hstop
  refine h ⟨String.ofList before, String.ofList body, String.ofList after, ?_⟩
  rw [← String.toList_inj, hbefore]
  simp

/-- A certificate stands in whole lines without a marker, with any text behind it. -/
theorem pemToDer_surrounded (hX : Base64Codec X) (der : Bytes) {before : String}
    (hlines : WholeLines before) (hnone : ¬pemBegin.toList <:+: before.toList) (after : String) :
    pemToDer X (before ++ derToPem X der ++ after) = some der := by
  have hpem : (before ++ derToPem X der ++ after).toList = before.toList ++ (pemBegin.toList ++
      (('\n' :: wrapped (X.base64Encode der).toList) ++
        (pemEnd.toList ++ ('\n' :: after.toList)))) := by
    rw [String.toList_append, String.toList_append, toList_derToPem hX]
    simp
  have hdash : '-' ∉ '\n' :: wrapped (X.base64Encode der).toList := by
    intro hmem
    obtain heq | hmem := List.mem_cons.1 hmem
    · exact absurd heq (by decide)
    · obtain hmem | heq := mem_wrapped hmem
      · exact hX.dash_notMem der hmem
      · exact absurd heq (by decide)
  have hstart : find pemBegin.toList (before ++ derToPem X der ++ after).toList =
      some before.toList.length := by
    rw [hpem]
    exact find_pemBegin hlines hnone _
  have hbreak : isWhitespace '\n' = true := by decide
  rw [pemToDer_of_find hpem hstart hdash, List.filter_cons_of_neg (by simp [hbreak]),
    filter_wrapped (hX.isWhitespace der), String.ofList_toList, hX.decode]

theorem pemToDer_derToPem (hX : Base64Codec X) (der : Bytes) :
    pemToDer X (derToPem X der) = some der := by
  have hlines : WholeLines "" := .inl rfl
  have hwhole := pemToDer_surrounded hX der hlines (by decide) ""
  simpa using hwhole

/-- The fingerprint shown with a certificate is that of the text that is kept. -/
theorem pemFingerprint_derToPem (hX : Base64Codec X) (der : Bytes) :
    pemFingerprint X (derToPem X der) = certFingerprint X der := by
  rw [pemFingerprint, pemToDer_derToPem hX]

/-- A certificate that was written is read again, also behind whole lines without a marker and
before any text; a text without the two markers has none. -/
theorem pem_round_trip (hX : Base64Codec X) :
    (∀ der, pemToDer X (derToPem X der) = some der) ∧
      (∀ der before after, WholeLines before → ¬pemBegin.toList <:+: before.toList →
        pemToDer X (before ++ derToPem X der ++ after) = some der) ∧
      ∀ text, ¬Marked text → pemToDer X text = none :=
  ⟨pemToDer_derToPem hX,
    fun der _ after hlines hnone => pemToDer_surrounded hX der hlines hnone after,
    fun _ => pemToDer_of_not_marked⟩

end Integration

namespace Sample

open Str

/-- Dependencies with the base64 of the standard. -/
def base64Deps : Deps :=
  { (setup .offer false).toDeps with
    base64Encode := fun b => String.ofList (base64Chars b)
    base64Decode := fun s => base64Bytes s.toList }

theorem base64Deps_codec : Integration.Base64Codec base64Deps where
  decode b := by
    change base64Bytes (String.ofList (base64Chars b)).toList = some b
    rw [String.toList_ofList, base64Bytes_base64Chars]
  alphabet b c hc := by
    change c ∈ (String.ofList (base64Chars b)).toList at hc
    rw [String.toList_ofList] at hc
    have htest : (base64Alphabet.all fun d => d.isAlphanum || d == '+' || d == '/') = true := by
      decide +kernel
    by_cases hmem : c ∈ base64Alphabet
    · have hone := List.all_eq_true.1 htest c hmem
      simp only [Bool.or_eq_true, beq_iff_eq] at hone
      tauto
    · by_contra hnot
      exact not_mem_base64Chars hmem (fun heq => hnot (.inr (.inr (.inr heq)))) b hc

end Sample

namespace Integration

open NemoServer.Sample

/-- A certificate behind a line that tells whose it is. -/
theorem pem_round_trip_named :
    pemToDer base64Deps ("subject=dc1\n" ++ derToPem base64Deps [48, 130, 1] ++ "more") =
      some [48, 130, 1] :=
  (pem_round_trip base64Deps_codec).2.1 [48, 130, 1] "subject=dc1\n" "more"
    (.inr ⟨"subject=dc1", rfl⟩) (by decide)

end Integration

end NemoServer
