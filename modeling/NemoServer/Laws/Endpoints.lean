import NemoServer.Management.Endpoints

/-!
# The grammar of direct endpoints

What `normalize_direct_endpoint` accepts is `host:port` or `host:port,knockport`, and what it makes
of it is one canonical text for each endpoint, without the characters that separate the entries of
the list that clients are sent.
-/

set_option autoImplicit false

namespace NemoServer

namespace Management

open Str

/-- The text is short, has no separators of the list, and reads as the endpoint. -/
structure Denotes (raw : String) (e : Endpoint) : Prop where
  ne : trim raw ≠ ""
  size : (trim raw).utf8ByteSize ≤ maxEndpointLen
  semicolon : ';' ∉ (trim raw).toList
  whitespace : ∀ c ∈ (trim raw).toList, isWhitespace c = false
  reads : Reads (trim raw).toList e

theorem normalizeDirectEndpoint_eq_some {raw text : String} :
    normalizeDirectEndpoint raw = some text ↔ ∃ e, Denotes raw e ∧ text = e.toText := by
  unfold normalizeDirectEndpoint
  simp only [Option.ite_none_left_eq_some, Option.map_eq_some_iff, parseEndpoint_eq_some,
    not_or, Nat.not_lt, Bool.not_eq_true, List.any_eq_false]
  constructor
  · rintro ⟨⟨hne, hsize⟩, ⟨hsemi, hws⟩, e, hreads, rfl⟩
    exact ⟨e, ⟨hne, hsize, hsemi, hws, hreads⟩, rfl⟩
  · rintro ⟨e, h, rfl⟩
    exact ⟨⟨h.ne, h.size⟩, ⟨h.semicolon, h.whitespace⟩, e, h.reads, rfl⟩

/-- The canonical text has the characters of the text, and digits. -/
theorem Denotes.mem_toText {raw : String} {e : Endpoint} (h : Denotes raw e) {c : Char}
    (hc : c ∈ e.toText.toList) : c ∈ (trim raw).toList ∨ c.isDigit = true := by
  rw [Endpoint.toText, String.toList_ofList] at hc
  exact h.reads.mem_chars hc

theorem Denotes.semicolon_toText {raw : String} {e : Endpoint} (h : Denotes raw e) :
    ';' ∉ e.toText.toList := by
  intro hc
  obtain hraw | hdigit := h.mem_toText hc
  · exact h.semicolon hraw
  · exact absurd hdigit (by decide)

theorem Denotes.whitespace_toText {raw : String} {e : Endpoint} (h : Denotes raw e) :
    ∀ c ∈ e.toText.toList, isWhitespace c = false := by
  intro c hc
  obtain hraw | hdigit := h.mem_toText hc
  · exact h.whitespace c hraw
  · exact isWhitespace_of_isDigit hdigit

theorem chars_ne_nil (e : Endpoint) : e.chars ≠ [] := by
  simp [Endpoint.chars]

/-- The canonical text denotes the same endpoint. -/
theorem Denotes.toText {raw : String} {e : Endpoint} (h : Denotes raw e) :
    Denotes e.toText e := by
  have htrim : trim e.toText = e.toText := trim_eq_self h.whitespace_toText
  have hchars : e.toText.toList = e.chars := String.toList_ofList
  have hsize : e.toText.utf8ByteSize ≤ maxEndpointLen := by
    have hle := h.reads.utf8Len_le
    rw [← hchars, String.utf8Len_toList, String.utf8Len_toList] at hle
    exact hle.trans h.size
  refine ⟨?_, ?_, ?_, ?_, ?_⟩
  · rw [htrim, ← String.toList_inj.ne, hchars]
    exact chars_ne_nil e
  · rw [htrim]
    exact hsize
  · rw [htrim]
    exact h.semicolon_toText
  · rw [htrim]
    exact h.whitespace_toText
  · rw [htrim, hchars]
    exact h.reads.canonical

/-- A text denotes one endpoint at most. -/
theorem Denotes.unique {raw : String} {e e' : Endpoint} (h : Denotes raw e) (h' : Denotes raw e') :
    e = e' :=
  Option.some.inj ((parseEndpoint_eq_some.2 h.reads).symm.trans (parseEndpoint_eq_some.2 h'.reads))

/-- **The accepted texts are those of the grammar, and each endpoint has one normal text.** -/
theorem normalizeDirectEndpoint_grammar :
    (∀ raw text, normalizeDirectEndpoint raw = some text ↔
      ∃ e, Denotes raw e ∧ text = e.toText) ∧
    (∀ raw text, normalizeDirectEndpoint raw = some text →
      ';' ∉ text.toList ∧ (∀ c ∈ text.toList, isWhitespace c = false) ∧
      text.toList.count ',' ≤ 1 ∧ normalizeDirectEndpoint text = some text) ∧
    ∀ raw raw' e e', Denotes raw e → Denotes raw' e' →
      normalizeDirectEndpoint raw = normalizeDirectEndpoint raw' → e = e' := by
  refine ⟨fun _ _ => normalizeDirectEndpoint_eq_some, ?_, ?_⟩
  · intro raw text h
    obtain ⟨e, hraw, rfl⟩ := normalizeDirectEndpoint_eq_some.1 h
    refine ⟨hraw.semicolon_toText, hraw.whitespace_toText, ?_, ?_⟩
    · rw [Endpoint.toText, String.toList_ofList]
      exact hraw.reads.canonical.count_comma_le
    · exact normalizeDirectEndpoint_eq_some.2 ⟨e, hraw.toText, rfl⟩
  · intro raw raw' e e' hraw hraw' heq
    have hsome := normalizeDirectEndpoint_eq_some.2 ⟨e, hraw, rfl⟩
    have hsome' := normalizeDirectEndpoint_eq_some.2 ⟨e', hraw', rfl⟩
    have htext : e.toText = e'.toText := Option.some.inj (hsome.symm.trans (heq.trans hsome'))
    exact (htext ▸ hraw.toText).unique hraw'.toText

example : normalizeDirectEndpoint " [2001:db8::1]:+021118,62201 " =
    some "[2001:db8::1]:21118,62201" := by decide

/-- The entries that were loaded are loaded again as they are. -/
theorem loadPeerEndpoints_idem (stored : List (String × String)) :
    loadPeerEndpoints (loadPeerEndpoints stored) = loadPeerEndpoints stored := by
  unfold loadPeerEndpoints
  rw [List.filterMap_filterMap]
  refine List.filterMap_congr ?_
  rintro ⟨id, raw⟩ -
  cases h : normalizeDirectEndpoint raw with
  | none => simp [h]
  | some text =>
    obtain ⟨e, hdenotes, rfl⟩ := normalizeDirectEndpoint_eq_some.1 h
    have hagain := normalizeDirectEndpoint_eq_some.2 ⟨e, hdenotes.toText, rfl⟩
    simp [h, hagain]

end Management

end NemoServer
