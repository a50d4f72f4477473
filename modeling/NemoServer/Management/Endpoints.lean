import Mathlib.Data.String.Basic
import NemoServer.Std.Parts

/-!
# Direct endpoints

The addresses at which peers can be reached without the relay, as an operator types them
(`nemo_management.rs`): `host:port` or `host:port,knockport`. A text is normalised before it is
stored, and again when the stored ones are loaded; the entries are later joined to one option with
`;` between them.
-/

set_option autoImplicit false

namespace NemoServer

/-- What an endpoint says: where to connect, and the port to knock on first. -/
structure Endpoint where
  host : List Char
  port : ℕ
  knockPort : Option ℕ
  deriving DecidableEq

namespace Endpoint

/-- The canonical text, by characters. -/
def chars (e : Endpoint) : List Char :=
  e.host ++ ':' :: (toString e.port).toList ++
    e.knockPort.elim [] fun kp => ',' :: (toString kp).toList

def toText (e : Endpoint) : String := String.ofList e.chars

end Endpoint

namespace Management

open Str

/-- `MAX_ENDPOINT_LEN`, in bytes. -/
def maxEndpointLen : ℕ := 128

/-- `parse::<u16>().ok().filter(|p| *p > 0)`. -/
def portOf (text : List Char) : Option ℕ := (parseU16 (String.ofList text)).filter (0 < ·)

/-- The fields between commas: the address, and the port to knock on if there is one. -/
def endpointFields (raw : List Char) : Option (List Char × Option ℕ) :=
  match splitOnce ',' raw with
  | none => some (raw, none)
  | some (addr, rest) =>
    match splitOnce ',' rest with
    | none => (portOf rest).map fun kp => (addr, some kp)
    -- more than `host:port,knockport`
    | some _ => none

def parseEndpoint (raw : List Char) : Option Endpoint := do
  let (addr, knockPort) ← endpointFields raw
  let (host, port) ← rsplitOnce ':' addr
  let port ← portOf port
  if host = [] then none else some ⟨host, port, knockPort⟩

def normalizeDirectEndpoint (raw : String) : Option String :=
  let raw := trim raw
  if raw = "" ∨ maxEndpointLen < raw.utf8ByteSize then none
  else if ';' ∈ raw.toList ∨ raw.toList.any isWhitespace then none
  else (parseEndpoint raw.toList).map Endpoint.toText

/-- The entries of the file, each normalised again. -/
def loadPeerEndpoints (stored : List (String × String)) : List (String × String) :=
  stored.filterMap fun (id, ep) => (normalizeDirectEndpoint ep).map fun ep => (id, ep)

/-! ## What the texts look like -/

theorem portOf_eq_some {text : List Char} {n : ℕ} :
    portOf text = some n ↔ parseU64 (String.ofList text) = some n ∧ 0 < n ∧ n < 2 ^ 16 := by
  unfold portOf parseU16
  rw [Option.filter_eq_some_iff, Option.filter_eq_some_iff, and_assoc]
  simp [and_comm]

/-- The text of a port has no separators. -/
theorem notMem_of_portOf {text : List Char} {n : ℕ} (h : portOf text = some n) {c : Char}
    (hc : c.isDigit = false) (hplus : c ≠ '+') : c ∉ text := by
  intro hmem
  have htext : c ∈ (String.ofList text).toList := by rwa [String.toList_ofList]
  obtain heq | hdigit := mem_of_parseU64 (portOf_eq_some.1 h).1 htext
  · exact hplus heq
  · rw [hc] at hdigit
    cases hdigit

theorem portOf_toString {n : ℕ} (hpos : 0 < n) (hlt : n < 2 ^ 16) :
    portOf (toString n).toList = some n := by
  rw [portOf_eq_some, String.ofList_toList]
  exact ⟨parseU64_toString (by omega), hpos, hlt⟩

/-- A port that was read has a canonical text that is read alike. -/
theorem portOf_canonical {text : List Char} {n : ℕ} (h : portOf text = some n) :
    portOf (toString n).toList = some n := by
  obtain ⟨-, hpos, hlt⟩ := portOf_eq_some.1 h
  exact portOf_toString hpos hlt

theorem utf8Len_port_le {text : List Char} {n : ℕ} (h : portOf text = some n) :
    String.utf8Len (toString n).toList ≤ String.utf8Len text := by
  have hle := utf8Len_toString_le (portOf_eq_some.1 h).1
  rwa [String.toList_ofList] at hle

/-- A text reads as an endpoint: the host ends at the last `:`, and both ports can be told. -/
inductive Reads : List Char → Endpoint → Prop
  | plain {host port : List Char} {n : ℕ} (hhost : host ≠ []) (hcomma : ',' ∉ host)
      (hport : portOf port = some n) : Reads (host ++ ':' :: port) ⟨host, n, none⟩
  | knocking {host port knock : List Char} {n k : ℕ} (hhost : host ≠ []) (hcomma : ',' ∉ host)
      (hport : portOf port = some n) (hknock : portOf knock = some k) :
      Reads (host ++ ':' :: port ++ ',' :: knock) ⟨host, n, some k⟩

theorem comma_notMem_addr {host port : List Char} {n : ℕ} (hcomma : ',' ∉ host)
    (hport : portOf port = some n) : ',' ∉ host ++ ':' :: port := by
  have hnot := notMem_of_portOf hport (c := ',') (by decide) (by decide)
  simp [hcomma, hnot]

theorem rsplitOnce_addr {host port : List Char} {n : ℕ} (hport : portOf port = some n) :
    rsplitOnce ':' (host ++ ':' :: port) = some (host, port) :=
  rsplitOnce_append (notMem_of_portOf hport (by decide) (by decide))

theorem endpointFields_plain {addr : List Char} (h : ',' ∉ addr) :
    endpointFields addr = some (addr, none) := by
  rw [endpointFields, splitOnce_eq_none.2 h]

theorem endpointFields_knocking {addr knock : List Char} {k : ℕ} (h : ',' ∉ addr)
    (hknock : portOf knock = some k) :
    endpointFields (addr ++ ',' :: knock) = some (addr, some k) := by
  have hnot := notMem_of_portOf hknock (c := ',') (by decide) (by decide)
  simp only [endpointFields, splitOnce_append h, splitOnce_eq_none.2 hnot, hknock, Option.map_some]

/-- The parser reads exactly the grammar. -/
theorem parseEndpoint_eq_some {raw : List Char} {e : Endpoint} :
    parseEndpoint raw = some e ↔ Reads raw e := by
  constructor
  · intro h
    simp only [parseEndpoint, Option.bind_eq_bind, Option.bind_eq_some_iff, Prod.exists,
      Option.ite_none_left_eq_some] at h
    obtain ⟨addr, knockPort, hfields, host, port, hsplit, n, hport, hhost, heq⟩ := h
    obtain rfl := Option.some.inj heq
    obtain ⟨rfl, -⟩ := rsplitOnce_some hsplit
    unfold endpointFields at hfields
    cases hcomma : splitOnce ',' raw with
    | none =>
      simp only [hcomma, Option.some.injEq, Prod.mk.injEq] at hfields
      obtain ⟨rfl, rfl⟩ := hfields
      have hnot := splitOnce_eq_none.1 hcomma
      exact .plain hhost (fun hc => hnot (List.mem_append_left _ hc)) hport
    | some parts =>
      obtain ⟨addr, knock⟩ := parts
      cases hmore : splitOnce ',' knock with
      | some more => simp [hcomma, hmore] at hfields
      | none =>
        simp only [hcomma, hmore, Option.map_eq_some_iff, Prod.mk.injEq] at hfields
        obtain ⟨k, hknock, rfl, rfl⟩ := hfields
        rw [splitOnce_some hcomma]
        have hnot := splitOnce_some_notMem hcomma
        exact .knocking hhost (fun hc => hnot (List.mem_append_left _ hc)) hport hknock
  · intro h
    cases h with
    | plain hhost hcomma hport =>
      simp [parseEndpoint, endpointFields_plain (comma_notMem_addr hcomma hport),
        rsplitOnce_addr hport, hport, hhost]
    | knocking hhost hcomma hport hknock =>
      simp only [parseEndpoint, endpointFields_knocking (comma_notMem_addr hcomma hport) hknock,
        Option.bind_eq_bind, Option.bind_some, rsplitOnce_addr hport, hport, if_neg hhost]

/-- The canonical text reads as the same endpoint. -/
theorem Reads.canonical {raw : List Char} {e : Endpoint} (h : Reads raw e) : Reads e.chars e := by
  cases h with
  | plain hhost hcomma hport =>
    simpa [Endpoint.chars] using Reads.plain hhost hcomma (portOf_canonical hport)
  | knocking hhost hcomma hport hknock =>
    simpa [Endpoint.chars] using
      Reads.knocking hhost hcomma (portOf_canonical hport) (portOf_canonical hknock)

/-- The canonical text is not longer. -/
theorem Reads.utf8Len_le {raw : List Char} {e : Endpoint} (h : Reads raw e) :
    String.utf8Len e.chars ≤ String.utf8Len raw := by
  cases h with
  | plain hhost hcomma hport =>
    have hle := utf8Len_port_le hport
    simp only [Endpoint.chars, Option.elim_none, List.append_nil, String.utf8Len_append,
      String.utf8Len_cons]
    omega
  | knocking hhost hcomma hport hknock =>
    have hle := utf8Len_port_le hport
    have hle' := utf8Len_port_le hknock
    simp only [Endpoint.chars, Option.elim_some, String.utf8Len_append, String.utf8Len_cons]
    omega

/-- The characters of the canonical text are those of the text, and digits. -/
theorem Reads.mem_chars {raw : List Char} {e : Endpoint} (h : Reads raw e) {c : Char}
    (hc : c ∈ e.chars) : c ∈ raw ∨ c.isDigit = true := by
  have hdigit : ∀ n : ℕ, c ∈ (toString n).toList → c.isDigit = true :=
    fun n => isDigit_of_mem_toString
  cases h with
  | plain hhost hcomma hport =>
    simp only [Endpoint.chars, Option.elim_none, List.append_nil, List.mem_append,
      List.mem_cons] at hc ⊢
    obtain hc | rfl | hc := hc
    · exact .inl (.inl hc)
    · exact .inl (.inr (.inl rfl))
    · exact .inr (hdigit _ hc)
  | knocking hhost hcomma hport hknock =>
    simp only [Endpoint.chars, Option.elim_some, List.mem_append, List.mem_cons] at hc ⊢
    obtain (hc | rfl | hc) | rfl | hc := hc
    · exact .inl (.inl (.inl hc))
    · exact .inl (.inl (.inr (.inl rfl)))
    · exact .inr (hdigit _ hc)
    · exact .inl (.inr (.inl rfl))
    · exact .inr (hdigit _ hc)

theorem Reads.count_comma_le {raw : List Char} {e : Endpoint} (h : Reads raw e) :
    raw.count ',' ≤ 1 := by
  cases h with
  | plain hhost hcomma hport =>
    rw [List.count_eq_zero_of_not_mem (comma_notMem_addr hcomma hport)]
    omega
  | knocking hhost hcomma hport hknock =>
    have hnot := notMem_of_portOf hknock (c := ',') (by decide) (by decide)
    rw [List.count_append, List.count_eq_zero_of_not_mem (comma_notMem_addr hcomma hport),
      List.count_cons_self, List.count_eq_zero_of_not_mem hnot]

end Management

end NemoServer
