import NemoServer.Std.Parts

/-!
# Authorities

The authority of a URL: a host and perhaps a port. A host is a name (an IPv4 address is written
like one) or an IPv6 literal, which stands in brackets because it has colons of its own. What is
written is read again (`readAuthority_chars`), and nothing but a bracketed literal reads as one.
-/

set_option autoImplicit false

namespace NemoServer

namespace Str

inductive Host
  | name (text : List Char)
  | ipv6 (literal : List Char)
  deriving DecidableEq

/-- A character of a host name: none that separates parts of a URL or entries of a list. -/
def isHostChar (c : Char) : Bool :=
  !isWhitespace c && !isControl c && !(":/?#@[],".toList.contains c)

/-- A character of an IPv6 literal. -/
def isLiteralChar (c : Char) : Bool := isAsciiHexdigit c || c == ':' || c == '.'

namespace Host

def chars : Host → List Char
  | name text => text
  | ipv6 literal => '[' :: literal ++ [']']

def WellFormed : Host → Prop
  | name text => text ≠ [] ∧ ∀ c ∈ text, isHostChar c = true
  | ipv6 literal => ':' ∈ literal ∧ ∀ c ∈ literal, isLiteralChar c = true

instance : (h : Host) → Decidable h.WellFormed
  | name text => decidable_of_iff (text ≠ [] ∧ text.all isHostChar = true)
      (and_congr_right' List.all_eq_true)
  | ipv6 literal => decidable_of_iff (':' ∈ literal ∧ literal.all isLiteralChar = true)
      (and_congr_right' List.all_eq_true)

/-- The host is a name or an IPv4 address. -/
def IsName : Host → Prop
  | name _ => True
  | ipv6 _ => False

end Host

/-- A port in decimal digits. -/
def readDigits (digits : List Char) : Option ℕ :=
  if digits.all Char.isDigit then parseU16 (String.ofList digits) else none

/-- The port is as it is written. -/
structure Authority where
  host : Host
  port : Option (List Char)

namespace Authority

def portChars (port : Option (List Char)) : List Char := port.elim [] fun p => ':' :: p

def chars (a : Authority) : List Char := a.host.chars ++ portChars a.port

def toText (a : Authority) : String := String.ofList a.chars

structure WellFormed (a : Authority) : Prop where
  host : a.host.WellFormed
  port : ∀ p ∈ a.port, (readDigits p).isSome

end Authority

/-- What stands after a host: nothing, or a port. -/
def readPort : List Char → Option (Option ℕ)
  | [] => some none
  | ':' :: digits => (readDigits digits).map some
  | _ => none

def readAuthority (l : List Char) : Option (Host × Option ℕ) :=
  match stripPrefix ['['] l with
  | some rest => do
    let (literal, rest) ← splitOnce ']' rest
    let port ← readPort rest
    if (Host.ipv6 literal).WellFormed then some (.ipv6 literal, port) else none
  | none => do
    let port ← readPort (l.dropWhile (· != ':'))
    let name := l.takeWhile (· != ':')
    if (Host.name name).WellFormed then some (.name name, port) else none

/-! ## Characters -/

theorem isHostChar_iff {c : Char} : isHostChar c = true ↔
    isWhitespace c = false ∧ isControl c = false ∧ c ∉ ":/?#@[],".toList := by
  simp [isHostChar, and_assoc]

theorem isHostChar_ne {c d : Char} (h : isHostChar c = true) (hd : d ∈ ":/?#@[],".toList) :
    c ≠ d := by
  rintro rfl
  exact (isHostChar_iff.1 h).2.2 hd

theorem isLiteralChar_ne {c d : Char} (h : isLiteralChar c = true)
    (hd : isLiteralChar d = false) : c ≠ d := by
  rintro rfl
  rw [h] at hd
  cases hd

theorem isWhitespace_of_isLiteralChar {c : Char} (h : isLiteralChar c = true) :
    isWhitespace c = false := by
  simp only [isLiteralChar, Bool.or_eq_true, beq_iff_eq] at h
  obtain (hhex | rfl) | rfl := h
  · exact isWhitespace_of_isAsciiHexdigit hhex
  · decide
  · decide

/-! ## Ports -/

theorem readDigits_eq_some {digits : List Char} {n : ℕ} : readDigits digits = some n ↔
    (∀ c ∈ digits, c.isDigit = true) ∧ parseU16 (String.ofList digits) = some n := by
  unfold readDigits
  rw [Option.ite_none_right_eq_some, List.all_eq_true]

theorem readDigits_ne_nil {digits : List Char} {n : ℕ} (h : readDigits digits = some n) :
    digits ≠ [] := by
  rintro rfl
  exact absurd (readDigits_eq_some.1 h).2 (by simp [parseU16, parseU64])

theorem readDigits_toString {n : ℕ} (h : n < 2 ^ 16) :
    readDigits (toString n).toList = some n := by
  rw [readDigits_eq_some, String.ofList_toList]
  exact ⟨fun c => isDigit_of_mem_toString, parseU16_toString h⟩

theorem notMem_digits {digits : List Char} {n : ℕ} (h : readDigits digits = some n) {c : Char}
    (hc : c.isDigit = false) : c ∉ digits := by
  intro hmem
  rw [(readDigits_eq_some.1 h).1 c hmem] at hc
  cases hc

theorem readPort_portChars {port : Option (List Char)} (h : ∀ p ∈ port, (readDigits p).isSome) :
    readPort (Authority.portChars port) = some (port.bind readDigits) := by
  cases port with
  | none => rfl
  | some p =>
    obtain ⟨n, hn⟩ := Option.isSome_iff_exists.1 (h p rfl)
    change (readDigits p).map some = some (readDigits p)
    rw [hn]
    rfl

/-! ## Reading what was written -/

theorem readAuthority_name {name : List Char} {port : Option (List Char)}
    (hname : (Host.name name).WellFormed) (hport : ∀ p ∈ port, (readDigits p).isSome) :
    readAuthority (name ++ Authority.portChars port) = some (.name name, port.bind readDigits) := by
  obtain ⟨hne, hchars⟩ := hname
  have hpre : stripPrefix ['['] (name ++ Authority.portChars port) = none := by
    obtain ⟨c, cs, rfl⟩ := List.exists_cons_of_ne_nil hne
    have hc := isHostChar_ne (hchars c List.mem_cons_self) (d := '[') (by decide)
    simp [stripPrefix, hc.symm]
  have hcolon : ∀ c ∈ name, (c != ':') = true := fun c hc =>
    bne_iff_ne.2 (isHostChar_ne (hchars c hc) (by decide))
  have hdrop : (name ++ Authority.portChars port).dropWhile (· != ':') =
      Authority.portChars port := by
    rw [List.dropWhile_append_of_pos hcolon]
    cases port <;> rfl
  have htake : (name ++ Authority.portChars port).takeWhile (· != ':') = name := by
    rw [List.takeWhile_append_of_pos hcolon]
    cases port <;> simp [Authority.portChars]
  rw [readAuthority, hpre]
  simp only [hdrop, htake, readPort_portChars hport, Option.bind_eq_bind, Option.bind_some]
  rw [if_pos ⟨hne, hchars⟩]

/-- What is written is read. -/
theorem readAuthority_chars {a : Authority} (h : a.WellFormed) :
    readAuthority a.chars = some (a.host, a.port.bind readDigits) := by
  obtain ⟨host, port⟩ := a
  obtain ⟨hhost, hport⟩ := h
  cases host with
  | name name => exact readAuthority_name hhost hport
  | ipv6 literal =>
    have hbracket : ']' ∉ literal := fun hmem =>
      isLiteralChar_ne (hhost.2 _ hmem) (by decide : isLiteralChar ']' = false) rfl
    have hpre : stripPrefix ['['] (Authority.chars ⟨.ipv6 literal, port⟩) =
        some (literal ++ ']' :: Authority.portChars port) := by
      have hchars : Authority.chars ⟨.ipv6 literal, port⟩ =
          ['['] ++ (literal ++ ']' :: Authority.portChars port) := by
        simp [Authority.chars, Host.chars]
      rw [hchars, stripPrefix_append]
    rw [readAuthority, hpre]
    simp only [splitOnce_append hbracket, readPort_portChars hport, Option.bind_eq_bind,
      Option.bind_some]
    rw [if_pos hhost]

/-- Nothing but a bracket begins a literal. -/
theorem readAuthority_isName {l : List Char} {host : Host} {port : Option ℕ}
    (h : readAuthority l = some (host, port)) (hl : l.head? ≠ some '[') : host.IsName := by
  have hpre : stripPrefix ['['] l = none := by
    cases l with
    | nil => rfl
    | cons c l =>
      have hc : c ≠ '[' := fun heq => hl (by rw [heq]; rfl)
      simp [stripPrefix, hc.symm]
  rw [readAuthority, hpre] at h
  simp only [Option.bind_eq_bind, Option.bind_eq_some_iff, Option.ite_none_right_eq_some,
    Option.some.injEq, Prod.mk.injEq] at h
  obtain ⟨-, -, -, rfl, -⟩ := h
  trivial

end Str

end NemoServer
