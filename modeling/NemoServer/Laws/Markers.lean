import NemoServer.Management.Policy
import NemoServer.Server.Sample
import NemoServer.Std.Base64
import NemoServer.Std.Parts

/-!
# The marker of a controller

Older clients hide who they are in a text field, behind a marker. What a client hid is found again
whatever stands around it; an empty token is no token. A typed field goes before the marker if it
names a controller.
-/

set_option autoImplicit false

namespace NemoServer

namespace Management

open Str

variable {X : Setup}

/-- What the markers rely on of the encoding of the uuid: it is decoded again, it uses the letters,
the digits, `+`, `/` and `=`, and only no bytes have no text. -/
structure Base64Sound (X : Setup) : Prop where
  decode : ∀ b, X.base64Decode (X.base64Encode b) = some b
  alphabet : ∀ b, ∀ c ∈ (X.base64Encode b).toList, c.isAlphanum ∨ c = '+' ∨ c = '/' ∨ c = '='
  ne_empty : ∀ b, b ≠ [] → X.base64Encode b ≠ ""

namespace Base64Sound

theorem isWhitespace (h : Base64Sound X) (b : Bytes) :
    ∀ c ∈ (X.base64Encode b).toList, isWhitespace c = false := by
  intro c hc
  obtain halpha | rfl | rfl | rfl := h.alphabet b c hc
  · exact isWhitespace_of_isAlphanum halpha
  all_goals decide

theorem colon_notMem (h : Base64Sound X) (b : Bytes) : ':' ∉ (X.base64Encode b).toList := by
  intro hc
  obtain halpha | heq | heq | heq := h.alphabet b _ hc
  · exact absurd halpha (by decide)
  all_goals exact absurd heq (by decide)

end Base64Sound

/-! ## A marker in a text -/

/-- What follows the prefix of the marker. -/
def markerPayload (X : Setup) (id : String) (uuid : Bytes) (token : Option String) : List Char :=
  id.toList ++ ':' :: ((X.base64Encode uuid).toList ++ token.elim [] fun t => ':' :: t.toList)

/-- The marker `nemo-source-v1:<id>:<base64 uuid>[:<token>]`, as a client writes it. -/
def sourceMarker (X : Setup) (id : String) (uuid : Bytes) (token : Option String) : String :=
  nemoSourcePrefix ++ String.ofList (markerPayload X id uuid token)

/-- A controller that a marker can tell: its id is one word without a colon, its uuid is not empty,
and its token is one word. -/
structure Markable (id : String) (uuid : Bytes) (token : Option String) : Prop where
  id_ne : id ≠ ""
  id_colon : ':' ∉ id.toList
  id_word : ∀ c ∈ id.toList, isWhitespace c = false
  uuid_ne : uuid ≠ []
  token_word : ∀ t ∈ token, ∀ c ∈ t.toList, isWhitespace c = false

variable {id : String} {uuid : Bytes} {token : Option String}

theorem nemoSourcePrefix_eq :
    nemoSourcePrefix.toList = "nemo-source-v1".toList ++ [':'] := by decide

/-- The payload is one word. -/
theorem markerPayload_word (hX : Base64Sound X) (h : Markable id uuid token) :
    ∀ c ∈ markerPayload X id uuid token, isWhitespace c = false := by
  intro c hc
  simp only [markerPayload, List.mem_append, List.mem_cons] at hc
  obtain hc | rfl | hc | hc := hc
  · exact h.id_word c hc
  · decide
  · exact hX.isWhitespace uuid c hc
  · cases token with
    | none => simp at hc
    | some t =>
      obtain rfl | hc := List.mem_cons.1 hc
      · decide
      · exact h.token_word t rfl c hc

/-- The payload is taken apart at its first two colons. -/
theorem splitOnce_markerPayload (h : Markable id uuid token) :
    splitOnce ':' (markerPayload X id uuid token) = some (id.toList,
      (X.base64Encode uuid).toList ++ token.elim [] fun t => ':' :: t.toList) :=
  splitOnce_append h.id_colon

/-- **What was hidden is found**, an empty token apart. -/
theorem controllerSourceIdentity_marker (hX : Base64Sound X) (h : Markable id uuid token)
    {pre suf : String} (hpre : ¬ nemoSourcePrefix.toList <:+: pre.toList)
    (hsuf : ∀ c ∈ suf.toList.head?, isWhitespace c = true) :
    controllerSourceIdentity X (pre ++ sourceMarker X id uuid token ++ suf) =
      some (id, uuid, token.filter (· != "")) := by
  have htext : (pre ++ sourceMarker X id uuid token ++ suf).toList =
      pre.toList ++ (nemoSourcePrefix.toList ++ (markerPayload X id uuid token ++ suf.toList)) := by
    simp [sourceMarker]
  have hrest : afterFirst nemoSourcePrefix.toList
      (pre ++ sourceMarker X id uuid token ++ suf).toList =
      some (markerPayload X id uuid token ++ suf.toList) := by
    rw [htext]
    rw [nemoSourcePrefix_eq] at hpre ⊢
    exact afterFirst_append (by decide) hpre _
  have hpayload : firstToken (markerPayload X id uuid token ++ suf.toList) =
      some (markerPayload X id uuid token) :=
    firstToken_append (by simp [markerPayload]) (markerPayload_word hX h) hsuf
  have hid : trim id = id := trim_eq_self h.id_word
  have huuid : trim (X.base64Encode uuid) = X.base64Encode uuid :=
    trim_eq_self (hX.isWhitespace uuid)
  have hnonempty : ¬ (id = "" ∨ X.base64Encode uuid = "") :=
    not_or.2 ⟨h.id_ne, hX.ne_empty uuid h.uuid_ne⟩
  simp only [controllerSourceIdentity, hrest, hpayload, splitOnce_markerPayload h,
    Option.bind_eq_bind, Option.bind_some]
  cases token with
  | none =>
    have hcolon : splitOnce ':' (X.base64Encode uuid).toList = none :=
      splitOnce_eq_none.2 (hX.colon_notMem uuid)
    simp only [Option.elim_none, List.append_nil, hcolon, String.ofList_toList, hid, huuid,
      if_neg hnonempty, hX.decode, Option.bind_some, Option.map_none, Option.filter_none]
  | some t =>
    have hcolon : splitOnce ':' ((X.base64Encode uuid).toList ++ ':' :: t.toList) =
        some ((X.base64Encode uuid).toList, t.toList) := splitOnce_append (hX.colon_notMem uuid)
    have ht : trim t = t := trim_eq_self (h.token_word t rfl)
    simp only [Option.elim_some, hcolon, String.ofList_toList, hid, huuid, if_neg hnonempty,
      hX.decode, Option.bind_some, Option.map_some, ht]

theorem controllerSourceIdentity_eq_none {field : String}
    (h : ¬ nemoSourcePrefix.toList <:+: field.toList) :
    controllerSourceIdentity X field = none := by
  unfold controllerSourceIdentity
  rw [afterFirst_eq_none (by decide) h]
  rfl

/-! ## The typed field -/

theorem controllerSourceAny_typed {src : NemoSource} (h : trim src.id ≠ "") (field : String) :
    controllerSourceAny X (some src) field =
      some (trim src.id, src.uuid, (some (trim src.token)).filter (· != "")) := by
  unfold controllerSourceAny
  rw [Option.filter_some, if_pos (by simpa using h)]

theorem controllerSourceAny_marker {proto : Option NemoSource}
    (h : ∀ src ∈ proto, trim src.id = "") (field : String) :
    controllerSourceAny X proto field = controllerSourceIdentity X field := by
  unfold controllerSourceAny
  cases proto with
  | none => rfl
  | some src => rw [Option.filter_some, if_neg (by simp [h src rfl])]

/-- **A marker is read as it was written**, where an empty token is no token; a text without one
names nobody; and a typed field that names a controller goes first. -/
theorem controllerSource_decodes (hX : Base64Sound X) :
    (∀ id uuid token (pre suf : String), Markable id uuid token →
      ¬ nemoSourcePrefix.toList <:+: pre.toList →
      (∀ c ∈ suf.toList.head?, isWhitespace c = true) →
      controllerSourceIdentity X (pre ++ sourceMarker X id uuid token ++ suf) =
        some (id, uuid, token.filter (· != ""))) ∧
    (∀ field : String, ¬ nemoSourcePrefix.toList <:+: field.toList →
      controllerSourceIdentity X field = none) ∧
    (∀ (src : NemoSource) field, trim src.id ≠ "" →
      controllerSourceAny X (some src) field =
        some (trim src.id, src.uuid, (some (trim src.token)).filter (· != ""))) ∧
    ∀ (proto : Option NemoSource) field, (∀ src ∈ proto, trim src.id = "") →
      controllerSourceAny X proto field = controllerSourceIdentity X field :=
  ⟨fun _ _ _ _ _ h hpre hsuf => controllerSourceIdentity_marker hX h hpre hsuf,
    fun _ h => controllerSourceIdentity_eq_none h,
    fun _ field h => controllerSourceAny_typed h field,
    fun _ field h => controllerSourceAny_marker h field⟩

end Management

namespace Sample

open Management Str

/-- The small deployment, with base64 both ways. -/
def markerSetup : Setup :=
  { setup .offer false with
    base64Encode := fun b => String.ofList (base64Chars b)
    base64Decode := fun s => base64Bytes s.toList }

theorem markerSetup_sound : Base64Sound markerSetup := by
  refine ⟨fun b => ?_, fun b c hc => ?_, fun b hb hempty => ?_⟩
  · change base64Bytes (String.ofList (base64Chars b)).toList = some b
    rw [String.toList_ofList, base64Bytes_base64Chars]
  · change c ∈ (String.ofList (base64Chars b)).toList at hc
    rw [String.toList_ofList] at hc
    have htest : (base64Alphabet.all fun d => d.isAlphanum || d == '+' || d == '/') = true := by
      decide +kernel
    by_cases hpad : c = '='
    · exact .inr (.inr (.inr hpad))
    · have hmem : c ∈ base64Alphabet := by
        by_contra hnot
        exact not_mem_base64Chars hnot hpad b hc
      have hchar := List.all_eq_true.1 htest c hmem
      simp only [Bool.or_eq_true, beq_iff_eq] at hchar
      obtain (halpha | hplus) | hslash := hchar
      · exact .inl halpha
      · exact .inr (.inl hplus)
      · exact .inr (.inr (.inl hslash))
  · have hdecode := base64Bytes_base64Chars b
    have hnil : base64Chars b = [] := by
      have htext := congrArg String.toList hempty
      change (String.ofList (base64Chars b)).toList = _ at htext
      rwa [String.toList_ofList] at htext
    rw [hnil] at hdecode
    exact hb (Option.some.inj hdecode).symm

theorem markable_ctrl : Markable "ctrl001" [1, 2, 3] (some "") where
  id_ne := by decide
  id_colon := by decide
  id_word := forall_of_all (by decide)
  uuid_ne := by decide
  token_word := by
    rintro t ht c hc
    obtain rfl := Option.some.inj ht
    simp at hc

/-- An empty token is not found again. -/
theorem not_controllerSource_exact : Base64Sound markerSetup ∧
    ¬ ∀ id uuid token (pre suf : String), Markable id uuid token →
      ¬ nemoSourcePrefix.toList <:+: pre.toList →
      (∀ c ∈ suf.toList.head?, isWhitespace c = true) →
      controllerSourceIdentity markerSetup (pre ++ sourceMarker markerSetup id uuid token ++ suf) =
        some (id, uuid, token) := by
  refine ⟨markerSetup_sound, fun h => ?_⟩
  have hpre : ¬ nemoSourcePrefix.toList <:+: "1.4.6 ".toList := by decide
  have hexact := h _ _ _ "1.4.6 " "" markable_ctrl hpre (by simp)
  rw [controllerSourceIdentity_marker markerSetup_sound markable_ctrl hpre (by simp)] at hexact
  simp at hexact

/-- A token with a separator in it, behind a version and before more of the field. -/
theorem controllerSource_decodes_versioned :
    controllerSourceIdentity markerSetup
      ("1.4.6 " ++ sourceMarker markerSetup "ctrl001" [1, 2, 3] (some "a:b") ++ " more") =
      some ("ctrl001", [1, 2, 3], some "a:b") := by
  have hmarkable : Markable "ctrl001" [1, 2, 3] (some "a:b") := by
    refine ⟨by decide, by decide, forall_of_all (by decide), by decide, ?_⟩
    rintro t ht
    obtain rfl := Option.some.inj ht
    exact forall_of_all (by decide)
  have hsuf : ∀ c ∈ " more".toList.head?, isWhitespace c = true := by
    rintro c hc
    obtain rfl := Option.some.inj hc
    decide
  exact (controllerSource_decodes markerSetup_sound).1 "ctrl001" [1, 2, 3] (some "a:b") "1.4.6 "
    " more" hmarkable (by decide) hsuf

end Sample

end NemoServer
