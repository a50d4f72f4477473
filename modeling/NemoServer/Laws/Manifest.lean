import NemoServer.Management.UpdateManifest

/-!
# What an update manifest says

A manifest that is accepted is in one canonical form, and the text that is signed has one reading
as a manifest. The origin pin compares two origins where both can be told; a text that names no
authority has none, and is not compared.

* `validateUpdateManifest_canonical`: one form, one reading.
* `originPinned_iff`: when the pin holds.
-/

set_option autoImplicit false

namespace NemoServer

namespace Management

open Str

/-! ## Fields without separators -/

theorem clean_iff {s : String} :
    clean s = true ↔ ∀ c ∈ s.toList, c ≠ '|' ∧ isWhitespace c = false ∧ isControl c = false := by
  unfold clean
  rw [Bool.not_eq_true', List.any_eq_false]
  refine forall₂_congr fun c _ => ?_
  simp [and_assoc]

theorem ne_bar_of_isAsciiHexdigit {c : Char} (h : isAsciiHexdigit c = true) : c ≠ '|' := by
  rintro rfl
  revert h
  decide

/-- A field that is clean once it is trimmed has no separator. -/
theorem bar_notMem_of_clean_trim {s : String} (h : clean (trim s) = true) : '|' ∉ s.toList :=
  fun hbar => (clean_iff.1 h _ (mem_trim hbar (by decide))).1 rfl

theorem bar_notMem_of_hex_trim {s : String}
    (h : (toAsciiLowercase (trim s)).toList.all isAsciiHexdigit = true) : '|' ∉ s.toList := by
  intro hbar
  rw [toAsciiLowercase, String.toList_ofList, List.all_map, List.all_eq_true] at h
  exact ne_bar_of_isAsciiHexdigit (h _ (mem_trim hbar (by decide))) (by decide)

/-- No field of an accepted manifest has a separator, as it was given. -/
theorem bar_notMem_of_accepted {m : UpdateManifest} (h : FieldsOk (canonicalManifest m)) :
    '|' ∉ m.version.toList ∧ '|' ∉ m.url.toList ∧ '|' ∉ m.sha256.toList :=
  ⟨bar_notMem_of_clean_trim h.version_clean, bar_notMem_of_clean_trim h.url_clean,
    bar_notMem_of_hex_trim h.sha256_hex⟩

/-! ## One form and one reading -/

/-- What passes the checks is in canonical form. -/
theorem canonicalManifest_canonicalManifest {m : UpdateManifest}
    (h : FieldsOk (canonicalManifest m)) :
    canonicalManifest (canonicalManifest m) = canonicalManifest m := by
  have hsha : trim (toAsciiLowercase (trim m.sha256)) = toAsciiLowercase (trim m.sha256) := by
    refine trim_eq_self fun c hc => isWhitespace_of_isAsciiHexdigit ?_
    exact List.all_eq_true.1 h.sha256_hex c hc
  simp only [canonicalManifest, trim_trim, hsha, toAsciiLowercase_idem]

/-- The message is taken apart at its first two bars. -/
theorem eq_of_updateManifestMessage {m m' : UpdateManifest} (hversion : '|' ∉ m.version.toList)
    (hversion' : '|' ∉ m'.version.toList) (hurl : '|' ∉ m.url.toList)
    (hurl' : '|' ∉ m'.url.toList) (h : updateManifestMessage m = updateManifestMessage m') :
    m = m' := by
  have htext : ∀ m : UpdateManifest, (updateManifestMessage m).toList =
      m.version.toList ++ '|' :: (m.url.toList ++ '|' :: m.sha256.toList) := by
    intro m
    simp [updateManifestMessage]
  have hsplit := congrArg (fun s : String => splitOnce '|' s.toList) h
  simp only [htext] at hsplit
  rw [splitOnce_append hversion, splitOnce_append hversion'] at hsplit
  obtain ⟨hv, hrest⟩ := Prod.mk.inj (Option.some.inj hsplit)
  have hsplit' := congrArg (splitOnce '|') hrest
  rw [splitOnce_append hurl, splitOnce_append hurl'] at hsplit'
  obtain ⟨hu, hs⟩ := Prod.mk.inj (Option.some.inj hsplit')
  obtain ⟨version, url, sha256⟩ := m
  obtain ⟨version', url', sha256'⟩ := m'
  rw [UpdateManifest.mk.injEq]
  exact ⟨String.toList_inj.1 hv, String.toList_inj.1 hu, String.toList_inj.1 hs⟩

/-- **What is accepted stays as it is, and no two accepted manifests are signed alike.** -/
theorem validateUpdateManifest_canonical (policy : ManagementPolicy) :
    (∀ m m', validateUpdateManifest policy m = .ok m' →
      validateUpdateManifest policy m' = .ok m') ∧
    ∀ m₁ m₂ m₁' m₂', validateUpdateManifest policy m₁ = .ok m₁' →
      validateUpdateManifest policy m₂ = .ok m₂' →
      updateManifestMessage m₁ = updateManifestMessage m₂ → m₁ = m₂ := by
  constructor
  · intro m m' h
    obtain ⟨rfl, hok, hpin⟩ := validateUpdateManifest_eq_ok.1 h
    exact validateUpdateManifest_eq_ok.2
      ⟨(canonicalManifest_canonicalManifest hok).symm, hok, hpin⟩
  · intro m₁ m₂ m₁' m₂' h₁ h₂ hmessage
    obtain ⟨rfl, hok₁, -⟩ := validateUpdateManifest_eq_ok.1 h₁
    obtain ⟨rfl, hok₂, -⟩ := validateUpdateManifest_eq_ok.1 h₂
    obtain ⟨hversion₁, hurl₁, -⟩ := bar_notMem_of_accepted hok₁
    obtain ⟨hversion₂, hurl₂, -⟩ := bar_notMem_of_accepted hok₂
    exact eq_of_updateManifestMessage hversion₁ hversion₂ hurl₁ hurl₂ hmessage

/-! ## Texts that have an origin -/

/-- After `http://` or `https://` there is an authority: what stands before the first `/`, `?` or
`#` is not empty and does not end with an `@`. -/
def HasAuthority (text : String) : Prop :=
  ∃ scheme ∈ ["https://", "http://"], ∃ authority rest : List Char,
    text.toList = scheme.toList ++ (authority ++ rest) ∧
    (∀ c ∈ authority, endsAuthority c = false) ∧ (∀ c ∈ rest.head?, endsAuthority c = true) ∧
    ∃ hne : authority ≠ [], authority.getLast hne ≠ '@'

theorem stripScheme_some {url rest : List Char} {scheme : String}
    (h : stripScheme url = some (scheme, rest)) :
    (scheme = "https" ∨ scheme = "http") ∧ url = (scheme ++ "://").toList ++ rest := by
  unfold stripScheme at h
  split at h
  · next rest' hrest =>
    obtain ⟨rfl, rfl⟩ := Prod.mk.inj (Option.some.inj h)
    exact ⟨.inl rfl, stripPrefix_some hrest⟩
  · rw [Option.map_eq_some_iff] at h
    obtain ⟨rest', hrest, heq⟩ := h
    obtain ⟨rfl, rfl⟩ := Prod.mk.inj heq
    exact ⟨.inr rfl, stripPrefix_some hrest⟩

theorem stripScheme_https (rest : List Char) :
    stripScheme ("https://".toList ++ rest) = some ("https", rest) := by
  rw [stripScheme, stripPrefix_append]

theorem stripScheme_http (rest : List Char) :
    stripScheme ("http://".toList ++ rest) = some ("http", rest) := by
  have hnone : stripPrefix "https://".toList ("http://".toList ++ rest) = none := rfl
  rw [stripScheme, hnone, stripPrefix_append]
  rfl

/-- The authority is what stands before the first character that ends it. -/
theorem takeWhile_authority {authority rest : List Char}
    (hauth : ∀ c ∈ authority, endsAuthority c = false)
    (hrest : ∀ c ∈ rest.head?, endsAuthority c = true) :
    (authority ++ rest).takeWhile (fun c => !endsAuthority c) = authority := by
  rw [List.takeWhile_append_of_pos fun c hc => by simp [hauth c hc]]
  cases rest with
  | nil => simp
  | cons c rest => simp [hrest c rfl]

/-- The texts that have an origin are those with an authority. -/
theorem urlOrigin_isSome_iff {text : String} :
    (∃ origin, urlOrigin text = some origin) ↔ HasAuthority text := by
  have horigin : ∀ scheme rest, stripScheme text.toList = some (scheme, rest) →
      ((∃ origin, urlOrigin text = some origin) ↔
        afterLast '@' (rest.takeWhile fun c => !endsAuthority c) ≠ []) := by
    intro scheme rest h
    unfold urlOrigin
    rw [h]
    simp [Option.ite_none_left_eq_some]
  constructor
  · intro h
    cases hscheme : stripScheme text.toList with
    | none =>
      obtain ⟨origin, horig⟩ := h
      simp [urlOrigin, hscheme] at horig
    | some parts =>
      obtain ⟨scheme, rest⟩ := parts
      have hlast := (horigin scheme rest hscheme).1 h
      obtain ⟨hname, htext⟩ := stripScheme_some hscheme
      rw [ne_eq, afterLast_eq_nil] at hlast
      push Not at hlast
      refine ⟨scheme ++ "://", ?_, rest.takeWhile fun c => !endsAuthority c,
        rest.dropWhile fun c => !endsAuthority c, ?_, ?_, ?_, hlast⟩
      · obtain rfl | rfl := hname <;> simp
      · rw [List.takeWhile_append_dropWhile, htext]
      · intro c hc
        simpa using List.mem_takeWhile_imp hc
      · intro c hc
        have hhead := List.head?_dropWhile_not (fun c => !endsAuthority c) rest
        rw [Option.mem_def.1 hc] at hhead
        simpa using hhead
  · rintro ⟨scheme, hmem, authority, rest, htext, hauth, hrest, hne, hlast⟩
    have hscheme : ∃ name, stripScheme text.toList = some (name, authority ++ rest) := by
      rw [htext]
      simp only [List.mem_cons, List.not_mem_nil, or_false] at hmem
      obtain rfl | rfl := hmem
      · exact ⟨_, stripScheme_https _⟩
      · exact ⟨_, stripScheme_http _⟩
    obtain ⟨name, hname⟩ := hscheme
    rw [horigin _ _ hname, takeWhile_authority hauth hrest, ne_eq, afterLast_eq_nil]
    exact fun h => hlast (h hne)

/-! ## The origin pin -/

/-- A manifest that is accepted has the origin of the server of the API, if one is named. -/
def OriginPinned (policy : ManagementPolicy) (m : UpdateManifest) : Prop :=
  ∀ m' expected, validateUpdateManifest policy m = .ok m' →
    policy.options.lookup "api-server" = some expected → expected ≠ "" →
    ∃ origin, urlOrigin m'.url = some origin ∧ urlOrigin (trim expected) = some origin

theorem foreignOrigin_eq {policy : ManagementPolicy} {expected : String}
    (h : policy.options.lookup "api-server" = some expected) (url : String) :
    foreignOrigin policy url =
      if trim expected = "" then none
      else
        (urlOrigin url).bind fun got => (urlOrigin (trim expected)).bind fun want =>
          if got ≠ want then some (want, got) else none := by
  unfold foreignOrigin
  rw [h, Option.bind_eq_bind, Option.bind_some]
  refine if_congr Iff.rfl rfl ?_
  cases urlOrigin url with
  | none => rfl
  | some got => cases urlOrigin (trim expected) <;> rfl

/-- **The pin holds exactly where both texts have an authority**, of the manifests whose fields
pass. -/
theorem originPinned_iff (policy : ManagementPolicy) (m : UpdateManifest) :
    OriginPinned policy m ↔
      ∀ expected, policy.options.lookup "api-server" = some expected → expected ≠ "" →
        FieldsOk (canonicalManifest m) →
        HasAuthority (trim m.url) ∧ HasAuthority (trim expected) := by
  constructor
  · intro h expected hexpected hne hok
    rw [← urlOrigin_isSome_iff, ← urlOrigin_isSome_iff]
    by_contra hnone
    have hpin : foreignOrigin policy (trim m.url) = none := by
      rw [foreignOrigin_eq hexpected]
      split_ifs with htrim
      · rfl
      · cases hgot : urlOrigin (trim m.url) with
        | none => rfl
        | some got =>
          cases hwant : urlOrigin (trim expected) with
          | none => rfl
          | some want => exact absurd ⟨⟨got, hgot⟩, want, hwant⟩ hnone
    obtain ⟨origin, hgot, hwant⟩ := h (canonicalManifest m) expected
      (validateUpdateManifest_eq_ok.2 ⟨rfl, hok, hpin⟩) hexpected hne
    exact hnone ⟨⟨origin, hgot⟩, origin, hwant⟩
  · intro h m' expected haccepted hexpected hne
    obtain ⟨rfl, hok, hpin⟩ := validateUpdateManifest_eq_ok.1 haccepted
    obtain ⟨hurl, hserver⟩ := h expected hexpected hne hok
    obtain ⟨got, hgot⟩ := urlOrigin_isSome_iff.2 hurl
    obtain ⟨want, hwant⟩ := urlOrigin_isSome_iff.2 hserver
    have htrim : trim expected ≠ "" := by
      intro hempty
      rw [hempty] at hwant
      cases hwant
    have hurl' : (canonicalManifest m).url = trim m.url := rfl
    rw [hurl'] at hpin ⊢
    rw [foreignOrigin_eq hexpected, if_neg htrim, hgot, hwant] at hpin
    have heq : got = want := by
      by_contra hdiff
      simp [hdiff] at hpin
    exact ⟨got, hgot, heq ▸ hwant⟩

end Management

namespace Sample

open Management

/-- A policy that names the server of the API, and a manifest whose url has an empty authority. -/
def pinningPolicy : ManagementPolicy := ⟨false, [("api-server", "https://tbf.example.com")]⟩

def authoritylessManifest : UpdateManifest :=
  ⟨"1.4.7", "https:///evil.example.net/x.exe", String.ofList (List.replicate 64 'a')⟩

/-- A url with an empty authority is accepted, and signed, whatever origin is wanted. -/
theorem not_originPinned : ¬ ∀ policy m, OriginPinned policy m := by
  intro h
  have haccepted : validateUpdateManifest pinningPolicy authoritylessManifest =
      .ok authoritylessManifest := by rfl
  obtain ⟨origin, hgot, -⟩ := h pinningPolicy authoritylessManifest authoritylessManifest
    "https://tbf.example.com" haccepted rfl (by decide)
  have hnone : urlOrigin authoritylessManifest.url = none := by rfl
  rw [hnone] at hgot
  cases hgot

end Sample

end NemoServer
