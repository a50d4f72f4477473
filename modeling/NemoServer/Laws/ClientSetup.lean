import NemoServer.Management.ClientSetup
import NemoServer.Management.UpdateManifest
import NemoServer.Std.Authority

/-!
# The addresses of a setup profile

The profile for clients outside takes nothing from the authority of the dashboard but its port
(`external_blind`). The addresses that are derived read back as the host they were derived from if
the host is a name; a literal of IPv6 loses its brackets on the way (`keepsAddress_iff`).
-/

set_option autoImplicit false

namespace NemoServer

namespace Management

open Str

/-! ## Taking an authority apart -/

/-- The host as it stands in a profile: a literal without its brackets. -/
def bareHost : Host → List Char
  | .name text => text
  | .ipv6 literal => literal

theorem hostChars_ne_nil {h : Host} (hh : h.WellFormed) : h.chars ≠ [] := by
  cases h with
  | name text => exact hh.1
  | ipv6 literal => simp [Host.chars]

theorem splitPort_chars {a : Authority} (h : a.WellFormed) :
    splitPort a.chars = (a.host.chars, a.port.getD []) := by
  obtain ⟨host, port⟩ := a
  obtain ⟨hhost, hport⟩ := h
  cases port with
  | some p =>
    obtain ⟨n, hn⟩ := Option.isSome_iff_exists.1 (hport p rfl)
    have hchars : Authority.chars ⟨host, some p⟩ = host.chars ++ ':' :: p := rfl
    have hcolon : rfind ':' (host.chars ++ ':' :: p) = some host.chars.length :=
      rfind_append (notMem_digits hn (by decide))
    have hbracket : rfind ']' (host.chars ++ ':' :: p) = rfind ']' host.chars := by
      refine rfind_append_left fun hmem => ?_
      obtain heq | hmem := List.mem_cons.1 hmem
      · exact absurd heq (by decide)
      · exact notMem_digits hn (by decide) hmem
    have hlt : (rfind ']' host.chars).getD 0 < host.chars.length := by
      cases hfind : rfind ']' host.chars with
      | none => exact List.length_pos_of_ne_nil (hostChars_ne_nil hhost)
      | some i => exact rfind_lt hfind
    simp only [splitPort, hchars, hcolon, hbracket, if_pos hlt, List.take_left, Option.getD_some]
    have hdrop : (host.chars ++ ':' :: p).drop (host.chars.length + 1) = p := by
      rw [List.drop_append]
      simp
    rw [hdrop]
  | none =>
    have hchars : Authority.chars ⟨host, none⟩ = host.chars := List.append_nil _
    rw [hchars]
    cases host with
    | name text =>
      have hcolon : ':' ∉ text := fun hmem =>
        isHostChar_ne (hhost.2 _ hmem) (by decide) rfl
      rw [splitPort, Host.chars, rfind_eq_none hcolon]
      rfl
    | ipv6 literal =>
      have hbracket : rfind ']' ('[' :: literal ++ [']']) = some (literal.length + 1) :=
        rfind_append (by simp)
      have hcolon : rfind ':' ('[' :: literal ++ [']']) = rfind ':' ('[' :: literal) :=
        rfind_append_left (by decide)
      have hle : ∀ idx ∈ rfind ':' ('[' :: literal), ¬ literal.length + 1 < idx := by
        intro idx hidx
        have hlt := rfind_lt hidx
        rw [List.length_cons] at hlt
        omega
      unfold splitPort
      rw [Host.chars, hcolon, hbracket]
      cases hfind : rfind ':' ('[' :: literal) with
      | none => rfl
      | some idx => exact if_neg (hle idx hfind)

theorem trimBrackets_eq_self {l : List Char} (h : ∀ c ∈ l, c ≠ '[' ∧ c ≠ ']') :
    trimBrackets l = l :=
  trimChars_eq_self fun c hc => by simp [h c hc]

theorem trimBrackets_host {h : Host} (hh : h.WellFormed) : trimBrackets h.chars = bareHost h := by
  cases h with
  | name text =>
    exact trimBrackets_eq_self fun c hc =>
      ⟨isHostChar_ne (hh.2 c hc) (by decide), isHostChar_ne (hh.2 c hc) (by decide)⟩
  | ipv6 literal =>
    refine trimChars_between rfl rfl (List.ne_nil_of_mem hh.1) fun c hc => ?_
    have hopen := isLiteralChar_ne (hh.2 c hc) (d := '[') (by decide)
    have hclose := isLiteralChar_ne (hh.2 c hc) (d := ']') (by decide)
    simp [hopen, hclose]

/-- Nothing in an authority is white. -/
theorem isWhitespace_bareHost {h : Host} (hh : h.WellFormed) :
    ∀ c ∈ bareHost h, isWhitespace c = false := by
  cases h with
  | name text => exact fun c hc => (isHostChar_iff.1 (hh.2 c hc)).1
  | ipv6 literal => exact fun c hc => isWhitespace_of_isLiteralChar (hh.2 c hc)

theorem isWhitespace_hostChars {h : Host} (hh : h.WellFormed) :
    ∀ c ∈ h.chars, isWhitespace c = false := by
  intro c hc
  cases h with
  | name text => exact isWhitespace_bareHost hh c hc
  | ipv6 literal =>
    simp only [Host.chars, List.mem_append, List.mem_cons, List.not_mem_nil, or_false] at hc
    obtain (rfl | hc) | rfl := hc
    · decide
    · exact isWhitespace_bareHost hh c hc
    · decide

theorem isWhitespace_portChars {port : Option (List Char)}
    (h : ∀ p ∈ port, (readDigits p).isSome) :
    ∀ c ∈ Authority.portChars port, isWhitespace c = false := by
  intro c hc
  cases port with
  | none => cases hc
  | some p =>
    obtain ⟨n, hn⟩ := Option.isSome_iff_exists.1 (h p rfl)
    obtain rfl | hc := List.mem_cons.1 hc
    · decide
    · exact isWhitespace_of_isDigit ((readDigits_eq_some.1 hn).1 c hc)

theorem trim_toText {a : Authority} (h : a.WellFormed) : trim a.toText = a.toText := by
  refine trim_eq_self fun c hc => ?_
  rw [Authority.toText, String.toList_ofList, Authority.chars, List.mem_append] at hc
  obtain hc | hc := hc
  · exact isWhitespace_hostChars h.host c hc
  · exact isWhitespace_portChars h.port c hc

/-! ## What is derived -/

theorem firstNonEmpty_cons (c : String) (cs : List String) :
    firstNonEmpty (c :: cs) = if trim c = "" then firstNonEmpty cs else trim c := by
  unfold firstNonEmpty
  rw [List.map_cons, List.find?_cons]
  by_cases hc : trim c = ""
  · rw [if_pos hc, hc]
    rfl
  · have hne : (trim c != "") = true := bne_iff_ne.2 hc
    rw [if_neg hc, hne]
    rfl

/-- What is derived, where neither the operator nor a flag says otherwise. -/
theorem firstNonEmpty_default {override flag text : String} (ho : trim override = "")
    (hf : trim flag = "") (ht : trim text = text) :
    firstNonEmpty [override, flag, text] = text := by
  rw [firstNonEmpty_cons, if_pos ho, firstNonEmpty_cons, if_pos hf, firstNonEmpty_cons, ht]
  split_ifs with hempty
  · rw [hempty]
    rfl
  · rfl

variable (env : SetupEnv)

/-- The entries of the relay flag; the first that is not empty is the authority. -/
def RelayEntry (flag : String) (r : Authority) : Prop :=
  ((flag.toList.splitOn ',').map fun e => trim (String.ofList e)).find? (· != "") = some r.toText

theorem relayHost_eq {flag : String} {r : Authority} (hr : r.WellFormed) (h : RelayEntry flag r) :
    relayHost flag = String.ofList (bareHost r.host) := by
  unfold RelayEntry at h
  unfold relayHost
  simp only [h, Option.getD_some]
  rw [Authority.toText, String.toList_ofList, splitPort_chars hr, trimBrackets_host hr.host]

/-- The port of the API in a profile: that of the listener for clients, or that of the
authority. -/
def prescribedPort (a : Authority) : Option (List Char) :=
  ((dedicatedClientApiPort env).map fun n => (toString n).toList) <|> a.port

theorem dedicatedClientApiPort_lt {n : ℕ} (h : dedicatedClientApiPort env = some n) :
    n < 2 ^ 16 := by
  unfold dedicatedClientApiPort at h
  simp only [Option.ite_none_left_eq_some, Option.map_eq_some_iff] at h
  obtain ⟨-, addr, -, rfl⟩ := h
  exact addr.port.toNat_lt

theorem prescribedPort_isSome {a : Authority} (h : a.WellFormed) :
    ∀ p ∈ prescribedPort env a, (readDigits p).isSome := by
  intro p hp
  unfold prescribedPort at hp
  cases hport : dedicatedClientApiPort env with
  | none =>
    rw [hport] at hp
    exact h.port p hp
  | some n =>
    rw [hport] at hp
    obtain rfl := Option.some.inj hp
    rw [readDigits_toString (dedicatedClientApiPort_lt env hport)]
    rfl

theorem apiPortSuffix_eq {a : Authority} (h : a.WellFormed) :
    apiPortSuffix (dedicatedClientApiPort env) (String.ofList (a.port.getD [])) =
      String.ofList (Authority.portChars (prescribedPort env a)) := by
  unfold prescribedPort apiPortSuffix
  cases dedicatedClientApiPort env with
  | some n =>
    refine String.toList_inj.1 ?_
    simp [Authority.portChars]
  | none =>
    cases hport : a.port with
    | none => rfl
    | some p =>
      obtain ⟨n, hn⟩ := Option.isSome_iff_exists.1 (h.port p hport)
      have hne : String.ofList p ≠ "" := by
        intro hempty
        have hnil := congrArg String.toList hempty
        rw [String.toList_ofList] at hnil
        exact readDigits_ne_nil hn hnil
      simp [Authority.portChars, hne, String.ofList_cons]

/-- The host from which the addresses of a profile are derived. -/
def derivedHost (hostHeader : String) : ClientSetupScope → String
  | .internal => firstNonEmpty
    [String.ofList (trimBrackets (splitPort (trim hostHeader).toList).1), env.getArg "local-ip"]
  | .external => relayHost (env.getArg "relay-servers")

theorem apiServer_eq (overrides : ClientSetupRequest) (hostHeader key : String)
    (scope : ClientSetupScope) :
    (clientSetupServer env overrides hostHeader key scope).apiServer = firstNonEmpty
      [overrides.apiServer.getD "", env.getArg ("nemo-client-api" ++ scope.argSuffix),
        if derivedHost env hostHeader scope = "" then ""
        else "https://" ++ derivedHost env hostHeader scope ++
          apiPortSuffix (dedicatedClientApiPort env)
            (String.ofList (splitPort (trim hostHeader).toList).2)] := by
  cases scope <;> rfl

theorem idServer_eq (overrides : ClientSetupRequest) (hostHeader key : String)
    (scope : ClientSetupScope) :
    (clientSetupServer env overrides hostHeader key scope).idServer = firstNonEmpty
      [overrides.idServer.getD "", env.getArg ("nemo-client-id-server" ++ scope.argSuffix),
        if derivedHost env hostHeader scope = "" then ""
        else if env.getArgOr "port" (toString rendezvousPort) = toString rendezvousPort then
          derivedHost env hostHeader scope
        else derivedHost env hostHeader scope ++ ":" ++
          env.getArgOr "port" (toString rendezvousPort)] := by
  cases scope <;> rfl

/-- Neither the operator nor a flag names the servers of the profile. -/
structure Derived (overrides : ClientSetupRequest) (scope : ClientSetupScope) : Prop where
  api : trim (overrides.apiServer.getD "") = ""
  apiFlag : trim (env.getArg ("nemo-client-api" ++ scope.argSuffix)) = ""
  id : trim (overrides.idServer.getD "") = ""
  idFlag : trim (env.getArg ("nemo-client-id-server" ++ scope.argSuffix)) = ""

/-- The authority that a profile is derived from: that of the request, or that of the relay
flag. -/
def DerivedFrom (scope : ClientSetupScope) (request r : Authority) : Prop :=
  match scope with
  | .internal => r = request
  | .external => RelayEntry (env.getArg "relay-servers") r

variable {env} {overrides : ClientSetupRequest} {scope : ClientSetupScope} {request r : Authority}

theorem ofList_bareHost_ne {h : Host} (hh : h.WellFormed) : String.ofList (bareHost h) ≠ "" := by
  intro hempty
  have hnil := congrArg String.toList hempty
  rw [String.toList_ofList] at hnil
  cases h with
  | name text => exact hh.1 hnil
  | ipv6 literal => exact List.ne_nil_of_mem hh.1 hnil

theorem derivedHost_eq (hrequest : request.WellFormed) (hr : r.WellFormed)
    (h : DerivedFrom env scope request r) :
    derivedHost env request.toText scope = String.ofList (bareHost r.host) := by
  cases scope with
  | internal =>
    obtain rfl : r = request := h
    have hparts : (splitPort (trim r.toText).toList).1 = r.host.chars := by
      rw [trim_toText hrequest, Authority.toText, String.toList_ofList, splitPort_chars hrequest]
    have htrim : trim (String.ofList (bareHost r.host)) = String.ofList (bareHost r.host) :=
      trim_eq_self fun c hc => by
        rw [String.toList_ofList] at hc
        exact isWhitespace_bareHost hr.host c hc
    rw [derivedHost, hparts, trimBrackets_host hr.host, firstNonEmpty_cons, htrim,
      if_neg (ofList_bareHost_ne hr.host)]
  | external => exact relayHost_eq hr h

/-- The address of the API that is derived. -/
theorem apiServer_derived (hderived : Derived env overrides scope) (hrequest : request.WellFormed)
    (hr : r.WellFormed) (h : DerivedFrom env scope request r) (key : String) :
    (clientSetupServer env overrides request.toText key scope).apiServer =
      String.ofList ("https://".toList ++
        (bareHost r.host ++ Authority.portChars (prescribedPort env request))) := by
  have hport : (splitPort (trim request.toText).toList).2 = request.port.getD [] := by
    rw [trim_toText hrequest, Authority.toText, String.toList_ofList, splitPort_chars hrequest]
  have htext : "https://" ++ String.ofList (bareHost r.host) ++
      String.ofList (Authority.portChars (prescribedPort env request)) =
      String.ofList ("https://".toList ++
        (bareHost r.host ++ Authority.portChars (prescribedPort env request))) := by
    refine String.toList_inj.1 ?_
    simp
  rw [apiServer_eq, derivedHost_eq hrequest hr h, hport, apiPortSuffix_eq env hrequest,
    if_neg (ofList_bareHost_ne hr.host), htext]
  refine firstNonEmpty_default hderived.api hderived.apiFlag (trim_eq_self fun c hc => ?_)
  rw [String.toList_ofList, List.mem_append, List.mem_append] at hc
  obtain hc | hc | hc := hc
  · exact forall_of_all (by decide) c hc
  · exact isWhitespace_bareHost hr.host c hc
  · exact isWhitespace_portChars (prescribedPort_isSome env hrequest) c hc

/-- The port that a profile names for the rendezvous: none if it is the default. -/
def namedPort (env : SetupEnv) : Option (List Char) :=
  if env.getArgOr "port" (toString rendezvousPort) = toString rendezvousPort then none
  else some (env.getArgOr "port" (toString rendezvousPort)).toList

/-- The address of the rendezvous that is derived. -/
theorem idServer_derived (hderived : Derived env overrides scope) (hrequest : request.WellFormed)
    (hr : r.WellFormed) (h : DerivedFrom env scope request r) (key : String)
    (hport : ∀ p ∈ namedPort env, (readDigits p).isSome) :
    (clientSetupServer env overrides request.toText key scope).idServer =
      String.ofList (bareHost r.host ++ Authority.portChars (namedPort env)) := by
  have htext : (if env.getArgOr "port" (toString rendezvousPort) = toString rendezvousPort then
      String.ofList (bareHost r.host)
      else String.ofList (bareHost r.host) ++ ":" ++
        env.getArgOr "port" (toString rendezvousPort)) =
      String.ofList (bareHost r.host ++ Authority.portChars (namedPort env)) := by
    refine String.toList_inj.1 ?_
    unfold namedPort
    split_ifs <;> simp [Authority.portChars]
  rw [idServer_eq, derivedHost_eq hrequest hr h, if_neg (ofList_bareHost_ne hr.host), htext]
  refine firstNonEmpty_default hderived.id hderived.idFlag (trim_eq_self fun c hc => ?_)
  rw [String.toList_ofList, List.mem_append] at hc
  obtain hc | hc := hc
  · exact isWhitespace_bareHost hr.host c hc
  · exact isWhitespace_portChars hport c hc

/-! ## Reading the addresses back -/

/-- The host and the port of the URL of a server. -/
def readUrl (url : String) : Option (Host × Option ℕ) :=
  (stripScheme url.toList).bind fun parts =>
    readAuthority (parts.2.takeWhile fun c => !endsAuthority c)

/-- The addresses of a profile name the host, the port of the API if there is one, and the port of
the rendezvous, which is the default one where none is named. -/
structure KeepsAddress (server : ClientSetupServer) (host : Host) (apiPort : Option ℕ)
    (rendezvous : ℕ) : Prop where
  api : readUrl server.apiServer = some (host, apiPort)
  id : ∃ port, readAuthority server.idServer.toList = some (host, port) ∧
    port.getD rendezvousPort = rendezvous

theorem endsAuthority_of_isDigit {c : Char} (h : c.isDigit = true) : endsAuthority c = false := by
  simp only [endsAuthority, Bool.or_eq_false_iff, beq_eq_false_iff_ne]
  refine ⟨⟨?_, ?_⟩, ?_⟩ <;> rintro rfl <;> revert h <;> decide

theorem endsAuthority_bareHost {h : Host} (hh : h.WellFormed) :
    ∀ c ∈ bareHost h, endsAuthority c = false := by
  intro c hc
  simp only [endsAuthority, Bool.or_eq_false_iff, beq_eq_false_iff_ne]
  cases h with
  | name text =>
    have hchar : ∀ d, d ∈ ":/?#@[],".toList → c ≠ d := fun d => isHostChar_ne (hh.2 c hc)
    exact ⟨⟨hchar _ (by decide), hchar _ (by decide)⟩, hchar _ (by decide)⟩
  | ipv6 literal =>
    have hchar : ∀ d, isLiteralChar d = false → c ≠ d := fun d => isLiteralChar_ne (hh.2 c hc)
    exact ⟨⟨hchar _ (by decide), hchar _ (by decide)⟩, hchar _ (by decide)⟩

theorem readUrl_https {h : Host} (hh : h.WellFormed) {port : Option (List Char)}
    (hport : ∀ p ∈ port, (readDigits p).isSome) :
    readUrl (String.ofList ("https://".toList ++ (bareHost h ++ Authority.portChars port))) =
      readAuthority (bareHost h ++ Authority.portChars port) := by
  have hall : ∀ c ∈ bareHost h ++ Authority.portChars port, (!endsAuthority c) = true := by
    intro c hc
    rw [Bool.not_eq_true']
    obtain hc | hc := List.mem_append.1 hc
    · exact endsAuthority_bareHost hh c hc
    · cases port with
      | none => cases hc
      | some p =>
        obtain ⟨n, hn⟩ := Option.isSome_iff_exists.1 (hport p rfl)
        obtain rfl | hc := List.mem_cons.1 hc
        · decide
        · exact endsAuthority_of_isDigit ((readDigits_eq_some.1 hn).1 c hc)
  have hscheme : stripScheme ("https://".toList ++ (bareHost h ++ Authority.portChars port)) =
      some ("https", bareHost h ++ Authority.portChars port) := by
    rw [stripScheme, stripPrefix_append]
  rw [readUrl, String.toList_ofList, hscheme, Option.bind_some, List.takeWhile_eq_self_iff.2 hall]

/-- A literal without its brackets is read as a name, if at all. -/
theorem bareHost_head {h : Host} (hh : h.WellFormed) (rest : List Char) :
    (bareHost h ++ rest).head? ≠ some '[' := by
  have hne : ∀ c ∈ bareHost h, c ≠ '[' := by
    intro c hc
    cases h with
    | name text => exact isHostChar_ne (hh.2 c hc) (by decide)
    | ipv6 literal => exact isLiteralChar_ne (hh.2 c hc) (by decide)
  have hnil : bareHost h ≠ [] := by
    cases h with
    | name text => exact hh.1
    | ipv6 literal => exact List.ne_nil_of_mem hh.1
  obtain ⟨c, cs, hcons⟩ := List.exists_cons_of_ne_nil hnil
  rw [hcons]
  exact fun heq => hne c (hcons ▸ List.mem_cons_self) (Option.some.inj heq)

/-- **The addresses keep the host exactly if it is no literal of IPv6**, whatever the ports. -/
theorem keepsAddress_iff {n : ℕ} (hderived : Derived env overrides scope)
    (hrequest : request.WellFormed) (hr : r.WellFormed) (h : DerivedFrom env scope request r)
    (hn : readDigits (env.getArgOr "port" (toString rendezvousPort)).toList = some n)
    (key : String) :
    KeepsAddress (clientSetupServer env overrides request.toText key scope) r.host
      ((prescribedPort env request).bind readDigits) n ↔ r.host.IsName := by
  have hport := prescribedPort_isSome env hrequest
  have hnamed : ∀ p ∈ namedPort env, readDigits p = some n := by
    intro p hp
    unfold namedPort at hp
    split_ifs at hp with hdefault
    · cases hp
    · obtain rfl := Option.some.inj hp
      exact hn
  have hnamed' : ∀ p ∈ namedPort env, (readDigits p).isSome := fun p hp => by
    rw [hnamed p hp]
    rfl
  constructor
  · rintro ⟨hapi, -⟩
    rw [apiServer_derived hderived hrequest hr h key, readUrl_https hr.host hport] at hapi
    exact readAuthority_isName hapi (bareHost_head hr.host _)
  · intro hname
    cases hhost : r.host with
    | ipv6 literal =>
      rw [hhost] at hname
      exact hname.elim
    | name text =>
      have hwell : (Host.name text).WellFormed := hhost ▸ hr.host
      refine ⟨?_, (namedPort env).bind readDigits, ?_, ?_⟩
      · rw [apiServer_derived hderived hrequest hr h key, readUrl_https hr.host hport, hhost]
        exact readAuthority_name hwell hport
      · rw [idServer_derived hderived hrequest hr h key hnamed', String.toList_ofList, hhost]
        exact readAuthority_name hwell hnamed'
      · unfold namedPort
        split_ifs with hdefault
        · rw [hdefault] at hn
          have hdigits := readDigits_toString (n := rendezvousPort) (by decide)
          rw [hdigits] at hn
          exact Option.some.inj hn
        · change (readDigits _).getD rendezvousPort = n
          rw [hn, Option.getD_some]

/-! ## The profile for clients outside -/

/-- The bundle of the profile, but for where it was made. -/
theorem external_blind (env : SetupEnv) (overrides : ClientSetupRequest)
    (key deviceKey now : String) :
    (∀ authority authority' : String,
      (splitPort (trim authority).toList).2 = (splitPort (trim authority').toList).2 →
      clientSetupServer env overrides authority key .external =
        clientSetupServer env overrides authority' key .external ∧
      clientSetupBundle env overrides authority key deviceKey now .external =
        { clientSetupBundle env overrides authority' key deviceKey now .external with
          issuedFrom := authority }) ∧
    ∀ a a' : Authority, a.WellFormed → a'.WellFormed → a.port = a'.port →
      clientSetupServer env overrides a.toText key .external =
        clientSetupServer env overrides a'.toText key .external := by
  have hserver : ∀ authority authority' : String,
      (splitPort (trim authority).toList).2 = (splitPort (trim authority').toList).2 →
      clientSetupServer env overrides authority key .external =
        clientSetupServer env overrides authority' key .external := by
    intro authority authority' hport
    unfold clientSetupServer
    simp only [hport]
  refine ⟨fun authority authority' hport => ⟨hserver _ _ hport, ?_⟩, fun a a' ha ha' hport => ?_⟩
  · unfold clientSetupBundle
    rw [hserver _ _ hport]
  · refine hserver _ _ ?_
    rw [trim_toText ha, trim_toText ha', Authority.toText, Authority.toText, String.toList_ofList,
      String.toList_ofList, splitPort_chars ha, splitPort_chars ha', hport]

end Management

namespace Sample

open Management Str

/-- A server that was started with the relay of clients outside. -/
def setupEnv : SetupEnv where
  arg name := if name = "relay-servers" then some "relay.example.com:21117" else none
  certInfo := none
  parseSocketAddr _ := none

def blankRequest : ClientSetupRequest := ⟨none, none, none, none, none⟩

/-- `[fd00::1]:21120`, the address of a dashboard. -/
def literalAuthority : Authority := ⟨.ipv6 "fd00::1".toList, some "21120".toList⟩

theorem literalAuthority_wellFormed : literalAuthority.WellFormed where
  host := by decide
  port := by decide

theorem blank_derived (scope : ClientSetupScope) : Derived setupEnv blankRequest scope := by
  cases scope <;> exact ⟨by decide, by decide, by decide, by decide⟩

/-- The brackets are lost: `https://fd00::1:21120` names no host. -/
theorem not_keepsAddress : ¬ ∀ (env : SetupEnv) (overrides : ClientSetupRequest)
    (scope : ClientSetupScope) (request r : Authority) (n : ℕ) (key : String),
    Derived env overrides scope → request.WellFormed → r.WellFormed →
    DerivedFrom env scope request r →
    readDigits (env.getArgOr "port" (toString rendezvousPort)).toList = some n →
    KeepsAddress (clientSetupServer env overrides request.toText key scope) r.host
      ((prescribedPort env request).bind readDigits) n := by
  intro h
  obtain ⟨hapi, -⟩ := h setupEnv blankRequest .internal literalAuthority literalAuthority 21116 ""
    (blank_derived _) literalAuthority_wellFormed literalAuthority_wellFormed rfl (by decide)
  have hnone : readUrl (clientSetupServer setupEnv blankRequest literalAuthority.toText ""
      .internal).apiServer = none := by decide
  rw [hnone] at hapi
  cases hapi

/-- `10.0.0.5:21120`. -/
def lanAuthority : Authority := ⟨.name "10.0.0.5".toList, some "21120".toList⟩

/-- The dashboard was reached on the local network, and clients outside get the relay's host. -/
theorem keepsAddress_relay : KeepsAddress
    (clientSetupServer setupEnv blankRequest lanAuthority.toText "" .external)
    (.name "relay.example.com".toList) (some 21120) 21116 := by
  have hrequest : lanAuthority.WellFormed := ⟨by decide, by decide⟩
  exact (keepsAddress_iff (r := ⟨.name "relay.example.com".toList, some "21117".toList⟩)
    (blank_derived _) hrequest ⟨by decide, by decide⟩ (by rfl) (by decide) "").2 trivial

/-- What is printed of a bundle here: where it was made, and the address of the API. -/
def printBundle (b : ClientSetupBundle) : Except String String :=
  .ok (b.issuedFrom ++ " " ++ b.server.apiServer)

/-- The string for clients outside tells under which name the dashboard was reached. -/
theorem external_issuedFrom : ∃ (env : SetupEnv) (overrides : ClientSetupRequest)
    (encode : ClientSetupBundle → Except String String) (a a' : Authority),
    a.WellFormed ∧ a'.WellFormed ∧ a.port = a'.port ∧
    (clientSetupProfile env encode overrides a.toText "" "" "" .external).setupString ≠
      (clientSetupProfile env encode overrides a'.toText "" "" "" .external).setupString :=
  ⟨setupEnv, blankRequest, printBundle, lanAuthority, literalAuthority, ⟨by decide, by decide⟩,
    literalAuthority_wellFormed, rfl, by decide⟩

end Sample

end NemoServer
