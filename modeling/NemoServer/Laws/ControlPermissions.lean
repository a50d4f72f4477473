import NemoServer.Foundations.Lanes
import NemoServer.Server.Brokering
import NemoServer.Server.Sample

/-!
# The word of control permissions

The policy of a user says of each permission that it is disabled, that it is enabled, or nothing.
`control_permissions_for` packs this in one word, two bits a permission, and the numbers of the
permissions are their lanes: what a target unpacks is what the policy says.

* `control_permissions_decode`: the word has for each permission what its option says, and there is
  none exactly if no option is about a permission, or nobody is resolved.
-/

set_option autoImplicit false

namespace NemoServer

open Prog Management Lanes

variable {X : Setup}

/-- The numbers of the permissions are distinct and fit in the word. -/
structure Numbered (X : Deps) : Prop where
  injective : Function.Injective X.permissionValue
  range : ∀ p, 0 ≤ X.permissionValue p ∧ X.permissionValue p < 32

namespace Management

/-- What the word has for a permission, as a target reads it. -/
def permissionLane (X : Deps) (c : ControlPermissions) (p : Permission) : ℕ :=
  lane 2 c.permissions.toNat (X.permissionValue p).toNat

/-- What an option says of its permission: 1 disables it, 2 enables it. -/
def encodeOption (value : String) : ℕ := if Str.eqIgnoreAsciiCase value "N" then 1 else 2

/-- What the options say of the permissions they mention. -/
def permissionParts (X : Deps) (options : List (String × String)) : List (ℕ × ℕ) :=
  controlPermissionKeys.filterMap fun kp =>
    (options.lookup kp.1).map fun value => ((X.permissionValue kp.2).toNat, encodeOption value)

end Management

/-! ## The word -/

theorem permissionKeys_nodup : (controlPermissionKeys.map (·.2)).Nodup := by decide

theorem encodeOption_lt (value : String) : encodeOption value < 2 ^ 2 := by
  unfold encodeOption
  split <;> omega

/-- Writing an option to its lane. -/
theorem toNat_or_option (bits : UInt64) (value : String) {i : ℕ} (hi : i < 32) :
    (bits ||| (if Str.eqIgnoreAsciiCase value "N" then 1 else 2) <<< UInt64.ofNat (i * 2)).toNat =
      bits.toNat ||| encodeOption value <<< (2 * i) := by
  have hcode : (if Str.eqIgnoreAsciiCase value "N" then 1 else 2 : UInt64).toNat =
      encodeOption value := by
    unfold encodeOption
    split <;> rfl
  have hfits : encodeOption value <<< (2 * i) < 2 ^ 64 := by
    have hpow : 2 ^ (2 * i) ≤ 2 ^ 62 := Nat.pow_le_pow_right (by omega) (by omega)
    have hlt := encodeOption_lt value
    rw [Nat.shiftLeft_eq]
    calc encodeOption value * 2 ^ (2 * i) < 2 ^ 2 * 2 ^ 62 :=
          Nat.mul_lt_mul_of_lt_of_le hlt hpow (Nat.two_pow_pos 62)
      _ = 2 ^ 64 := by norm_num
  have hshift : (UInt64.ofNat (i * 2)).toNat % 64 = 2 * i := by
    rw [UInt64.toNat_ofNat']
    omega
  rw [UInt64.toNat_or, UInt64.toNat_shiftLeft, hcode, hshift, Nat.mod_eq_of_lt hfits]

/-- The word is packed from the parts. -/
theorem toNat_permissionBits (hX : Numbered X.toDeps) (options : List (String × String)) :
    (permissionBits X options).toNat = pack 2 (permissionParts X.toDeps options) 0 := by
  have hzero : (0 : UInt64).toNat = 0 := rfl
  unfold permissionBits permissionParts
  rw [← hzero]
  generalize (0 : UInt64) = bits
  generalize controlPermissionKeys = keys
  induction keys generalizing bits with
  | nil => rfl
  | cons kp keys ih =>
    obtain ⟨key, p⟩ := kp
    rw [List.foldl_cons, ih]
    cases hopt : options.lookup key with
    | none => simp [hopt]
    | some value =>
      obtain ⟨hge, hlt⟩ := hX.range p
      have hor := toNat_or_option bits value (i := (X.permissionValue p).toNat) (by omega)
      simp only [hge, hlt, and_self, if_true, hor, List.filterMap_cons, hopt, Option.map_some, pack,
        List.foldl_cons]

variable {options : List (String × String)}

theorem fits_of_mem_permissionParts (X : Deps) (options : List (String × String)) :
    ∀ part ∈ permissionParts X options, part.2 < 2 ^ 2 := by
  intro part hpart
  obtain ⟨kp, -, hmap⟩ := List.mem_filterMap.1 hpart
  obtain ⟨value, -, rfl⟩ := Option.map_eq_some_iff.1 hmap
  exact encodeOption_lt value

/-- Each permission has its lane alone. -/
theorem nodup_permissionParts {X : Deps} (hX : Numbered X) (options : List (String × String)) :
    ((permissionParts X options).map (·.1)).Nodup := by
  have hsub : ∀ keys : List (String × Permission),
      ((keys.filterMap fun kp => (options.lookup kp.1).map fun value =>
        ((X.permissionValue kp.2).toNat, encodeOption value)).map (·.1)).Sublist
      (keys.map fun kp => (X.permissionValue kp.2).toNat) := by
    intro keys
    induction keys with
    | nil => exact List.Sublist.refl _
    | cons kp keys ih =>
      cases hopt : options.lookup kp.1 with
      | none =>
        rw [List.filterMap_cons_none (by rw [hopt]; rfl), List.map_cons]
        exact ih.cons _
      | some value =>
        rw [List.filterMap_cons_some (by rw [hopt]; rfl), List.map_cons, List.map_cons]
        exact ih.cons_cons _
  refine (hsub controlPermissionKeys).nodup ?_
  have hcomp : (controlPermissionKeys.map fun kp => (X.permissionValue kp.2).toNat) =
      (controlPermissionKeys.map (·.2)).map fun p => (X.permissionValue p).toNat := by
    rw [List.map_map]
    rfl
  rw [hcomp]
  refine permissionKeys_nodup.map fun p q heq => hX.injective ?_
  have hp := (hX.range p).1
  have hq := (hX.range q).1
  omega

/-- The lane of a permission has what its option says. -/
theorem lane_permissionBits (hX : Numbered X.toDeps) {key : String} {p : Permission}
    (hkey : (key, p) ∈ controlPermissionKeys) :
    permissionLane X.toDeps ⟨permissionBits X options⟩ p =
      ((options.lookup key).map encodeOption).getD 0 := by
  have hnodup := nodup_permissionParts hX options
  have hfit := fits_of_mem_permissionParts X.toDeps options
  unfold permissionLane
  dsimp only
  rw [toNat_permissionBits hX]
  cases hopt : options.lookup key with
  | some value =>
    refine lane_pack hfit hnodup ?_ (lane_zero _)
    exact List.mem_filterMap.2 ⟨(key, p), hkey, by rw [hopt]; rfl⟩
  | none =>
    rw [lane_pack_of_notMem hfit, lane_zero]
    · rfl
    · intro hmem
      obtain ⟨part, hpart, hlane⟩ := List.mem_map.1 hmem
      obtain ⟨⟨key', q⟩, hq, hmap⟩ := List.mem_filterMap.1 hpart
      obtain ⟨value, hvalue, rfl⟩ := Option.map_eq_some_iff.1 hmap
      have hp := (hX.range p).1
      have hq' := (hX.range q).1
      dsimp only at hlane hvalue
      have hpq : q = p := hX.injective (by omega)
      have hsame : (key', q) = (key, p) :=
        List.inj_on_of_nodup_map permissionKeys_nodup hq hkey hpq
      rw [(Prod.mk.inj hsame).1, hopt] at hvalue
      cases hvalue

theorem permissionBits_eq_zero (hX : Numbered X.toDeps) : permissionBits X options = 0 ↔
    ∀ key p, (key, p) ∈ controlPermissionKeys → options.lookup key = none := by
  constructor
  · intro hbits key p hkey
    have hlane : permissionLane X.toDeps ⟨permissionBits X options⟩ p =
        ((options.lookup key).map encodeOption).getD 0 := lane_permissionBits hX hkey
    rw [hbits] at hlane
    have hzero : permissionLane X.toDeps ⟨0⟩ p = 0 := lane_zero _
    rw [hzero] at hlane
    cases hopt : options.lookup key with
    | none => rfl
    | some value =>
      rw [hopt, Option.map_some, Option.getD_some, encodeOption] at hlane
      split at hlane <;> cases hlane
  · intro hnone
    have hparts : permissionParts X.toDeps options = [] := by
      refine List.filterMap_eq_nil_iff.2 fun kp hkp => ?_
      rw [hnone kp.1 kp.2 hkp]
      rfl
    rw [← UInt64.toNat_inj, toNat_permissionBits hX, hparts]
    rfl

/-! ## What it decodes to -/

/-- The word made of a policy. -/
def wordOf (X : Setup) (policy : UserManagedPolicy) : Option ControlPermissions :=
  if permissionBits X policy.options = 0 then none else some ⟨permissionBits X policy.options⟩

/-- What a target gets is what the policy says; there is nothing without a policy, or if the policy
speaks of no permission. -/
structure Decodes (X : Deps) (word : Option ControlPermissions)
    (policy : Option UserManagedPolicy) : Prop where
  none_iff : word = none ↔ policy = none ∨ ∃ q, policy = some q ∧
    ∀ key p, (key, p) ∈ controlPermissionKeys → q.options.lookup key = none
  disabled : ∀ c q key p, word = some c → policy = some q → (key, p) ∈ controlPermissionKeys →
    (permissionLane X c p = 1 ↔
      ∃ v, q.options.lookup key = some v ∧ Str.eqIgnoreAsciiCase v "N" = true)
  enabled : ∀ c q key p, word = some c → policy = some q → (key, p) ∈ controlPermissionKeys →
    (permissionLane X c p = 2 ↔
      ∃ v, q.options.lookup key = some v ∧ Str.eqIgnoreAsciiCase v "N" = false)
  unset : ∀ c q key p, word = some c → policy = some q → (key, p) ∈ controlPermissionKeys →
    (permissionLane X c p = 0 ↔ q.options.lookup key = none)

theorem decodes_wordOf (hX : Numbered X.toDeps) (policy : Option UserManagedPolicy) :
    Decodes X.toDeps (policy.bind (wordOf X)) policy := by
  have hlane : ∀ c q key p, policy.bind (wordOf X) = some c → policy = some q →
      (key, p) ∈ controlPermissionKeys →
      permissionLane X.toDeps c p = ((q.options.lookup key).map encodeOption).getD 0 := by
    rintro c q key p hword rfl hkey
    rw [Option.bind_some, wordOf] at hword
    split at hword
    · cases hword
    · rw [← Option.some.inj hword]
      exact lane_permissionBits hX hkey
  refine ⟨?_, ?_, ?_, ?_⟩
  · cases policy with
    | none => simp
    | some q =>
      rw [Option.bind_some, wordOf]
      by_cases hbits : permissionBits X q.options = 0
      · rw [if_pos hbits]
        exact ⟨fun _ => .inr ⟨q, rfl, (permissionBits_eq_zero hX).1 hbits⟩, fun _ => rfl⟩
      · rw [if_neg hbits]
        constructor
        · intro h
          cases h
        · rintro (h | ⟨q', hq, hnone⟩)
          · cases h
          · obtain rfl := Option.some.inj hq
            exact absurd ((permissionBits_eq_zero hX).2 hnone) hbits
  all_goals
    intro c q key p hword hpolicy hkey
    rw [hlane c q key p hword hpolicy hkey]
    cases hopt : q.options.lookup key with
    | none => simp
    | some v =>
      simp only [Option.map_some, Option.getD_some, encodeOption]
      split <;> simp_all

/-! ## Who is resolved -/

/-- The token of a request. -/
def tokenOf (X : Setup) (source : Option NemoSource) (field : String) : Option String :=
  (controllerSourceAny X source field).bind fun x => x.2.2

/-- The policy of the user behind a token: of a live session, whose user is enabled. -/
def Server.resolvedPolicy (X : Setup) (s : Server) (token : Option String) :
    Option UserManagedPolicy :=
  ((token.bind fun token => (Integration.sessionForToken token s.clock s.sessions).1).filter
    fun session => Integration.userIsEnabled X s.cfg session.username).map
      fun session => Integration.userPolicy X s.cfg session.username

/-- The calls that resolve a token, the newest first, and the policy they find. -/
inductive Resolution (X : Setup) : Option String → Past → Option UserManagedPolicy → Prop
  | noToken : Resolution X none [] none
  | noSession {token : String} {s : Server}
    (h : (Integration.sessionForToken token s.clock s.sessions).1 = none) :
    Resolution X (some token) [⟨.sessionForToken token, s⟩] none
  | disabled {token : String} {s t : Server} {session : Session}
    (h : (Integration.sessionForToken token s.clock s.sessions).1 = some session)
    (hno : Integration.userIsEnabled X t.cfg session.username = false) :
    Resolution X (some token)
      [⟨.userIsEnabled session.username, t⟩, ⟨.sessionForToken token, s⟩] none
  | resolved {token : String} {s t u : Server} {session : Session}
    (h : (Integration.sessionForToken token s.clock s.sessions).1 = some session)
    (hyes : Integration.userIsEnabled X t.cfg session.username = true) :
    Resolution X (some token)
      [⟨.userPolicy session.username, u⟩, ⟨.userIsEnabled session.username, t⟩,
        ⟨.sessionForToken token, s⟩]
      (some (Integration.userPolicy X u.cfg session.username))

/-- Every execution resolves the token, and makes the word of the policy it finds. -/
theorem controlPermissionsFor_exec {source : Option NemoSource} {field : String} {h h' : Past}
    {res : Option ControlPermissions}
    (he : (controlPermissionsFor X source field).Exec (Op.sem X) h h' res) :
    ∃ new policy, h' = new ++ h ∧ Resolution X (tokenOf X source field) new policy ∧
      res = policy.bind (wordOf X) := by
  unfold controlPermissionsFor at he
  split at he
  · next hnone =>
    have hnone : tokenOf X source field = none := hnone
    obtain ⟨rfl, rfl⟩ := he
    rw [hnone]
    exact ⟨[], none, rfl, .noToken, rfl⟩
  · next token htoken =>
    have htoken : tokenOf X source field = some token := htoken
    rw [htoken]
    obtain ⟨h₁, found, henabled, he⟩ := exec_bind.1 he
    obtain ⟨h₂, session, ⟨s, hh₂, hsession⟩, henabled⟩ := exec_bind.1 henabled
    have hsession : session = (Integration.sessionForToken token s.clock s.sessions).1 := by
      rw [hsession, sem_sessionForToken_eq]
    subst hh₂
    cases session with
    | none =>
      obtain ⟨rfl, rfl⟩ := henabled
      obtain ⟨rfl, rfl⟩ := he
      exact ⟨_, none, rfl, .noSession hsession.symm, rfl⟩
    | some session =>
      obtain ⟨t, henabled⟩ := henabled
      obtain ⟨rfl, hfound⟩ := henabled
      have hfound : found = if Integration.userIsEnabled X t.cfg session.username then some session
        else none := hfound
      cases hyes : Integration.userIsEnabled X t.cfg session.username with
      | false =>
        rw [hyes, if_neg Bool.false_ne_true] at hfound
        subst hfound
        obtain ⟨rfl, rfl⟩ := he
        exact ⟨_, none, rfl, .disabled hsession.symm hyes, rfl⟩
      | true =>
        rw [hyes, if_pos rfl] at hfound
        subst hfound
        obtain ⟨u, rfl, rfl⟩ := he
        exact ⟨_, _, rfl, .resolved hsession.symm hyes, rfl⟩

/-- While nothing but an expired session is dropped, the policy that is found is that of the
state. -/
theorem Resolution.asked {s : Server} {token : Option String} {calls : Past}
    {policy : Option UserManagedPolicy} (h : Resolution X token calls policy)
    (hs : ∀ x ∈ calls, Asked s x.pre) : policy = s.resolvedPolicy X token := by
  have hcfg : ∀ {t : Server}, Asked s t → t.cfg = s.cfg := fun ht => by rw [ht.eq]
  have hfound : ∀ {token : String} {t : Server}, Asked s t →
      (Integration.sessionForToken token t.clock t.sessions).1 =
        (Integration.sessionForToken token s.clock s.sessions).1 := by
    intro token t ht
    have hclock : t.clock = s.clock := by rw [ht.eq]
    rw [hclock, ht.session]
  cases h with
  | noToken => rfl
  | @noSession token s₁ hnone =>
    have hasked : Asked s s₁ := hs ⟨.sessionForToken token, s₁⟩ (by simp)
    rw [hfound hasked] at hnone
    simp [Server.resolvedPolicy, hnone]
  | @disabled token s₁ t session hsome hno =>
    have hasked : Asked s s₁ := hs ⟨.sessionForToken token, s₁⟩ (by simp)
    have hasked' : Asked s t := hs ⟨.userIsEnabled session.username, t⟩ (by simp)
    rw [hfound hasked] at hsome
    rw [hcfg hasked'] at hno
    simp [Server.resolvedPolicy, hsome, hno]
  | @resolved token s₁ t u session hsome hyes =>
    have hasked : Asked s s₁ := hs ⟨.sessionForToken token, s₁⟩ (by simp)
    have hasked' : Asked s t := hs ⟨.userIsEnabled session.username, t⟩ (by simp)
    have hasked'' : Asked s u := hs ⟨.userPolicy session.username, u⟩ (by simp)
    rw [hfound hasked] at hsome
    rw [hcfg hasked'] at hyes
    simp [Server.resolvedPolicy, hsome, hyes, hcfg hasked'']

/-! ## The law -/

/-- The word that is sent has for each permission what the policy of the user says, in the state
the request finds, and if others come between, in those its calls find; a permission is told by its
own option alone. -/
theorem control_permissions_decode (hX : Numbered X.toDeps) (source : Option NemoSource)
    (field : String) :
    (∀ s, Decodes X.toDeps (resolves X s source field)
      (s.resolvedPolicy X (tokenOf X source field))) ∧
    (∀ (adj : Past → Server → Server) (past : Past) (s : Server), ∃ new policy,
      ((controlPermissionsFor X source field).solo (Op.sem X) adj past s).2.1 = new ++ past ∧
        Resolution X (tokenOf X source field) new policy ∧
        Decodes X.toDeps ((controlPermissionsFor X source field).solo (Op.sem X) adj past s).1
          policy) ∧
    ∀ options options' key p, (key, p) ∈ controlPermissionKeys →
      options.lookup key = options'.lookup key →
      permissionLane X.toDeps ⟨permissionBits X options⟩ p =
        permissionLane X.toDeps ⟨permissionBits X options'⟩ p := by
  have hall : ∀ (adj : Past → Server → Server) (past : Past) (s : Server), ∃ new policy,
      ((controlPermissionsFor X source field).solo (Op.sem X) adj past s).2.1 = new ++ past ∧
        Resolution X (tokenOf X source field) new policy ∧
        ((controlPermissionsFor X source field).solo (Op.sem X) adj past s).1 =
          policy.bind (wordOf X) := by
    intro adj past s
    obtain ⟨calls, hcalls, hexec, -⟩ :=
      exec_solo (Op.sem X) adj (controlPermissionsFor X source field) past s
    obtain ⟨new, policy, hnew, hres, hword⟩ := controlPermissionsFor_exec hexec
    exact ⟨new, policy, hcalls.trans hnew, hres, hword⟩
  refine ⟨fun s => ?_, fun adj past s => ?_, fun options options' key p hkey hsame => ?_⟩
  · obtain ⟨new, policy, hnew, hres, hword⟩ := hall still [] s
    have hcalls : ∃ new, ((controlPermissionsFor X source field).solo (Op.sem X) still [] s).2.1 =
        new ++ [] ∧ ∀ x ∈ new, Asked s x.pre :=
      (controlPermissionsFor_asks X source field).calls (Asked.refl s) (fun _ _ ht => ht)
        fun _ _ ho ht => ht.sem ho
    obtain ⟨new', hnew', hasked⟩ := hcalls
    have heq : new = new' := List.append_cancel_right (hnew.symm.trans hnew')
    subst heq
    rw [resolves, hword, hres.asked hasked]
    exact decodes_wordOf hX _
  · obtain ⟨new, policy, hnew, hres, hword⟩ := hall adj past s
    exact ⟨new, policy, hnew, hres, hword ▸ decodes_wordOf hX policy⟩
  · rw [lane_permissionBits hX hkey, lane_permissionBits hX hkey, hsame]

namespace Sample

/-- The permissions in the order of their numbers. -/
def permissions : List Permission :=
  [.keyboard, .remotePrinter, .clipboard, .file, .audio, .camera, .terminal, .tunnel, .restart,
    .recording, .blockInput, .remoteModify, .privacyMode]

def numbered : Setup :=
  { setup .off false with permissionValue := fun p => (permissions.idxOf p : ℤ) }

theorem numbered_numbered : Numbered numbered.toDeps where
  injective p q h := by
    have hidx : permissions.idxOf p = permissions.idxOf q := Int.ofNat_inj.1 h
    have hmem : p ∈ permissions := by cases p <;> decide
    exact (List.idxOf_inj hmem).1 hidx
  range p := by cases p <;> decide

end Sample

/-- Of two options about other permissions neither tells the keyboard. -/
theorem control_permissions_decode_numbered :
    permissionLane Sample.numbered.toDeps
        ⟨permissionBits Sample.numbered [("enable-keyboard", "n"), ("enable-audio", "Y")]⟩
        .keyboard =
      permissionLane Sample.numbered.toDeps
        ⟨permissionBits Sample.numbered [("enable-keyboard", "n"), ("enable-camera", "N")]⟩
        .keyboard :=
  (control_permissions_decode Sample.numbered_numbered none "").2.2 _ _ "enable-keyboard" .keyboard
    (by decide) (by decide)

end NemoServer
