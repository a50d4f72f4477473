import NemoServer.Laws.Certificates
import NemoServer.Laws.Rotation

/-!
# The public key that is reported

`server_public_key_on_disk_at` prefers the file `.pub` to the secret key. After rotations that may
each fail or stop anywhere, what it reports is the public half of the secret key on disk, or
nothing, exactly as long as every rotation that replaces the key also replaces what `.pub` says.
A rotation that opens `.pub` and writes only a part of it, or does not open it at all, leaves an
old or a torn public key to be reported.

* `accurate_iff`: when a directory reports the right key.
* `At.accurate_iff`: which stages of a rotation do.
* `publicCopy_accurate_iff`: the law for any sequence of rotations.
-/

set_option autoImplicit false

namespace NemoServer

namespace Keys

open Prog Str

/-- What is reported, with the calls of the file system failing as `faults` says. -/
def reportedKey (X : KeyDeps) (sk : String) (faults : ℕ → Bool) (s : KeyHost) : String :=
  ((serverPublicKeyOnDiskAt X sk).solo (KeyOp.sem X) (script faults fun _ => 0) [] s).1

/-- The public half of the secret key on disk. -/
def secretHalf (X : KeyDeps) (sk : String) (d : Disk String) : Option String :=
  ((d.text sk).bind fromUtf8).bind (publicHalf X)

/-- Whatever calls fail, the public half of the secret key on disk is reported, or nothing. -/
def Accurate (X : KeyDeps) (sk : String) (s : KeyHost) : Prop :=
  ∀ faults, reportedKey X sk faults s = "" ∨
    secretHalf X sk s.disk = some (reportedKey X sk faults s)

/-- What the file `.pub` says; nothing if it is missing, blank or no text. -/
def copyText (sk : String) (d : Disk String) : String :=
  (((d.text (pubFile sk)).bind fromUtf8).map trim).getD ""

/-- A call of `rotate_server_key_at`, in the process `pid`: which calls of the file system fail,
what the clock says, and after how many calls it is stopped. -/
structure RotationTry where
  pid : ℕ
  faults : ℕ → Bool
  clocks : ℕ → ℕ
  calls : ℕ

namespace RotationTry

variable (X : KeyDeps) (sk : String) (a : RotationTry) (s : KeyHost)

def after : KeyHost := (stoppedRotation X sk a.pid a.faults a.clocks a.calls s).2.2

/-- The stage that is reached. -/
def stage : Stage := stageOf sk a.pid (stoppedRotation X sk a.pid a.faults a.clocks a.calls s).2.1

end RotationTry

/-- The rotations of a sequence, each with the state it starts in. -/
def tries (X : KeyDeps) (sk : String) : List RotationTry → KeyHost → List (RotationTry × KeyHost)
  | [], _ => []
  | a :: as, s => (a, s) :: tries X sk as (a.after X sk s)

/-- The copy is right again: nothing of the new public key was written to it, or all of it; where
it was not opened it said nothing, or the new key already. -/
def Stage.Renews (X : KeyDeps) (sk : String) (d₀ : Disk String) : Stage → Prop
  | .kept => True
  | .aside => copyText sk d₀ = ""
  | .replaced k => copyText sk d₀ = "" ∨ copyText sk d₀ = (keyOf X k).1
  | .copied k j => j = 0 ∨ (toUtf8 (keyOf X k).1).length ≤ j

section Laws

variable {X : KeyDeps} {sk : String} {s : KeyHost} {faults : ℕ → Bool} {clocks : ℕ → ℕ}
  {h : List KeyCall}

/-! ## What is reported -/

/-- A call of the file system that only looks. -/
theorem ends_look {o : FileOp String} (ho : KeyOp.Looks (.file o))
    {Q : o.Res → List KeyCall → KeyHost → Prop}
    (hQ : ∀ h' s', s'.disk = s.disk → Q (o.sem (faults h.length) s.disk).1 h' s') :
    (file o).Ends (KeyOp.sem X) (script faults clocks) Q h s :=
  hQ _ _ (disk_looks (X := X) (o := .file o) ho _)

/-- A file is read, or cannot be. -/
theorem ends_readToString (path : String) :
    (readToString path).Ends (KeyOp.sem X) (script faults clocks) (fun r _ s' =>
      s'.disk = s.disk ∧ (r = none ∨ r = (s.disk.text path).bind fromUtf8) ∧
        ((∀ n, faults n = false) → r = (s.disk.text path).bind fromUtf8)) h s := by
  refine ends_bind.2 (ends_look (o := .openRead path) trivial fun h' s' hdisk => ?_)
  by_cases hfault : faults h.length = true
  · have hopen : ((FileOp.openRead path).sem (faults h.length) s.disk).1 = none := if_pos hfault
    rw [hopen]
    refine ⟨hdisk, .inl rfl, fun hnone => ?_⟩
    rw [hnone] at hfault
    cases hfault
  · have hopen : ((FileOp.openRead path).sem (faults h.length) s.disk).1 = s.disk.paths path :=
      if_neg hfault
    rw [hopen]
    cases hleads : s.disk.paths path with
    | none =>
      rw [(Disk.text_eq_none _).2 hleads]
      exact ⟨hdisk, .inl rfl, fun _ => rfl⟩
    | some i =>
      rw [Disk.text_of_leads _ hleads]
      refine ends_bind.2 (ends_look (o := .read i) trivial fun h'' s'' hdisk' => ?_)
      rw [hdisk] at hdisk'
      have hread : ((FileOp.read i).sem (faults h'.length) s'.disk).1 =
          if faults h'.length then none else some (s.disk.content i) := by
        rw [hdisk]
        rfl
      rw [hread]
      by_cases hfault' : faults h'.length = true
      · rw [if_pos hfault']
        refine ⟨hdisk', .inl rfl, fun hnone => ?_⟩
        rw [hnone] at hfault'
        cases hfault'
      · rw [if_neg hfault']
        exact ⟨hdisk', .inr rfl, fun _ => rfl⟩

/-- What `.pub` says is reported, or what the secret key says, or nothing. -/
theorem reportedKey_cases (X : KeyDeps) (sk : String) (faults : ℕ → Bool) (s : KeyHost) :
    (reportedKey X sk faults s = "" ∨ reportedKey X sk faults s = copyText sk s.disk ∨
      secretHalf X sk s.disk = some (reportedKey X sk faults s)) ∧
    ((∀ n, faults n = false) → copyText sk s.disk ≠ "" →
      reportedKey X sk faults s = copyText sk s.disk) := by
  have hends : (serverPublicKeyOnDiskAt X sk).Ends (KeyOp.sem X) (script faults fun _ => 0)
      (fun r _ _ => (r = "" ∨ r = copyText sk s.disk ∨ secretHalf X sk s.disk = some r) ∧
        ((∀ n, faults n = false) → copyText sk s.disk ≠ "" → r = copyText sk s.disk)) [] s := by
    refine ends_bind.2 ((ends_readToString _).mono fun pk h' s' hpk => ?_)
    obtain ⟨hdisk, hpk, hworks⟩ := hpk
    have hcopy : (pk.map trim).getD "" = "" ∨ (pk.map trim).getD "" = copyText sk s.disk := by
      obtain rfl | rfl := hpk
      · exact .inl rfl
      · exact .inr rfl
    dsimp only
    split
    · next hne =>
      have heq := hcopy.resolve_left hne
      exact ⟨.inr (.inl heq), fun _ _ => heq⟩
    · next hblank =>
      have hblank : (pk.map trim).getD "" = "" := not_not.1 hblank
      refine ends_bind.2 ((ends_readToString _).mono fun contents h'' s'' hcontents => ?_)
      obtain ⟨-, hcontents, -⟩ := hcontents
      rw [hdisk] at hcontents
      refine ⟨?_, fun hnone hne => absurd ?_ hne⟩
      · obtain rfl | rfl := hcontents
        · exact .inl rfl
        · change (secretHalf X sk s.disk).getD "" = "" ∨ _ ∨
            secretHalf X sk s.disk = some ((secretHalf X sk s.disk).getD "")
          cases secretHalf X sk s.disk with
          | none => exact .inl rfl
          | some pk => exact .inr (.inr rfl)
      · rw [← hblank, hworks hnone]
        rfl
  exact hends

/-- A directory reports the right key if `.pub` says nothing, or the right key. -/
theorem accurate_iff : Accurate X sk s ↔
    copyText sk s.disk = "" ∨ secretHalf X sk s.disk = some (copyText sk s.disk) := by
  constructor
  · intro hacc
    by_cases hne : copyText sk s.disk = ""
    · exact .inl hne
    · have hreport := (reportedKey_cases X sk (fun _ => false) s).2 (fun _ => rfl) hne
      have hright := hacc fun _ => false
      rw [hreport] at hright
      exact hright
  · intro hcopy faults
    obtain hempty | heq | hhalf := (reportedKey_cases X sk faults s).1
    · exact .inl hempty
    · rw [heq]
      exact hcopy
    · exact .inr hhalf

/-! ## The new public key -/

/-- The key text of a key pair tells its public half. -/
theorem publicHalf_keyOf (hX : X.Sound) (k : ℕ) :
    (fromUtf8 (keyText X (keyOf X k).2)).bind (publicHalf X) = some (keyOf X k).1 := by
  have hlen : ((keyOf X k).2.length = 64) := hX.length k
  rw [keyText, fromUtf8_toUtf8, Option.bind_some, publicHalf, hX.trimmed, hX.decode]
  simp only [Option.filter_some, hlen, decide_true, if_true, Option.map_some]
  exact congrArg (fun b => some (X.base64Encode b)) (hX.half k)

/-- Some characters of base64, as the bytes of a text. -/
theorem trim_take (hcodec : Integration.Base64Codec X.toDeps) (b : Bytes) (j : ℕ) :
    ((fromUtf8 ((toUtf8 (X.base64Encode b)).take j)).map trim).getD "" =
      String.ofList ((X.base64Encode b).toList.take j) := by
  have hascii : ∀ c ∈ (X.base64Encode b).toList, c.toNat < 0x80 := fun c hc => by
    have hprinted := (hcodec.printed b c hc).2
    omega
  have htake : ∀ c ∈ (String.ofList ((X.base64Encode b).toList.take j)).toList,
      c ∈ (X.base64Encode b).toList := fun c hc => by
    rw [String.toList_ofList] at hc
    exact List.mem_of_mem_take hc
  have hbytes : (toUtf8 (X.base64Encode b)).take j =
      toUtf8 (String.ofList ((X.base64Encode b).toList.take j)) := by
    rw [toUtf8_of_ascii hascii, toUtf8_of_ascii fun c hc => hascii c (htake c hc),
      String.toList_ofList, List.map_take]
  rw [hbytes, fromUtf8_toUtf8, Option.map_some, Option.getD_some,
    trim_eq_self fun c hc => hcodec.isWhitespace b c (htake c hc)]

theorem length_toUtf8_base64 (hcodec : Integration.Base64Codec X.toDeps) (b : Bytes) :
    (toUtf8 (X.base64Encode b)).length = (X.base64Encode b).toList.length := by
  rw [toUtf8_of_ascii fun c hc => ?_, List.length_map]
  have hprinted := (hcodec.printed b c hc).2
  omega

/-- A part of the new public key reads as nothing or as the key only if it is nothing or all. -/
theorem torn_iff (hcodec : Integration.Base64Codec X.toDeps) (b : Bytes) (j : ℕ) :
    (String.ofList ((X.base64Encode b).toList.take j) = "" ∨
        String.ofList ((X.base64Encode b).toList.take j) = X.base64Encode b) ↔
      j = 0 ∨ (toUtf8 (X.base64Encode b)).length ≤ j := by
  rw [length_toUtf8_base64 hcodec, ← String.toList_inj, ← String.toList_inj,
    String.toList_ofList, List.take_eq_self_iff, String.toList_empty, List.take_eq_nil_iff]
  constructor
  · rintro ((hzero | hnil) | hall)
    · exact .inl hzero
    · rw [hnil]
      exact .inr (Nat.zero_le _)
    · exact .inr hall
  · rintro (hzero | hall)
    · exact .inl (.inl hzero)
    · exact .inr hall

/-! ## The stages -/

/-- The stages that report the right key are those that renew the copy. -/
theorem At.accurate_iff (hX : X.Sound) (hcodec : Integration.Base64Codec X.toDeps) {pid : ℕ}
    {s₀ : KeyHost} {g : Stage} (hacc : Accurate X sk s₀) (hg : At X sk pid s₀.disk g h s.disk) :
    Accurate X sk s ↔ g.Renews X sk s₀.disk := by
  rw [Keys.accurate_iff] at hacc ⊢
  have hkey := hg.key
  have hpub := hg.pub
  have hsame : s.disk.text (pubFile sk) = s₀.disk.text (pubFile sk) →
      copyText sk s.disk = copyText sk s₀.disk := fun heq => by rw [copyText, heq, copyText]
  have hnew : ∀ k, s.disk.text sk = some (keyText X (keyOf X k).2) →
      secretHalf X sk s.disk = some (keyOf X k).1 := fun k heq => by
    rw [secretHalf, heq, Option.bind_some, publicHalf_keyOf hX]
  cases g with
  | kept =>
    have hhalf : secretHalf X sk s.disk = secretHalf X sk s₀.disk :=
      congrArg (fun t : Option Bytes => (t.bind fromUtf8).bind (publicHalf X)) hkey
    rw [hsame hpub, hhalf]
    exact iff_of_true hacc trivial
  | aside =>
    have hhalf : secretHalf X sk s.disk = none :=
      congrArg (fun t : Option Bytes => (t.bind fromUtf8).bind (publicHalf X)) hkey
    rw [hsame hpub, hhalf]
    exact or_iff_left fun hsome => by cases hsome
  | replaced k =>
    rw [hsame hpub, hnew k hkey, Option.some_inj, eq_comm (a := (keyOf X k).1)]
    exact Iff.rfl
  | copied k j =>
    have htext : copyText sk s.disk = String.ofList ((keyOf X k).1.toList.take j) :=
      (congrArg (fun t : Option Bytes => ((t.bind fromUtf8).map trim).getD "") hpub).trans
        (trim_take hcodec (X.signKeypair k).1 j)
    rw [htext, hnew k hkey, Option.some_inj, eq_comm (a := (keyOf X k).1)]
    exact torn_iff hcodec (X.signKeypair k).1 j

/-- One rotation, from a directory that reports the right key. -/
theorem accurate_after_iff (hX : X.Sound) (hcodec : Integration.Base64Codec X.toDeps)
    (hs : s.disk.Apart (Rotates sk)) (hacc : Accurate X sk s) (a : RotationTry) :
    Accurate X sk (a.after X sk s) ↔ (a.stage X sk s).Renews X sk s.disk :=
  (stage_stopped X a.pid a.faults a.clocks hs a.calls).1.accurate_iff hX hcodec hacc

end Laws

/-- In every sequence of rotations, failing and stopping anywhere, the right key is reported after
each of them exactly if each of them renews the copy. -/
theorem publicCopy_accurate_iff (X : KeyDeps) (hX : X.Sound)
    (hcodec : Integration.Base64Codec X.toDeps) (sk : String) (as : List RotationTry) (s : KeyHost)
    (hs : s.disk.Apart (Rotates sk)) (hacc : Accurate X sk s) :
    (∀ x ∈ tries X sk as s, Accurate X sk (x.1.after X sk x.2)) ↔
      ∀ x ∈ tries X sk as s, (x.1.stage X sk x.2).Renews X sk x.2.disk := by
  induction as generalizing s with
  | nil => exact iff_of_true (fun x hx => by cases hx) fun x hx => by cases hx
  | cons a as ih =>
    have hapart := (stage_stopped X a.pid a.faults a.clocks hs a.calls).1.apart
    simp only [tries, List.forall_mem_cons]
    rw [accurate_after_iff hX hcodec hs hacc a]
    refine and_congr_right fun hrenews => ih _ hapart ?_
    exact (accurate_after_iff hX hcodec hs hacc a).2 hrenews

namespace Sample

/-- A directory with a key and its public copy. -/
def pairedHost : KeyHost :=
  ⟨⟨(Table.empty.insert skFile 0).insert (pubFile skFile) 1, fun i =>
      if i = 0 then keyText keyDeps (keyOf keyDeps 7).2 else toUtf8 (keyOf keyDeps 7).1, 2⟩,
    false, 1000, 0, []⟩

theorem pairedHost_apart : pairedHost.disk.Apart (Rotates skFile) := by
  have honly : ∀ path i, pairedHost.disk.paths path = some i →
      path = pubFile skFile ∧ i = 1 ∨ path = skFile ∧ i = 0 := by
    intro path i h
    obtain ⟨hpath, hi⟩ | ⟨-, h⟩ := Table.insert_eq_some.1 h
    · exact .inl ⟨hpath, hi.symm⟩
    · obtain ⟨hpath, hi⟩ | ⟨-, h⟩ := Table.insert_eq_some.1 h
      · exact .inr ⟨hpath, hi.symm⟩
      · cases h
  constructor
  · intro path i h
    change i < 2
    obtain ⟨-, rfl⟩ | ⟨-, rfl⟩ := honly path i h <;> omega
  · intro p q i _ _ hp hq
    obtain ⟨rfl, rfl⟩ | ⟨rfl, rfl⟩ := honly p i hp
    · obtain ⟨rfl, -⟩ | ⟨-, hi⟩ := honly q _ hq
      · rfl
      · cases hi
    · obtain ⟨-, hi⟩ | ⟨rfl, -⟩ := honly q _ hq
      · cases hi
      · rfl

theorem codec_keyDeps : Integration.Base64Codec keyDeps.toDeps := NemoServer.Sample.base64Deps_codec

theorem accurate_pairedHost : Accurate keyDeps skFile pairedHost :=
  accurate_iff.2 (.inr (by decide +kernel))

/-- The file `.pub` cannot be opened for writing. -/
def unopenedTry : RotationTry := ⟨1, fun n => n = 96, fun _ => 1000, 200⟩

/-- A rotation that goes through. -/
def goodTry : RotationTry := ⟨1, fun _ => false, fun _ => 1000, 200⟩

/-- And one whose new key cannot be published. -/
def rolledBackTry : RotationTry := ⟨1, fun n => n = 95, fun _ => 1001, 200⟩

theorem stages_goodTries : (tries keyDeps skFile [goodTry, rolledBackTry] pairedHost).map
    (fun x => x.1.stage keyDeps skFile x.2) = [.copied 0 44, .kept] := by
  decide +kernel

theorem length_newKey : (toUtf8 (keyOf keyDeps 0).1).length = 44 := by decide +kernel

end Sample

/-- The second rotation puts the key of the first one back, which is what `.pub` says. -/
theorem publicCopy_accurate_rollback :
    Accurate Sample.keyDeps skFile
        (Sample.goodTry.after Sample.keyDeps skFile Sample.pairedHost) ∧
      Accurate Sample.keyDeps skFile (Sample.rolledBackTry.after Sample.keyDeps skFile
        (Sample.goodTry.after Sample.keyDeps skFile Sample.pairedHost)) := by
  have hall := (publicCopy_accurate_iff Sample.keyDeps Sample.keyDeps_sound Sample.codec_keyDeps
    skFile [Sample.goodTry, Sample.rolledBackTry] Sample.pairedHost Sample.pairedHost_apart
    Sample.accurate_pairedHost).2 ?_
  · simp only [tries, List.forall_mem_cons] at hall
    exact ⟨hall.1, hall.2.1⟩
  · intro x hx
    have hstage := List.mem_map_of_mem (f := fun x => x.1.stage Sample.keyDeps skFile x.2) hx
    rw [Sample.stages_goodTries] at hstage
    obtain heq | heq : _ = Stage.copied 0 44 ∨ _ = Stage.kept := by simpa using hstage
    · rw [heq]
      exact .inr Sample.length_newKey.le
    · rw [heq]
      trivial

/-- The key is rotated and `.pub` cannot be opened: the retired key is reported. -/
theorem not_publicCopy_accurate : ¬∀ (X : KeyDeps) (sk : String) (as : List RotationTry)
    (s : KeyHost), X.Sound → Integration.Base64Codec X.toDeps → s.disk.Apart (Rotates sk) →
    Accurate X sk s → ∀ x ∈ tries X sk as s, Accurate X sk (x.1.after X sk x.2) := by
  intro hall
  have hacc := hall Sample.keyDeps skFile [Sample.unopenedTry] Sample.pairedHost
    Sample.keyDeps_sound Sample.codec_keyDeps Sample.pairedHost_apart Sample.accurate_pairedHost
    _ List.mem_cons_self
  have hold : copyText skFile
      (Sample.unopenedTry.after Sample.keyDeps skFile Sample.pairedHost).disk =
        (keyOf Sample.keyDeps 7).1 := by decide +kernel
  have hnew : secretHalf Sample.keyDeps skFile
      (Sample.unopenedTry.after Sample.keyDeps skFile Sample.pairedHost).disk =
        some (keyOf Sample.keyDeps 0).1 := by decide +kernel
  rw [accurate_iff, hold, hnew] at hacc
  exact absurd hacc (by decide +kernel)

end Keys

end NemoServer
