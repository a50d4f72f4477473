import NemoServer.Laws.Rotation

/-!
# What rotations leave of the keys

Calls of `rotate_server_key_at` side by side. As long as every rename goes to a name that is free,
and no call opens its temporary file while another one of its process writes or publishes it, every
key that ever was the server's is found at its path or in an archive, and what is published is the
complete key of the call that publishes it. Two rotations in one second already break this: the
second one archives its key over the first one's.

* `opened`: the file a call writes or is about to publish, read off its history.
* `Proper`: what the code of a rotation does, by its history.
* `Orderly`: the invariant of careful runs.
-/

set_option autoImplicit false

namespace NemoServer

namespace Keys

open Prog Str

/-! ## Drafts -/

/-- A file that is being written: its name, itself, and how many bytes are written. -/
structure Draft where
  path : String
  file : ℕ
  written : ℕ

/-- The file a call writes, or has written and is about to publish. -/
def opened (sk : String) : List KeyCall → Option Draft
  | [] => none
  | ⟨.file (.create path), s⟩ :: _ =>
    ((FileOp.create path).sem s.fault s.disk).1.map fun i => ⟨path, i, 0⟩
  | ⟨.file (.writeAt _ _ _), s⟩ :: h =>
    if s.fault then none else (opened sk h).map fun D => { D with written := D.written + 1 }
  | ⟨.file (.rename old new), s⟩ :: h =>
    if old = sk ∧ ((FileOp.rename old new).sem s.fault s.disk).1 = true then opened sk h else none
  | ⟨.file (.removeFile _), _⟩ :: _ => none
  | _ :: h => opened sk h

abbrev RotationItem := Item KeyOp KeyHost Rotation KeyEnv

abbrev RotationPool := Pool KeyOp KeyOp.Res KeyHost Rotation

/-- A call of the file system that may be made by the rotation `n` without loss: a rename that goes
through finds the new name free, and a temporary file is not the draft of another call. -/
def Careful (sk : String) (p : RotationPool) (n : ℕ) : FileOp String → Prop
  | .rename old new => p.shared.fault = false → (p.shared.disk.paths old).isSome →
    p.shared.disk.paths new = none
  | .create path => p.shared.fault = false → path ≠ pubFile sk → ∀ m L D, m ≠ n →
    p.live m = some L → opened sk L.past = some D → D.path ≠ path
  | _ => True

/-- Every step is careful. -/
def CarefulRun (sk : String) (_ : List RotationItem) (p : RotationPool) :
    Choice Rotation KeyEnv → Prop
  | .step n => ∀ j past o k, p.live n = some ⟨j, past, .call (.file o) k⟩ → Careful sk p n o
  | _ => True

/-- The text is that of the key, or of an archive. -/
def Kept (sk : String) (text : Bytes) (d : Disk String) : Prop :=
  d.text sk = some text ∨ ∃ stamp, d.text (archiveFile sk stamp) = some text

/-! ## What a rotation does -/

/-- The calls of a rotation, after its history. -/
def Proper (X : KeyDeps) (sk : String) (j : Rotation) (past : List KeyCall) : KeyOp → Prop
  | .file (.create path) => path = pubFile sk ∨
    path = rotatingFile sk j.pid ∧ ∃ k, lastMinted past = some k
  | .file (.writeAt i off b) => ∃ D, opened sk past = some D ∧ D.file = i ∧ D.written = off ∧
    (D.path = rotatingFile sk j.pid → ∃ k, lastMinted past = some k ∧
      (keyText X (keyOf X k).2)[off]? = some b)
  | .file (.rename old new) =>
    (old = rotatingFile sk j.pid ∧ new = sk ∧ ∃ D k, opened sk past = some D ∧
      D.path = rotatingFile sk j.pid ∧ lastMinted past = some k ∧
      D.written = (keyText X (keyOf X k).2).length) ∨
    (old = sk ∧ ∃ stamp, new = archiveFile sk stamp) ∨
    (∃ stamp, old = archiveFile sk stamp) ∧ new = sk
  | .file (.removeFile path) => path = rotatingFile sk j.pid
  | .file (.hardLink _ _) => False
  | .genKeypair => opened sk past = none
  | _ => True

section Code

variable {X : KeyDeps} {sk : String} {j : Rotation}

variable (X sk j) in
abbrev Does {α : Type} (p : KeyHandler α) (Q : List KeyCall → α → Prop) (h : List KeyCall) :
    Prop :=
  p.Sat (KeyOp.sem X) (fun _ => True) (fun past o _ => Proper X sk j past o) Q h

theorem Does.then {α β : Type} {p : KeyHandler α} {f : α → KeyHandler β}
    {R : List KeyCall → α → Prop} {Q : List KeyCall → β → Prop} {h : List KeyCall}
    (hp : Does X sk j p R h) (hf : ∀ h' a, R h' a → Does X sk j (f a) Q h') :
    Does X sk j (p >>= f) Q h :=
  Sat.bind hp fun h' a _ => hf h' a

/-- A call of the file system. -/
theorem does_file {o : FileOp String} {Q : List KeyCall → o.Res → Prop} {h : List KeyCall}
    (ho : Proper X sk j h (.file o))
    (hQ : ∀ s : KeyHost, Q (⟨.file o, s⟩ :: h) (o.sem s.fault s.disk).1) :
    Does X sk j (file o) Q h :=
  fun s _ => ⟨ho, hQ s⟩

variable {h : List KeyCall}

/-- Writing on: the draft grows. -/
theorem does_writeFrom {D : Draft} (done bytes : Bytes) {m : Option ℕ}
    (hD : opened sk h = some D) (hwritten : D.written = done.length) (hm : lastMinted h = m)
    (htext : D.path = rotatingFile sk j.pid → ∃ k, m = some k ∧
      keyText X (keyOf X k).2 = done ++ bytes) :
    Does X sk j (writeFrom D.file done.length bytes) (fun h' ok => lastMinted h' = m ∧
      (ok = true → opened sk h' = some { D with written := (done ++ bytes).length })) h := by
  induction bytes generalizing done h D with
  | nil =>
    refine ⟨hm, fun _ => ?_⟩
    rw [hD, List.append_nil, ← hwritten]
  | cons b bytes ih =>
    refine Does.then (R := fun h' ok => lastMinted h' = m ∧
      (ok = true → opened sk h' = some { D with written := done.length + 1 })) ?_ ?_
    · refine does_file ⟨D, hD, rfl, hwritten, fun hpath => ?_⟩ fun s => ⟨hm, fun hok => ?_⟩
      · obtain ⟨k, rfl, hk⟩ := htext hpath
        exact ⟨k, hm, by simp [hk]⟩
      · have hworks : s.fault = false := by
          cases hfault : s.fault with
          | false => rfl
          | true => simp [FileOp.sem, hfault] at hok
        rw [opened, hworks, if_neg Bool.false_ne_true, hD, Option.map_some, hwritten]
    · rintro h' ok ⟨hm', hok⟩
      cases ok with
      | false => exact ⟨hm', fun hok' => by cases hok'⟩
      | true =>
        have hnext := ih (done ++ [b]) (hok rfl) (by simp) hm' fun hpath => by
          obtain ⟨k, hk, htext⟩ := htext hpath
          exact ⟨k, hk, by simp [htext]⟩
        rw [List.length_append, List.length_singleton, List.append_assoc] at hnext
        exact hnext

theorem does_writeFile {path : String} (bytes : Bytes) {m : Option ℕ} (hm : lastMinted h = m)
    (hpath : path = pubFile sk ∨ path = rotatingFile sk j.pid ∧ ∃ k, m = some k ∧
      keyText X (keyOf X k).2 = bytes) :
    Does X sk j (writeFile path bytes) (fun h' ok => lastMinted h' = m ∧ (ok = true →
      ∃ D, opened sk h' = some D ∧ D.path = path ∧ D.written = bytes.length)) h := by
  refine Does.then (R := fun h' r => lastMinted h' = m ∧
    ∀ i, r = some i → opened sk h' = some ⟨path, i, 0⟩) ?_ ?_
  · refine does_file ?_ fun s => ⟨hm, fun i hi => ?_⟩
    · obtain hpub | ⟨htmp, k, hk, -⟩ := hpath
      · exact .inl hpub
      · exact .inr ⟨htmp, k, hm.trans hk⟩
    · rw [opened, hi, Option.map_some]
  · rintro h' r ⟨hm', hr⟩
    cases r with
    | none => exact ⟨hm', fun hok => by cases hok⟩
    | some i =>
      refine Sat.mono (does_writeFrom [] bytes (hr i rfl) rfl hm' fun htmp => ?_) ?_
      · obtain hpub | ⟨-, hk⟩ := hpath
        · exact absurd (htmp.symm.trans hpub) (rotatingFile_ne_pubFile j.pid)
        · exact hk
      · rintro h'' ok - ⟨hm'', hok⟩
        exact ⟨hm'', fun hok' => ⟨_, hok hok', rfl, rfl⟩⟩

/-- A program that only looks, before anything is opened. -/
theorem does_looks {α : Type} {p : KeyHandler α} (hp : p.Uses KeyOp.Looks)
    (h0 : opened sk h = none) : Does X sk j p (fun h' _ => opened sk h' = none) h := by
  induction p generalizing h with
  | ret a => exact h0
  | call o k ih =>
    intro s _
    obtain ⟨ho, hk⟩ := hp
    refine ⟨?_, ih _ (hk _) ?_⟩
    · cases o with
      | file o => cases o <;> trivial
      | genKeypair => exact h0
      | _ => trivial
    · cases o with
      | file o => cases o <;> first | exact h0 | exact ho.elim
      | _ => exact h0

theorem does_genUntilSafe (n : ℕ) (h0 : opened sk h = none) :
    Does X sk j (genUntilSafe X n) (fun h' key => opened sk h' = none ∧
      ∃ k, lastMinted h' = some k ∧ key = keyOf X k) h := by
  have hgen : ∀ {h}, opened sk h = none → Does X sk j (genFunc X) (fun h' key =>
      opened sk h' = none ∧ ∃ k, lastMinted h' = some k ∧ key = keyOf X k) h :=
    fun h0 s _ => ⟨h0, h0, s.keypairs, rfl, rfl⟩
  induction n generalizing h with
  | zero => exact hgen h0
  | succ n ih =>
    refine (hgen h0).then fun h' key hkey => ?_
    split
    · exact hkey
    · exact ih hkey.1

theorem does_publishReplacement {archive newPub : String} {stamp k : ℕ} (hadOld : Bool)
    (harchive : archive = archiveFile sk stamp) (hm : lastMinted h = some k)
    (hD : ∃ D, opened sk h = some D ∧ D.path = rotatingFile sk j.pid ∧
      D.written = (keyText X (keyOf X k).2).length) :
    Does X sk j (publishReplacement X sk (rotatingFile sk j.pid) archive newPub hadOld)
      (fun _ _ => True) h := by
  obtain ⟨D, hopen, hpath, hwritten⟩ := hD
  refine Does.then (R := fun h' _ => lastMinted h' = some k)
    (does_file (.inl ⟨rfl, rfl, D, k, hopen, hpath, hm, hwritten⟩) fun s => hm) ?_
  intro h' ok hm'
  cases ok with
  | true => exact (does_writeFile _ hm' (.inl rfl)).then fun _ _ _ => trivial
  | false =>
    have hremove : ∀ h'', Does X sk j (do
        let _ ← file (.removeFile (rotatingFile sk j.pid))
        pure (.error ("could not publish the replacement key: " ++ X.ioError)) :
          KeyHandler (Except String (String × String))) (fun _ _ => True) h'' := fun h'' =>
      Does.then (R := fun _ _ => True) (does_file rfl fun _ => trivial) fun _ _ _ => trivial
    cases hadOld with
    | false => exact hremove h'
    | true =>
      exact Does.then (R := fun _ _ => True)
        (does_file (.inr (.inr ⟨⟨stamp, harchive⟩, rfl⟩)) fun _ => trivial) fun h'' _ _ => hremove h''

theorem does_rotateServerKeyAt : Does X sk j (rotateServerKeyAt X sk j.pid) (fun _ _ => True) [] := by
  refine (does_looks (looks_serverPublicKeyOnDiskAt sk) rfl).then fun h₁ _ h0 => ?_
  refine (does_genUntilSafe 300 h0).then fun h₂ key hkey => ?_
  obtain ⟨-, k, hm, rfl⟩ := hkey
  refine (does_writeFile _ hm (.inr ⟨rfl, k, rfl, rfl⟩)).then fun h₃ ok hok => ?_
  obtain ⟨hm, hok⟩ := hok
  cases ok with
  | false => trivial
  | true =>
    have hD := hok rfl
    refine Does.then (R := fun h' stamp => lastMinted h' = some k ∧ ∃ D, opened sk h' = some D ∧
      D.path = rotatingFile sk j.pid ∧ D.written = (keyText X (keyOf X k).2).length)
      (fun s _ => ⟨trivial, hm, hD⟩) ?_
    intro h₄ stamp hs₄
    refine Does.then (R := fun h' _ => lastMinted h' = some k ∧ ∃ D, opened sk h' = some D ∧
      D.path = rotatingFile sk j.pid ∧ D.written = (keyText X (keyOf X k).2).length)
      (does_file trivial fun s => hs₄) ?_
    intro h₅ hadOld hs₅
    cases hadOld with
    | false => exact does_publishReplacement false rfl hs₅.1 hs₅.2
    | true =>
      refine Does.then (R := fun h' ok => lastMinted h' = some k ∧ (ok = true →
        ∃ D, opened sk h' = some D ∧ D.path = rotatingFile sk j.pid ∧
          D.written = (keyText X (keyOf X k).2).length))
        (does_file (.inr (.inl ⟨rfl, stamp, rfl⟩)) fun s => ⟨hs₅.1, fun hok => ?_⟩) ?_
      · rw [opened, if_pos ⟨rfl, hok⟩]
        exact hs₅.2
      · intro h₆ ok hs₆
        cases ok with
        | true => exact does_publishReplacement true rfl hs₆.1 (hs₆.2 rfl)
        | false =>
          exact Does.then (R := fun _ _ => True) (does_file rfl fun _ => trivial)
            fun _ _ _ => trivial

theorem rotations_verified : (rotations X sk).Verified (fun _ => True) (fun _ => True)
    (fun j past o _ => Proper X sk j past o) where
  init _ _ := trivial
  code _ := does_rotateServerKeyAt.then fun _ _ _ _ _ => ⟨trivial, trivial⟩
  call _ _ _ _ _ _ := trivial
  start _ _ _ _ _ := trivial
  env _ _ _ _ _ := trivial
  reboot _ _ := trivial

end Code

/-! ## The invariant -/

section Runs

variable {X : KeyDeps} {sk : String}

/-- A draft is found under its own name only; one that is to be published is all that its name
leads to, and begins as the key of its call. -/
structure Draft.Fits (X : KeyDeps) (sk : String) (j : Rotation) (past : List KeyCall)
    (d : Disk String) (D : Draft) : Prop where
  name : D.path = rotatingFile sk j.pid ∨ D.path = pubFile sk
  bounded : D.file < d.fresh
  only : ∀ q, Rotates sk q → d.paths q = some D.file → q = D.path
  leads : D.path ≠ pubFile sk → ∀ i, d.paths D.path = some i → i = D.file
  text : D.path ≠ pubFile sk → ∃ k, lastMinted past = some k ∧
    d.content D.file = (keyText X (keyOf X k).2).take D.written

namespace Draft.Fits

variable {j : Rotation} {past : List KeyCall} {d : Disk String} {D : Draft}

theorem rotates (h : D.Fits X sk j past d) : Rotates sk D.path := by
  obtain hname | hname := h.name
  · exact hname ▸ .rotating j.pid
  · exact hname ▸ .pub

theorem path_ne_key (h : D.Fits X sk j past d) : D.path ≠ sk := by
  obtain hname | hname := h.name
  · exact hname ▸ rotatingFile_ne j.pid
  · exact hname ▸ pubFile_ne

theorem path_ne_archive (h : D.Fits X sk j past d) (stamp : ℕ) :
    D.path ≠ archiveFile sk stamp := by
  obtain hname | hname := h.name
  · exact hname ▸ rotatingFile_ne_archiveFile j.pid stamp
  · exact hname ▸ (archiveFile_ne_pubFile stamp).symm

/-- The file at another name is not the draft. -/
theorem file_ne (h : D.Fits X sk j past d) {q : String} {i : ℕ} (hq : Rotates sk q)
    (hi : d.paths q = some i) (hne : D.path ≠ q) : D.file ≠ i := by
  rintro rfl
  exact hne (h.only q hq hi).symm

/-- Another file is created. -/
theorem create (h : D.Fits X sk j past d) {path : String} (hpath : Rotates sk path)
    (hother : D.path ≠ pubFile sk → D.path ≠ path) :
    D.Fits X sk j past (d.create path).2 := by
  have hfile : D.path ≠ path → D.file ≠ (d.create path).1 := by
    intro hne
    obtain ⟨hp, -⟩ | ⟨-, hnew, -⟩ := d.create_cases path
    · exact h.file_ne hpath hp hne
    · have hlt := h.bounded
      omega
  have hfresh : d.fresh ≤ (d.create path).2.fresh := by
    obtain ⟨-, hfresh⟩ | ⟨-, -, hfresh⟩ := d.create_cases path <;> omega
  refine ⟨h.name, Nat.lt_of_lt_of_le h.bounded hfresh, fun q hq hleads => ?_, fun hp i hi => ?_,
    fun hp => ?_⟩
  · by_cases hqp : q = path
    · subst hqp
      by_contra hne
      rw [(d.create_leads q).1] at hleads
      exact hfile (Ne.symm hne) (Option.some.inj hleads).symm
    · rw [d.create_of_ne hqp] at hleads
      exact h.only q hq hleads
  · rw [d.create_of_ne (hother hp)] at hi
    exact h.leads hp i hi
  · rw [d.content_create_of_ne (hfile (hother hp))]
    exact h.text hp

/-- Another file is written. -/
theorem writeAt (h : D.Fits X sk j past d) {i : ℕ} (hne : D.path ≠ pubFile sk → D.file ≠ i)
    (off : ℕ) (b : UInt8) : D.Fits X sk j past (d.writeAt i off b) := by
  refine ⟨h.name, h.bounded, h.only, h.leads, fun hp => ?_⟩
  have hcontent : (d.writeAt i off b).content D.file = d.content D.file :=
    Function.update_of_ne (hne hp) _ _
  rw [hcontent]
  exact h.text hp

/-- Another file is renamed. -/
theorem moved (h : D.Fits X sk j past d) {old new : String} {i : ℕ} (hfile : D.file ≠ i)
    (hnew : D.path ≠ new) : D.Fits X sk j past (d.moved old new i) := by
  have hcases : ∀ {q f}, (d.moved old new i).paths q = some f →
      q = new ∧ i = f ∨ q ≠ new ∧ d.paths q = some f := by
    intro q f hq
    obtain hq | ⟨hne, hq⟩ := Table.insert_eq_some.1 hq
    · exact .inl hq
    · exact .inr ⟨hne, (Table.remove_eq_some.1 hq).2⟩
  refine ⟨h.name, h.bounded, fun q hq hleads => ?_, fun hp f hf => ?_, h.text⟩
  · obtain ⟨-, heq⟩ | ⟨-, hleads⟩ := hcases hleads
    · exact absurd heq.symm hfile
    · exact h.only q hq hleads
  · obtain ⟨heq, -⟩ | ⟨-, hf⟩ := hcases hf
    · exact absurd heq hnew
    · exact h.leads hp f hf

theorem without (h : D.Fits X sk j past d) (path : String) :
    D.Fits X sk j past (d.without path) := by
  have hsub : ∀ {q f}, (d.without path).paths q = some f → d.paths q = some f :=
    fun hq => (Table.remove_eq_some.1 hq).2
  exact ⟨h.name, h.bounded, fun q hq hleads => h.only q hq (hsub hleads),
    fun hp i hi => h.leads hp i (hsub hi), h.text⟩

end Draft.Fits

/-- The names lead to different files, and so do the drafts that are to be published. -/
structure Orderly (X : KeyDeps) (sk : String) (p : RotationPool) : Prop where
  apart : p.shared.disk.Apart (Rotates sk)
  fits : ∀ n L D, p.live n = some L → opened sk L.past = some D →
    D.Fits X sk L.job L.past p.shared.disk
  alone : ∀ n m L M D E, n ≠ m → p.live n = some L → p.live m = some M →
    opened sk L.past = some D → opened sk M.past = some E → D.path ≠ pubFile sk →
    E.path ≠ D.path ∧ E.file ≠ D.file

variable {p p' : RotationPool}

/-- A step that leaves the disk as it is, after which a call has no draft it did not have. -/
theorem Orderly.of_disk (h : Orderly X sk p) (hdisk : p'.shared.disk = p.shared.disk)
    (hlive : ∀ n L', p'.live n = some L' → ∀ D, opened sk L'.past = some D →
      ∃ L, p.live n = some L ∧ L.job = L'.job ∧ opened sk L.past = some D ∧
        lastMinted L.past = lastMinted L'.past) : Orderly X sk p' := by
  refine ⟨hdisk ▸ h.apart, fun n L' D hL' hD => ?_, fun n m L' M' D E hne hL' hM' hD hE hp => ?_⟩
  · obtain ⟨L, hL, hjob, hD', hm⟩ := hlive n L' hL' D hD
    obtain ⟨hname, hbounded, honly, hleads, htext⟩ := h.fits n L D hL hD'
    rw [hjob] at hname
    rw [hm] at htext
    rw [hdisk]
    exact ⟨hname, hbounded, honly, hleads, htext⟩
  · obtain ⟨L, hL, -, hD', -⟩ := hlive n L' hL' D hD
    obtain ⟨M, hM, -, hE', -⟩ := hlive m M' hM' E hE
    exact h.alone n m L M D E hne hL hM hD' hE' hp

/-- A step of the call `n`: what it does to the drafts of the others, and its own draft. -/
theorem Orderly.of_step (h : Orderly X sk p) {n : ℕ} {j : Rotation} {past : List KeyCall}
    (hlive : ∀ m L', p'.live m = some L' → m = n ∧ L'.job = j ∧ L'.past = past ∨
      m ≠ n ∧ p.live m = some L')
    (hapart : p'.shared.disk.Apart (Rotates sk))
    (hothers : ∀ m L D, m ≠ n → p.live m = some L → opened sk L.past = some D →
      D.Fits X sk L.job L.past p'.shared.disk)
    (hown : ∀ D, opened sk past = some D → D.Fits X sk j past p'.shared.disk ∧
      ∀ m L E, m ≠ n → p.live m = some L → opened sk L.past = some E →
        (D.path ≠ pubFile sk → E.path ≠ D.path ∧ E.file ≠ D.file) ∧
        (E.path ≠ pubFile sk → D.path ≠ E.path ∧ D.file ≠ E.file)) : Orderly X sk p' := by
  refine ⟨hapart, fun m L' D hL' hD => ?_, fun m m' L' M' D E hne hL' hM' hD hE hp => ?_⟩
  · obtain ⟨rfl, rfl, rfl⟩ | ⟨hm, hL⟩ := hlive m L' hL'
    · exact (hown D hD).1
    · exact hothers m L' D hm hL hD
  · obtain ⟨rfl, -, rfl⟩ | ⟨hm, hL⟩ := hlive m L' hL'
    · obtain ⟨rfl, -⟩ | ⟨hm', hM⟩ := hlive m' M' hM'
      · exact absurd rfl hne
      · exact ((hown D hD).2 m' M' E hm' hM hE).1 hp
    · obtain ⟨rfl, -, rfl⟩ | ⟨hm', hM⟩ := hlive m' M' hM'
      · exact ((hown E hE).2 m L' D hm hL hD).2 hp
      · exact h.alone m m' L' M' D E hne hL hM hD hE hp

/-- The call `n`, which is at `o`, goes on. -/
structure Steps (p p' : RotationPool) (n : ℕ) (j : Rotation) (past : List KeyCall) (o : KeyOp) :
    Prop where
  here : ∃ L, p.live n = some L ∧ L.job = j ∧ L.past = past
  there : ∀ m L', p'.live m = some L' → m = n ∧ L'.job = j ∧ L'.past = ⟨o, p.shared⟩ :: past ∨
    m ≠ n ∧ p.live m = some L'

variable {n : ℕ} {j : Rotation} {past : List KeyCall}

/-- The draft of the call itself, and those of the others. -/
theorem Orderly.mine (h : Orderly X sk p) {o : KeyOp} (hs : Steps p p' n j past o) {D : Draft}
    (hD : opened sk past = some D) : D.Fits X sk j past p.shared.disk ∧
      ∀ m L E, m ≠ n → p.live m = some L → opened sk L.past = some E →
        (D.path ≠ pubFile sk → E.path ≠ D.path ∧ E.file ≠ D.file) ∧
        (E.path ≠ pubFile sk → D.path ≠ E.path ∧ D.file ≠ E.file) := by
  obtain ⟨L₀, hL₀, rfl, rfl⟩ := hs.here
  exact ⟨h.fits n L₀ D hL₀ hD, fun m L E hm hL hE =>
    ⟨h.alone n m L₀ L D E hm.symm hL₀ hL hD hE, h.alone m n L L₀ E D hm hL hL₀ hE hD⟩⟩

/-- A call that leaves the disk as it is, after which the job has no draft it did not have. -/
theorem Orderly.looks (h : Orderly X sk p) {o : KeyOp} (hs : Steps p p' n j past o)
    (hdisk : p'.shared.disk = p.shared.disk)
    (hD : ∀ D, opened sk (⟨o, p.shared⟩ :: past) = some D →
      opened sk past = some D ∧ lastMinted (⟨o, p.shared⟩ :: past) = lastMinted past) :
    Orderly X sk p' := by
  refine h.of_disk hdisk fun m L' hL' D hopen => ?_
  obtain ⟨rfl, hjob, hpast⟩ | ⟨-, hL⟩ := hs.there m L' hL'
  · obtain ⟨L₀, hL₀, rfl, rfl⟩ := hs.here
    rw [hpast] at hopen ⊢
    obtain ⟨hopen', hm⟩ := hD D hopen
    exact ⟨L₀, hL₀, hjob.symm, hopen', hm.symm⟩
  · exact ⟨L', hL, rfl, hopen, rfl⟩

theorem Orderly.create (h : Orderly X sk p) {path : String}
    (hs : Steps p p' n j past (.file (.create path))) (hfault : p.shared.fault = false)
    (hdisk : p'.shared.disk = (p.shared.disk.create path).2)
    (hproper : Proper X sk j past (.file (.create path))) (hcare : Careful sk p n (.create path)) :
    Orderly X sk p' := by
  have hpath : Rotates sk path := by
    obtain rfl | ⟨rfl, -⟩ := hproper
    · exact .pub
    · exact .rotating j.pid
  have hname : path = rotatingFile sk j.pid ∨ path = pubFile sk := by
    obtain rfl | ⟨rfl, -⟩ := hproper
    · exact .inr rfl
    · exact .inl rfl
  have hfree : ∀ m L D, m ≠ n → p.live m = some L → opened sk L.past = some D →
      path ≠ pubFile sk → D.path ≠ path := fun m L D hm hL hD hp => hcare hfault hp m L D hm hL hD
  have hopened : opened sk (⟨.file (.create path), p.shared⟩ :: past) =
      some ⟨path, (p.shared.disk.create path).1, 0⟩ := by
    rw [opened, hfault]
    rfl
  refine h.of_step hs.there ?_ ?_ ?_
  · rw [hdisk]
    exact h.apart.create hpath
  · intro m L D hm hL hD
    rw [hdisk]
    refine (h.fits m L D hL hD).create hpath fun hp heq => ?_
    exact hfree m L D hm hL hD (heq ▸ hp) heq
  · intro D hD
    rw [hopened] at hD
    obtain rfl := Option.some.inj hD
    have hleads := p.shared.disk.create_leads path
    rw [hdisk]
    refine ⟨⟨hname, (h.apart.create hpath).bounded _ _ hleads.1, fun q hq hi =>
      (h.apart.create hpath).separate _ _ _ hq hpath hi hleads.1, fun _ i hi => ?_, fun hp => ?_⟩,
      fun m L E hm hL hE => ?_⟩
    · exact Option.some.inj (hi.symm.trans hleads.1)
    · obtain hpub | ⟨-, k, hk⟩ := hproper
      · exact absurd hpub hp
      · exact ⟨k, hk, by rw [hleads.2, List.take_zero]⟩
    · -- a file that was there was under this name, so it is no draft of another name
      have hfits := h.fits m L E hL hE
      have hfile : E.path ≠ path → E.file ≠ (p.shared.disk.create path).1 := by
        intro hne
        obtain ⟨hp, -⟩ | ⟨-, hnew, -⟩ := p.shared.disk.create_cases path
        · exact hfits.file_ne hpath hp hne
        · have hlt := hfits.bounded
          omega
      refine ⟨fun hp => ?_, fun hp => ?_⟩
      · have hne := hfree m L E hm hL hE hp
        exact ⟨hne, hfile hne⟩
      · have hne : E.path ≠ path := fun heq => hfree m L E hm hL hE (heq ▸ hp) heq
        exact ⟨hne.symm, (hfile hne).symm⟩

theorem Orderly.writeAt (h : Orderly X sk p) {i off : ℕ} {b : UInt8}
    (hs : Steps p p' n j past (.file (.writeAt i off b))) (hfault : p.shared.fault = false)
    (hdisk : p'.shared.disk = p.shared.disk.writeAt i off b)
    (hproper : Proper X sk j past (.file (.writeAt i off b))) : Orderly X sk p' := by
  obtain ⟨D, hD, rfl, rfl, hbyte⟩ := hproper
  obtain ⟨hfits, halone⟩ := h.mine hs hD
  refine h.of_step hs.there ?_ ?_ ?_
  · rw [hdisk]
    exact h.apart.writeAt _ _ _
  · intro m L E hm hL hE
    rw [hdisk]
    exact (h.fits m L E hL hE).writeAt (fun hp => ((halone m L E hm hL hE).2 hp).2.symm) _ _
  · intro D' hD'
    rw [opened, hfault, if_neg Bool.false_ne_true, hD, Option.map_some] at hD'
    obtain rfl := Option.some.inj hD'
    rw [hdisk]
    refine ⟨⟨hfits.name, hfits.bounded, hfits.only, hfits.leads, fun hp => ?_⟩, halone⟩
    obtain ⟨k, hk, htext⟩ := hfits.text hp
    obtain ⟨k', hk', hb⟩ := hbyte (hfits.name.resolve_right hp)
    obtain rfl := Option.some.inj (hk.symm.trans hk')
    exact ⟨k, hk, p.shared.disk.content_writeAt htext hb⟩

/-- The names of a rename, and what they say of the drafts of others. -/
theorem Orderly.renames (h : Orderly X sk p) {old new : String} {i : ℕ}
    (hs : Steps p p' n j past (.file (.rename old new)))
    (hproper : Proper X sk j past (.file (.rename old new)))
    (hi : p.shared.disk.paths old = some i) : Rotates sk old ∧ Rotates sk new ∧ old ≠ new ∧
      (∀ m L D, m ≠ n → p.live m = some L → opened sk L.past = some D →
        D.file ≠ i ∧ D.path ≠ new) ∧
      (old = sk → ∀ D, opened sk past = some D → D.file ≠ i ∧ D.path ≠ new) := by
  obtain ⟨rfl, rfl, D, k, hD, hpath, -⟩ | ⟨rfl, stamp, rfl⟩ | ⟨⟨stamp, rfl⟩, rfl⟩ := hproper
  · refine ⟨.rotating _, .key, rotatingFile_ne _, fun m L E hm hL hE => ?_, fun heq => ?_⟩
    · obtain ⟨hfits, halone⟩ := h.mine hs hD
      have hp : D.path ≠ pubFile new := hpath ▸ rotatingFile_ne_pubFile j.pid
      obtain rfl : i = D.file := hfits.leads hp i (hpath ▸ hi)
      exact ⟨((halone m L E hm hL hE).1 hp).2, (h.fits m L E hL hE).path_ne_key⟩
    · exact absurd heq (rotatingFile_ne _)
  · refine ⟨.key, .archive stamp, (archiveFile_ne stamp).symm, fun m L E hm hL hE => ?_,
      fun _ E hE => ?_⟩
    · have hfits := h.fits m L E hL hE
      exact ⟨hfits.file_ne .key hi hfits.path_ne_key, hfits.path_ne_archive stamp⟩
    · have hfits := (h.mine hs hE).1
      exact ⟨hfits.file_ne .key hi hfits.path_ne_key, hfits.path_ne_archive stamp⟩
  · refine ⟨.archive stamp, .key, archiveFile_ne stamp, fun m L E hm hL hE => ?_,
      fun heq => absurd heq (archiveFile_ne stamp)⟩
    have hfits := h.fits m L E hL hE
    exact ⟨hfits.file_ne (.archive stamp) hi (hfits.path_ne_archive stamp), hfits.path_ne_key⟩

/-- A rename of what is not there fails. -/
theorem rename_absent {d : Disk String} {old new : String} (hold : d.paths old = none) :
    (FileOp.rename old new).sem false d = (false, d) := by
  simp [FileOp.sem, Disk.rename, Disk.attempt, hold]

theorem Orderly.rename (h : Orderly X sk p) {old new : String}
    (hs : Steps p p' n j past (.file (.rename old new))) (hfault : p.shared.fault = false)
    (hdisk : p'.shared.disk = ((FileOp.rename old new).sem false p.shared.disk).2)
    (hproper : Proper X sk j past (.file (.rename old new))) : Orderly X sk p' := by
  cases hi : p.shared.disk.paths old with
  | none =>
    rw [rename_absent hi] at hdisk
    refine h.looks hs hdisk fun D hD => ?_
    have hanswer : ¬(old = sk ∧ ((FileOp.rename old new).sem p.shared.fault
        p.shared.disk).1 = true) := by
      rw [hfault, rename_absent hi]
      simp
    rw [opened, if_neg hanswer] at hD
    cases hD
  | some i =>
    obtain ⟨hold, hnew, hne, hothers, hmine⟩ := h.renames hs hproper hi
    rw [rename_sem h.apart hold hnew hne hi] at hdisk
    refine h.of_step hs.there ?_ ?_ ?_
    · rw [hdisk]
      exact h.apart.moved hold hi
    · intro m L D hm hL hD
      obtain ⟨hfile, hpath⟩ := hothers m L D hm hL hD
      rw [hdisk]
      exact (h.fits m L D hL hD).moved hfile hpath
    · intro D hD
      rw [opened] at hD
      split at hD
      · next hkeep =>
        obtain ⟨hfits, halone⟩ := h.mine hs hD
        obtain ⟨hfile, hpath⟩ := hmine hkeep.1 D hD
        rw [hdisk]
        obtain ⟨hname, hbounded, honly, hleads, htext⟩ := hfits.moved hfile hpath
        exact ⟨⟨hname, hbounded, honly, hleads, htext⟩, halone⟩
      · cases hD

theorem Orderly.removeFile (h : Orderly X sk p) {path : String}
    (hs : Steps p p' n j past (.file (.removeFile path)))
    (hdisk : p'.shared.disk = ((FileOp.removeFile path).sem false p.shared.disk).2) :
    Orderly X sk p' := by
  have hnone : ∀ D, opened sk (⟨.file (.removeFile path), p.shared⟩ :: past) = some D →
      False := fun D hD => by cases hD
  have hsem : ((FileOp.removeFile path).sem false p.shared.disk).2 = (p.shared.disk.attempt
      (if (p.shared.disk.paths path).isSome then some (p.shared.disk.without path)
        else none)).2 := rfl
  rw [hsem] at hdisk
  split at hdisk
  · refine h.of_step hs.there ?_ ?_ fun D hD => (hnone D hD).elim
    · rw [hdisk]
      exact h.apart.without path
    · intro m L D hm hL hD
      rw [hdisk]
      exact (h.fits m L D hL hD).without path
  · exact h.looks hs hdisk fun D hD => (hnone D hD).elim

/-- A call of the file system that fails. -/
theorem Orderly.fault (h : Orderly X sk p) {o : FileOp String}
    (hs : Steps p p' n j past (.file o)) (hfault : p.shared.fault = true)
    (hdisk : p'.shared.disk = p.shared.disk) : Orderly X sk p' := by
  refine h.looks hs hdisk fun D hD => ?_
  cases o with
  | create path => simp [opened, FileOp.sem, hfault] at hD
  | writeAt i off b => simp [opened, hfault] at hD
  | rename old new => simp [opened, FileOp.sem, Disk.attempt, hfault] at hD
  | removeFile path => cases hD
  | _ => exact ⟨hD, rfl⟩

/-- One step of a careful run. -/
theorem Orderly.step (h : Orderly X sk p) {o : KeyOp} (hs : Steps p p' n j past o)
    (hshared : p'.shared = (o.sem X p.shared).2) (hproper : Proper X sk j past o)
    (hcare : ∀ o', o = .file o' → Careful sk p n o') : Orderly X sk p' := by
  cases o with
  | file o =>
    cases hfault : p.shared.fault with
    | true =>
      rw [sem_file_fault hfault] at hshared
      exact h.fault hs hfault (by rw [hshared])
    | false =>
      rw [sem_file hfault] at hshared
      have hdisk : p'.shared.disk = (o.sem false p.shared.disk).2 := by rw [hshared]
      cases o with
      | create path => exact h.create hs hfault hdisk hproper (hcare _ rfl)
      | writeAt i off b => exact h.writeAt hs hfault hdisk hproper
      | rename old new => exact h.rename hs hfault hdisk hproper
      | removeFile path => exact h.removeFile hs hdisk
      | hardLink original link => exact hproper.elim
      | _ => exact h.looks hs hdisk fun D hD => ⟨hD, rfl⟩
  | genKeypair =>
    refine h.looks hs (by rw [hshared]; rfl) fun D hD => ?_
    have hnone : opened sk past = none := hproper
    have hopen : opened sk past = some D := hD
    rw [hnone] at hopen
    cases hopen
  | _ => exact h.looks hs (by rw [hshared]; rfl) fun D hD => ⟨hD, rfl⟩

/-! ## Careful runs -/

/-- What a step of a run leaves of the pool. -/
theorem steps_of_live {o : KeyOp} {k : o.Res → KeyHandler Unit}
    (hl : p.live n = some ⟨j, past, .call o k⟩) :
    Steps p ⟨(o.sem X p.shared).2, Function.update p.live n
      (System.keep ⟨j, ⟨o, p.shared⟩ :: past, k (o.sem X p.shared).1⟩), p.fresh⟩ n j past o := by
  refine ⟨⟨_, hl, rfl, rfl⟩, fun m L' hL' => ?_⟩
  obtain ⟨rfl, rfl⟩ | ⟨hm, hL⟩ := System.live_update hL'
  · exact .inl ⟨rfl, rfl, rfl⟩
  · exact .inr ⟨hm, hL⟩

theorem CarefulRun.file {l : List RotationItem} (hc : CarefulRun sk l p (.step n)) {o : KeyOp}
    {k : o.Res → KeyHandler Unit} (hl : p.live n = some ⟨j, past, .call o k⟩) :
    ∀ o', o = .file o' → Careful sk p n o' := by
  rintro o' rfl
  exact hc j past o' k hl

abbrev Placed (sk : String) (s : KeyHost) : Prop := s.disk.Apart (Rotates sk)

/-- What a call of a run does is what its code does. -/
theorem proper_of_live {C : List RotationItem → RotationPool → Choice Rotation KeyEnv → Prop}
    {l : List RotationItem} (hr : (rotations X sk).Run (Placed sk) C l p) {o : KeyOp}
    {k : o.Res → KeyHandler Unit} (hl : p.live n = some ⟨j, past, .call o k⟩) :
    Proper X sk j past o := by
  have hany : (rotations X sk).Run (fun _ => True) C l p := hr.init_mono fun _ _ => trivial
  have hsat := (hany.verified rotations_verified).2 n _ hl
  exact (hsat p.shared trivial).1

theorem orderly {l : List RotationItem} (hr : (rotations X sk).Run (Placed sk) (CarefulRun sk) l p) :
    Orderly X sk p := by
  induction hr using System.Run.induct with
  | hboot s hs =>
    refine ⟨hs, ?_, ?_⟩
    · intro n L D hL
      cases hL
    · intro n m L M D E _ hL
      cases hL
  | hstart l p j s hr hc hs ih =>
    obtain rfl := Option.some.inj hs
    refine ih.of_disk rfl fun m L' hL' D hD => ?_
    obtain ⟨-, rfl⟩ | ⟨-, hL⟩ := System.live_update hL'
    · cases hD
    · exact ⟨L', hL, rfl, hD, rfl⟩
  | hstep l p n j past o k hr hc hl ih =>
    exact ih.step (steps_of_live hl) rfl (proper_of_live hr hl) (hc.file hl)
  | henv l p e s hr hc hs ih =>
    obtain rfl := Option.some.inj hs
    have hdisk : (e.act p.shared).disk = p.shared.disk := by cases e <;> rfl
    exact ih.of_disk hdisk fun m L' hL' D hD => ⟨L', hL', rfl, hD, rfl⟩
  | hcrash l p hr hc ih =>
    refine ih.of_disk rfl ?_
    intro m L' hL'
    cases hL'

/-- A name of the key or of an archive. -/
def KeepsKey (sk path : String) : Prop := path = sk ∨ ∃ stamp, path = archiveFile sk stamp

theorem KeepsKey.rotates {path : String} (h : KeepsKey sk path) : Rotates sk path := by
  obtain rfl | ⟨stamp, rfl⟩ := h
  · exact .key
  · exact .archive stamp

theorem KeepsKey.ne_pubFile {path : String} (h : KeepsKey sk path) : path ≠ pubFile sk := by
  obtain rfl | ⟨stamp, rfl⟩ := h
  · exact pubFile_ne.symm
  · exact archiveFile_ne_pubFile stamp

theorem KeepsKey.ne_rotatingFile {path : String} (h : KeepsKey sk path) (pid : ℕ) :
    path ≠ rotatingFile sk pid := by
  obtain rfl | ⟨stamp, rfl⟩ := h
  · exact (rotatingFile_ne pid).symm
  · exact (rotatingFile_ne_archiveFile pid stamp).symm

theorem kept_iff {text : Bytes} {d : Disk String} :
    Kept sk text d ↔ ∃ path, KeepsKey sk path ∧ d.text path = some text := by
  constructor
  · rintro (hkey | ⟨stamp, hkey⟩)
    · exact ⟨sk, .inl rfl, hkey⟩
    · exact ⟨_, .inr ⟨stamp, rfl⟩, hkey⟩
  · rintro ⟨path, rfl | ⟨stamp, rfl⟩, hkey⟩
    · exact .inl hkey
    · exact .inr ⟨stamp, hkey⟩

theorem Kept.of_same {text : Bytes} {d d' : Disk String} (h : Kept sk text d)
    (hsame : ∀ path, KeepsKey sk path → d'.text path = d.text path) : Kept sk text d' := by
  obtain ⟨path, hpath, htext⟩ := kept_iff.1 h
  exact kept_iff.2 ⟨path, hpath, (hsame path hpath).trans htext⟩

/-- What was at the old name is at the new one, and the new name was free. -/
theorem Kept.moved {text : Bytes} {d : Disk String} {old new : String} {i : ℕ}
    (h : Kept sk text d) (hi : d.paths old = some i) (hfree : d.paths new = none)
    (hnew : KeepsKey sk new) : Kept sk text (d.moved old new i) := by
  obtain ⟨path, hpath, htext⟩ := kept_iff.1 h
  by_cases hold : path = old
  · rw [hold] at htext
    exact kept_iff.2 ⟨new, hnew, (Disk.text_moved_new hi).trans htext⟩
  · have hne : path ≠ new := by
      rintro rfl
      rw [(Disk.text_eq_none _).2 hfree] at htext
      cases htext
    exact kept_iff.2 ⟨path, hpath, (Disk.text_moved_of_ne hold hne).trans htext⟩

/-- A careful step loses no key. -/
theorem kept_step (h : Orderly X sk p) {o : KeyOp} (hs : Steps p p' n j past o)
    (hproper : Proper X sk j past o) (hcare : ∀ o', o = .file o' → Careful sk p n o')
    {text : Bytes} (hkept : Kept sk text p.shared.disk) :
    Kept sk text (o.sem X p.shared).2.disk := by
  cases o with
  | file o =>
    cases hfault : p.shared.fault with
    | true =>
      rw [sem_file_fault hfault]
      exact hkept
    | false =>
      rw [sem_file hfault]
      cases o with
      | create path =>
        refine hkept.of_same fun q hq => ?_
        obtain rfl | ⟨rfl, -⟩ := hproper
        · exact h.apart.text_create_of_ne .pub hq.rotates hq.ne_pubFile
        · exact h.apart.text_create_of_ne (.rotating j.pid) hq.rotates (hq.ne_rotatingFile j.pid)
      | writeAt i off b =>
        obtain ⟨D, hD, rfl, -, -⟩ := hproper
        have hfits := (h.mine hs hD).1
        refine hkept.of_same fun q hq => Disk.text_writeAt_of_ne (fun hleads => ?_) off b
        have hname := hfits.only q hq.rotates hleads
        obtain rfl | ⟨stamp, rfl⟩ := hq
        · exact hfits.path_ne_key hname.symm
        · exact hfits.path_ne_archive stamp hname.symm
      | rename old new =>
        cases hi : p.shared.disk.paths old with
        | none =>
          rw [rename_absent hi]
          exact hkept
        | some i =>
          obtain ⟨hold, hnew, hne, -, -⟩ := h.renames hs hproper hi
          have hfree : p.shared.disk.paths new = none := hcare _ rfl hfault (by rw [hi]; rfl)
          rw [rename_sem h.apart hold hnew hne hi]
          refine hkept.moved hi hfree ?_
          obtain ⟨-, rfl, -⟩ | ⟨-, stamp, rfl⟩ | ⟨-, rfl⟩ := hproper
          · exact .inl rfl
          · exact .inr ⟨stamp, rfl⟩
          · exact .inl rfl
      | removeFile path =>
        obtain rfl : path = rotatingFile sk j.pid := hproper
        refine hkept.of_same fun q hq => ?_
        exact (removeFile_keeps h.apart (hq.ne_rotatingFile j.pid)).2
      | hardLink original link => exact hproper.elim
      | _ => exact hkept
  | _ => exact hkept

/-- What a call publishes is its own key, and all of it. -/
theorem publishes_own (h : Orderly X sk p)
    (hs : Steps p p' n j past (.file (.rename (rotatingFile sk j.pid) sk)))
    (hproper : Proper X sk j past (.file (.rename (rotatingFile sk j.pid) sk)))
    (hmade : ((KeyOp.file (.rename (rotatingFile sk j.pid) sk)).sem X p.shared).1 = true) :
    ∃ k, lastMinted past = some k ∧
      p.shared.disk.text (rotatingFile sk j.pid) = some (keyText X (keyOf X k).2) := by
  obtain ⟨-, -, D, k, hD, hpath, hk, hwritten⟩ | ⟨heq, -⟩ | ⟨⟨stamp, heq⟩, -⟩ := hproper
  · have hfits := (h.mine hs hD).1
    have hp : D.path ≠ pubFile sk := hpath ▸ rotatingFile_ne_pubFile j.pid
    have hworks : p.shared.fault = false := by
      cases hfault : p.shared.fault with
      | false => rfl
      | true =>
        rw [sem_file_fault hfault] at hmade
        cases hmade
    rw [sem_file hworks] at hmade
    cases hi : p.shared.disk.paths (rotatingFile sk j.pid) with
    | none =>
      rw [rename_absent hi] at hmade
      cases hmade
    | some i =>
      obtain rfl := hfits.leads hp i (hpath ▸ hi)
      obtain ⟨k', hk', htext⟩ := hfits.text hp
      obtain rfl := Option.some.inj (hk.symm.trans hk')
      refine ⟨k, hk, ?_⟩
      rw [Disk.text_of_leads _ hi, htext, hwritten, List.take_length]
  · exact absurd heq (rotatingFile_ne j.pid)
  · exact absurd heq (rotatingFile_ne_archiveFile j.pid stamp)

end Runs

/-- In a run of careful steps every key that ever was at its path or in an archive is found there,
and what a call publishes is the complete key it generated. -/
theorem careful_rotations_keep_keys (X : KeyDeps) (sk : String) (l : List RotationItem)
    (p : RotationPool) (hr : (rotations X sk).Run (Placed sk) (CarefulRun sk) l p) :
    (∀ i ∈ l, ∀ text, Kept sk text i.pre.disk → Kept sk text p.shared.disk) ∧
    ∀ n j past s, .step n j past (.file (.rename (rotatingFile sk j.pid) sk)) s ∈ l →
      ((KeyOp.file (.rename (rotatingFile sk j.pid) sk)).sem X s).1 = true →
      ∃ k, lastMinted past = some k ∧
        s.disk.text (rotatingFile sk j.pid) = some (keyText X (keyOf X k).2) := by
  induction hr using System.Run.induct with
  | hboot s hs =>
    constructor
    · intro i hi
      cases hi
    · intro n j past s hi
      cases hi
  | hstart l p j s hr hc hs ih =>
    obtain rfl := Option.some.inj hs
    refine ⟨fun i hi text hkept => ?_, fun n j past s hi => ?_⟩
    · obtain rfl | hi := List.mem_cons.1 hi
      · exact hkept
      · exact ih.1 i hi text hkept
    · obtain hi | hi := List.mem_cons.1 hi
      · cases hi
      · exact ih.2 n j past s hi
  | hstep l p n j past o k hr hc hl ih =>
    have hproper := proper_of_live hr hl
    have horderly := orderly hr
    have hsteps := steps_of_live (X := X) hl
    refine ⟨fun i hi text hkept => ?_, fun n' j' past' s' hi hmade => ?_⟩
    · refine kept_step horderly hsteps hproper (hc.file hl) ?_
      obtain rfl | hi := List.mem_cons.1 hi
      · exact hkept
      · exact ih.1 i hi text hkept
    · obtain hi | hi := List.mem_cons.1 hi
      · cases hi
        exact publishes_own horderly hsteps hproper hmade
      · exact ih.2 n' j' past' s' hi hmade
  | henv l p e s hr hc hs ih =>
    obtain rfl := Option.some.inj hs
    refine ⟨fun i hi text hkept => ?_, fun n j past s hi => ?_⟩
    · have hdisk : (e.act p.shared).disk = p.shared.disk := by cases e <;> rfl
      rw [hdisk]
      obtain rfl | hi := List.mem_cons.1 hi
      · exact hkept
      · exact ih.1 i hi text hkept
    · obtain hi | hi := List.mem_cons.1 hi
      · cases hi
      · exact ih.2 n j past s hi
  | hcrash l p hr hc ih =>
    refine ⟨fun i hi text hkept => ?_, fun n j past s hi => ?_⟩
    · obtain rfl | hi := List.mem_cons.1 hi
      · exact hkept
      · exact ih.1 i hi text hkept
    · obtain hi | hi := List.mem_cons.1 hi
      · cases hi
      · exact ih.2 n j past s hi

/-- The call of the file system. -/
def KeyOp.fileOp : KeyOp → Option (FileOp String)
  | .file o => some o
  | _ => none

def fileOpOf : RotationItem → Option (FileOp String)
  | .step _ _ _ o _ => o.fileOp
  | _ => none

/-- The names the calls of a run made. -/
def madeNames (l : List RotationItem) : List String :=
  l.filterMap fun i => (fileOpOf i).bind FileOp.makes

/-- A name that leads to a file did so from the start, or a call made it. -/
theorem made_of_run {X : KeyDeps} {sk : String} {s₀ : KeyHost}
    {C : List RotationItem → RotationPool → Choice Rotation KeyEnv → Prop}
    {l : List RotationItem} {p : RotationPool} (hr : (rotations X sk).Run (Eq s₀) C l p)
    {q : String} (hq : (p.shared.disk.paths q).isSome) :
    (s₀.disk.paths q).isSome ∨ q ∈ madeNames l := by
  induction hr using System.Run.induct with
  | hboot s hs =>
    rw [hs]
    exact .inl hq
  | hstart l p j s hr hc hs ih =>
    obtain rfl := Option.some.inj hs
    exact ih hq
  | hstep l p n j past o k hr hc hl ih =>
    have hnames : madeNames (.step n j past o p.shared :: l) =
        (o.fileOp.bind FileOp.makes).toList ++ madeNames l := by
      unfold madeNames
      rw [List.filterMap_cons]
      cases h : o.fileOp.bind FileOp.makes <;> simp [fileOpOf, h]
    rw [hnames, List.mem_append]
    cases o with
    | file o =>
      obtain hq | hq := FileOp.sem_paths o hq
      · exact (ih hq).imp_right .inr
      · exact .inr (.inl (Option.mem_toList.2 hq))
    | _ => exact (ih hq).imp_right .inr
  | henv l p e s hr hc hs ih =>
    obtain rfl := Option.some.inj hs
    cases e <;> exact ih hq
  | hcrash l p hr hc ih => exact ih hq

namespace Sample

/-- The test of `Careful`. -/
def mayCall (p : RotationPool) (n : ℕ) : FileOp String → Bool
  | .rename old new => p.shared.fault || !(p.shared.disk.paths old).isSome ||
    (p.shared.disk.paths new).isNone
  | .create path => path == pubFile skFile || (List.range p.fresh).all fun m => m == n ||
    ((p.live m).bind fun L => opened skFile L.past).all fun D => D.path != path
  | _ => true

def mayStep (p : RotationPool) : Choice Rotation KeyEnv → Bool
  | .step n =>
    match p.live n with
    | some ⟨_, _, .call (.file o) _⟩ => mayCall p n o
    | _ => true
  | _ => true

theorem careful_of_mayCall {p : RotationPool} {n : ℕ} {o : FileOp String}
    (hfresh : ∀ m L, p.live m = some L → m < p.fresh) (h : mayCall p n o = true) :
    Careful skFile p n o := by
  cases o with
  | rename old new =>
    intro hfault hold
    rw [mayCall, hfault, hold] at h
    exact Option.isNone_iff_eq_none.1 (by simpa using h)
  | create path =>
    intro _ hpath m L D hm hL hD heq
    simp only [mayCall, Bool.or_eq_true, beq_iff_eq, hpath, false_or, List.all_eq_true,
      List.mem_range] at h
    have hall := (h m (hfresh m L hL)).resolve_left hm
    rw [hL, Option.bind_some, hD] at hall
    simp [heq] at hall
  | _ => trivial

theorem mayStep_ok {C : List RotationItem → RotationPool → Choice Rotation KeyEnv → Prop}
    {l : List RotationItem} {p : RotationPool} {c : Choice Rotation KeyEnv}
    (hr : (rotations keyDeps skFile).Run (Placed skFile) C l p) (h : mayStep p c = true) :
    CarefulRun skFile l p c := by
  cases c with
  | step n =>
    intro j past o k hl
    simp only [mayStep, hl] at h
    exact careful_of_mayCall hr.lt_fresh.1 h
  | _ => trivial

/-- Two rotations by one process, the second one when the clock says so. -/
def twoRotations (clock : ℕ) : List (Choice Rotation KeyEnv) :=
  [.start ⟨1⟩] ++ List.replicate 150 (.step 0) ++ [.env (.setClock clock), .start ⟨1⟩] ++
    List.replicate 150 (.step 1)

def oldText : Bytes := keyText keyDeps (keyOf keyDeps 7).2

/-- The first item is the last of the list. -/
def startsOld (l : List RotationItem) : Bool :=
  (l.getLast?.map fun i => i.pre.disk.text skFile) == some (some oldText)

/-- The names of two rotations in one second. -/
def names : List String :=
  [skFile, archiveFile skFile 1000, rotatingFile skFile 1, pubFile skFile]

/-- At none of the names is the old text. -/
def losesOld (l : List RotationItem) (p : RotationPool) : Bool :=
  startsOld l && ((madeNames l).all fun q => names.contains q) &&
    names.all fun q => p.shared.disk.text q != some oldText

def keepsOld (l : List RotationItem) (p : RotationPool) : Bool :=
  startsOld l && p.shared.disk.text skFile != some oldText

theorem startsOld_mem {l : List RotationItem} (h : startsOld l = true) :
    ∃ i ∈ l, i.pre.disk.text skFile = some oldText := by
  obtain ⟨i, hi, htext⟩ := Option.map_eq_some_iff.1 (beq_iff_eq.1 h)
  exact ⟨i, List.mem_of_getLast? hi, htext⟩

end Sample

/-- The old key is not at its path any more, and still it is found. -/
theorem careful_rotations_keep_keys_twice : ∃ l p,
    (rotations Sample.keyDeps skFile).Run (Placed skFile) (CarefulRun skFile) l p ∧
      p.shared.disk.text skFile ≠ some Sample.oldText ∧
      Kept skFile Sample.oldText p.shared.disk := by
  have hboot : Placed skFile Sample.keyedHost := Sample.keyedHost_apart
  have hr := (System.Run.boot hboot).execIf (S := rotations Sample.keyDeps skFile)
    (C := CarefulRun skFile) (fun l p c hr h => Sample.mayStep_ok hr h) (Sample.twoRotations 1001)
  have ht : Sample.keepsOld ((rotations Sample.keyDeps skFile).execIf Sample.mayStep
      (Sample.twoRotations 1001) [] (System.boot Sample.keyedHost)).1
      ((rotations Sample.keyDeps skFile).execIf Sample.mayStep
      (Sample.twoRotations 1001) [] (System.boot Sample.keyedHost)).2 = true := by decide +kernel
  obtain ⟨hstart, hgone⟩ := Bool.and_eq_true_iff.1 ht
  obtain ⟨i, hi, htext⟩ := Sample.startsOld_mem hstart
  refine ⟨_, _, hr, bne_iff_ne.1 hgone, ?_⟩
  exact (careful_rotations_keep_keys _ _ _ _ hr).1 i hi _ (.inl htext)

/-- Without a fault two rotations in one second lose the old key: the second one archives over the
first one's archive. -/
theorem not_rotations_keep_keys : ∃ l p,
    (rotations Sample.keyDeps skFile).Run (Placed skFile) System.Free l p ∧
      (∃ i ∈ l, i.pre.disk.text skFile = some Sample.oldText) ∧
      ¬Kept skFile Sample.oldText p.shared.disk := by
  obtain ⟨l, p, hr, ht⟩ := System.exists_run (S := rotations Sample.keyDeps skFile)
    (rfl : Sample.keyedHost = Sample.keyedHost) (Sample.twoRotations 1000) Sample.losesOld
    (by decide +kernel)
  simp only [Sample.losesOld, Bool.and_eq_true, List.all_eq_true, List.contains_iff_mem] at ht
  obtain ⟨⟨hstart, hmade⟩, hlost⟩ := ht
  have hnowhere : ∀ q, p.shared.disk.text q ≠ some Sample.oldText := by
    intro q htext
    have hname : q ∈ Sample.names := by
      obtain ⟨i, hi⟩ := leads_of_text htext
      obtain hstart | hq := made_of_run hr (Option.isSome_iff_exists.2 ⟨i, hi⟩)
      · obtain ⟨j, hj⟩ := Option.isSome_iff_exists.1 hstart
        obtain ⟨rfl, -⟩ | ⟨-, hj⟩ := Table.insert_eq_some.1 hj
        · exact List.mem_cons_self
        · cases hj
      · exact hmade q hq
    exact bne_iff_ne.1 (hlost q hname) htext
  have hrun : (rotations Sample.keyDeps skFile).Run (Placed skFile) System.Free l p := by
    refine hr.init_mono fun s hs => ?_
    rw [← hs]
    exact Sample.keyedHost_apart
  refine ⟨l, p, hrun, Sample.startsOld_mem hstart, fun hkept => ?_⟩
  obtain hkey | ⟨stamp, hkey⟩ := hkept
  · exact hnowhere _ hkey
  · exact hnowhere _ hkey

end Keys

end NemoServer
