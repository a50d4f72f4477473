import NemoServer.Laws.RotationStages

/-!
# A rotation that stops

Wherever a rotation stops, by a crash or by whatever failures of the file system, the path of the
key holds the old key or the new one, unless the last rename that went through is the one that
moved the old key aside. A rotation that crashes there, or that can neither publish the new key nor
put the old one back, leaves no key.
-/

set_option autoImplicit false

namespace NemoServer

namespace Keys

open Prog Str

/-- The key is the old one or the new one, and the old one if an error is returned. -/
structure KeyKept (X : KeyDeps) (sk : String) (old : Bytes)
    (r : Option (Except String (String × String))) (h : List KeyCall) (d : Disk String) :
    Prop where
  there : d.text sk = some old ∨
    ∃ k, lastMinted h = some k ∧ d.text sk = some (keyText X (keyOf X k).2)
  error : ∀ e, r = some (.error e) → d.text sk = some old

variable {X : KeyDeps} {sk : String} {pid : ℕ} {d₀ d : Disk String} {g : Stage}
  {h : List KeyCall} {old : Bytes} {r : Option (Except String (String × String))}

/-- With the new key in its place. -/
theorem keyKept_of_new {k : ℕ} (hrename : lastRename h = some (rotatingFile sk pid))
    (hminted : lastMinted h = some k) (hkey : d.text sk = some (keyText X (keyOf X k).2))
    (herror : ∀ e, r ≠ some (.error e)) : KeyKept X sk old r h d ↔ ¬Aside sk h := by
  refine ⟨fun _ haside => ?_, fun _ => ⟨.inr ⟨k, hminted, hkey⟩, fun e he => absurd he (herror e)⟩⟩
  exact rotatingFile_ne pid (Option.some.inj (hrename.symm.trans haside))

/-- Where the key is kept, at every stage. -/
theorem At.kept (hg : At X sk pid d₀ g h d) (hold : d₀.text sk = some old)
    (herror : ∀ e, r = some (.error e) → g = .kept ∨ g = .aside) :
    KeyKept X sk old r h d ↔ ¬Aside sk h := by
  have hkey := hg.key
  have hcalls := hg.calls
  cases g with
  | kept =>
    have hkept : d.text sk = some old := hkey.trans hold
    exact ⟨fun _ => hcalls.1, fun _ => ⟨.inl hkept, fun _ _ => hkept⟩⟩
  | aside =>
    refine ⟨fun hk => ?_, fun hn => absurd hcalls.1 hn⟩
    obtain hthere | ⟨k, -, hthere⟩ := hk.there
    · rw [hkey] at hthere
      cases hthere
    · rw [hkey] at hthere
      cases hthere
  | replaced k =>
    refine keyKept_of_new hcalls.1 hcalls.2.1 hkey fun e he => ?_
    rcases herror e he with hg | hg
    · cases hg
    · cases hg
  | copied k j =>
    refine keyKept_of_new hcalls.1 hcalls.2.1 hkey fun e he => ?_
    rcases herror e he with hg | hg
    · cases hg
    · cases hg

/-- Wherever a rotation of the key `old` stops, the key is the old one or the new one, and the old
one if an error is returned, exactly if the last rename that went through is not the one that moved
the old key aside. -/
theorem rotation_keeps_key_iff (X : KeyDeps) (sk : String) (pid : ℕ) (old : Bytes)
    (faults : ℕ → Bool) (clocks : ℕ → ℕ) (s : KeyHost) (hs : s.disk.Apart (Rotates sk))
    (hold : s.disk.text sk = some old) (n : ℕ) :
    KeyKept X sk old (stoppedRotation X sk pid faults clocks n s).1
        (stoppedRotation X sk pid faults clocks n s).2.1
        (stoppedRotation X sk pid faults clocks n s).2.2.disk ↔
      ¬Aside sk (stoppedRotation X sk pid faults clocks n s).2.1 := by
  obtain ⟨hstage, herror⟩ := stage_stopped X pid faults clocks hs n
  exact hstage.kept hold herror

namespace Sample

/-- A directory with a key and nothing else. -/
def keyedHost : KeyHost :=
  ⟨⟨Table.empty.insert skFile 0, fun _ => keyText keyDeps (keyOf keyDeps 7).2, 1⟩,
    false, 1000, 0, []⟩

theorem keyedHost_apart : keyedHost.disk.Apart (Rotates skFile) := by
  have honly : ∀ path i, keyedHost.disk.paths path = some i → path = skFile ∧ i = 0 := by
    intro path i h
    obtain ⟨hpath, hi⟩ | ⟨-, h⟩ := Table.insert_eq_some.1 h
    · exact ⟨hpath, hi.symm⟩
    · cases h
  constructor
  · intro path i h
    rw [(honly path i h).2]
    exact Nat.zero_lt_one
  · intro p q i _ _ hp hq
    rw [(honly p i hp).1, (honly q i hq).1]

end Sample

/-- The new key cannot be published: an error is returned, and the old key is there. -/
theorem rotation_keeps_key_unpublished :
    KeyKept Sample.keyDeps skFile (keyText Sample.keyDeps (keyOf Sample.keyDeps 7).2)
      (stoppedRotation Sample.keyDeps skFile 1 (fun n => n = 96) (fun _ => 1000) 200
        Sample.keyedHost).1
      (stoppedRotation Sample.keyDeps skFile 1 (fun n => n = 96) (fun _ => 1000) 200
        Sample.keyedHost).2.1
      (stoppedRotation Sample.keyDeps skFile 1 (fun n => n = 96) (fun _ => 1000) 200
        Sample.keyedHost).2.2.disk ∧
    (stoppedRotation Sample.keyDeps skFile 1 (fun n => n = 96) (fun _ => 1000) 200
        Sample.keyedHost).1 =
      some (.error "could not publish the replacement key: disk error") :=
  ⟨(rotation_keeps_key_iff Sample.keyDeps skFile 1 _ (fun n => n = 96) (fun _ => 1000)
    Sample.keyedHost Sample.keyedHost_apart (by decide +kernel) 200).2 (by decide +kernel),
    by decide +kernel⟩

/-- A crash after the old key is moved aside leaves no key. -/
theorem not_rotation_keeps_key :
    ¬KeyKept Sample.keyDeps skFile (keyText Sample.keyDeps (keyOf Sample.keyDeps 7).2)
      (stoppedRotation Sample.keyDeps skFile 1 (fun _ => false) (fun _ => 1000) 96
        Sample.keyedHost).1
      (stoppedRotation Sample.keyDeps skFile 1 (fun _ => false) (fun _ => 1000) 96
        Sample.keyedHost).2.1
      (stoppedRotation Sample.keyDeps skFile 1 (fun _ => false) (fun _ => 1000) 96
        Sample.keyedHost).2.2.disk := by
  intro hkept
  have hnone : (stoppedRotation Sample.keyDeps skFile 1 (fun _ => false) (fun _ => 1000) 96
      Sample.keyedHost).2.2.disk.text skFile = none := by decide +kernel
  obtain hkey | ⟨k, -, hkey⟩ := hkept.there
  · rw [hnone] at hkey
    cases hkey
  · rw [hnone] at hkey
    cases hkey

end Keys

end NemoServer
