import NemoServer.Integration.DeviceKeys

/-!
# Pinning a device key

The id of a key is cut from the letters and digits of its text: the first sixteen, or more where
that is the id of another key already. Where all of them are, the key takes the place of another.

* `pins_only_iff`: adding a key unpins no other key exactly if one of the ids it may get is not the
  id of another key.
-/

set_option autoImplicit false

namespace NemoServer

namespace Integration

/-- The letters and digits of a key, which its id is cut from. -/
def alphanumerics (publicKey : String) : List Char := publicKey.toList.filter Char.isAlphanum

/-- An id that is in the way of a key: another key has it. -/
def Taken (keys : List DeviceKey) (publicKey id : String) : Prop :=
  ∃ k ∈ keys, k.id = id ∧ k.publicKey ≠ publicKey

/-- How many letters and digits an id may be long: sixteen, four more each time, or all. -/
def IdLength (total n : ℕ) : Prop := n = total ∨ 16 ≤ n ∧ n < total ∧ n % 4 = 0

/-- One of the ids that a key may get is not taken. -/
def HasFreeId (keys : List DeviceKey) (publicKey : String) : Prop :=
  ∃ n, IdLength (alphanumerics publicKey).length n ∧
    ¬Taken keys publicKey (String.ofList ((alphanumerics publicKey).take n))

/-- What pinning a key is to do: every other key is left as it was, the key itself is pinned, and
ids and keys are distinct. -/
structure PinsOnly (publicKey : String) (keys keys' : List DeviceKey) : Prop where
  kept : ∀ k ∈ keys, k.publicKey ≠ publicKey → k ∈ keys'
  only : ∀ k ∈ keys', k.publicKey ≠ publicKey → k ∈ keys
  pinned : ∃ k ∈ keys', k.publicKey = publicKey
  ids : (keys'.map (·.id)).Nodup
  publicKeys : (keys'.map (·.publicKey)).Nodup

/-! ## The id -/

/-- The lengths that are tried from one on. -/
def TriedFrom (total len n : ℕ) : Prop := n = total ∨ len ≤ n ∧ n < total ∧ (n - len) % 4 = 0

/-- The id is one of those that are tried, and it is only taken if all of them are. -/
theorem go_spec (alnum : List Char) (keys : List DeviceKey) (publicKey : String) (len fuel : ℕ)
    (hlen : len ≤ alnum.length) (hfuel : alnum.length ≤ len + fuel) :
    ∃ n, TriedFrom alnum.length len n ∧
      deviceKeyIdFor.go alnum keys publicKey len fuel = String.ofList (alnum.take n) ∧
      (Taken keys publicKey (String.ofList (alnum.take n)) →
        ∀ m, TriedFrom alnum.length len m →
          Taken keys publicKey (String.ofList (alnum.take m))) := by
  induction fuel generalizing len with
  | zero =>
    obtain rfl : len = alnum.length := by omega
    refine ⟨alnum.length, .inl rfl, rfl, fun htaken m hm => ?_⟩
    obtain rfl : m = alnum.length := by
      unfold TriedFrom at hm
      omega
    exact htaken
  | succ fuel ih =>
    unfold deviceKeyIdFor.go
    dsimp only
    have hcollides : (keys.any fun k => k.id == String.ofList (alnum.take len) &&
        k.publicKey != publicKey) = true ↔
        Taken keys publicKey (String.ofList (alnum.take len)) := by
      simp [Taken]
    split
    · rename_i hstop
      by_cases hall : alnum.length ≤ len
      · -- all letters and digits are in the candidate
        obtain rfl : len = alnum.length := by omega
        refine ⟨alnum.length, .inl rfl, rfl, fun htaken m hm => ?_⟩
        obtain rfl : m = alnum.length := by
          unfold TriedFrom at hm
          omega
        exact htaken
      · refine ⟨len, .inr ⟨le_rfl, by omega, by omega⟩, rfl, fun htaken => ?_⟩
        rw [hcollides.2 htaken] at hstop
        simp [hall] at hstop
    · rename_i hgo
      rw [Bool.or_eq_true, not_or, Bool.not_eq_true', Bool.not_eq_false, hcollides,
        decide_eq_true_iff] at hgo
      obtain ⟨n, hn, heq, hall⟩ := ih (min (len + 4) alnum.length) (by omega) (by omega)
      refine ⟨n, ?_, heq, fun htaken m hm => ?_⟩
      · unfold TriedFrom at hn ⊢
        omega
      · by_cases hm' : m = len
        · exact hm' ▸ hgo.1
        · refine hall htaken m ?_
          unfold TriedFrom at hm ⊢
          omega

theorem deviceKeyIdFor_spec (keys : List DeviceKey) (publicKey : String) :
    Taken keys publicKey (deviceKeyIdFor publicKey keys) ↔ ¬HasFreeId keys publicKey := by
  have hspec : ∃ n, IdLength (alphanumerics publicKey).length n ∧
      deviceKeyIdFor publicKey keys = String.ofList ((alphanumerics publicKey).take n) ∧
      (Taken keys publicKey (String.ofList ((alphanumerics publicKey).take n)) →
        ∀ m, IdLength (alphanumerics publicKey).length m →
          Taken keys publicKey (String.ofList ((alphanumerics publicKey).take m))) := by
    unfold deviceKeyIdFor
    dsimp only
    rw [← alphanumerics]
    split
    · rename_i hnil
      rw [hnil]
      refine ⟨0, .inl rfl, rfl, fun htaken m _ => ?_⟩
      rw [List.take_nil] at htaken ⊢
      exact htaken
    · rename_i hne
      have hpos := List.length_pos_iff.2 hne
      obtain ⟨n, hn, heq, hall⟩ := go_spec (alphanumerics publicKey) keys publicKey
        (max (min 16 (alphanumerics publicKey).length) 1) ((alphanumerics publicKey).length -
          max (min 16 (alphanumerics publicKey).length) 1) (by omega) (by omega)
      have htried (m : ℕ) : IdLength (alphanumerics publicKey).length m ↔
          TriedFrom (alphanumerics publicKey).length
            (max (min 16 (alphanumerics publicKey).length) 1) m := by
        unfold IdLength TriedFrom
        omega
      exact ⟨n, (htried n).2 hn, heq, fun htaken m hm => hall htaken m ((htried m).1 hm)⟩
  obtain ⟨n, hn, heq, hall⟩ := hspec
  rw [heq]
  constructor
  · rintro htaken ⟨m, hm, hfree⟩
    exact hfree (hall htaken m hm)
  · intro hnone
    by_contra hfree
    exact hnone ⟨n, hn, hfree⟩

/-! ## The registry -/

theorem nodup_map_concat {f : DeviceKey → String} {p : DeviceKey → Bool} {keys : List DeviceKey}
    {dk : DeviceKey} (h : (keys.map f).Nodup) (hne : ∀ k ∈ keys.filter p, f k ≠ f dk) :
    ((keys.filter p ++ [dk]).map f).Nodup := by
  rw [List.map_append, List.nodup_append]
  refine ⟨h.sublist (List.filter_sublist.map f), List.pairwise_singleton _ _, ?_⟩
  intro i hi j hj
  obtain ⟨k, hk, rfl⟩ := List.mem_map.1 hi
  rw [List.map_singleton, List.mem_singleton] at hj
  rw [hj]
  exact hne k hk

/-- Adding a key leaves every other key pinned exactly if one of the ids it may get is free. -/
theorem pins_only_iff (label publicKey createdAt peerId : String) (keys : List DeviceKey)
    (hids : (keys.map (·.id)).Nodup) (hkeys : (keys.map (·.publicKey)).Nodup) :
    PinsOnly publicKey keys (addDeviceKey label publicKey createdAt peerId keys) ↔
      HasFreeId keys publicKey := by
  rw [← not_iff_not, ← deviceKeyIdFor_spec]
  unfold addDeviceKey
  dsimp only
  generalize deviceKeyIdFor publicKey keys = id
  have hkeep : ∀ k ∈ keys.filter (fun k => k.publicKey != publicKey && k.id != id),
      k.publicKey ≠ publicKey ∧ k.id ≠ id := by
    intro k hk
    have hk := (List.mem_filter.1 hk).2
    rwa [Bool.and_eq_true, bne_iff_ne, bne_iff_ne] at hk
  constructor
  · -- every entry of another key stays unless its id is taken
    intro hpins
    by_contra hfree
    refine hpins ⟨fun k hk hne => ?_, fun k hk hne => ?_, ?_, ?_, ?_⟩
    · refine List.mem_append_left _ (List.mem_filter.2 ⟨hk, ?_⟩)
      rw [Bool.and_eq_true, bne_iff_ne, bne_iff_ne]
      exact ⟨hne, fun hid => hfree ⟨k, hk, hid, hne⟩⟩
    · obtain hk | hk := List.mem_append.1 hk
      · exact (List.mem_filter.1 hk).1
      · rw [List.mem_singleton.1 hk] at hne
        exact absurd rfl hne
    · exact ⟨_, List.mem_append_right _ List.mem_cons_self, rfl⟩
    · exact nodup_map_concat hids fun k hk => (hkeep k hk).2
    · exact nodup_map_concat hkeys fun k hk => (hkeep k hk).1
  · -- the entry whose id is taken goes
    rintro ⟨k, hk, hid, hne⟩ hpins
    obtain hin | hin := List.mem_append.1 (hpins.kept k hk hne)
    · exact (hkeep k hin).2 hid
    · rw [List.mem_singleton.1 hin] at hne
      exact hne rfl

/-! ## Two keys of the same letters and digits -/

namespace Sample

/-- A pinned key; its letters and digits are all in its id. -/
def pinnedKey : DeviceKey :=
  ⟨"AbcdEfghIjklMnoA", "desk 1", "AbcdEfghIjklMno+++++++++++++++++++++++++++A=",
    "2026-01-01T00:00:00Z", "work-1", ""⟩

/-- Another key of the same letters and digits. -/
def twinKey : String := "AbcdEfghIjklMno++++++++++++++++++++++++++/A="

/-- Another key that starts with the same letters and digits. -/
def longerKey : String := "AbcdEfghIjklMnoAQrstUvwxYz0123456789abcdefA="

end Sample

/-- A key that starts like another gets a longer id. -/
theorem pins_only_lengthened :
    PinsOnly Sample.longerKey [Sample.pinnedKey]
      (addDeviceKey "desk 2" Sample.longerKey "2026-02-01T00:00:00Z" "work-2"
        [Sample.pinnedKey]) := by
  have hfree : ¬Taken [Sample.pinnedKey] Sample.longerKey "AbcdEfghIjklMnoAQrst" := by
    rintro ⟨k, hk, hid, -⟩
    rw [List.mem_singleton.1 hk] at hid
    exact absurd hid (by decide)
  have hcut : String.ofList ((alphanumerics Sample.longerKey).take 20) =
      "AbcdEfghIjklMnoAQrst" := by decide +kernel
  refine (pins_only_iff "desk 2" Sample.longerKey "2026-02-01T00:00:00Z" "work-2"
    [Sample.pinnedKey] (List.pairwise_singleton _ _) (List.pairwise_singleton _ _)).2
    ⟨20, .inr ⟨by decide, by decide +kernel, by decide⟩, ?_⟩
  rwa [hcut]

/-- A key that has the letters and digits of another, and other signs between them, unpins it. -/
theorem not_pins_only : ¬∀ (label publicKey createdAt peerId : String) (keys : List DeviceKey),
    (keys.map (·.id)).Nodup → (keys.map (·.publicKey)).Nodup →
      PinsOnly publicKey keys (addDeviceKey label publicKey createdAt peerId keys) := by
  intro h
  have hpins := h "desk 2" Sample.twinKey "2026-02-01T00:00:00Z" "" [Sample.pinnedKey]
    (List.pairwise_singleton _ _) (List.pairwise_singleton _ _)
  have hkept := hpins.kept Sample.pinnedKey List.mem_cons_self (by decide)
  exact absurd hkept (by decide +kernel)

end Integration

end NemoServer
