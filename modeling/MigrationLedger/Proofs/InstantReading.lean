import Mathlib.Data.List.Induction
import MigrationLedger.Proofs.StoredRecord

/-! What reads as an instant is one that the clock can show, however it was written. So the written
forms of those instants, and of no others, read back. -/

namespace MigrationLedger

theorem digitValue_le {c : Char} (h : c.isDigit = true) : digitValue c ≤ 9 := by
  have hc : 48 ≤ c.toNat ∧ c.toNat ≤ 57 := by
    simpa [Char.isDigit, UInt32.le_iff_toNat_le] using h
  have hzero : '0'.toNat = 48 := rfl
  rw [digitValue, hzero]
  omega

theorem digitsValue_lt {ds : List Char} (h : ∀ c ∈ ds, c.isDigit = true) :
    digitsValue ds < 10 ^ ds.length := by
  induction ds using List.reverseRecOn with
  | nil => simp [digitsValue]
  | append_singleton ds c ih =>
    have hlt := ih fun d hd => h d (by simp [hd])
    have hle := digitValue_le (h c (by simp))
    have hvalue : digitsValue (ds ++ [c]) = 10 * digitsValue ds + digitValue c := by
      simp [digitsValue]
    rw [hvalue, List.length_append, List.length_singleton, Nat.pow_succ]
    omega

namespace Instant

theorem scanNumber_lt {width n : Nat} {cs rest : List Char}
    (h : scanNumber width cs = .ok (n, rest)) :
    n < 10 ^ (cs.length - rest.length) ∧ cs.length - rest.length ≤ width := by
  cases cs with
  | nil => cases h
  | cons c tail =>
    simp only [scanNumber] at h
    generalize hds : ((c :: tail).take width).takeWhile Char.isDigit = ds at h
    have hsub : ds.length ≤ ((c :: tail).take width).length :=
      hds ▸ (List.takeWhile_sublist _).length_le
    have hdigits : ∀ d ∈ ds, d.isDigit = true := List.all_eq_true.mp (hds ▸ List.all_takeWhile)
    rw [List.length_take] at hsub
    split at h
    · cases h
    · split at h
      · cases h
      · cases h
        have hplaces : (c :: tail).length - ((c :: tail).drop ds.length).length = ds.length := by
          rw [List.length_drop]
          omega
        rw [hplaces]
        exact ⟨digitsValue_lt hdigits, by omega⟩

theorem scanFraction_lt {cs rest : List Char} {n : Nat} (h : scanFraction cs = .ok (n, rest)) :
    n < billion := by
  unfold scanFraction at h
  split at h
  · next tail =>
    obtain ⟨⟨m, after⟩, hscan, hn⟩ := bind_eq_ok h
    cases hn
    obtain ⟨hm, hplaces⟩ := scanNumber_lt hscan
    calc m * 10 ^ (9 - (tail.length - after.length))
        < 10 ^ (tail.length - after.length) * 10 ^ (9 - (tail.length - after.length)) :=
          Nat.mul_lt_mul_of_pos_right hm (Nat.pow_pos (by decide))
      _ = 10 ^ 9 := by rw [← Nat.pow_add, Nat.add_sub_cancel' hplaces]
  · cases h
    decide

/-- Offsets are whole minutes. -/
theorem scanOffset_minutes {cs rest : List Char} {offset : Int}
    (h : scanOffset cs = .ok (offset, rest)) : offset % 60 = 0 := by
  cases cs with
  | nil => cases h
  | cons c tail =>
    simp only [scanOffset] at h
    split at h
    · cases h
      rfl
    · split at h
      · obtain ⟨⟨hours, rest₁⟩, -, h⟩ := bind_eq_ok h
        obtain ⟨⟨minutes, rest₂⟩, -, h⟩ := bind_eq_ok h
        dsimp only at h
        split at h
        · cases h
        · cases h
          split <;> omega
      · cases h

theorem scanZone_minutes {cs rest : List Char} {offset : Int}
    (h : scanZone cs = .ok (offset, rest)) : offset % 60 = 0 := by
  unfold scanZone at h
  split at h
  · split at h
    · cases h
      rfl
    · exact scanOffset_minutes h
  · exact scanOffset_minutes h

/-- The sixtieth second ends a minute, here and in every offset from here. -/
theorem isValid_of_ofLocal {date : CalendarDate} {hour minute second fraction : Nat} {offset : Int}
    {i : Instant} (hfraction : fraction < billion) (hoffset : offset % 60 = 0)
    (h : ofLocal date hour minute second fraction offset = .ok i) : i.IsValid := by
  rw [ofLocal] at h
  dsimp only at h
  split at h
  · cases h
  · by_cases hleap : second = 60
    · simp only [hleap, if_true] at h
      split at h
      · next hrange =>
        cases h
        refine ⟨hrange, .inr ⟨?_, ?_⟩⟩
        · simp only [secondsPerDay]
          omega
        · simp only [billion] at *
          omega
      · cases h
    · simp only [hleap, if_false] at h
      split at h
      · next hrange =>
        cases h
        exact ⟨hrange, .inl hfraction⟩
      · cases h

theorem isValid_of_read {text : String} {i : Instant} (h : read text = .ok i) : i.IsValid := by
  rw [read, readChars] at h
  obtain ⟨⟨year, _⟩, -, h⟩ := bind_eq_ok h
  obtain ⟨_, -, h⟩ := bind_eq_ok h
  obtain ⟨⟨month, _⟩, -, h⟩ := bind_eq_ok h
  obtain ⟨_, -, h⟩ := bind_eq_ok h
  obtain ⟨⟨day, _⟩, -, h⟩ := bind_eq_ok h
  obtain ⟨_, -, h⟩ := bind_eq_ok h
  obtain ⟨⟨hour, _⟩, -, h⟩ := bind_eq_ok h
  obtain ⟨_, -, h⟩ := bind_eq_ok h
  obtain ⟨⟨minute, _⟩, -, h⟩ := bind_eq_ok h
  obtain ⟨_, -, h⟩ := bind_eq_ok h
  obtain ⟨⟨second, _⟩, -, h⟩ := bind_eq_ok h
  obtain ⟨⟨fraction, _⟩, hfraction, h⟩ := bind_eq_ok h
  obtain ⟨⟨offset, _⟩, hoffset, h⟩ := bind_eq_ok h
  dsimp only at h
  split at h
  · cases h
  · exact isValid_of_ofLocal (scanFraction_lt hfraction) (scanZone_minutes hoffset) h

/-- Exactly the times of the clock are read back from their text. -/
theorem read_text_iff {i : Instant} : read i.text = .ok i ↔ i.IsValid :=
  ⟨isValid_of_read, read_text⟩

end Instant

end MigrationLedger
