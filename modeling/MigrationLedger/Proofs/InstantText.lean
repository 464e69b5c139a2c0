import Mathlib.Algebra.Group.Nat.Defs
import MigrationLedger.Instant.Reader
import MigrationLedger.Instant.Text
import MigrationLedger.Proofs.InstantRange

/-! Reading the written form of an instant gives the instant back. This holds of the instants that
the clock can show and that records can hold. -/

namespace MigrationLedger

theorem toList_zeroPadded (width n : Nat) :
    (zeroPadded width n).toList =
      List.replicate (width - (Nat.toDigits 10 n).length) '0' ++ Nat.toDigits 10 n := by
  have hpush (k : Nat) : ("".pushn '0' k).toList = List.replicate k '0' := by
    rw [String.pushn_eq_repeat_push]
    induction k with
    | zero => simp [Nat.repeat]
    | succ k ih => simp only [Nat.repeat, String.toList_push, ih, List.replicate_succ']
  rw [zeroPadded, String.toList_append, hpush, Nat.toString_eq_repr, Nat.toList_repr,
    ← String.length_toList, Nat.toList_repr]

/-- A run of digits that writes `n`. -/
structure Writes (n : Nat) (cs : List Char) : Prop where
  nonempty : cs ≠ []
  digits : ∀ c ∈ cs, c.isDigit = true
  value : digitsValue cs = n

theorem writes_zeroPadded (width n : Nat) : Writes n (zeroPadded width n).toList := by
  rw [toList_zeroPadded]
  refine ⟨by simp [Nat.toDigits_ne_nil], fun c hc => ?_, ?_⟩
  · rcases List.mem_append.mp hc with hc | hc
    · rw [List.eq_of_mem_replicate hc]
      rfl
    · exact Nat.isDigit_of_mem_toDigits (by decide) (by decide) hc
  · change Nat.ofDigitChars 10 _ 0 = n
    simp [Nat.ofDigitChars_append]

theorem length_zeroPadded (width : Nat) {n : Nat} (hw : 0 < width) (h : n < 10 ^ width) :
    (zeroPadded width n).toList.length = width := by
  have hle := (Nat.length_toDigits_le_iff (b := 10) (by decide) hw).mpr h
  rw [toList_zeroPadded, List.length_append, List.length_replicate]
  omega

namespace Instant

theorem isSpace_of_isDigit {c : Char} (h : c.isDigit = true) : isSpace c = false := by
  have hc : 48 ≤ c.toNat ∧ c.toNat ≤ 57 := by
    simpa [Char.isDigit, UInt32.le_iff_toNat_le] using h
  simp only [isSpace, Bool.or_eq_false_iff, Bool.and_eq_false_iff, decide_eq_false_iff_not]
  omega

theorem skipSpaces_cons {c : Char} (h : isSpace c = false) (cs : List Char) :
    skipSpaces (c :: cs) = c :: cs := by
  simp [skipSpaces, h]

theorem skipSpaces_append {n : Nat} {ds : List Char} (h : Writes n ds) (rest : List Char) :
    skipSpaces (ds ++ rest) = ds ++ rest := by
  cases ds with
  | nil => exact absurd rfl h.nonempty
  | cons d ds => exact skipSpaces_cons (isSpace_of_isDigit (h.digits d (by simp))) _

/-- A run of digits is read as far as it goes: up to the width, or up to something else. -/
theorem scanNumber_append {n : Nat} {ds : List Char} (h : Writes n ds) (width : Nat)
    (rest : List Char) (hwidth : ds.length ≤ width)
    (hstop : ds.length = width ∨ ∃ c cs, rest = c :: cs ∧ c.isDigit = false)
    (hn : n < 2 ^ 63) : scanNumber width (ds ++ rest) = .ok (n, rest) := by
  have htake : ((ds ++ rest).take width).takeWhile Char.isDigit = ds := by
    rw [List.take_append, List.take_of_length_le hwidth, List.takeWhile_append_of_pos h.digits]
    rcases hstop with hlen | ⟨c, cs, rfl, hc⟩
    · simp [hlen]
    · cases width - ds.length <;> simp [hc]
  cases hds : ds with
  | nil => exact absurd hds h.nonempty
  | cons d tail =>
    have hd : d.isDigit = true := h.digits d (by simp [hds])
    rw [hds] at htake
    simp only [List.cons_append] at htake
    have hvalue : digitsValue (d :: tail) = n := hds ▸ h.value
    have hfit : ¬Nat.pow 2 63 ≤ n := Nat.not_le.mpr hn
    simp only [scanNumber, List.cons_append, hd, Bool.not_true, Bool.false_eq_true, if_false, htake,
      hvalue, hfit]
    simp

theorem scanField_zeroPadded {n low high : Nat} (rest : List Char) (hlow : low ≤ n)
    (hhigh : n ≤ high) (hn : n < 100) :
    scanField low high ((zeroPadded 2 n).toList ++ rest) = .ok (n, rest) := by
  have h := writes_zeroPadded 2 n
  have hlen := length_zeroPadded 2 (by decide) hn
  have hscan := scanNumber_append h 2 rest (Nat.le_of_eq hlen) (.inl hlen) (by omega)
  simp only [scanField, skipSpaces_append h, hscan, bind, Except.bind, hlow, hhigh, and_self,
    if_true]

theorem scanMark_cons {mark : Char} (h : isSpace mark = false) (rest : List Char) :
    scanMark mark (mark :: rest) = .ok ((), rest) := by
  simp [scanMark, skipSpaces_cons h]

theorem scanYear_yearText {year : Int} (h : year.natAbs < 1000000) (rest : List Char) :
    scanYear ((yearText year).toList ++ '-' :: rest) = .ok (year, '-' :: rest) := by
  have hdash : ∃ c cs, '-' :: rest = c :: cs ∧ c.isDigit = false := ⟨_, _, rfl, rfl⟩
  by_cases hplain : 0 ≤ year ∧ year ≤ 9999
  · have hw := writes_zeroPadded 4 year.toNat
    have hlen := length_zeroPadded 4 (show 0 < 4 by decide) (show year.toNat < 10 ^ 4 by omega)
    have hscan := scanNumber_append hw 4 _ (Nat.le_of_eq hlen) (.inr hdash) (by omega)
    rw [yearText, if_pos hplain]
    generalize hds : (zeroPadded 4 year.toNat).toList = ds at hw hscan
    cases ds with
    | nil => exact absurd rfl hw.nonempty
    | cons d tail =>
      have hd := hw.digits d (by simp)
      have hminus : d ≠ '-' := by
        rintro rfl
        exact absurd hd (by decide)
      have hplus : d ≠ '+' := by
        rintro rfl
        exact absurd hd (by decide)
      have hskip := skipSpaces_append hw ('-' :: rest)
      rw [List.cons_append] at hscan hskip
      have hback : (year.toNat : Int) = year := by omega
      have hfit : ¬(year < -2147483648 ∨ 2147483648 ≤ year) := by omega
      rw [scanYear, List.cons_append, hskip]
      split
      · next heq => exact absurd (List.cons.inj heq).1 hminus
      · next heq => exact absurd (List.cons.inj heq).1 hplus
      · simp only [hscan, Except.map, bind, Except.bind, hback, hfit, if_false]
  · have hw := writes_zeroPadded 4 year.natAbs
    have hscan := scanNumber_append hw ((zeroPadded 4 year.natAbs).toList ++ '-' :: rest).length _
      (by simp) (.inr hdash) (by omega)
    have hfit : ¬(year < -2147483648 ∨ 2147483648 ≤ year) := by omega
    rw [yearText, if_neg hplain]
    by_cases hneg : year < 0
    · have hback : -(year.natAbs : Int) = year := by omega
      simp only [hneg, if_true, String.toList_append, String.reduceToList, List.cons_append,
        List.nil_append, scanYear, skipSpaces_cons (c := '-') rfl, hscan, Except.map, bind,
        Except.bind, hback, hfit, if_false]
    · have hback : (year.natAbs : Int) = year := by omega
      simp only [hneg, if_false, String.toList_append, String.reduceToList, List.cons_append,
        List.nil_append, scanYear, skipSpaces_cons (c := '+') rfl, hscan, Except.map, bind,
        Except.bind, hback, hfit, if_false]

theorem scanFraction_zeroPadded (places n : Nat) (hp : 0 < places) (hp' : places ≤ 9)
    (hn : n < 10 ^ places) :
    scanFraction ('.' :: ((zeroPadded places n).toList ++ ['Z'])) =
      .ok (n * 10 ^ (9 - places), ['Z']) := by
  have hlen := length_zeroPadded places hp hn
  have hsmall : n < 2 ^ 63 := by
    have : (10 : Nat) ^ places ≤ 10 ^ 9 := Nat.pow_le_pow_right (by decide) hp'
    omega
  have hscan := scanNumber_append (writes_zeroPadded places n) 9 _ (by omega)
    (.inr ⟨'Z', [], rfl, rfl⟩) hsmall
  have hplaces : ((zeroPadded places n).toList ++ ['Z']).length - ['Z'].length = places := by
    simp [hlen]
  have hdrop : ['Z'].dropWhile Char.isDigit = ['Z'] := rfl
  simp only [scanFraction, hscan, bind, Except.bind, hplaces, hdrop, Nat.pow_eq]

/-- The nanoseconds of the second, however many digits write them. -/
theorem scanFraction_fractionText (i : Instant) :
    scanFraction (i.fractionText.toList ++ ['Z']) = .ok (i.nanos % billion, ['Z']) := by
  have hlt : i.nanos % billion < 1000000000 := Nat.mod_lt _ (by decide)
  rw [fractionText]
  generalize i.nanos % billion = n at hlt
  by_cases h0 : n = 0
  · simp [h0, scanFraction]
  by_cases h3 : n % 1000000 = 0
  · have hscan := scanFraction_zeroPadded 3 (n / 1000000) (by decide) (by decide)
      (by omega)
    have hback : n / 1000000 * 10 ^ (9 - 3) = n := by omega
    simpa only [h0, h3, if_false, if_true, String.toList_append, String.reduceToList,
      List.cons_append, List.nil_append, hback] using hscan
  by_cases h6 : n % 1000 = 0
  · have hscan := scanFraction_zeroPadded 6 (n / 1000) (by decide) (by decide)
      (by omega)
    have hback : n / 1000 * 10 ^ (9 - 6) = n := by omega
    simpa only [h0, h3, h6, if_false, if_true, String.toList_append, String.reduceToList,
      List.cons_append, List.nil_append, hback] using hscan
  · have hscan := scanFraction_zeroPadded 9 n (by decide) (by decide) (by omega)
    simpa [h0, h3, h6] using hscan

theorem ofLocal_eq {i : Instant} {date : CalendarDate} {hour minute second fraction : Nat}
    (hdate : date.isValid = true) (hrange : i.isInRange = true)
    (hseconds : date.dayNumber * secondsPerDay +
      (hour * 3600 + minute * 60 + (if second = 60 then 59 else second : Nat)) = i.seconds)
    (hnanos : fraction + (if second = 60 then billion else 0) = i.nanos) :
    ofLocal date hour minute second fraction 0 = .ok i := by
  have hi : (⟨date.dayNumber * secondsPerDay +
      (hour * 3600 + minute * 60 + (if second = 60 then 59 else second : Nat)) - 0,
      fraction + (if second = 60 then billion else 0)⟩ : Instant) = i := by
    rw [hnanos, Int.sub_zero, hseconds]
  have hgood : ¬(¬date.isValid = true ∨ 86400 ≤ (0 : Int).natAbs) := by simp [hdate]
  rw [ofLocal]
  dsimp only
  rw [if_neg hgood, hi, if_pos hrange]

theorem ofLocal_parts {i : Instant} (h : i.IsValid) :
    ofLocal (CalendarDate.ofDayNumber i.dayOf) (i.secondOfDay.toNat / 3600)
      (i.secondOfDay.toNat / 60 % 60)
      (i.secondOfDay.toNat % 60 + if billion ≤ i.nanos then 1 else 0) (i.nanos % billion) 0 =
      .ok i := by
  have hnanos := h.nanos
  simp only [billion] at hnanos
  refine ofLocal_eq (isValid_date h.inRange) h.inRange ?_ ?_
  · rw [CalendarDate.dayNumber_ofDayNumber]
    simp only [dayOf, secondOfDay, secondsPerDay, billion]
    by_cases hleap : 1000000000 ≤ i.nanos <;> simp only [hleap, if_true, if_false] <;> split <;>
      omega
  · simp only [secondOfDay, secondsPerDay, billion]
    by_cases hleap : 1000000000 ≤ i.nanos <;> simp only [hleap, if_true, if_false] <;> split <;>
      omega

theorem read_text {i : Instant} (h : i.IsValid) : read i.text = .ok i := by
  have hparts := ofLocal_parts h
  have hvalid := isValid_date h.inRange
  have hnanos := h.nanos
  simp only [billion] at hnanos
  simp only [CalendarDate.isValid, Bool.and_eq_true, decide_eq_true_eq] at hvalid
  simp only [CalendarDate.leastYear, CalendarDate.greatestYear] at hvalid
  rw [read, text, dateText, clockText]
  generalize CalendarDate.ofDayNumber i.dayOf = date at *
  have hdays : CalendarDate.daysInMonth date.year date.month ≤ 31 := by
    simp only [CalendarDate.daysInMonth]
    split <;> split <;> omega
  have hclock : i.secondOfDay.toNat < 86400 ∧
      (billion ≤ i.nanos → i.secondOfDay.toNat % 60 = 59) := by
    simp only [secondOfDay, secondsPerDay, billion]
    omega
  generalize i.secondOfDay.toNat = ofDay at *
  have hsecond : ofDay % 60 + (if billion ≤ i.nanos then 1 else 0) ≤ 60 := by
    split <;> omega
  simp only [String.toList_append, String.reduceToList, List.append_assoc, List.cons_append,
    List.nil_append, readChars]
  rw [scanYear_yearText (by omega)]
  simp only [bind, Except.bind]
  rw [scanMark_cons rfl]
  dsimp only
  rw [scanField_zeroPadded _ (by omega) (by omega) (by omega)]
  dsimp only
  rw [scanMark_cons rfl]
  dsimp only
  rw [scanField_zeroPadded _ (by omega) (by omega) (by omega)]
  simp only [scanSeparator, true_or, if_true]
  rw [scanField_zeroPadded _ (by omega) (by omega) (by omega)]
  dsimp only
  rw [scanMark_cons rfl]
  dsimp only
  rw [scanField_zeroPadded _ (by omega) (by omega) (by omega)]
  dsimp only
  rw [scanMark_cons rfl]
  dsimp only
  rw [scanField_zeroPadded _ (by omega) (by omega) (by omega)]
  dsimp only
  rw [scanFraction_fractionText]
  exact hparts

end Instant

end MigrationLedger
