import MigrationLedger.Binary64

/-! Natural numbers as floating point numbers. Up to 53 bits they are exact, so that comparing them
there is comparing them. Powers are written as in the definitions, as closed terms that the kernel
does not count up to. -/

namespace MigrationLedger

namespace Binary64

/-- The factor that brings a number to 53 bits. -/
theorem scaled_bounds {n : Nat} (hpos : n ≠ 0) (h : n < Nat.pow 2 53) :
    Nat.pow 2 52 ≤ n * Nat.pow 2 (52 - n.log2) ∧ n * Nat.pow 2 (52 - n.log2) < Nat.pow 2 53 := by
  have hlog : n.log2 < 53 := (Nat.log2_lt hpos).mpr h
  have hsum : n.log2 + (52 - n.log2) = 52 := by omega
  have hlow := Nat.mul_le_mul_right (2 ^ (52 - n.log2)) (Nat.log2_self_le hpos)
  have hhigh := Nat.mul_lt_mul_of_pos_right (Nat.lt_log2_self (n := n))
    (Nat.two_pow_pos (52 - n.log2))
  rw [← Nat.pow_add] at hlow hhigh
  rw [hsum] at hlow
  rw [Nat.add_right_comm, hsum] at hhigh
  exact ⟨hlow, hhigh⟩

theorem roundDiv_one (p : Nat) : roundDiv p 1 = p := by
  simp [roundDiv, Nat.mod_one]

/-- Integers of 53 bits are exact. -/
theorem ofNat_eq {n : Nat} (hpos : n ≠ 0) (h : n < Nat.pow 2 53) :
    ofNat n = .finite false (n * Nat.pow 2 (52 - n.log2)) ((n.log2 : Int) - 52) := by
  have hlog : n.log2 < 53 := (Nat.log2_lt hpos).mpr h
  obtain ⟨hlow, hhigh⟩ := scaled_bounds hpos h
  rw [ofNat, ofRatio, if_neg hpos]
  extract_lets guess fits exact e
  have hguess : guess = (n.log2 : Int) - 52 := by
    have hlog2 : Nat.log2 1 = 0 := by decide
    omega
  have hleast : leastExponent ≤ exact := by
    have hbound : leastExponent = -1074 := rfl
    omega
  have hgreatest : ¬greatestExponent < guess := by
    have hbound : greatestExponent = 971 := rfl
    omega
  have hdown : guess.toNat = 0 := by omega
  have hup : (-guess).toNat = 52 - n.log2 := by omega
  have hfits : fits guess = true := by
    refine decide_eq_true ?_
    have hone : Nat.pow 2 0 = 1 := rfl
    rw [scale, hdown, hup, hone]
    dsimp only
    rwa [Nat.one_mul]
  have hexact : exact = guess := if_pos hfits
  have he : e = guess := (Int.max_eq_left hleast).trans hexact
  have hone : Nat.pow 2 0 * 1 = 1 := rfl
  rw [scale, he, Int.neg_neg, hup, hdown]
  dsimp only
  rw [hone, roundDiv_one, if_neg (Nat.ne_of_lt hhigh)]
  dsimp only
  rw [if_neg hgreatest, hguess]

theorem le_roundDiv (p q : Nat) : p / q ≤ roundDiv p q := by
  rw [roundDiv]
  split
  · exact Nat.le_refl _
  · split <;> omega

/-- A positive integer is not rounded to zero, nor below its magnitude. -/
theorem ofRatio_one {n : Nat} (hpos : n ≠ 0) (negative : Bool) :
    (∃ m e, m ≠ 0 ∧ (n.log2 : Int) - 52 ≤ e ∧ ofRatio negative n 1 = .finite negative m e) ∨
      ofRatio negative n 1 = .infinite negative := by
  rw [ofRatio, if_neg hpos]
  extract_lets guess fits exact e
  have hguess : guess = (n.log2 : Int) - 52 := by
    have hlog2 : Nat.log2 1 = 0 := by decide
    omega
  have hexponents : guess.toNat + 52 = n.log2 + (-guess).toNat := by omega
  have hbits : Nat.pow 2 guess.toNat * Nat.pow 2 52 ≤ n * Nat.pow 2 (-guess).toNat := by
    have hpow : Nat.pow 2 guess.toNat * Nat.pow 2 52 = 2 ^ n.log2 * 2 ^ (-guess).toNat := by
      rw [← Nat.pow_add, ← hexponents]
      exact (Nat.pow_add 2 _ _).symm
    rw [hpow]
    exact Nat.mul_le_mul_right _ (Nat.log2_self_le hpos)
  have hfits : fits guess = true := by
    refine decide_eq_true ?_
    rw [scale]
    dsimp only
    rwa [Nat.one_mul, Nat.one_mul]
  have hexact : exact = guess := if_pos hfits
  have he : e = guess := by
    have hleast : leastExponent = -1074 := rfl
    omega
  rw [scale, he, Int.neg_neg]
  dsimp only
  rw [Nat.mul_one]
  have hmantissa : Nat.pow 2 52 ≤
      roundDiv (n * Nat.pow 2 (-guess).toNat) (Nat.pow 2 guess.toNat) := by
    refine Nat.le_trans ?_ (le_roundDiv _ _)
    exact (Nat.le_div_iff_mul_le (Nat.two_pow_pos _)).mpr (Nat.mul_comm _ _ ▸ hbits)
  have hlarge : 0 < Nat.pow 2 52 := Nat.two_pow_pos _
  split
  · dsimp only
    split
    · exact .inr rfl
    · exact .inl ⟨_, _, by omega, by omega, rfl⟩
  · dsimp only
    split
    · exact .inr rfl
    · exact .inl ⟨_, _, by omega, by omega, rfl⟩

theorem isFinite_ofNat {n : Nat} (h : n < Nat.pow 2 53) : (ofNat n).isFinite = true := by
  by_cases hpos : n = 0
  · rw [hpos]
    rfl
  · rw [ofNat_eq hpos h]
    rfl

theorem sameValue_finite {m m' : Nat} (h : m ≠ 0 ∨ m' ≠ 0) (e e' : Int) :
    sameValue (.finite false m e) (.finite false m' e') = true ↔ m = m' ∧ e = e' := by
  have hbeq : sameValue (.finite false m e) (.finite false m' e') =
      (Binary64.finite false m e == Binary64.finite false m' e') := by
    cases m with
    | zero =>
      cases m' with
      | zero => simp at h
      | succ m' => rfl
    | succ m => rfl
  rw [hbeq, beq_iff_eq, finite.injEq]
  simp

theorem sameValue_self (x : Binary64) : x.sameValue x = true := by
  cases x with
  | infinite negative => exact beq_self_eq_true _
  | finite negative m e =>
    cases m with
    | zero => rfl
    | succ m => exact beq_self_eq_true _

theorem eq_of_sameValue {negative : Bool} {m : Nat} {e : Int} (hm : m ≠ 0) {x : Binary64}
    (h : (finite negative m e).sameValue x = true) : x = .finite negative m e := by
  obtain ⟨m, rfl⟩ := Nat.exists_eq_succ_of_ne_zero hm
  exact (eq_of_beq h).symm

theorem not_sameValue_zero {n : Nat} (h : n ≠ 0) : (ofNat 0).sameValue (ofNat n) = false := by
  have hzero : ofNat 0 = .finite false 0 leastExponent := rfl
  rw [hzero]
  obtain ⟨m, e, hm, -, hn⟩ | hn := ofRatio_one h false
  · rw [ofNat, hn]
    refine Bool.eq_false_iff.mpr fun hsame => ?_
    exact hm ((sameValue_finite (.inr hm) _ _).mp hsame).1.symm
  · rw [ofNat, hn]
    rfl

/-- No negative integer has the value of a natural number. -/
theorem not_sameValue_negative {n : Nat} (h : n ≠ 0) (r : Nat) :
    (ofRatio true n 1).sameValue (ofNat r) = false := by
  have hr : ofNat r ≠ .infinite true ∧ ∀ m e, ofNat r ≠ .finite true m e := by
    by_cases hzero : r = 0
    · subst hzero
      exact ⟨nofun, nofun⟩
    · obtain ⟨m, e, -, -, hr⟩ | hr := ofRatio_one hzero false
      · rw [ofNat, hr]
        exact ⟨nofun, nofun⟩
      · rw [ofNat, hr]
        exact ⟨nofun, nofun⟩
  refine Bool.eq_false_iff.mpr fun hsame => ?_
  obtain ⟨m, e, hm, -, hn⟩ | hn := ofRatio_one h true
  · rw [hn] at hsame
    exact hr.2 m e (eq_of_sameValue hm hsame)
  · rw [hn] at hsame
    exact hr.1 (eq_of_beq hsame).symm

theorem sameValue_ofNat {a b : Nat} (ha : a < Nat.pow 2 53) (hb : b < Nat.pow 2 53) :
    (ofNat a).sameValue (ofNat b) = true ↔ a = b := by
  have hpow : ∀ k, 0 < Nat.pow 2 k := fun k => Nat.two_pow_pos k
  have hscaled : ∀ n, n ≠ 0 → n * Nat.pow 2 (52 - n.log2) ≠ 0 := by
    intro n hn
    exact Nat.mul_ne_zero hn (Nat.ne_of_gt (hpow _))
  have hzero : ofNat 0 = .finite false 0 leastExponent := rfl
  by_cases hza : a = 0
  · rw [hza, hzero]
    by_cases hzb : b = 0
    · rw [hzb]
      exact ⟨fun _ => rfl, fun _ => rfl⟩
    · rw [ofNat_eq hzb hb, sameValue_finite (.inr (hscaled b hzb))]
      exact ⟨fun h => absurd h.1.symm (hscaled b hzb), fun h => absurd h.symm hzb⟩
  · rw [ofNat_eq hza ha]
    by_cases hzb : b = 0
    · rw [hzb, hzero, sameValue_finite (.inl (hscaled a hza))]
      exact ⟨fun h => absurd h.1 (hscaled a hza), fun h => absurd h hza⟩
    · rw [ofNat_eq hzb hb, sameValue_finite (.inl (hscaled a hza))]
      constructor
      · rintro ⟨hm, he⟩
        have hlog : a.log2 = b.log2 := by omega
        rw [hlog] at hm
        exact Nat.eq_of_mul_eq_mul_right (hpow _) hm
      · rintro rfl
        exact ⟨rfl, rfl⟩

/-- It is enough that one of two counts is exact. -/
theorem sameValue_ofNat_of_lt {a : Nat} (ha : a < Nat.pow 2 53) (b : Nat) :
    (ofNat a).sameValue (ofNat b) = true ↔ a = b := by
  by_cases hb : b < Nat.pow 2 53
  · exact sameValue_ofNat ha hb
  · have hne : a ≠ b := by omega
    refine iff_of_false ?_ hne
    have hpos : b ≠ 0 := by
      have hlarge : 0 < Nat.pow 2 53 := Nat.two_pow_pos _
      omega
    have hlog : ¬b.log2 < 53 := mt (Nat.log2_lt hpos).mp hb
    by_cases hza : a = 0
    · rw [hza, not_sameValue_zero hpos]
      exact Bool.false_ne_true
    · have hloga : a.log2 < 53 := (Nat.log2_lt hza).mpr ha
      have hm : a * Nat.pow 2 (52 - a.log2) ≠ 0 :=
        Nat.mul_ne_zero hza (Nat.ne_of_gt (Nat.two_pow_pos _))
      rw [ofNat_eq hza ha]
      intro hsame
      -- the exponent of the greater number is positive, that of the exact one is not
      obtain ⟨m, e, -, he, hr⟩ | hr := ofRatio_one hpos false
      · rw [ofNat, hr] at hsame
        have hexponent := (finite.inj (eq_of_sameValue hm hsame)).2.2
        omega
      · rw [ofNat, hr] at hsame
        cases eq_of_sameValue hm hsame

end Binary64

end MigrationLedger
