import MigrationLedger.Json.Reader
import MigrationLedger.Json.Text
import MigrationLedger.Proofs.InstantText

/-! Reading the compact text of a value. Without floating point numbers the value comes back, its
objects sorted, whichever way digits would be rounded. -/

namespace MigrationLedger.Json

/-! ## Texts -/

theorem hexValue?_hexDigit {n : Nat} (h : n < 16) : hexValue? (hexDigit n) = some n := by
  have hall : ∀ n : Fin 16, hexValue? (hexDigit n) = some n.val := by decide
  exact hall ⟨n, h⟩

theorem readUnicode_control {c : Char} (h : c.toNat < 32) (rest : List Char) :
    readUnicode ('0' :: '0' :: hexDigit (c.toNat / 16) :: hexDigit (c.toNat % 16) :: rest) =
      some (c, rest) := by
  have hzero : hexValue? '0' = some 0 := by decide
  have hhigh := hexValue?_hexDigit (show c.toNat / 16 < 16 by omega)
  have hlow := hexValue?_hexDigit (show c.toNat % 16 < 16 by omega)
  have hvalue : ((0 * 16 + 0) * 16 + c.toNat / 16) * 16 + c.toNat % 16 = c.toNat := by omega
  have hplain : c.toNat < 0xD800 ∨ 0xDFFF < c.toNat := by omega
  simp only [readUnicode, readHex4, hzero, hhigh, hlow, hvalue, bind, Option.bind, hplain, if_true,
    Char.ofNat_toNat]

/-- A character is read back whichever way it is written. -/
theorem readString_escapeChar (fuel : Nat) (seen : List Char) (c : Char) (rest : List Char) :
    readString (fuel + 1) seen (escapeChar c ++ rest) = readString fuel (c :: seen) rest := by
  rw [escapeChar]
  split_ifs with hquote hslash hline hreturn htab hback hfeed hcontrol
  · rw [hquote]
    rfl
  · rw [hslash]
    rfl
  · rw [hline]
    rfl
  · rw [hreturn]
    rfl
  · rw [htab]
    rfl
  · rw [hback]
    rfl
  · rw [hfeed]
    rfl
  · simp only [List.cons_append, List.nil_append, readString, readUnicode_control hcontrol, bind,
      Option.bind]
  · rw [List.singleton_append, readString]
    · rw [if_neg hcontrol]
    · exact hquote
    · rintro tail rfl
      exact absurd rfl hslash
    · rintro e tail rfl
      exact absurd rfl hslash

theorem readString_escaped {fuel : Nat} {cs : List Char} (h : cs.length < fuel)
    (seen rest : List Char) :
    readString fuel seen (cs.flatMap escapeChar ++ '"' :: rest) =
      some (String.ofList (seen.reverse ++ cs), rest) := by
  induction cs generalizing fuel seen with
  | nil =>
    cases fuel with
    | zero => cases h
    | succ fuel => simp [readString]
  | cons c cs ih =>
    cases fuel with
    | zero => cases h
    | succ fuel =>
      rw [List.flatMap_cons, List.append_assoc, readString_escapeChar, ih (by simpa using h)]
      simp

theorem length_le_escaped (cs : List Char) : cs.length ≤ (cs.flatMap escapeChar).length := by
  have hone : ∀ c, 1 ≤ (escapeChar c).length := by
    intro c
    simp only [escapeChar]
    split_ifs <;> simp
  induction cs with
  | nil => simp
  | cons c cs ih =>
    have := hone c
    simp only [List.flatMap_cons, List.length_append, List.length_cons]
    omega

/-- The characters after an opening quote. -/
def afterQuote (s : String) (rest : List Char) : List Char :=
  s.toList.flatMap escapeChar ++ '"' :: rest

theorem quotedText_append (s : String) (rest : List Char) :
    quotedText s ++ rest = '"' :: afterQuote s rest := by
  simp [quotedText, afterQuote]

theorem readString_afterQuote (s : String) (rest : List Char) :
    readString ((afterQuote s rest).length + 1) [] (afterQuote s rest) = some (s, rest) := by
  have hlength : s.toList.length < (afterQuote s rest).length + 1 := by
    have := length_le_escaped s.toList
    simp only [afterQuote, List.length_append]
    omega
  have hread := readString_escaped hlength [] rest
  rw [afterQuote]
  simpa [afterQuote] using hread

/-! ## Numbers -/

/-- What stands after a value inside an array or an object, or nothing. -/
def Closes (rest : List Char) : Prop := ∀ c cs, rest = c :: cs → c = ',' ∨ c = ']' ∨ c = '}'

theorem Closes.nil : Closes [] := nofun

theorem Closes.cons {c : Char} (h : c = ',' ∨ c = ']' ∨ c = '}') (rest : List Char) :
    Closes (c :: rest) := by
  intro d ds hd
  obtain ⟨rfl, -⟩ := List.cons.inj hd
  exact h

theorem splitDigits_append {n : Nat} {ds rest : List Char} (h : Writes n ds) (hrest : Closes rest) :
    splitDigits (ds ++ rest) = (ds, rest) := by
  have hstop : rest.takeWhile Char.isDigit = [] ∧ rest.dropWhile Char.isDigit = rest := by
    cases rest with
    | nil => exact ⟨rfl, rfl⟩
    | cons c cs =>
      have hc : c.isDigit = false := by
        rcases hrest c cs rfl with rfl | rfl | rfl <;> decide
      simp [hc]
  rw [splitDigits, List.takeWhile_append_of_pos h.digits, List.dropWhile_append_of_pos h.digits,
    hstop.1, hstop.2, List.append_nil]

theorem readFraction_closes {rest : List Char} (h : Closes rest) :
    readFraction rest = some (none, rest) := by
  cases rest with
  | nil => rfl
  | cons c cs => rcases h c cs rfl with rfl | rfl | rfl <;> rfl

theorem readExponent_closes {rest : List Char} (h : Closes rest) :
    readExponent rest = some (none, rest) := by
  cases rest with
  | nil => rfl
  | cons c cs => rcases h c cs rfl with rfl | rfl | rfl <;> rfl

theorem head?_toDigits (n : Nat) (h : (Nat.toDigits 10 n).head? = some '0') : n = 0 := by
  induction n using Nat.strongRecOn with
  | ind n ih =>
    by_cases hn : n < 10
    · rw [Nat.toDigits_of_lt_base hn] at h
      simpa using h
    · rw [Nat.toDigits_of_base_le (by decide) (by omega), List.head?_append,
        List.head?_eq_some_head Nat.toDigits_ne_nil, Option.some_or,
        ← List.head?_eq_some_head Nat.toDigits_ne_nil] at h
      have := ih (n / 10) (by omega) h
      omega

theorem writes_toDigits (n : Nat) : Writes n (Nat.toDigits 10 n) := by
  have h := writes_zeroPadded 0 n
  rwa [toList_zeroPadded, Nat.zero_sub, List.replicate_zero, List.nil_append] at h

theorem toDigits_noLeadingZero (n : Nat) :
    ¬((Nat.toDigits 10 n).isEmpty = true ∨
      1 < (Nat.toDigits 10 n).length ∧ (Nat.toDigits 10 n).head? = some '0') := by
  rintro (h | ⟨hlength, h⟩)
  · exact Nat.toDigits_ne_nil (List.isEmpty_iff.mp h)
  · rw [head?_toDigits n h] at hlength
    exact absurd hlength (by decide)

variable {how : Rounding} {rest : List Char}

theorem readNumber_nat {n : Nat} (hn : n ≤ greatestWord) (hrest : Closes rest) :
    readNumber how (Nat.toDigits 10 n ++ rest) = some (.nat n, rest) := by
  have hw := writes_toDigits n
  have hsplit := splitDigits_append hw hrest
  have hzero := toDigits_noLeadingZero n
  have hvalue := hw.value
  generalize hds : Nat.toDigits 10 n = ds at *
  cases ds with
  | nil => exact absurd rfl hw.nonempty
  | cons d tail =>
    have hminus : d ≠ '-' := by
      rintro rfl
      exact absurd (hw.digits '-' (by simp)) (by decide)
    rw [List.cons_append] at hsplit
    rw [List.cons_append, readNumber]
    · simp only [hsplit, hzero, if_false, readFraction_closes hrest, readExponent_closes hrest,
        bind, Option.bind, Option.isSome_none, Bool.or_self, Bool.false_eq_true, integer?, hvalue,
        Nat.not_lt.mpr hn]
      rfl
    · rintro r h
      exact hminus (List.cons.inj h).1

theorem readNumber_below {n : Nat} (hn : n < Nat.pow 2 63) (hrest : Closes rest) :
    readNumber how ('-' :: (Nat.toDigits 10 (n + 1) ++ rest)) = some (.below n, rest) := by
  have hw := writes_toDigits (n + 1)
  have hfit : ¬(n + 1 = 0 ∨ Nat.pow 2 63 < n + 1) := by omega
  simp only [readNumber, splitDigits_append hw hrest, toDigits_noLeadingZero, if_false,
    readFraction_closes hrest, readExponent_closes hrest, bind, Option.bind, Option.isSome_none,
    Bool.or_self, Bool.false_eq_true, integer?, hw.value, if_true, hfit, Nat.add_sub_cancel]
  rfl

/-! ## Values -/

theorem skipBlanks_cons {c : Char} (h : isBlank c = false) (cs : List Char) :
    skipBlanks (c :: cs) = c :: cs := by
  simp [skipBlanks, h]

mutual

/-- The value as it is read: its objects sorted, and of two fields with one name the later. -/
def normal : Json → Json
  | .arr items => .arr (normalItems items)
  | .obj fields => .obj (normalFields [] fields)
  | j => j

def normalItems : List Json → List Json
  | [] => []
  | x :: xs => x.normal :: normalItems xs

/-- What becomes of the fields seen so far when others follow. -/
def normalFields (seen : List (String × Json)) : List (String × Json) → List (String × Json)
  | [] => seen
  | (k, v) :: fs => normalFields (insertKey k v.normal seen) fs

end

mutual

/-- Whether a value can come back: there is no floating point number in it, its integers fit a word,
and it is not nested too deeply. -/
def isPlain : (depth : Nat) → Json → Bool
  | _, .num (.nat n) => n ≤ greatestWord
  | _, .num (.below n) => n < Nat.pow 2 63
  | _, .num (.float _) => false
  | depth, .arr items => 1 < depth && arePlain (depth - 1) items
  | depth, .obj fields => 1 < depth && fieldsPlain (depth - 1) fields
  | _, _ => true

def arePlain : (depth : Nat) → List Json → Bool
  | _, [] => true
  | depth, x :: xs => isPlain depth x && arePlain depth xs

def fieldsPlain : (depth : Nat) → List (String × Json) → Bool
  | _, [] => true
  | depth, (_, v) :: fs => isPlain depth v && fieldsPlain depth fs

end

theorem toList_natText (n : Nat) : (Number.nat n).text.toList = Nat.toDigits 10 n := by
  rw [Number.text, Nat.toString_eq_repr, Nat.toList_repr]

theorem toList_belowText (n : Nat) :
    (Number.below n).text.toList = '-' :: Nat.toDigits 10 (n + 1) := by
  rw [Number.text, String.toList_append, Nat.toString_eq_repr, Nat.toList_repr]
  rfl

theorem isBlank_of_isDigit {c : Char} (h : c.isDigit = true) : isBlank c = false := by
  by_contra hblank
  simp only [isBlank, Bool.not_eq_false, Bool.or_eq_true, decide_eq_true_eq] at hblank
  rcases hblank with ((rfl | rfl) | rfl) | rfl <;> exact absurd h (by decide)

theorem readValue_number (fuel depth : Nat) {c : Char} (h : c = '-' ∨ c.isDigit = true)
    (cs : List Char) : readValue how (fuel + 1) depth (c :: cs) =
      (readNumber how (c :: cs)).map fun (n, rest) => (.num n, rest) := by
  have hblank : isBlank c = false := by
    rcases h with rfl | h
    · decide
    · exact isBlank_of_isDigit h
  rw [readValue, skipBlanks_cons hblank]
  split
  -- no other value begins as a number does
  iterate 6
    · next heq =>
      obtain ⟨rfl, -⟩ := List.cons.inj heq
      exact absurd h (by decide)
  · rfl

/-- A value that is written out begins with a character that is neither blank nor a closing one. -/
theorem compactChars_head {depth : Nat} {j : Json} (h : j.isPlain depth = true) :
    ∃ c cs, compactChars j = c :: cs ∧ isBlank c = false ∧ c ≠ ']' := by
  have hdigits : ∀ n, ∃ c cs, Nat.toDigits 10 n = c :: cs ∧ isBlank c = false ∧ c ≠ ']' := by
    intro n
    have hw := writes_toDigits n
    cases hds : Nat.toDigits 10 n with
    | nil => exact absurd hds hw.nonempty
    | cons c cs =>
      have hc : c.isDigit = true := hw.digits c (by simp [hds])
      refine ⟨c, cs, rfl, isBlank_of_isDigit hc, ?_⟩
      rintro rfl
      exact absurd hc (by decide)
  cases j with
  | null => exact ⟨'n', ['u', 'l', 'l'], rfl, by decide, by decide⟩
  | bool b => cases b <;> exact ⟨_, _, rfl, by decide, by decide⟩
  | num n =>
    cases n with
    | nat n =>
      rw [compactChars, toList_natText]
      exact hdigits n
    | below n =>
      rw [compactChars, toList_belowText]
      exact ⟨_, _, rfl, by decide, by decide⟩
    | float x => cases h
  | str s => exact ⟨_, _, rfl, by decide, by decide⟩
  | arr items => cases items <;> exact ⟨_, _, rfl, by decide, by decide⟩
  | obj fields => cases fields <;> exact ⟨_, _, rfl, by decide, by decide⟩

variable {fuel depth : Nat} {cs : List Char} {x : Json}

theorem readValue_arr (hdepth : 1 < depth) {c : Char} (hblank : isBlank c = false) (hc : c ≠ ']') :
    readValue how (fuel + 1) depth ('[' :: c :: cs) =
      readItems how fuel (depth - 1) [] (c :: cs) := by
  have hdeep : ¬depth ≤ 1 := by omega
  rw [readValue, skipBlanks_cons (by decide)]
  simp only [hdeep, if_false, skipBlanks_cons hblank]
  split
  · next heq => exact absurd (List.cons.inj heq).1 hc
  · rfl

theorem readValue_obj (hdepth : 1 < depth) (k : String) :
    readValue how (fuel + 1) depth ('{' :: '"' :: afterQuote k cs) =
      readFields how fuel (depth - 1) [] ('"' :: afterQuote k cs) := by
  have hdeep : ¬depth ≤ 1 := by omega
  rw [readValue, skipBlanks_cons (by decide)]
  simp only [hdeep, if_false, skipBlanks_cons (c := '"') (by decide)]
  rfl

theorem readItems_comma (h : readValue how fuel depth cs = some (x, ',' :: rest))
    (seen : List Json) :
    readItems how (fuel + 1) depth seen cs = readItems how fuel depth (x :: seen) rest := by
  rw [readItems, h]
  rfl

theorem readItems_close (h : readValue how fuel depth cs = some (x, ']' :: rest))
    (seen : List Json) :
    readItems how (fuel + 1) depth seen cs = some (.arr (x :: seen).reverse, rest) := by
  rw [readItems, h]
  rfl

theorem readFields_comma (h : readValue how fuel depth cs = some (x, ',' :: rest)) (k : String)
    (seen : List (String × Json)) :
    readFields how (fuel + 1) depth seen ('"' :: afterQuote k (':' :: cs)) =
      readFields how fuel depth (insertKey k x seen) rest := by
  rw [readFields, skipBlanks_cons (by decide)]
  simp only [readString_afterQuote, bind, Option.bind, skipBlanks_cons (c := ':') (by decide), h,
    skipBlanks_cons (c := ',') (by decide)]

theorem readFields_close (h : readValue how fuel depth cs = some (x, '}' :: rest)) (k : String)
    (seen : List (String × Json)) :
    readFields how (fuel + 1) depth seen ('"' :: afterQuote k (':' :: cs)) =
      some (.obj (insertKey k x seen), rest) := by
  rw [readFields, skipBlanks_cons (by decide)]
  simp only [readString_afterQuote, bind, Option.bind, skipBlanks_cons (c := ':') (by decide), h,
    skipBlanks_cons (c := '}') (by decide)]

theorem compactItems_closes (xs : List Json) (rest : List Char) :
    Closes (compactItems xs ++ rest) := by
  cases xs with
  | nil => exact .cons (by decide) _
  | cons x xs => exact .cons (by decide) _

theorem compactFields_closes (fs : List (String × Json)) (rest : List Char) :
    Closes (compactFields fs ++ rest) := by
  cases fs with
  | nil => exact .cons (by decide) _
  | cons f fs => exact .cons (by decide) _

/-- With so much fuel each reader gets through what is written out: two units for every character
suffice. -/
structure Reads (how : Rounding) (fuel : Nat) : Prop where
  value : ∀ depth j rest, j.isPlain depth = true → Closes rest →
    2 * (compactChars j).length ≤ fuel →
    readValue how fuel depth (compactChars j ++ rest) = some (j.normal, rest)
  items : ∀ depth seen x xs rest, x.isPlain depth = true → arePlain depth xs = true →
    2 * (compactChars x ++ compactItems xs).length ≤ fuel + 1 →
    readItems how fuel depth seen (compactChars x ++ (compactItems xs ++ rest)) =
      some (.arr (seen.reverse ++ normalItems (x :: xs)), rest)
  fields : ∀ depth seen k v fs rest, v.isPlain depth = true → fieldsPlain depth fs = true →
    2 * (compactChars v ++ compactFields fs).length ≤ fuel + 1 →
    readFields how fuel depth seen
        ('"' :: afterQuote k (':' :: (compactChars v ++ (compactFields fs ++ rest)))) =
      some (.obj (normalFields seen ((k, v) :: fs)), rest)

namespace Reads

theorem zero (how : Rounding) : Reads how 0 where
  value depth j rest hj _ hfuel := by
    obtain ⟨c, cs, hcs, -⟩ := compactChars_head hj
    simp [hcs] at hfuel
  items depth seen x xs rest hx _ hfuel := by
    obtain ⟨c, cs, hcs, -⟩ := compactChars_head hx
    simp only [hcs, List.cons_append, List.length_cons] at hfuel
    omega
  fields depth seen k v fs rest hv _ hfuel := by
    obtain ⟨c, cs, hcs, -⟩ := compactChars_head hv
    simp only [hcs, List.cons_append, List.length_cons] at hfuel
    omega

theorem value_num (fuel : Nat) {n : Number} (hn : (Json.num n).isPlain depth = true)
    (hrest : Closes rest) :
    readValue how (fuel + 1) depth (n.text.toList ++ rest) = some (.num n, rest) := by
  cases n with
  | nat n =>
    obtain ⟨c, cs, hcs⟩ := List.exists_cons_of_ne_nil (Nat.toDigits_ne_nil (n := n) (b := 10))
    have hc : c.isDigit = true := (writes_toDigits n).digits c (by simp [hcs])
    have hfits : n ≤ greatestWord := by simpa [isPlain] using hn
    have hnumber : readNumber how _ = _ := readNumber_nat hfits hrest
    rw [toList_natText]
    rw [hcs, List.cons_append] at hnumber ⊢
    rw [readValue_number _ _ (.inr hc), hnumber]
    rfl
  | below n =>
    have hfits : n < Nat.pow 2 63 := by simpa [isPlain] using hn
    have hnumber : readNumber how _ = _ := readNumber_below hfits hrest
    rw [toList_belowText, List.cons_append, readValue_number _ _ (.inl rfl), hnumber]
    rfl
  | float x => cases hn

theorem value_arr (h : Reads how fuel) {items : List Json}
    (hj : (Json.arr items).isPlain depth = true)
    (hfuel : 2 * (compactChars (.arr items)).length ≤ fuel + 1) (rest : List Char) :
    readValue how (fuel + 1) depth (compactChars (.arr items) ++ rest) =
      some (.arr (normalItems items), rest) := by
  simp only [isPlain, Bool.and_eq_true, decide_eq_true_eq] at hj
  cases items with
  | nil =>
    have hdeep : ¬depth ≤ 1 := by omega
    simp only [compactChars, List.cons_append, List.nil_append, readValue,
      skipBlanks_cons (c := '[') (by decide), skipBlanks_cons (c := ']') (by decide), hdeep,
      if_false]
    rfl
  | cons x xs =>
    simp only [arePlain, Bool.and_eq_true] at hj
    obtain ⟨c, cs, hcs, hblank, hc⟩ := compactChars_head hj.2.1
    have hitems := h.items (depth - 1) [] x xs rest hj.2.1 hj.2.2
      (by simp only [compactChars, List.length_cons] at hfuel; omega)
    rw [compactChars, List.cons_append, List.append_assoc]
    rw [hcs, List.cons_append] at hitems ⊢
    rw [readValue_arr hj.1 hblank hc, hitems]
    rfl

theorem value_obj (h : Reads how fuel) {fields : List (String × Json)}
    (hj : (Json.obj fields).isPlain depth = true)
    (hfuel : 2 * (compactChars (.obj fields)).length ≤ fuel + 1) (rest : List Char) :
    readValue how (fuel + 1) depth (compactChars (.obj fields) ++ rest) =
      some (.obj (normalFields [] fields), rest) := by
  simp only [isPlain, Bool.and_eq_true, decide_eq_true_eq] at hj
  rcases fields with _ | ⟨⟨k, v⟩, fs⟩
  · have hdeep : ¬depth ≤ 1 := by omega
    simp only [compactChars, List.cons_append, List.nil_append, readValue,
      skipBlanks_cons (c := '{') (by decide), skipBlanks_cons (c := '}') (by decide), hdeep,
      if_false]
    rfl
  · simp only [fieldsPlain, Bool.and_eq_true] at hj
    have hfields := h.fields (depth - 1) [] k v fs rest hj.2.1 hj.2.2 (by
      simp only [compactChars, List.length_cons, List.length_append] at hfuel ⊢
      omega)
    rw [compactChars, List.cons_append, List.append_assoc, quotedText_append, List.cons_append,
      List.append_assoc, readValue_obj hj.1, hfields]

theorem value_succ (h : Reads how fuel) (depth : Nat) (j : Json) (rest : List Char)
    (hj : j.isPlain depth = true) (hrest : Closes rest)
    (hfuel : 2 * (compactChars j).length ≤ fuel + 1) :
    readValue how (fuel + 1) depth (compactChars j ++ rest) = some (j.normal, rest) := by
  cases j with
  | null => rfl
  | bool b => cases b <;> rfl
  | num n => exact value_num fuel hj hrest
  | str s =>
    rw [compactChars, quotedText_append, readValue, skipBlanks_cons (by decide)]
    simp only [readString_afterQuote, bind, Option.bind, normal]
  | arr items => exact h.value_arr hj hfuel rest
  | obj fields => exact h.value_obj hj hfuel rest

theorem items_succ (h : Reads how fuel) (depth : Nat) (seen : List Json) (x : Json)
    (xs : List Json) (rest : List Char) (hx : x.isPlain depth = true)
    (hxs : arePlain depth xs = true)
    (hfuel : 2 * (compactChars x ++ compactItems xs).length ≤ fuel + 2) :
    readItems how (fuel + 1) depth seen (compactChars x ++ (compactItems xs ++ rest)) =
      some (.arr (seen.reverse ++ normalItems (x :: xs)), rest) := by
  have hhere := h.value depth x (compactItems xs ++ rest) hx (compactItems_closes xs rest) (by
    cases xs <;> simp only [compactItems, List.length_append, List.length_cons] at hfuel <;> omega)
  cases xs with
  | nil =>
    rw [compactItems, List.singleton_append] at hhere ⊢
    rw [readItems_close hhere]
    simp [normalItems]
  | cons y ys =>
    simp only [arePlain, Bool.and_eq_true] at hxs
    rw [compactItems, List.cons_append, List.append_assoc] at hhere ⊢
    rw [readItems_comma hhere, h.items depth _ y ys rest hxs.1 hxs.2 (by
      simp only [compactItems, List.length_append, List.length_cons] at hfuel ⊢
      omega)]
    simp [normalItems]

theorem fields_succ (h : Reads how fuel) (depth : Nat) (seen : List (String × Json)) (k : String)
    (v : Json) (fs : List (String × Json)) (rest : List Char) (hv : v.isPlain depth = true)
    (hfs : fieldsPlain depth fs = true)
    (hfuel : 2 * (compactChars v ++ compactFields fs).length ≤ fuel + 2) :
    readFields how (fuel + 1) depth seen
        ('"' :: afterQuote k (':' :: (compactChars v ++ (compactFields fs ++ rest)))) =
      some (.obj (normalFields seen ((k, v) :: fs)), rest) := by
  have hhere := h.value depth v (compactFields fs ++ rest) hv (compactFields_closes fs rest) (by
    rcases fs with _ | ⟨⟨l, w⟩, gs⟩ <;>
      simp only [compactFields, List.length_append, List.length_cons] at hfuel <;> omega)
  rcases fs with _ | ⟨⟨l, w⟩, gs⟩
  · rw [compactFields, List.singleton_append] at hhere ⊢
    rw [readFields_close hhere]
    rfl
  · simp only [fieldsPlain, Bool.and_eq_true] at hfs
    rw [compactFields, List.cons_append, List.append_assoc, quotedText_append, List.cons_append,
      List.append_assoc] at hhere ⊢
    rw [readFields_comma hhere, h.fields depth _ l w gs rest hfs.1 hfs.2 (by
      simp only [compactFields, List.length_append, List.length_cons] at hfuel ⊢
      omega)]
    rfl

end Reads

theorem reads (how : Rounding) (fuel : Nat) : Reads how fuel := by
  induction fuel with
  | zero => exact .zero how
  | succ fuel ih => exact ⟨ih.value_succ, ih.items_succ, ih.fields_succ⟩

theorem readWith_compact (how : Rounding) {depth : Nat} {j : Json} (h : j.isPlain depth = true) :
    readWith how depth j.compact = some j.normal := by
  have hread := (reads how (2 * (compactChars j).length + 2)).value depth j [] h .nil (by omega)
  rw [List.append_nil] at hread
  simp only [readWith, compact, String.toList_ofList, hread, bind, Option.bind]
  rfl

end MigrationLedger.Json
