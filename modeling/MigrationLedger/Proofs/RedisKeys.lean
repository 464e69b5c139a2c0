import MigrationLedger.Ledger
import MigrationLedger.Redis.Keys

/-! The keys of a Redis server. A colon ends the name of a table, so a key tells which table and
which item it belongs to, and the pattern of a table matches the keys of its items alone. -/

namespace MigrationLedger.Redis

variable {space table table' key key' : String}

theorem colon_notMem (h : isTableName table = true) : ':' ∉ table.toList := by
  intro hmem
  simp only [isTableName, Bool.and_eq_true, List.all_eq_true] at h
  exact absurd (h.2 ':' hmem) (by decide)

/-- Two runs without a colon that are followed by one. -/
theorem append_colon_inj {a b x y : List Char} (ha : ':' ∉ a) (hb : ':' ∉ b)
    (h : a ++ ':' :: x = b ++ ':' :: y) : a = b ∧ x = y := by
  induction a generalizing b with
  | nil =>
    cases b with
    | nil => exact ⟨rfl, (List.cons.inj h).2⟩
    | cons d b => exact absurd (by simp [← (List.cons.inj h).1]) hb
  | cons c a ih =>
    cases b with
    | nil => exact absurd (by simp [(List.cons.inj h).1]) ha
    | cons d b =>
      obtain ⟨rfl, htail⟩ := List.cons.inj h
      obtain ⟨rfl, hrest⟩ := ih (List.not_mem_of_not_mem_cons ha)
        (List.not_mem_of_not_mem_cons hb) htail
      exact ⟨rfl, hrest⟩

theorem toList_tableKey (space table : String) :
    (tableKey space table).toList = space.toList ++ (":table:".toList ++ table.toList) := by
  simp [tableKey]

theorem toList_itemKey (space table key : String) :
    (itemKey space table key).toList = space.toList ++ (":table:".toList ++
      (table.toList ++ ':' :: ("item:".toList ++ key.toList))) := by
  simp [itemKey, itemStem, tableKey]

theorem tableKey_inj (h : tableKey space table = tableKey space table') : table = table' := by
  have hlist := congrArg String.toList h
  rw [toList_tableKey, toList_tableKey] at hlist
  exact String.toList_inj.mp (List.append_cancel_left (List.append_cancel_left hlist))

theorem itemKey_inj (ht : isTableName table = true) (ht' : isTableName table' = true)
    (h : itemKey space table key = itemKey space table' key') : table = table' ∧ key = key' := by
  have hlist := congrArg String.toList h
  rw [toList_itemKey, toList_itemKey] at hlist
  obtain ⟨htable, hkey⟩ := append_colon_inj (colon_notMem ht) (colon_notMem ht')
    (List.append_cancel_left (List.append_cancel_left hlist))
  exact ⟨String.toList_inj.mp htable, String.toList_inj.mp (List.append_cancel_left hkey)⟩

theorem tableKey_ne_itemKey (ht : isTableName table = true) :
    tableKey space table ≠ itemKey space table' key := by
  intro h
  have hlist := congrArg String.toList h
  rw [toList_tableKey, toList_itemKey] at hlist
  have htable := List.append_cancel_left (List.append_cancel_left hlist)
  exact colon_notMem ht (by simp [htable])

/-! ## The pattern of a table -/

theorem tokens_escapeChar (c : Char) (rest : List Char) :
    Pattern.tokens (escapeChar c ++ rest) = (Pattern.tokens rest).map (.exactly c :: ·) := by
  rw [escapeChar]
  split
  · rw [List.cons_append, List.singleton_append, Pattern.tokens]
  · next hplain =>
    simp only [not_or] at hplain
    obtain ⟨hrun, hany, hopen, -, hslash⟩ := hplain
    rw [List.singleton_append, Pattern.tokens]
    · rw [if_neg hslash]
    · rintro d tail rfl
      exact absurd rfl hslash
    · exact hrun
    · exact hany
    · exact hopen

theorem tokens_escaped (cs rest : List Char) :
    Pattern.tokens (cs.flatMap escapeChar ++ rest) =
      (Pattern.tokens rest).map (cs.map .exactly ++ ·) := by
  induction cs with
  | nil => simp
  | cons c cs ih =>
    rw [List.flatMap_cons, List.append_assoc, tokens_escapeChar, ih, Option.map_map]
    rfl

theorem anySuffix_isEmpty (text : List Char) : Pattern.anySuffix List.isEmpty text = true := by
  induction text with
  | nil => rfl
  | cons c cs ih => simp [Pattern.anySuffix, ih]

theorem accepts_run (text : List Char) : Pattern.accepts [.run] text = true := by
  rw [Pattern.accepts]
  exact anySuffix_isEmpty text

theorem accepts_exactly (cs : List Char) (ts : List Pattern.Token) (text : List Char) :
    Pattern.accepts (cs.map .exactly ++ ts) text = true ↔
      ∃ rest, text = cs ++ rest ∧ Pattern.accepts ts rest = true := by
  induction cs generalizing text with
  | nil => simp
  | cons c cs ih =>
    cases text with
    | nil => simp [Pattern.accepts]
    | cons d text =>
      rw [List.map_cons, List.cons_append, Pattern.accepts, Bool.and_eq_true, ih]
      constructor
      · rintro ⟨hc, rest, rfl, h⟩
        exact ⟨rest, by simpa using (of_decide_eq_true hc).symm, h⟩
      · rintro ⟨rest, htext, h⟩
        obtain ⟨rfl, rfl⟩ := List.cons.inj htext
        exact ⟨by simp, rest, rfl, h⟩

theorem matchesPattern_itemPattern (space table text : String) :
    matchesPattern (itemPattern space table) text = true ↔
      ∃ key, text = itemKey space table key := by
  have htokens : Pattern.tokens (itemPattern space table).toList =
      some ((itemStem space table).toList.map .exactly ++ [.run]) := by
    rw [itemPattern, escape, String.toList_append, String.toList_ofList, tokens_escaped]
    rfl
  rw [matchesPattern, htokens, Option.any_some, accepts_exactly]
  constructor
  · rintro ⟨rest, h, -⟩
    refine ⟨String.ofList rest, ?_⟩
    rw [← String.toList_inj, h, itemKey, String.toList_append, String.toList_ofList]
  · rintro ⟨key, rfl⟩
    exact ⟨key.toList, by rw [itemKey, String.toList_append], accepts_run _⟩

end MigrationLedger.Redis
