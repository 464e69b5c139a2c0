import MigrationLedger.Proofs.RedisKeys

/-! Which table and which item a key belongs to, and which keys a pattern finds. A pattern can also
be matched as it stands, character by character; that decides as its tokens do. -/

namespace MigrationLedger.Redis

namespace Pattern

/-- The rest of a pattern after the set that it begins in. -/
def afterSet (rest : List Char) : List Char := (rest.dropWhile (· ≠ ']')).tail

theorem length_afterSet_le (rest : List Char) : (afterSet rest).length ≤ rest.length := by
  have hdrop := (List.dropWhile_sublist (l := rest) (· ≠ ']')).length_le
  rw [afterSet, List.length_tail]
  omega

/-- Matching without tokens. A run is tried with every length, the shortest one first. -/
def covers : List Char → List Char → Bool
  | [], text => text.isEmpty
  | '*' :: rest, text => (List.range (text.length + 1)).any fun n => covers rest (text.drop n)
  | _ :: _, [] => false
  | '?' :: rest, _ :: text => covers rest text
  | '\\' :: c :: rest, d :: text => c = d && covers rest text
  | '[' :: rest, d :: text =>
    rest.contains ']' && (rest.takeWhile (· ≠ ']')).contains d && covers (afterSet rest) text
  | c :: rest, d :: text => c ≠ '\\' && c = d && covers rest text
termination_by pattern => pattern.length
decreasing_by
  all_goals simp only [List.length_cons]
  case _ => omega
  case _ => omega
  case _ => omega
  case _ => exact Nat.lt_succ_of_le (length_afterSet_le rest)
  case _ => omega

theorem setTokens_eq (set rest : List Char) :
    setTokens set rest =
      if rest.contains ']' then
        (tokens (afterSet rest)).map (.oneOf ((rest.takeWhile (· ≠ ']')).reverse ++ set) :: ·)
      else none := by
  induction rest generalizing set with
  | nil => rfl
  | cons c rest ih =>
    by_cases hc : c = ']'
    · subst hc
      simp [setTokens, afterSet]
    · rw [setTokens, ih]
      · simp [afterSet, hc, Ne.symm hc]
      · exact hc

theorem anySuffix_eq (p : List Char → Bool) (text : List Char) :
    anySuffix p text = (List.range (text.length + 1)).any fun n => p (text.drop n) := by
  induction text with
  | nil => simp [anySuffix]
  | cons c cs ih =>
    rw [anySuffix, ih, List.length_cons, List.range_succ_eq_map (n := cs.length + 1)]
    simp [List.any_map, Function.comp_def]

/-- Only a run matches the empty text. -/
theorem accepts_cons_nil {t : Token} (ht : t ≠ .run) (ts : List Token) :
    accepts (t :: ts) [] = false := by
  cases t <;> simp_all [accepts]

theorem head_tokens {c : Char} {rest : List Char} {ts : List Token} (hc : c ≠ '*')
    (h : tokens (c :: rest) = some ts) : ∃ t ts', ts = t :: ts' ∧ t ≠ .run := by
  have hmap {t : Token} {o : Option (List Token)} (h : o.map (t :: ·) = some ts) (ht : t ≠ .run) :
      ∃ t ts', ts = t :: ts' ∧ t ≠ .run := by
    obtain ⟨ts', -, rfl⟩ := Option.map_eq_some_iff.mp h
    exact ⟨t, ts', rfl, ht⟩
  rw [tokens.eq_def] at h
  split at h
  · next heq => cases heq
  · exact hmap h nofun
  · next heq => exact absurd (List.cons.inj heq).1 hc
  · exact hmap h nofun
  · rw [setTokens_eq] at h
    split at h
    · exact hmap h nofun
    · cases h
  · split at h
    · cases h
    · exact hmap h nofun

/-- Both ways of matching decide alike, also for a pattern that ends inside a set or an escape. -/
theorem any_accepts_eq_covers (pattern text : List Char) :
    ((tokens pattern).any fun ts => accepts ts text) = covers pattern text := by
  fun_induction covers pattern text with
  | case1 text => rfl
  | case2 rest text ih =>
    simp only [← ih, tokens, Option.any_map]
    cases tokens rest with
    | none => simp
    | some ts => simp [accepts, anySuffix_eq]
  | case3 c rest hc =>
    cases htokens : tokens (c :: rest) with
    | none => rfl
    | some ts =>
      obtain ⟨t, ts', rfl, ht⟩ := head_tokens hc htokens
      exact accepts_cons_nil ht ts'
  | case4 rest d text ih =>
    rw [← ih, tokens, Option.any_map]
    rfl
  | case5 c rest d text ih =>
    rw [← ih, tokens, Option.any_map]
    cases tokens rest with
    | none => simp
    | some ts => simp [accepts]
  | case6 rest d text ih =>
    rw [← ih, tokens, setTokens_eq]
    cases rest.contains ']' with
    | false => rfl
    | true =>
      cases tokens (afterSet rest) with
      | none => simp
      | some ts => simp [accepts]
  | case7 c rest d text hrun hany hescape hset ih =>
    rw [← ih, tokens]
    · by_cases hslash : c = '\\'
      · simp [hslash]
      · cases tokens rest with
        | none => simp [hslash]
        | some ts => simp [hslash, accepts]
    · exact hescape
    · exact hrun
    · exact hany
    · exact hset

end Pattern

variable {space table table' key text : String}

theorem matchesPattern_eq_covers (pattern text : String) :
    matchesPattern pattern text = Pattern.covers pattern.toList text.toList :=
  Pattern.any_accepts_eq_covers _ _

/-- The pattern of a table finds what begins like the keys of its items, and nothing else. -/
theorem covers_itemPattern :
    Pattern.covers (itemPattern space table).toList text.toList = true ↔
      (itemStem space table).toList <+: text.toList := by
  rw [← matchesPattern_eq_covers, matchesPattern_itemPattern]
  constructor
  · rintro ⟨key, rfl⟩
    exact ⟨key.toList, by rw [itemKey, String.toList_append]⟩
  · rintro ⟨rest, hrest⟩
    refine ⟨String.ofList rest, String.toList_inj.mp ?_⟩
    rw [itemKey, String.toList_append, String.toList_ofList, hrest]

theorem covers_itemKey (ht : isTableName table = true) (ht' : isTableName table' = true) :
    Pattern.covers (itemPattern space table).toList (itemKey space table' key).toList = true ↔
      table' = table := by
  rw [← matchesPattern_eq_covers, matchesPattern_itemPattern]
  constructor
  · rintro ⟨key', heq⟩
    exact (itemKey_inj ht' ht heq).1
  · rintro rfl
    exact ⟨key, rfl⟩

theorem covers_tableKey (ht' : isTableName table' = true) :
    Pattern.covers (itemPattern space table).toList (tableKey space table').toList = false := by
  rw [← matchesPattern_eq_covers, Bool.eq_false_iff]
  intro hmatch
  obtain ⟨key, heq⟩ := matchesPattern_itemPattern space table _ |>.mp hmatch
  exact tableKey_ne_itemKey ht' heq

/-- Keys of items tell their table and their item, whatever the key space is called; they differ
from the keys of tables; and the pattern of a table finds the keys of its own items alone. -/
theorem layout_unambiguous (space key key' : String) (ht : isTableName table = true)
    (ht' : isTableName table' = true) :
    (itemKey space table key = itemKey space table' key' ↔ table = table' ∧ key = key') ∧
      itemKey space table key ≠ tableKey space table' ∧
      (∀ text : String, Pattern.covers (itemPattern space table).toList text.toList = true ↔
        (itemStem space table).toList <+: text.toList) ∧
      (Pattern.covers (itemPattern space table).toList (itemKey space table' key').toList = true ↔
        table' = table) ∧
      Pattern.covers (itemPattern space table).toList (tableKey space table').toList = false ∧
      ∀ pattern text : String,
        matchesPattern pattern text = Pattern.covers pattern.toList text.toList := by
  refine ⟨⟨itemKey_inj ht ht', ?_⟩, (tableKey_ne_itemKey ht').symm, fun text => covers_itemPattern,
    covers_itemKey ht ht', covers_tableKey ht', matchesPattern_eq_covers⟩
  rintro ⟨rfl, rfl⟩
  rfl

/-- A key space with the special characters of patterns in its name, and an item whose key begins
with a separator. -/
theorem layout_unambiguous_of_special :
    (isTableName "ledger" = true ∧ isTableName "ledger-2" = true) ∧
      itemKey "a*[b]:table:?\\" "ledger" ":item:c" ≠ itemKey "a*[b]:table:?\\" "ledger-2" "c" ∧
      Pattern.covers (itemPattern "a*[b]:table:?\\" "ledger").toList
        (itemKey "a*[b]:table:?\\" "ledger-2" "c").toList = false := by
  have hledger : isTableName "ledger" = true := by decide
  have hother : isTableName "ledger-2" = true := by decide
  have hne : "ledger-2" ≠ "ledger" := by decide
  obtain ⟨hkeys, -, -, hitem, -⟩ := layout_unambiguous "a*[b]:table:?\\" ":item:c" "c"
    hledger hother
  refine ⟨⟨hledger, hother⟩, fun heq => hne (hkeys.mp heq).1.symm, ?_⟩
  rw [Bool.eq_false_iff]
  exact fun hcovers => hne (hitem.mp hcovers)

/-- A name with a separator in it, which no table has, would make two items share a key. -/
example : itemKey "app" "ledger:item:a" "b" = itemKey "app" "ledger" "a:item:b" := by decide

end MigrationLedger.Redis
