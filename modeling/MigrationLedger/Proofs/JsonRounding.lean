import MigrationLedger.Json.Reader

/-! The two ways in which digits are rounded. What is read the one way is read the other way too, to
the same end, and the values differ in their floating point numbers only. -/

namespace MigrationLedger

variable {α β : Type}

theorem valueAt_map (f : α → β) (key : String) (fields : List (String × α)) :
    valueAt key (fields.map fun a => (a.1, f a.2)) = (valueAt key fields).map f := by
  induction fields with
  | nil => rfl
  | cons a rest ih =>
    simp only [List.map_cons, valueAt]
    split
    · rfl
    · exact ih

theorem insertKey_map (f : α → β) (key : String) (value : α) (fields : List (String × α)) :
    (insertKey key value fields).map (fun a => (a.1, f a.2)) =
      insertKey key (f value) (fields.map fun a => (a.1, f a.2)) := by
  induction fields with
  | nil => rfl
  | cons a rest ih =>
    simp only [insertKey, List.map_cons]
    split
    · rfl
    · split
      · rfl
      · rw [List.map_cons, ih]

namespace Json

mutual

/-- The value with its floating point numbers left open. -/
def outline : Json → Json
  | .num (.float _) => .num (.float default)
  | .arr items => .arr (outlines items)
  | .obj fields => .obj (fieldOutlines fields)
  | j => j

def outlines : List Json → List Json
  | [] => []
  | x :: xs => x.outline :: outlines xs

def fieldOutlines : List (String × Json) → List (String × Json)
  | [] => []
  | (k, v) :: fs => (k, v.outline) :: fieldOutlines fs

end

theorem outlines_eq (items : List Json) : outlines items = items.map outline := by
  induction items with
  | nil => rfl
  | cons x xs ih => rw [outlines, ih, List.map_cons]

theorem fieldOutlines_eq (fields : List (String × Json)) :
    fieldOutlines fields = fields.map fun a => (a.1, a.2.outline) := by
  induction fields with
  | nil => rfl
  | cons f fs ih => rw [fieldOutlines, ih, List.map_cons]

theorem fieldOutlines_insertKey (key : String) (value : Json) (fields : List (String × Json)) :
    fieldOutlines (insertKey key value fields) =
      insertKey key value.outline (fieldOutlines fields) := by
  rw [fieldOutlines_eq, fieldOutlines_eq, insertKey_map]

theorem outline_valueAt {fields fields' : List (String × Json)}
    (h : fieldOutlines fields' = fieldOutlines fields) (key : String) :
    (valueAt key fields').map outline = (valueAt key fields).map outline := by
  rw [← valueAt_map, ← valueAt_map, ← fieldOutlines_eq, ← fieldOutlines_eq, h]

theorem readNumber_exact {cs rest : List Char} {n : Number}
    (h : readNumber .scaled cs = some (n, rest)) :
    ∃ n', readNumber .exact cs = some (n', rest) ∧
      (Json.num n').outline = (Json.num n).outline := by
  unfold readNumber at h ⊢
  dsimp only at h ⊢
  obtain ⟨hwhole, h⟩ := Option.ite_none_left_eq_some.mp h
  rw [if_neg hwhole]
  obtain ⟨⟨fraction, rest₁⟩, hfraction, h⟩ := Option.bind_eq_some_iff.mp h
  obtain ⟨⟨power, rest₂⟩, hpower, h⟩ := Option.bind_eq_some_iff.mp h
  rw [hfraction, Option.bind_eq_bind, Option.bind_some, hpower, Option.bind_eq_bind,
    Option.bind_some]
  dsimp only at h ⊢
  split at h
  · next hreal =>
    obtain ⟨x, -, hx⟩ := Option.bind_eq_some_iff.mp h
    cases hx
    rw [if_pos hreal]
    exact ⟨_, rfl, rfl⟩
  · next hreal =>
    rw [if_neg hreal]
    split at h
    · cases h
      exact ⟨_, rfl, rfl⟩
    · obtain ⟨x, -, hx⟩ := Option.bind_eq_some_iff.mp h
      cases hx
      exact ⟨_, rfl, rfl⟩

/-- With so much fuel, what is read by scaling is read exactly as well, also when deeper nesting is
allowed. -/
structure Refines (fuel : Nat) : Prop where
  value : ∀ depth depth' cs j rest, depth ≤ depth' →
    readValue .scaled fuel depth cs = some (j, rest) →
    ∃ j', readValue .exact fuel depth' cs = some (j', rest) ∧ j'.outline = j.outline
  items : ∀ depth depth' seen seen' cs j rest, depth ≤ depth' → outlines seen' = outlines seen →
    readItems .scaled fuel depth seen cs = some (j, rest) →
    ∃ j', readItems .exact fuel depth' seen' cs = some (j', rest) ∧ j'.outline = j.outline
  fields : ∀ depth depth' seen seen' cs j rest, depth ≤ depth' →
    fieldOutlines seen' = fieldOutlines seen →
    readFields .scaled fuel depth seen cs = some (j, rest) →
    ∃ j', readFields .exact fuel depth' seen' cs = some (j', rest) ∧ j'.outline = j.outline

namespace Refines

variable {fuel : Nat}

theorem value_succ (h : Refines fuel) (depth depth' : Nat) (cs : List Char) (j : Json)
    (rest : List Char) (hdepth : depth ≤ depth')
    (hread : readValue .scaled (fuel + 1) depth cs = some (j, rest)) :
    ∃ j', readValue .exact (fuel + 1) depth' cs = some (j', rest) ∧ j'.outline = j.outline := by
  unfold readValue at hread ⊢
  split at hread
  · exact ⟨j, hread, rfl⟩
  · obtain ⟨hdeep, hread⟩ := Option.ite_none_left_eq_some.mp hread
    rw [if_neg (by omega)]
    split at hread
    · exact ⟨j, hread, rfl⟩
    · exact h.items _ _ _ _ _ _ _ (by omega) rfl hread
  · obtain ⟨hdeep, hread⟩ := Option.ite_none_left_eq_some.mp hread
    rw [if_neg (by omega)]
    split at hread
    · exact ⟨j, hread, rfl⟩
    · exact h.fields _ _ _ _ _ _ _ (by omega) rfl hread
  · exact ⟨j, hread, rfl⟩
  · exact ⟨j, hread, rfl⟩
  · exact ⟨j, hread, rfl⟩
  · obtain ⟨⟨n, rest'⟩, hnumber, hj⟩ := Option.map_eq_some_iff.mp hread
    cases hj
    obtain ⟨n', hnumber', hn'⟩ := readNumber_exact hnumber
    exact ⟨.num n', by rw [hnumber']; rfl, hn'⟩

theorem items_succ (h : Refines fuel) (depth depth' : Nat) (seen seen' : List Json)
    (cs : List Char) (j : Json) (rest : List Char) (hdepth : depth ≤ depth')
    (hseen : outlines seen' = outlines seen)
    (hread : readItems .scaled (fuel + 1) depth seen cs = some (j, rest)) :
    ∃ j', readItems .exact (fuel + 1) depth' seen' cs = some (j', rest) ∧
      j'.outline = j.outline := by
  unfold readItems at hread ⊢
  obtain ⟨⟨x, after⟩, hx, hread⟩ := Option.bind_eq_some_iff.mp hread
  obtain ⟨x', hx', hsame⟩ := h.value _ _ _ _ _ hdepth hx
  have hgrown : outlines (x' :: seen') = outlines (x :: seen) := by
    rw [outlines, outlines, hsame, hseen]
  rw [hx', Option.bind_eq_bind, Option.bind_some]
  dsimp only at hread ⊢
  split at hread
  · exact h.items _ _ _ _ _ _ _ hdepth hgrown hread
  · cases hread
    refine ⟨_, rfl, ?_⟩
    rw [outlines_eq, outlines_eq] at hgrown
    rw [outline, outline, outlines_eq, outlines_eq, List.map_reverse, List.map_reverse, hgrown]
  · cases hread

theorem fields_succ (h : Refines fuel) (depth depth' : Nat) (seen seen' : List (String × Json))
    (cs : List Char) (j : Json) (rest : List Char) (hdepth : depth ≤ depth')
    (hseen : fieldOutlines seen' = fieldOutlines seen)
    (hread : readFields .scaled (fuel + 1) depth seen cs = some (j, rest)) :
    ∃ j', readFields .exact (fuel + 1) depth' seen' cs = some (j', rest) ∧
      j'.outline = j.outline := by
  unfold readFields at hread ⊢
  split at hread
  · obtain ⟨⟨key, after⟩, hkey, hread⟩ := Option.bind_eq_some_iff.mp hread
    rw [hkey, Option.bind_eq_bind, Option.bind_some]
    dsimp only at hread ⊢
    split at hread
    · obtain ⟨⟨x, after⟩, hx, hread⟩ := Option.bind_eq_some_iff.mp hread
      obtain ⟨x', hx', hsame⟩ := h.value _ _ _ _ _ hdepth hx
      have hgrown : fieldOutlines (insertKey key x' seen') =
          fieldOutlines (insertKey key x seen) := by
        rw [fieldOutlines_insertKey, fieldOutlines_insertKey, hsame, hseen]
      rw [hx', Option.bind_eq_bind, Option.bind_some]
      dsimp only at hread ⊢
      split at hread
      · exact h.fields _ _ _ _ _ _ _ hdepth hgrown hread
      · cases hread
        exact ⟨_, rfl, by rw [outline, outline, hgrown]⟩
      · cases hread
    · cases hread
  · cases hread

end Refines

theorem refines (fuel : Nat) : Refines fuel := by
  induction fuel with
  | zero => exact ⟨nofun, nofun, nofun⟩
  | succ fuel ih => exact ⟨ih.value_succ, ih.items_succ, ih.fields_succ⟩

theorem readWith_exact {depth depth' : Nat} (hdepth : depth ≤ depth') {text : String} {j : Json}
    (h : readWith .scaled depth text = some j) :
    ∃ j', readWith .exact depth' text = some j' ∧ j'.outline = j.outline := by
  unfold readWith at h ⊢
  obtain ⟨⟨x, rest⟩, hx, h⟩ := Option.bind_eq_some_iff.mp h
  obtain ⟨x', hx', hsame⟩ := (refines _).value _ _ _ _ _ hdepth hx
  dsimp only at h ⊢
  rw [hx', Option.bind_eq_bind, Option.bind_some]
  obtain ⟨hend, h⟩ := Option.ite_none_right_eq_some.mp h
  cases h
  exact ⟨x', if_pos hend, hsame⟩

end Json

end MigrationLedger
