import MigrationLedger.Proofs.ConditionalWrite
import MigrationLedger.Proofs.Provisioning

/-! Updates that nothing disturbs: the table is there, no call is refused and none is given up. Then
a put fails only when the item has no key, or when the record is no longer as it was read. -/

namespace MigrationLedger

namespace Memory

variable {m : Memory} {table : String} {schema : KeySchema}

theorem perform_putItem_of_table (h : m.HasTable table schema) (now : Instant) (item : Item)
    (condition : Condition) :
    (∃ fault, schema.keyOf item = .error fault ∧
        m.perform now (.putItem table item (some condition)) = (.error fault, m)) ∨
      ∃ key, schema.keyOf item = .ok key ∧
        (condition.holds (m.item? table key) = false ∧
            m.perform now (.putItem table item (some condition)) = (.error .unmet, m) ∨
          condition.holds (m.item? table key) = true ∧ ∃ m', m.Puts table key item m' ∧
            m.perform now (.putItem table item (some condition)) = (.ok (), m')) := by
  obtain ⟨t, ht, hschema⟩ := h
  cases hkey : t.description.schema.keyOf item with
  | error fault =>
    refine .inl ⟨fault, hschema ▸ hkey, ?_⟩
    have hput := StoredTable.put_of_keyOf_error hkey (some condition)
    simp only [perform, onTable, ht, hput, Except.map]
  | ok key =>
    refine .inr ⟨key, hschema ▸ hkey, ?_⟩
    have hput := StoredTable.put_of_keyOf hkey (some condition)
    have hitem : m.item? table key = t.items.get? key := by rw [item?, ht]; rfl
    rw [Option.all_some, ← hitem] at hput
    cases hholds : condition.holds (m.item? table key) with
    | false =>
      rw [hholds, if_neg Bool.false_ne_true] at hput
      refine .inl ⟨rfl, ?_⟩
      simp only [perform, onTable, ht, hput, Except.map]
    | true =>
      rw [hholds, if_pos rfl] at hput
      refine .inr ⟨rfl, _, puts_setTable ht hkey, ?_⟩
      simp only [perform, onTable, ht, hput, Except.map]

theorem HasTable.keyedBy (h : m.HasTable table schema) : m.KeyedBy table schema := by
  intro u hu
  obtain ⟨t, ht, hschema⟩ := h
  cases ht.symm.trans hu
  exact hschema

theorem KeyedBy.hasTable (hm : m.KeyedBy table schema) {key : String} {item : Item}
    (h : m.item? table key = some item) : m.HasTable table schema := by
  obtain ⟨t, ht, -⟩ := Option.bind_eq_some_iff.mp h
  exact ⟨t, ht, hm t ht⟩

end Memory

namespace Update

variable {κ ε α : Type}

/-- A turn on a table with the given key, in which the store does what it is asked. -/
inductive CalmTurn (u : Update ε α) (schema : KeySchema) (t : Moment) (m : Memory) :
    Phase ε α → Memory → Phase ε α → Prop where
  | read {n : Nat} : CalmTurn u schema t m (.reading n) m
      (u.afterRead t n (.ok (m.item? u.table u.key)))
  | wrote {n : Nat} {d : Draft} {answer : α} {k : String} {m' : Memory}
      (hkey : schema.keyOf d.written = .ok k)
      (hunchanged : (Condition.unchanged d.read).holds (m.item? u.table k) = true)
      (hputs : m.Puts u.table k d.written m') :
      CalmTurn u schema t m (.writing n d.read d.item answer) m' (.done (.ok answer))
  | beaten {n : Nat} {d : Draft} {answer : α} {k : String}
      (hkey : schema.keyOf d.written = .ok k)
      (hchanged : (Condition.unchanged d.read).holds (m.item? u.table k) = false) :
      CalmTurn u schema t m (.writing n d.read d.item answer) m (.pausing (n + 1))
  | misplaced {n : Nat} {d : Draft} {answer : α} (fault : StoreFault)
      (hkey : schema.keyOf d.written = .error fault) :
      CalmTurn u schema t m (.writing n d.read d.item answer) m
        (u.afterWrite n answer (.error fault))
  | resumed {n : Nat} : CalmTurn u schema t m (.pausing n) m (.reading n)

theorem calmTurn_of_turn? {u : Update ε α} {schema : KeySchema} {t : Moment} {m : Memory} {k : κ}
    {p : Phase ε α} {stimulus : Stimulus} {r : Turned κ (Phase ε α)}
    (hm : m.HasTable u.table schema) (hcalm : stimulus.isCalm = true)
    (h : u.machine.turn? t m k p stimulus = some r) :
    r.cell = k ∧ u.CalmTurn schema t m p r.memory r.state := by
  cases stimulus with
  | reply =>
    cases p with
    | reading n =>
      obtain ⟨tb, htb, -⟩ := hm
      have hget := Memory.perform_getItem_of_table htb t.wall u.key
      rw [Machine.turn?] at h
      simp only [machine, hget] at h
      cases h
      exact ⟨rfl, .read⟩
    | writing n read item answer =>
      have hput := m.perform_putItem_of_table hm t.wall (Draft.written ⟨read, item⟩)
        (.unchanged read)
      rw [Draft.written] at hput
      rw [Machine.turn?] at h
      simp only [machine] at h
      obtain ⟨fault, hkey, hx⟩ | ⟨key, hkey, ⟨hchanged, hx⟩ | ⟨hunchanged, m', hputs, hx⟩⟩ := hput
      · rw [hx] at h
        cases h
        exact ⟨rfl, .misplaced (d := ⟨read, item⟩) fault hkey⟩
      · rw [hx] at h
        cases h
        exact ⟨rfl, .beaten (d := ⟨read, item⟩) hkey hchanged⟩
      · rw [hx] at h
        cases h
        exact ⟨rfl, .wrote (d := ⟨read, item⟩) hkey hunchanged hputs⟩
    | pausing n => cases h
    | done answer => cases h
  | wake =>
    cases p with
    | pausing n =>
      cases h
      exact ⟨rfl, .resumed⟩
    | reading n => cases h
    | writing n read item answer => cases h
    | done answer => cases h
  | refuse fault => cases hcalm
  | expire => cases hcalm

end Update

namespace Update

variable {ε α : Type} {u : Update ε α} {schema : KeySchema} {t : Moment} {m m' : Memory}
  {p : Phase ε α} {n : Nat}

theorem afterRead_write {read : Option Item} {item : Item} {answer : α}
    (h : u.decide t read = .write item answer) (n : Nat) :
    u.afterRead t n (.ok read) = .writing n read item answer := by
  rw [afterRead, h]

theorem afterRead_stop {read : Option Item} {answer : Except ε α}
    (h : u.decide t read = .stop answer) (n : Nat) : u.afterRead t n (.ok read) = .done answer := by
  rw [afterRead, h]

theorem CalmTurn.of_reading (h : u.CalmTurn schema t m (.reading n) m' p) :
    m' = m ∧ p = u.afterRead t n (.ok (m.item? u.table u.key)) := by
  cases h
  exact ⟨rfl, rfl⟩

/-- The put of an item that has a key: only the record under that key decides about it. -/
theorem CalmTurn.of_writing {read : Option Item} {item : Item} {answer : α} {key : String}
    (h : u.CalmTurn schema t m (.writing n read item answer) m' p)
    (hkey : schema.keyOf (Draft.written ⟨read, item⟩) = .ok key) :
    ((Condition.unchanged read).holds (m.item? u.table key) = true ∧
        m.Puts u.table key (Draft.written ⟨read, item⟩) m' ∧ p = .done (.ok answer)) ∨
      ((Condition.unchanged read).holds (m.item? u.table key) = false ∧ m' = m ∧
        p = .pausing (n + 1)) := by
  generalize hphase : Phase.writing n read item answer = before at h
  cases h with
  | @wrote n d answer k m' hown hunchanged hputs =>
    cases hphase
    cases hown.symm.trans hkey
    exact .inl ⟨hunchanged, hputs, rfl⟩
  | @beaten n d answer k hown hchanged =>
    cases hphase
    cases hown.symm.trans hkey
    exact .inr ⟨hchanged, rfl, rfl⟩
  | @misplaced n d answer fault hown =>
    cases hphase
    cases hown.symm.trans hkey
  | read => cases hphase
  | resumed => cases hphase

theorem CalmTurn.of_pausing (h : u.CalmTurn schema t m (.pausing n) m' p) :
    m' = m ∧ p = .reading n := by
  cases h
  exact ⟨rfl, rfl⟩

end Update

theorem Condition.unchanged_self (read : Option Item) :
    (Condition.unchanged read).holds read = true := by
  cases read with
  | none => rfl
  | some item => simp [unchanged, holds]

/-- A record that was replaced is not as it was read any more. -/
theorem Condition.unchanged_written (read : Option Item) (item : Item) :
    (Condition.unchanged read).holds (some (item.withRevision (nextRevision read))) = false := by
  cases read with
  | none => rfl
  | some old =>
    simp [unchanged, holds, Item.revision_withRevision, nextRevision]

namespace Bounded

variable {κ ν ε α : Type} {finish : ν → κ → Except ε α → κ × Except ε α} {late : Except ε α}

/-- A turn that nothing disturbs, together with what is said to the store in it. -/
theorem calm_exchange {u : Update ε α} {schema : KeySchema} {t : Moment} {m : Memory} {k : κ}
    {p : Bounded ν (Update.Phase ε α) (Except ε α)} {stimulus : Stimulus}
    {r : Turned κ (Bounded ν (Update.Phase ε α) (Except ε α))}
    (hm : m.HasTable u.table schema) (hcalm : stimulus.isCalm = true)
    (h : (machine u.machine finish late).turn? t m k p stimulus = some r) :
    ∃ note limit inner state, p = .active note limit inner ∧
      u.CalmTurn schema t m inner r.memory state ∧ u.Turn t m inner r.exchange r.memory state ∧
      r.cell = (settle u.machine finish note limit (k, state)).1 ∧
      r.state = (settle u.machine finish note limit (k, state)).2 := by
  cases p with
  | ended answer => cases stimulus <;> cases h
  | active note limit inner =>
    have hne : stimulus ≠ .expire := by
      rintro rfl
      cases hcalm
    obtain ⟨q, hq, hin⟩ := (wraps u.machine finish late note limit).turn_inner hne h
    obtain ⟨hcell, hcalmly⟩ := Update.calmTurn_of_turn? hm hcalm hq
    obtain ⟨-, hturn⟩ := Update.turn_of_turn? hq
    have hk := hin.cell
    have hs := hin.state
    rw [← hin.memory] at hcalmly
    rw [← hin.exchange, ← hin.memory] at hturn
    rw [hcell] at hk hs
    exact ⟨note, limit, inner, q.state, rfl, hcalmly, hturn, hk, hs⟩

theorem calm_turn {u : Update ε α} {schema : KeySchema} {t : Moment} {m : Memory} {k : κ}
    {p : Bounded ν (Update.Phase ε α) (Except ε α)} {stimulus : Stimulus}
    {r : Turned κ (Bounded ν (Update.Phase ε α) (Except ε α))}
    (hm : m.HasTable u.table schema) (hcalm : stimulus.isCalm = true)
    (h : (machine u.machine finish late).turn? t m k p stimulus = some r) :
    ∃ note limit inner state, p = .active note limit inner ∧
      u.CalmTurn schema t m inner r.memory state ∧
      r.cell = (settle u.machine finish note limit (k, state)).1 ∧
      r.state = (settle u.machine finish note limit (k, state)).2 := by
  obtain ⟨note, limit, inner, state, hp, hcalmly, -, hcell, hstate⟩ := calm_exchange hm hcalm h
  exact ⟨note, limit, inner, state, hp, hcalmly, hcell, hstate⟩

end Bounded

end MigrationLedger
