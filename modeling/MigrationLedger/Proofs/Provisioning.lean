import MigrationLedger.Provision
import MigrationLedger.Proofs.Chronicle

/-! Making sure of a table ends well only when the table is there. No call takes a table away or
gives it another key, so what an earlier call has found is still true unless somebody else
interferes. -/

namespace MigrationLedger

namespace Memory

def HasTable (m : Memory) (name : String) (schema : KeySchema) : Prop :=
  ∃ t, m.tables.get? name = some t ∧ t.description.schema = schema

def HasActiveTable (m : Memory) (name : String) (schema : KeySchema) : Prop :=
  ∃ t, m.tables.get? name = some t ∧ t.description.schema = schema ∧
    t.description.status = .active

/-- A table that is in `m` is in `m'`, with the same key, and active if it was active. -/
def Keeps (name : String) (m m' : Memory) : Prop :=
  ∀ t, m.tables.get? name = some t → ∃ t', m'.tables.get? name = some t' ∧
    t'.description.schema = t.description.schema ∧
    (t.description.status = .active → t'.description.status = .active)

variable {name : String} {schema : KeySchema} {m m' : Memory}

theorem Keeps.refl (name : String) (m : Memory) : Keeps name m m := by
  intro t ht
  exact ⟨t, ht, rfl, id⟩

theorem Keeps.hasTable (h : Keeps name m m') (ht : m.HasTable name schema) :
    m'.HasTable name schema := by
  obtain ⟨t, ht, hschema⟩ := ht
  obtain ⟨t', ht', hsame, -⟩ := h t ht
  exact ⟨t', ht', hsame.trans hschema⟩

theorem Keeps.hasActiveTable (h : Keeps name m m') (ht : m.HasActiveTable name schema) :
    m'.HasActiveTable name schema := by
  obtain ⟨t, ht, hschema, hactive⟩ := ht
  obtain ⟨t', ht', hsame, hstays⟩ := h t ht
  exact ⟨t', ht', hsame.trans hschema, hstays hactive⟩

theorem keeps_setTable {other : String} {t' : StoredTable}
    (h : ∀ t, m.tables.get? other = some t →
      t'.description.schema = t.description.schema ∧
        (t.description.status = .active → t'.description.status = .active)) :
    Keeps name m (m.setTable other t') := by
  intro t ht
  by_cases hname : name = other
  · subst hname
    exact ⟨t', Ordered.get?_insert_self .., h t ht⟩
  · refine ⟨t, ?_, rfl, id⟩
    rw [setTable, Ordered.get?_insert_of_ne _ hname]
    exact ht

theorem describe_schema (t : StoredTable) :
    t.describe.description.schema = t.description.schema := by
  rw [StoredTable.describe]
  split <;> rfl

theorem describe_active {t : StoredTable} (h : t.description.status = .active) :
    t.describe.description.status = .active := by
  rw [StoredTable.describe]
  split
  · exact h
  · rfl

theorem put_description {t t' : StoredTable} {item : Item} {condition : Option Condition}
    (h : t.put item condition = .ok t') : t'.description = t.description := by
  obtain ⟨key, hkey, -, rfl⟩ := StoredTable.put_eq_ok h
  rfl

theorem keeps_onTable {α : Type} {table : String}
    {act : StoredTable → Except StoreFault (α × Memory)}
    (h : ∀ t a m', m.tables.get? table = some t → act t = .ok (a, m') → Keeps name m m') :
    Keeps name m (m.onTable table act).2 := by
  rw [onTable]
  cases ht : m.tables.get? table with
  | none => exact Keeps.refl name m
  | some t =>
    dsimp only
    cases hact : act t with
    | error fault => exact Keeps.refl name m
    | ok answer => exact h t answer.1 answer.2 ht hact

theorem perform_keeps (name : String) (m : Memory) (now : Instant) (c : Call) :
    Keeps name m (m.perform now c).2 := by
  cases c with
  | tableExists table => exact Keeps.refl name m
  | createTable table schema =>
    rw [perform]
    split
    · exact Keeps.refl name m
    · next habsent =>
      apply keeps_setTable
      intro t ht
      rw [Ordered.contains, ht] at habsent
      exact absurd rfl habsent
  | describeTable table =>
    rw [perform]
    cases ht : m.tables.get? table with
    | none => exact Keeps.refl name m
    | some t =>
      apply keeps_setTable
      intro u hu
      cases ht.symm.trans hu
      exact ⟨describe_schema t, describe_active⟩
  | putItem table item condition =>
    apply keeps_onTable
    intro t a m' ht hact
    cases hput : t.put item condition with
    | error fault =>
      rw [hput] at hact
      cases hact
    | ok t' =>
      rw [hput] at hact
      cases hact
      apply keeps_setTable
      intro u hu
      cases ht.symm.trans hu
      rw [put_description hput]
      exact ⟨rfl, id⟩
  | getItem table key =>
    apply keeps_onTable
    intro t a m' _ hact
    cases hact
    exact Keeps.refl name m
  | scan table cursor limit =>
    apply keeps_onTable
    intro t a m' _ hact
    cases hact
    exact Keeps.refl name m

theorem perform_describeTable (m : Memory) (now : Instant) (table : String) :
    m.perform now (.describeTable table) = (.ok none, m) ∨
      ∃ t : StoredTable, m.perform now (.describeTable table) =
          (.ok (some t.description), m.setTable table t) := by
  rw [perform]
  cases m.tables.get? table with
  | none => exact .inl rfl
  | some t => exact .inr ⟨t.describe, rfl⟩

end Memory

theorem Machine.turn_keeps {κ σ α : Type} {mc : Machine κ σ α} {t : Moment} {m : Memory} {k : κ}
    {s : σ} {stimulus : Stimulus} {r : Turned κ σ} (h : mc.turn? t m k s stimulus = some r)
    (name : String) : Memory.Keeps name m r.memory := by
  obtain ⟨c, -, hm⟩ | hm := turn_memory h
  · rw [hm]
    exact Memory.perform_keeps name m t.wall c
  · rw [hm]
    exact Memory.Keeps.refl name m

namespace Provision

/-- Whether the key of the table was found right. -/
def Phase.trusted : Phase → Bool
  | polling trusted | pausing trusted => trusted
  | _ => false

/-- What is known of the table when the phase is reached. -/
structure Grounded (p : Provision) (m : Memory) (s : Phase) : Prop where
  trusted : s.trusted = true → m.HasTable p.table p.schema
  ready : s = .done (.ok ()) → m.HasActiveTable p.table p.schema

variable {p : Provision} {m : Memory} {s : Phase}

theorem validate_ok {d : TableDescription} (h : p.validate d = .ok ()) : d.schema = p.schema := by
  rw [validate] at h
  split at h
  · assumption
  · cases h

theorem pollAgain_trusted (p : Provision) (trusted : Bool) :
    (p.pollAgain trusted).trusted = trusted := by
  rw [pollAgain]
  split <;> rfl

theorem pollAgain_ne_done (p : Provision) (trusted : Bool) (answer : Except LedgerFault Unit) :
    p.pollAgain trusted ≠ .done answer := by
  rw [pollAgain]
  split <;> simp

theorem Grounded.keeps {m' : Memory} (hs : p.Grounded m s) (h : Memory.Keeps p.table m m') :
    p.Grounded m' s :=
  ⟨fun htrusted => h.hasTable (hs.trusted htrusted),
    fun hready => h.hasActiveTable (hs.ready hready)⟩

theorem Grounded.failed (p : Provision) (m : Memory) (fault : LedgerFault) :
    p.Grounded m (.done (.error fault)) :=
  ⟨nofun, nofun⟩

theorem Grounded.untrusted (hs : s.trusted = false) (hdone : s ≠ .done (.ok ())) :
    p.Grounded m s := by
  refine ⟨fun h => ?_, fun h => absurd h hdone⟩
  rw [hs] at h
  cases h

theorem grounded_afterDescribe {t : StoredTable} (ht : m.tables.get? p.table = some t) :
    p.Grounded m (p.afterDescribe (.ok (some t.description))) := by
  rw [afterDescribe]
  cases hvalid : p.validate t.description with
  | error fault => exact Grounded.failed p m fault
  | ok _ =>
    have hschema := validate_ok hvalid
    dsimp only
    split
    · next hactive => exact ⟨nofun, fun _ => ⟨t, ht, hschema, hactive⟩⟩
    · exact ⟨fun _ => ⟨t, ht, hschema⟩, nofun⟩

theorem grounded_afterPoll {t : StoredTable} {trusted : Bool}
    (ht : m.tables.get? p.table = some t)
    (htrusted : trusted = true → m.HasTable p.table p.schema) :
    p.Grounded m (p.afterPoll trusted (.ok (some t.description))) := by
  rw [afterPoll]
  by_cases hactive : t.description.status = .active
  · rw [if_pos hactive]
    refine ⟨nofun, fun h => ?_⟩
    cases trusted with
    | true =>
      obtain ⟨u, hu, hschema⟩ := htrusted rfl
      cases ht.symm.trans hu
      exact ⟨t, ht, hschema, hactive⟩
    | false => exact ⟨t, ht, validate_ok (Phase.done.inj h), hactive⟩
  · rw [if_neg hactive]
    refine ⟨fun h => htrusted ?_, fun h => absurd h (p.pollAgain_ne_done _ _)⟩
    rw [← p.pollAgain_trusted trusted]
    exact h

theorem grounded_afterCreate (x : Except StoreFault Unit) : p.Grounded m (afterCreate x) := by
  cases x with
  | error fault => cases fault <;> exact Grounded.untrusted rfl (by simp [afterCreate])
  | ok _ => exact Grounded.untrusted rfl (by simp [afterCreate])

theorem done_of_answer? {κ : Type} {answer : Except LedgerFault Unit}
    (h : (p.machine (κ := κ)).answer? s = some answer) : s = .done answer := by
  cases s with
  | done other => exact congrArg Phase.done (Option.some.inj h)
  | _ => cases h

theorem turn_cell {κ : Type} {t : Moment} {k : κ} {stimulus : Stimulus} {r : Turned κ Phase}
    (h : p.machine.turn? t m k s stimulus = some r) : r.cell = k := by
  cases stimulus <;> cases s <;> cases h <;> rfl

theorem grounded_turn {κ : Type} {t : Moment} {k : κ} {stimulus : Stimulus} {r : Turned κ Phase}
    (hs : p.Grounded m s) (h : p.machine.turn? t m k s stimulus = some r) :
    p.Grounded r.memory r.state := by
  have hkeeps := Machine.turn_keeps h p.table
  cases stimulus with
  | reply =>
    cases s with
    | describing =>
      rw [Machine.turn?] at h
      simp only [machine] at h
      obtain hx | ⟨u, hx⟩ := m.perform_describeTable t.wall p.table
      · rw [hx] at h
        cases h
        dsimp only [afterDescribe]
        split
        · exact Grounded.untrusted rfl (by simp)
        · exact Grounded.failed p m _
      · rw [hx] at h
        cases h
        exact grounded_afterDescribe (Ordered.get?_insert_self ..)
    | creating =>
      cases h
      exact grounded_afterCreate _
    | polling trusted =>
      rw [Machine.turn?] at h
      simp only [machine] at h
      obtain hx | ⟨u, hx⟩ := m.perform_describeTable t.wall p.table
      · rw [hx] at h
        cases h
        exact Grounded.failed p m _
      · rw [hx] at h
        cases h
        exact grounded_afterPoll (Ordered.get?_insert_self ..) fun htrusted =>
          hkeeps.hasTable (hs.trusted htrusted)
    | pausing trusted => cases h
    | done answer => cases h
  | refuse fault =>
    cases s with
    | describing =>
      cases h
      exact Grounded.failed p m _
    | creating =>
      cases h
      exact grounded_afterCreate _
    | polling trusted =>
      cases h
      exact Grounded.failed p m _
    | pausing trusted => cases h
    | done answer => cases h
  | wake =>
    cases s with
    | pausing trusted =>
      cases h
      exact ⟨hs.trusted, by simp⟩
    | _ => cases h
  | expire => cases h

end Provision

end MigrationLedger
