import Mathlib.Data.List.Induction
import MigrationLedger.Proofs.CalmUpdate
import MigrationLedger.Proofs.Chronicle
import MigrationLedger.Proofs.TableContents

/-! Tables that are dropped and created anew while ledgers are in use. A put goes by the count of
writes, which starts over with the table. So a save that has read its record before the table was
dropped may overwrite the record of a later table, and brings back who ran the change then. -/

namespace MigrationLedger

namespace Ordered

theorem get?_erase_self {α : Type} (m : Ordered α) (key : String) :
    (m.erase key).get? key = none := by
  cases h : (m.erase key).get? key with
  | none => rfl
  | some value =>
    have hmem : (key, value) ∈ (m.erase key).entries := mem_of_valueAt h
    rw [erase] at hmem
    simp at hmem

end Ordered

def creates (name : String) : Exchange → Bool
  | ⟨.createTable table _, .ok _⟩ => table = name
  | _ => false

theorem creates_of_refused {name : String} {x : Option Exchange}
    (hx : ∀ y, x = some y → ∃ c fault, y = ⟨c, .error fault⟩) : x.any (creates name) = false := by
  cases x with
  | none => rfl
  | some y =>
    obtain ⟨c, fault, rfl⟩ := hx y rfl
    cases c <;> rfl

/-- A record was put in place of another. -/
def overwrites : Exchange → Bool
  | ⟨.putItem _ _ (some (.revision _)), .ok _⟩ => true
  | _ => false

theorem Draft.overwrites_put (d : Draft) (table : String) :
    overwrites (d.put table) = d.read.isSome := by
  obtain ⟨read, item⟩ := d
  cases read <;> rfl

theorem isPut_of_creates {name : String} {x : Exchange} (h : creates name x = true) :
    isPut x = false := by
  obtain ⟨c, answer⟩ := x
  cases c with
  | createTable table schema => rfl
  | _ => cases h

/-! ## What a turn does to a table -/

namespace Memory

variable {m : Memory} {name : String}

theorem perform_absent (hm : m.tables.get? name = none) (now : Instant) (c : Call) :
    ((m.perform now c).2.tables.get? name = none ∧ creates name ⟨c, (m.perform now c).1⟩ = false) ∨
      ∃ schema, (⟨c, (m.perform now c).1⟩ : Exchange) = ⟨.createTable name schema, .ok ()⟩ ∧
        (m.perform now c).2.tables.get? name =
          some (.create name schema m.activationPolls now) := by
  cases c with
  | tableExists table => exact .inl ⟨hm, rfl⟩
  | createTable table schema =>
    rw [perform]
    split
    · exact .inl ⟨hm, rfl⟩
    · by_cases hname : name = table
      · subst hname
        exact .inr ⟨schema, rfl, Ordered.get?_insert_self ..⟩
      · refine .inl ⟨(get?_setTable_of_ne m hname _).trans hm, ?_⟩
        exact decide_eq_false fun htable => hname htable.symm
  | describeTable table =>
    rw [perform]
    split
    · exact .inl ⟨hm, rfl⟩
    · next t ht =>
      have hname : name ≠ table := by
        rintro rfl
        cases hm.symm.trans ht
      exact .inl ⟨(get?_setTable_of_ne m hname _).trans hm, rfl⟩
  | putItem table item condition =>
    rw [perform, onTable]
    cases ht : m.tables.get? table with
    | none => exact .inl ⟨hm, rfl⟩
    | some t =>
      have hname : name ≠ table := by
        rintro rfl
        cases hm.symm.trans ht
      dsimp only
      cases t.put item condition with
      | error fault => exact .inl ⟨hm, rfl⟩
      | ok t' => exact .inl ⟨(get?_setTable_of_ne m hname _).trans hm, rfl⟩
  | getItem table key =>
    rw [perform, onTable]
    cases m.tables.get? table <;> exact .inl ⟨hm, rfl⟩
  | scan table cursor limit =>
    rw [perform, onTable]
    cases m.tables.get? table <;> exact .inl ⟨hm, rfl⟩

theorem creates_perform {t : StoredTable} (hm : m.tables.get? name = some t) (now : Instant)
    (c : Call) : creates name ⟨c, (m.perform now c).1⟩ = false := by
  cases c with
  | createTable table schema =>
    rw [perform]
    split
    · rfl
    · next habsent =>
      refine decide_eq_false ?_
      rintro rfl
      rw [Ordered.contains, hm] at habsent
      exact habsent rfl
  | _ => rfl

end Memory

/-- What becomes of a table in a turn: it is still missing, it is created, or it is still there. -/
inductive TableTurn (name : String) (m : Memory) (x : Option Exchange) (m' : Memory) : Prop where
  | missing (hm : m.tables.get? name = none) (hm' : m'.tables.get? name = none)
      (hx : x.any (creates name) = false)
  | created (schema : KeySchema) (t : StoredTable) (hm' : m'.tables.get? name = some t)
      (hschema : t.description.schema = schema) (hempty : ∀ id, m'.item? name id = none)
      (hx : x = some ⟨.createTable name schema, .ok ()⟩)
  | kept (t t' : StoredTable) (hm : m.tables.get? name = some t)
      (hm' : m'.tables.get? name = some t') (hschema : t'.description.schema = t.description.schema)
      (hnext : t.Next name x t') (hx : x.any (creates name) = false)

theorem Machine.turn_kind {κ σ α : Type} {mc : Machine κ σ α} {t : Moment} {m : Memory} {k : κ}
    {s : σ} {stimulus : Stimulus} {r : Turned κ σ} (h : mc.turn? t m k s stimulus = some r)
    (name : String) : TableTurn name m r.exchange r.memory := by
  cases htable : m.tables.get? name with
  | none =>
    rcases turn_exchange h with ⟨c, hx, hm⟩ | ⟨hm, hx⟩
    · rcases Memory.perform_absent htable t.wall c with ⟨hm', hx'⟩ | ⟨schema, hx', hm'⟩
      · exact .missing htable (hm ▸ hm') (by rw [hx]; exact hx')
      · rw [← hm] at hm'
        refine .created schema _ hm' rfl (fun id => ?_) (by rw [hx, hx'])
        rw [Memory.item?_of_table hm']
        rfl
    · exact .missing htable (hm ▸ htable) (creates_of_refused hx)
  | some tb =>
    obtain ⟨tb', htb', hschema, hnext⟩ := turn_table h htable
    refine .kept tb tb' htable htb' hschema hnext ?_
    rcases turn_exchange h with ⟨c, hx, -⟩ | ⟨-, hx⟩
    · rw [hx]
      exact Memory.creates_perform htable t.wall c
    · exact creates_of_refused hx

namespace TableTurn

variable {name id : String} {m m' : Memory} {x : Option Exchange}

theorem keyedBy (h : TableTurn name m x m') {schema : KeySchema} (hm : m.KeyedBy name schema)
    (hcreated : ∀ schema', x = some ⟨.createTable name schema', .ok ()⟩ → schema' = schema) :
    m'.KeyedBy name schema := by
  intro t ht
  cases h with
  | missing _ hm' hx => cases hm'.symm.trans ht
  | created schema' t' hm' hschema hempty hx =>
    cases hm'.symm.trans ht
    exact hschema.trans (hcreated schema' hx)
  | kept tb tb' htb hm' hschema hnext hx =>
    cases hm'.symm.trans ht
    exact hschema.trans (hm tb htb)

theorem item?_of_quiet (h : TableTurn name m x m') (hx : x.any (creates name) = false)
    (hput : x.any isPut = false) : m'.item? name id = m.item? name id := by
  cases h with
  | missing hm hm' _ => rw [Memory.item?, Memory.item?, hm, hm']
  | created schema t hm' hschema hempty hx' =>
    rw [hx'] at hx
    simp [creates] at hx
  | kept t t' hm hm' hschema hnext _ =>
    rw [Memory.item?_of_table hm, Memory.item?_of_table hm']
    cases hnext with
    | same hitems => rw [hitems]
    | put item condition key hx' hkey hitems =>
      rw [hx'] at hput
      cases hput

end TableTurn

/-! ## Since the table was created -/

namespace Crew

variable {ι γ κ : Type} {name : String}

/-- The exchanges since the table was last created. -/
def era (name : String) (log : List (Note ι)) : List (Note ι) :=
  log.foldl (fun since n => if creates name n.exchange = true then [] else since ++ [n]) []

theorem era_append (name : String) (log : List (Note ι)) (n : Note ι) :
    era name (log ++ [n]) =
      if creates name n.exchange = true then [] else era name log ++ [n] := by
  rw [era, List.foldl_append]
  rfl

variable {c : Crew ι γ κ}

theorem era_note (s : c.State) (i : ι) {x : Option Exchange} (h : x.any (creates name) = false) :
    era name (s.note i x) = era name s.log ++ (x.map fun x => ⟨i, s.clock, x⟩).toList := by
  cases x with
  | none => simp [State.note]
  | some x =>
    rw [Option.any_some] at h
    rw [State.note, era_append, if_neg (by rw [h]; exact Bool.false_ne_true)]
    rfl

theorem era_of_created (s : c.State) (i : ι) {x : Option Exchange}
    (h : x.any (creates name) = true) : era name (s.note i x) = [] := by
  cases x with
  | none => cases h
  | some x =>
    rw [Option.any_some] at h
    rw [State.note, era_append, if_pos h]

variable [DecidableEq ι]

/-- Goes through exchanges, and notes who overwrites a record without having read one before. -/
def reckon (seen : List (Note ι) × List ι) (n : Note ι) : List (Note ι) × List ι :=
  (seen.1 ++ [n], if overwrites n.exchange = true ∧ lastRead n.who seen.1 = none
    then seen.2 ++ [n.who] else seen.2)

def strays (log : List (Note ι)) : List ι := (log.foldl reckon ([], [])).2

theorem seen_reckon (log : List (Note ι)) : (log.foldl reckon ([], [])).1 = log := by
  induction log using List.reverseRecOn with
  | nil => rfl
  | append_singleton log n ih => rw [List.foldl_append, List.foldl_cons, List.foldl_nil, reckon, ih]

theorem strays_append (log : List (Note ι)) (n : Note ι) :
    strays (log ++ [n]) = strays log ++
      if overwrites n.exchange = true ∧ lastRead n.who log = none then [n.who] else [] := by
  rw [strays, List.foldl_append, List.foldl_cons, List.foldl_nil, reckon, seen_reckon, ← strays]
  dsimp only
  split
  · rfl
  · rw [List.append_nil]

theorem strays_append_quiet (log : List (Note ι)) {n : Note ι} (h : isPut n.exchange = false) :
    strays (log ++ [n]) = strays log := by
  have hover : overwrites n.exchange = false := by
    obtain ⟨i, t, c, x⟩ := n
    cases c with
    | putItem table item condition =>
      cases x with
      | error fault => rcases condition with _ | _ | _ <;> rfl
      | ok u => cases h
    | _ => rfl
  rw [strays_append, if_neg (fun h => by rw [hover] at h; cases h.1), List.append_nil]

theorem strays_prefix (log more : List (Note ι)) : strays log <+: strays (log ++ more) := by
  induction more using List.reverseRecOn with
  | nil => simp
  | append_singleton more n ih =>
    rw [← List.append_assoc, strays_append]
    exact ih.trans (List.prefix_append _ _)

end Crew

/-! ## Who has run a change -/

namespace Entry

/-- Both records tell of the same run of the change by the same author. -/
structure SameRun (a b : Entry) : Prop where
  executionId : a.executionId = b.executionId
  author : a.author = b.author

theorem sameRun_merge (stored e : Entry) : SameRun (merge (some stored) e) stored := ⟨rfl, rfl⟩

theorem SameRun.trans {a b c : Entry} (h : SameRun a b) (h' : SameRun b c) : SameRun a c :=
  ⟨h.executionId.trans h'.executionId, h.author.trans h'.author⟩

theorem SameRun.symm {a b : Entry} (h : SameRun a b) : SameRun b a :=
  ⟨h.executionId.symm, h.author.symm⟩

end Entry

theorem Memory.entryAt_congr {m m' : Memory} {table id : String}
    (h : m'.item? table id = m.item? table id) : m'.entryAt table id = m.entryAt table id := by
  rw [entryAt, entryAt, h]

theorem Memory.Puts.entryAt {m m' : Memory} {table id : String} {item : Item} {e : Entry}
    (h : m.Puts table id item m') (he : Entry.ofItem item = .ok e) :
    m'.entryAt table id = some e := by
  rw [Memory.entryAt, h.self, Option.bind_some, he]
  rfl

theorem nextRevision_of_unchanged {read stored : Option Item}
    (h : (Condition.unchanged read).holds stored = true) :
    nextRevision read = nextRevision stored := by
  cases read with
  | none =>
    rw [Option.isNone_iff_eq_none.mp h]
  | some item =>
    cases stored with
    | none => cases h
    | some other =>
      have hrevision : other.revision = item.revision := by
        simpa [Condition.unchanged, Condition.holds] using h
      simp [nextRevision, hrevision]

namespace LedgerCall

variable {l : Ledger} {call : LedgerCall} {t : Moment} {m : Memory} {k : Lifecycle}
  {stimulus : Stimulus} {p : call.Phase} {r : Turned Lifecycle call.Phase}

def saved? : LedgerCall → Option Entry
  | save e _ => some e
  | _ => none

theorem created_schema (h : (call.operation l).machine.turn? t m k p stimulus = some r)
    {name : String} {schema : KeySchema}
    (hx : r.exchange = some ⟨.createTable name schema, .ok ()⟩) : schema = Entry.schema := by
  have hcall : r.exchange.map (·.1) = some (.createTable name schema) := by rw [hx]; rfl
  cases call with
  | save e after =>
    obtain ⟨note, limit, inner, rfl, ⟨state, hturn, -⟩ | ⟨hx', -⟩⟩ := Bounded.update_turn h
    · generalize r.exchange = x, r.memory = m' at hturn hcall
      cases hturn <;> cases hcall
    · cases hx.symm.trans hx'
  | _ =>
    obtain ⟨note, limit, inner, rfl, ⟨q, hq, hx', -⟩ | ⟨hx', -⟩⟩ := Bounded.turn_inv h
    · rw [hx'] at hcall
      cases stimulus <;> cases inner <;> cases hq <;> cases hcall <;> rfl
    · cases hx.symm.trans hx'

theorem turn_effect (h : (call.operation l).machine.turn? t m k p stimulus = some r) :
    (∃ e, call.saved? = some e ∧ Effect l.table e.changeId ((l.saving e).Permits t) m
        (call.draft? p) r.exchange r.memory (call.draft? r.state)) ∨
      call.draft? r.state = none ∧ r.exchange.any isPut = false := by
  cases call with
  | save e after => exact .inl ⟨e, rfl, Bounded.effect h⟩
  | _ => exact .inr ⟨rfl, isPut_turn rfl h⟩

end LedgerCall

/-! ## The invariant -/

/-- From time to time somebody drops the table. -/
def Dropping {γ : Type} (table : String) (m : Memory) (cells : γ → Lifecycle) (m' : Memory)
    (cells' : γ → Lifecycle) : Prop :=
  m' = m.drop table ∧ cells' = cells

namespace Recreation

variable {ι γ : Type} {table : String} {options : γ → TableOptions}
  {calls : ι → RepositoryCall γ}

def savesChange (calls : ι → RepositoryCall γ) (id : String) (i : ι) : Bool :=
  (calls i).call.saved?.any fun e => e.changeId = id

/-- The saves of a change that have written, in the order of their puts. -/
def writersOf (calls : ι → RepositoryCall γ) (id : String) (log : List (Crew.Note ι)) : List ι :=
  (Crew.writers log).filter (savesChange calls id)

theorem writersOf_append (id : String) (log : List (Crew.Note ι)) (n : Crew.Note ι) :
    writersOf calls id (log ++ [n]) = writersOf calls id log ++
      if isPut n.exchange = true ∧ savesChange calls id n.who = true then [n.who] else [] := by
  rw [writersOf, Crew.writers_append, List.filter_append, Crew.writers_singleton, ← writersOf]
  by_cases hput : isPut n.exchange = true
  · by_cases hid : savesChange calls id n.who = true
    · simp [hput, hid]
    · simp [hput, hid]
  · simp [hput]

/-- The record tells of the run of the save whose put came first. -/
inductive Rooted (calls : ι → RepositoryCall γ) : Option Entry → List ι → Prop where
  | bare : Rooted calls none []
  | stored (e first : Entry) (i : ι) (rest : List ι) (hfirst : (calls i).call.saved? = some first)
      (hsame : e.SameRun first) : Rooted calls (some e) (i :: rest)

/-- One more save writes over what it has read, or writes where nothing is. -/
theorem Rooted.merge {stored : Option Entry} {writers : List ι} (h : Rooted calls stored writers)
    {i : ι} {e : Entry} (hsaved : (calls i).call.saved? = some e) :
    Rooted calls (some (Entry.merge stored e.canonical)) (writers ++ [i]) := by
  cases h with
  | bare => exact .stored _ e i [] hsaved ⟨rfl, rfl⟩
  | stored old first j rest hfirst hsame =>
    exact .stored _ first j (rest ++ [i]) hfirst ((Entry.sameRun_merge old _).trans hsame)

variable [DecidableEq ι]

/-- Who has overwritten the record of a change without having read it in these exchanges. -/
def straysOf (calls : ι → RepositoryCall γ) (id : String) (log : List (Crew.Note ι)) : List ι :=
  (Crew.strays log).filter (savesChange calls id)

/-- A draft that is about to be put, to save the entry `e`. What it was decided on may be a record
of an earlier table; only what was read in this one bears on what is stored. -/
structure Pending (s : (repositories table options calls).State) (i : ι) (e : Entry) (d : Draft) :
    Prop where
  saved : (calls i).call.saved? = some e
  merges : ∃ stored, d.read.map Entry.ofItem = stored.map .ok ∧
    d.item = (Entry.merge stored e).toItem
  addressed : ∀ key, Entry.schema.keyOf d.written = .ok key → key = e.changeId
  lastRead : Crew.lastRead i s.log = some d.read
  precedes : s.memory.HasTable table Entry.schema →
    (Crew.lastRead i (Crew.era table s.log)).isSome = true →
      Precedes d.read (s.memory.item? table e.changeId)

structure Traced (s : (repositories table options calls).State) : Prop where
  keyedBy : s.memory.KeyedBy table Entry.schema
  decodes : s.memory.Decodes table
  pending : ∀ i p, s.phase i = some p → ∀ d, (calls i).call.draft? p = some d →
    ∃ e, Pending s i e d
  rooted : s.memory.HasTable table Entry.schema → ∀ id,
    straysOf calls id (Crew.era table s.log) = [] →
      Rooted calls (s.memory.entryAt table id) (writersOf calls id (Crew.era table s.log))

variable {s : (repositories table options calls).State}

/-- What a turn of `i` does to the records of the table: all are gone with a new table; all stay,
and one may have been read; or a draft is written in the place of a record with the count of writes
that it was decided on. -/
inductive Change (s : (repositories table options calls).State) (i : ι) (p : (calls i).call.Phase)
    (r : Turned Lifecycle (calls i).call.Phase) : Prop where
  | created (hx : r.exchange.any (creates table) = true)
      (hdraft : (calls i).call.draft? r.state = none)
      (hempty : ∀ id, r.memory.item? table id = none)
  | quiet (hx : r.exchange.any (creates table) = false) (hput : r.exchange.any isPut = false)
      (htable : r.memory.HasTable table Entry.schema → s.memory.HasTable table Entry.schema)
      (hsame : ∀ id, r.memory.item? table id = s.memory.item? table id)
      (hdraft : ∀ d, (calls i).call.draft? r.state = some d →
        ∃ e, (calls i).call.saved? = some e ∧
          (Ledger.saving ⟨table, options (calls i).repository⟩ e).Permits s.clock d ∧
          r.exchange = some ⟨.getItem table e.changeId, .ok d.read⟩ ∧
          d.read = s.memory.item? table e.changeId)
  | put (e : Entry) (d : Draft) (hpending : Pending s i e d) (hx : r.exchange = some (d.put table))
      (hdraft : (calls i).call.draft? r.state = none)
      (htable : s.memory.HasTable table Entry.schema)
      (hunchanged : (Condition.unchanged d.read).holds (s.memory.item? table e.changeId) = true)
      (hputs : s.memory.Puts table e.changeId d.written r.memory)

theorem Traced.change (h : Traced s) {i : ι} {p : (calls i).call.Phase} {stimulus : Stimulus}
    {r : Turned Lifecycle (calls i).call.Phase} (hp : s.phase i = some p)
    (hr : ((repositories table options calls).operation i).machine.turn? s.clock s.memory
      (s.cellOf i) p stimulus = some r) : Change s i p r := by
  have hkind := Machine.turn_kind hr table
  have heffect := LedgerCall.turn_effect hr
  by_cases hcreated : r.exchange.any (creates table) = true
  · refine .created hcreated ?_ ?_
    · rcases heffect with ⟨e, -, heffect⟩ | ⟨hdraft, -⟩
      · cases heffect with
        | idle hafter hm hx => exact hafter
        | read d hafter hm hx hread hpermits =>
          rw [hx] at hcreated
          cases hcreated
        | wrote d key hbefore hafter hx hkey hunchanged hputs => exact hafter
      · exact hdraft
    · cases hkind with
      | missing hm hm' hx => cases hx.symm.trans hcreated
      | created schema t hm' hschema hempty hx => exact hempty
      | kept t t' hm hm' hschema hnext hx => cases hx.symm.trans hcreated
  · have hcreated : r.exchange.any (creates table) = false := Bool.eq_false_iff.mpr hcreated
    have htable : r.memory.HasTable table Entry.schema → s.memory.HasTable table Entry.schema := by
      rintro ⟨t', ht', -⟩
      cases hkind with
      | missing hm hm' hx => cases hm'.symm.trans ht'
      | created schema t hm' hschema hempty hx =>
        rw [hx] at hcreated
        simp [creates] at hcreated
      | kept t t' hm hm' hschema hnext hx => exact ⟨t, hm, h.keyedBy t hm⟩
    have hquiet : r.exchange.any isPut = false →
        ∀ id, r.memory.item? table id = s.memory.item? table id :=
      fun hput id => hkind.item?_of_quiet hcreated hput
    rcases heffect with ⟨e, hsaved, heffect⟩ | ⟨hdraft, hput⟩
    · cases heffect with
      | idle hafter hm hx =>
        refine .quiet hcreated hx htable (hquiet hx) fun d hd => ?_
        cases hafter.symm.trans hd
      | read d hafter hm hx hread hpermits =>
        have hput : r.exchange.any isPut = false := by
          rw [hx]
          rfl
        refine .quiet hcreated hput htable (hquiet hput) fun d' hd => ?_
        cases hafter.symm.trans hd
        exact ⟨e, hsaved, hpermits, hx, hread⟩
      | wrote d key hbefore hafter hx hkey hunchanged hputs =>
        obtain ⟨e', hpending⟩ := h.pending i p hp d hbefore
        cases hsaved.symm.trans hpending.saved
        obtain rfl := hpending.addressed key (hkey Entry.schema h.keyedBy)
        have hkeyed := hputs.keyedBy table Entry.schema h.keyedBy
        exact .put e d hpending hx hafter (htable (hkeyed.hasTable hputs.self)) hunchanged hputs
    · refine .quiet hcreated hput htable (hquiet hput) fun d hd => ?_
      cases hdraft.symm.trans hd

omit [DecidableEq ι] in
theorem savesChange_eq {i : ι} {e : Entry} (h : (calls i).call.saved? = some e) (id : String) :
    savesChange calls id i = decide (e.changeId = id) := by
  rw [savesChange, h, Option.any_some]

/-- A save that has read the record of this table replaces that record; any other is a stray, or
writes where nothing is. -/
theorem Pending.reads_stored {i : ι} {e : Entry} {d : Draft} (h : Pending s i e d)
    (htable : s.memory.HasTable table Entry.schema)
    (hunchanged : (Condition.unchanged d.read).holds (s.memory.item? table e.changeId) = true)
    (hstray : ¬(overwrites (d.put table) = true ∧
      Crew.lastRead i (Crew.era table s.log) = none)) :
    s.memory.item? table e.changeId = d.read := by
  cases hread : Crew.lastRead i (Crew.era table s.log) with
  | some read => exact (h.precedes htable (by rw [hread]; rfl)).eq_of_unchanged hunchanged
  | none =>
    rw [d.overwrites_put] at hstray
    cases hold : d.read with
    | none =>
      rw [hold] at hunchanged
      exact Option.isNone_iff_eq_none.mp hunchanged
    | some item => exact absurd ⟨by rw [hold]; rfl, hread⟩ hstray

theorem Pending.decoded {i : ι} {e : Entry} {d : Draft} (hdated : (calls i).call.Dated)
    (h : Pending s i e d) : ∃ stored, d.read.map Entry.ofItem = stored.map .ok ∧
      Entry.ofItem d.written = .ok (Entry.merge stored e.canonical) := by
  obtain ⟨stored, hstored, hitem⟩ := h.merges
  have hvalid : e.timestamp.IsValid := by
    have hsaved := h.saved
    cases hcall : (calls i).call with
    | save e' after =>
      rw [hcall] at hsaved hdated
      cases hsaved
      exact hdated
    | _ =>
      rw [hcall] at hsaved
      cases hsaved
  refine ⟨stored, hstored, ?_⟩
  rw [Draft.written, hitem, Item.withRevision, Entry.ofItem_merged hvalid]

theorem Traced.rooted_after (hdated : ∀ i, (calls i).call.Dated) (h : Traced s) {i : ι}
    {p : (calls i).call.Phase} {r : Turned Lifecycle (calls i).call.Phase}
    (hchange : Change s i p r) (htable : r.memory.HasTable table Entry.schema) (id : String)
    (hstrays : straysOf calls id (Crew.era table (s.note i r.exchange)) = []) :
    Rooted calls (r.memory.entryAt table id)
      (writersOf calls id (Crew.era table (s.note i r.exchange))) := by
  cases hchange with
  | created hx hdraft hempty =>
    rw [Crew.era_of_created s i hx, Memory.entryAt, hempty]
    exact .bare
  | quiet hx hput hbefore hsame hdraft =>
    rw [Memory.entryAt_congr (hsame id), Crew.era_note s i hx]
    rw [Crew.era_note s i hx] at hstrays
    cases hex : r.exchange with
    | none =>
      rw [hex, Option.map_none, Option.toList_none, List.append_nil] at hstrays
      rw [Option.map_none, Option.toList_none, List.append_nil]
      exact h.rooted (hbefore htable) id hstrays
    | some x =>
      rw [hex, Option.any_some] at hput
      rw [hex, Option.map_some, Option.toList_some, straysOf, Crew.strays_append_quiet _ hput]
        at hstrays
      rw [Option.map_some, Option.toList_some, writersOf_append, if_neg (by simp [hput]),
        List.append_nil]
      exact h.rooted (hbefore htable) id hstrays
  | put e d hpending hx hdraft hbefore hunchanged hputs =>
    have hquiet : r.exchange.any (creates table) = false := by
      rw [hx]
      rfl
    have hera : Crew.era table (s.note i r.exchange) =
        Crew.era table s.log ++ [⟨i, s.clock, d.put table⟩] := by
      rw [Crew.era_note s i hquiet, hx]
      rfl
    rw [hera, straysOf, Crew.strays_append, List.filter_append, List.append_eq_nil_iff,
      ← straysOf] at hstrays
    rw [hera, writersOf_append]
    have hrooted := h.rooted hbefore id hstrays.1
    by_cases hid : e.changeId = id
    · subst hid
      -- no stray, so it merges into the record that is stored now
      have hsaves : savesChange calls e.changeId i = true := by simp [savesChange_eq hpending.saved]
      have hstored := hpending.reads_stored hbefore hunchanged fun hstray => by
        rw [if_pos hstray] at hstrays
        simp [hsaves] at hstrays
      obtain ⟨stored, hread, hwritten⟩ := hpending.decoded (hdated i)
      have hold : s.memory.entryAt table e.changeId = stored :=
        Memory.entryAt_eq (by rw [hstored, hread])
      rw [hputs.entryAt hwritten, if_pos ⟨rfl, hsaves⟩]
      rw [hold] at hrooted
      exact hrooted.merge hpending.saved
    · have hsaves : savesChange calls id i = false := by
        simp [savesChange_eq hpending.saved, hid]
      rw [Memory.entryAt_congr (hputs.others table id (.inr (Ne.symm hid))),
        if_neg (by simp [hsaves]), List.append_nil]
      exact hrooted

/-- Without the table there is nothing that could be at odds with it. -/
theorem Traced.drop (h : Traced s) : Traced { s with memory := s.memory.drop table } := by
  have hgone : (s.memory.drop table).tables.get? table = none := Ordered.get?_erase_self ..
  have hno : ¬(s.memory.drop table).HasTable table Entry.schema := by
    rintro ⟨t, ht, -⟩
    cases hgone.symm.trans ht
  refine ⟨fun t ht => ?_, fun id item hitem => ?_, fun i p hp d hd => ?_, fun htable => ?_⟩
  · cases hgone.symm.trans ht
  · obtain ⟨t, ht, -⟩ := Option.bind_eq_some_iff.mp hitem
    cases hgone.symm.trans ht
  · obtain ⟨e, hpending⟩ := h.pending i p hp d hd
    exact ⟨e, hpending.saved, hpending.merges, hpending.addressed, hpending.lastRead,
      fun htable => absurd htable hno⟩
  · exact absurd htable hno

theorem Traced.first (h : Traced s) {id : String}
    (hstrays : straysOf calls id (Crew.era table s.log) = []) {e : Entry}
    (he : s.memory.entryAt table id = some e) :
    ∃ i rest first, writersOf calls id (Crew.era table s.log) = i :: rest ∧
      (calls i).call.saved? = some first ∧ e.SameRun first := by
  have htable : s.memory.HasTable table Entry.schema := by
    obtain ⟨item, hitem, -⟩ := Option.bind_eq_some_iff.mp he
    exact h.keyedBy.hasTable hitem
  have hrooted := h.rooted htable id hstrays
  rw [he] at hrooted
  generalize writersOf calls id (Crew.era table s.log) = writers at hrooted
  cases hrooted with
  | stored e first i rest hfirst hsame => exact ⟨i, rest, first, rfl, hfirst, hsame⟩

theorem Traced.kept {s' : (repositories table options calls).State} (h : Traced s) (h' : Traced s')
    {id : String} {more : List (Crew.Note ι)}
    (hera : Crew.era table s'.log = Crew.era table s.log ++ more)
    (hstrays : straysOf calls id (Crew.era table s'.log) = []) {e e' : Entry}
    (he : s.memory.entryAt table id = some e) (he' : s'.memory.entryAt table id = some e') :
    e'.SameRun e := by
  have hbefore : straysOf calls id (Crew.era table s.log) = [] := by
    have hprefix := (Crew.strays_prefix (Crew.era table s.log) more).filter (savesChange calls id)
    rw [← hera] at hprefix
    exact List.prefix_nil.mp (hstrays ▸ hprefix)
  obtain ⟨i, rest, first, hwriters, hfirst, hsame⟩ := h.first hbefore he
  obtain ⟨j, rest', first', hwriters', hfirst', hsame'⟩ := h'.first hstrays he'
  -- the first that has written is the same in both logs
  rw [hera, writersOf, Crew.writers_append, List.filter_append, ← writersOf, hwriters] at hwriters'
  obtain ⟨rfl, -⟩ := List.cons.inj hwriters'
  cases hfirst.symm.trans hfirst'
  exact hsame'.trans hsame.symm

theorem Pending.congr {s' : (repositories table options calls).State} {i : ι} {e : Entry}
    {d : Draft}
    (h : Pending s i e d) (hmemory : s'.memory = s.memory) (hlog : s'.log = s.log) :
    Pending s' i e d where
  saved := h.saved
  merges := h.merges
  addressed := h.addressed
  lastRead := hlog ▸ h.lastRead
  precedes htable hread := by
    rw [hmemory] at htable ⊢
    rw [hlog] at hread
    exact h.precedes htable hread

variable [DecidableEq γ]

/-- The draft of an operation stays as good as it is while others take their turns. -/
theorem Pending.after {i j : ι} {e : Entry} {d : Draft} (h : Pending s j e d) (hne : i ≠ j)
    {p : (calls i).call.Phase} {r : Turned Lifecycle (calls i).call.Phase}
    (hchange : Change s i p r) : Pending (s.after i r) j e d where
  saved := h.saved
  merges := h.merges
  addressed := h.addressed
  lastRead := (Crew.Drafting.lastRead_note_of_ne hne s r.exchange).trans h.lastRead
  precedes htable hread := by
    change r.memory.HasTable table Entry.schema at htable
    change (Crew.lastRead j (Crew.era table (s.note i r.exchange))).isSome = true at hread
    change Precedes d.read (r.memory.item? table e.changeId)
    have hera : r.exchange.any (creates table) = false →
        (Crew.lastRead j (Crew.era table s.log)).isSome = true := by
      intro hx
      rw [Crew.era_note s i hx] at hread
      cases hex : r.exchange with
      | none => simpa [hex] using hread
      | some x =>
        rw [hex, Option.map_some, Option.toList_some, Crew.lastRead_append_of_ne hne] at hread
        exact hread
    cases hchange with
    | created hx hdraft hempty =>
      rw [Crew.era_of_created s i hx] at hread
      cases hread
    | quiet hx hput hbefore hsame hdraft =>
      rw [hsame]
      exact h.precedes (hbefore htable) (hera hx)
    | put e' d' hpending hx hdraft hbefore hunchanged hputs =>
      have hprecedes := h.precedes hbefore (hera (by rw [hx]; rfl))
      by_cases hid : e.changeId = e'.changeId
      · -- the put counts one write more than what `j` has read
        rw [hid, hputs.self, Draft.written, nextRevision_of_unchanged hunchanged]
        rw [hid] at hprecedes
        exact hprecedes.withRevision d'.item
      · rw [hputs.others table e.changeId (.inr hid)]
        exact hprecedes

theorem Traced.pending_after (h : Traced s) {i : ι} {p : (calls i).call.Phase}
    {r : Turned Lifecycle (calls i).call.Phase} (hchange : Change s i p r) (j : ι)
    (q : (calls j).call.Phase) (hq : (s.after i r).phase j = some q) (d : Draft)
    (hd : (calls j).call.draft? q = some d) : ∃ e, Pending (s.after i r) j e d := by
  by_cases hji : j = i
  · subst hji
    rw [Crew.State.after_phase_self] at hq
    cases hq
    cases hchange with
    | created hx hdraft hempty => cases hdraft.symm.trans hd
    | put e d' hpending hx hdraft htable hunchanged hputs => cases hdraft.symm.trans hd
    | quiet hx hput htable hsame hdraft =>
      obtain ⟨e, hsaved, hpermits, hget, hread⟩ := hdraft d hd
      refine ⟨e, hsaved, Ledger.permits_saving hpermits, fun key hkey => ?_, ?_, fun _ _ => ?_⟩
      · rw [Draft.written, KeySchema.keyOf_withRevision Entry.partitionKey_ne] at hkey
        refine Ledger.saving_addressed hpermits (fun item hitem => ?_) hkey
        exact Memory.keyOf_item? h.keyedBy (hread.symm.trans hitem)
      · change Crew.lastRead j (s.note j r.exchange) = some d.read
        rw [hget]
        exact Crew.lastRead_append_read (n := ⟨j, s.clock, _⟩) rfl rfl _
      · change Precedes d.read (r.memory.item? table e.changeId)
        rw [hsame, hread]
        exact .refl _
  · rw [Crew.State.after_phase_of_ne _ hji] at hq
    obtain ⟨e, hpending⟩ := h.pending j q hq d hd
    exact ⟨e, hpending.after (Ne.symm hji) hchange⟩

theorem Traced.settle (h : Traced s) {i : ι} {p : (calls i).call.Phase}
    (hp : (calls i).call.draft? p = none) (k : Lifecycle) : Traced (s.settle i k p) := by
  refine ⟨h.keyedBy, h.decodes, ?_, h.rooted⟩
  refine Crew.State.forall_phase_settle (fun j q hq d hd => ?_) (fun d hd => ?_) k
  · obtain ⟨e, hpending⟩ := h.pending j q hq d hd
    exact ⟨e, hpending.congr rfl rfl⟩
  · cases hp.symm.trans hd

theorem Traced.after (hdated : ∀ i, (calls i).call.Dated) (h : Traced s) {i : ι}
    {p : (calls i).call.Phase} {stimulus : Stimulus}
    {r : Turned Lifecycle (calls i).call.Phase} (hp : s.phase i = some p)
    (hr : ((repositories table options calls).operation i).machine.turn? s.clock s.memory
      (s.cellOf i) p stimulus = some r) : Traced (s.after i r) := by
  have hchange := h.change hp hr
  refine ⟨?_, ?_, h.pending_after hchange, fun htable id => h.rooted_after hdated hchange htable id⟩
  · exact (Machine.turn_kind hr table).keyedBy h.keyedBy fun schema hx =>
      LedgerCall.created_schema hr hx
  · intro id item hitem
    change r.memory.item? table id = some item at hitem
    cases hchange with
    | created hx hdraft hempty => cases (hempty id).symm.trans hitem
    | quiet hx hput htable hsame hdraft => exact h.decodes id item ((hsame id).symm.trans hitem)
    | put e d hpending hx hdraft htable hunchanged hputs =>
      by_cases hid : id = e.changeId
      · subst hid
        cases hputs.self.symm.trans hitem
        obtain ⟨stored, -, hwritten⟩ := hpending.decoded (hdated i)
        exact ⟨_, hwritten⟩
      · exact h.decodes id item ((hputs.others table id (.inr hid)).symm.trans hitem)

variable {flow : Moment → Moment → Prop}

theorem Traced.run (hdated : ∀ i, (calls i).call.Dated)
    {s₀ : (repositories table options calls).State} (h : Traced s₀)
    {cs : List (repositories table options calls).Completion}
    (hs : Crew.Chronicle flow (Dropping table) s₀ cs s) : Traced s := by
  refine hs.invariant (P := fun _ s => Traced s) h ?_ ?_ ?_ ?_
  · intro cs s t h _
    refine ⟨h.keyedBy, h.decodes, fun i p hp d hd => ?_, h.rooted⟩
    obtain ⟨e, hpending⟩ := h.pending i p hp d hd
    exact ⟨e, hpending.congr rfl rfl⟩
  · rintro cs s m cells h ⟨rfl, rfl⟩
    exact h.drop
  · intro cs s i h _
    exact h.settle (LedgerCall.draft?_start ..) _
  · intro cs s i p stimulus r h hp hr
    exact h.after hdated hp hr

/-! ## Identities -/

/-- A save of the change `id` has put in place of the record `old`. It had read the record `read`,
under which the count of writes was the same. -/
structure Overwritten (s s' : (repositories table options calls).State) (i : ι) (id : String)
    (old read new : Entry) : Prop where
  found : ∃ item, Crew.lastRead i s.log = some (some item) ∧ Entry.ofItem item = .ok read ∧
    item.revision = s.memory.revisionAt table id
  stored : s'.memory.entryAt table id = some new
  /-- The identity stays exactly if it is that of the record that was read. -/
  sameRun : new.SameRun old ↔ read.SameRun old
  timely : (Crew.lastRead i (Crew.era table s.log)).isSome = true → read = old

/-- How far the identity of a record is pinned within one incarnation of the table. -/
structure Pinned (flow : Moment → Moment → Prop) (s : (repositories table options calls).State)
    (id : String) : Prop where
  /-- The save that has put first has given it, if all that wrote over the record had read it in
  this incarnation. -/
  first : straysOf calls id (Crew.era table s.log) = [] → ∀ e, s.memory.entryAt table id = some e →
    ∃ i rest first, writersOf calls id (Crew.era table s.log) = i :: rest ∧
      (calls i).call.saved? = some first ∧ e.SameRun first
  kept : ∀ e, s.memory.entryAt table id = some e → ∀ cs s' more,
    Crew.Chronicle flow (Dropping table) s cs s' →
      Crew.era table s'.log = Crew.era table s.log ++ more →
      straysOf calls id (Crew.era table s'.log) = [] →
      ∀ e', s'.memory.entryAt table id = some e' → e'.SameRun e
  overwritten : ∀ i stimulus s', s.act? (.turn i stimulus) = some s' →
    savesChange calls id i = true → Crew.writers s'.log = Crew.writers s.log ++ [i] →
    ∀ old, s.memory.entryAt table id = some old → ∃ read new, Overwritten s s' i id old read new

theorem Traced.overwritten (hdated : ∀ i, (calls i).call.Dated) (h : Traced s) {i : ι}
    {stimulus : Stimulus} {s' : (repositories table options calls).State}
    (hact : s.act? (.turn i stimulus) = some s') {id : String}
    (hsaves : savesChange calls id i = true)
    (hwriters : Crew.writers s'.log = Crew.writers s.log ++ [i]) {old : Entry}
    (hold : s.memory.entryAt table id = some old) :
    ∃ read new, Overwritten s s' i id old read new := by
  obtain ⟨p, r, hp, hr, rfl⟩ := Crew.State.turn_inv hact
  obtain ⟨hput, -⟩ := Crew.put_of_writers hwriters
  cases h.change hp hr with
  | created hx hdraft hempty =>
    obtain ⟨x, hex, hcreates⟩ := (Option.any_eq_true _ _).mp hx
    rw [hex, Option.any_some, isPut_of_creates hcreates] at hput
    cases hput
  | quiet hx hquiet htable hsame hdraft => cases hquiet.symm.trans hput
  | put e d hpending hx hdraft htable hunchanged hputs =>
    obtain rfl : e.changeId = id := by simpa [savesChange_eq hpending.saved] using hsaves
    obtain ⟨item, hitem, hdecoded⟩ := Option.bind_eq_some_iff.mp hold
    obtain ⟨stored, hread, hwritten⟩ := hpending.decoded (hdated i)
    rcases d with ⟨_ | item', merged⟩
    · rw [hitem] at hunchanged
      cases hunchanged
    · rcases stored with _ | read
      · cases hread
      · have hitem' : Entry.ofItem item' = .ok read := Option.some.inj hread
        have hrevision : item.revision = item'.revision := by
          rw [hitem] at hunchanged
          simpa [Condition.unchanged, Condition.holds] using hunchanged
        have hsame : (Entry.merge (some read) e.canonical).SameRun read := Entry.sameRun_merge ..
        refine ⟨read, _, ⟨item', hpending.lastRead, hitem', ?_⟩, hputs.entryAt hwritten,
          ⟨fun hnew => hsame.symm.trans hnew, fun hold => hsame.trans hold⟩, fun htimely => ?_⟩
        · rw [Memory.revisionAt, hitem]
          exact hrevision.symm
        · have hstored := hpending.reads_stored htable hunchanged fun hstray => by
            rw [hstray.2] at htimely
            cases htimely
          cases hitem.symm.trans hstored
          rw [hitem'] at hdecoded
          exact Option.some.inj hdecoded

/-- Identities are pinned up to saves that have read their record in an earlier table. -/
theorem identity_pinned (options : γ → TableOptions) (calls : ι → RepositoryCall γ)
    (hdated : ∀ i, (calls i).call.Dated) {m₀ : Memory} (hkeyed : m₀.KeyedBy table Entry.schema)
    (hempty : ∀ id, m₀.item? table id = none) (t₀ : Moment) (cells : γ → Lifecycle)
    {cs : List (repositories table options calls).Completion}
    {s : (repositories table options calls).State} (hs : Crew.Chronicle flow (Dropping table)
      ((repositories table options calls).initial m₀ t₀ cells) cs s) (id : String) :
    Pinned flow s id := by
  have hinitial : Traced ((repositories table options calls).initial m₀ t₀ cells) := by
    refine ⟨hkeyed, fun id item hitem => ?_, fun i p hp => ?_, fun _ id _ => ?_⟩
    · cases (hempty id).symm.trans hitem
    · cases hp
    · have hnone : m₀.entryAt table id = none := by rw [Memory.entryAt, hempty id]; rfl
      change Rooted calls (m₀.entryAt table id) []
      rw [hnone]
      exact .bare
  have htraced := hinitial.run hdated hs
  exact ⟨fun hstrays e he => htraced.first hstrays he,
    fun e he cs' s' more hs' hera hstrays e' he' =>
      htraced.kept (htraced.run hdated hs') hera hstrays he he',
    fun i stimulus s' hact hsaves hwriters old hold =>
      htraced.overwritten hdated hact hsaves hwriters hold⟩

inductive Errand where
  | opening
  | early
  | late
  | reopening
  | fresh
  deriving DecidableEq

def run (executionId author : String) : Entry :=
  { changeId := "create-users", executionId, author, changeLogClass := "Users",
    timestamp := ⟨0, 0⟩ }

/-- One repository saves a change twice; the other makes sure of the table, and saves it too. -/
def errands : Errand → RepositoryCall Bool
  | .opening => ⟨false, .prepare true (.ofSeconds 30)⟩
  | .early => ⟨false, .save (run "run-1" "alice") (.ofSeconds 30)⟩
  | .late => ⟨false, .save (run "run-2" "bob") (.ofSeconds 30)⟩
  | .reopening => ⟨true, .prepare true (.ofSeconds 30)⟩
  | .fresh => ⟨true, .save (run "run-3" "carol") (.ofSeconds 30)⟩

abbrev errandStart : (repositories "changes" (fun _ => {}) errands).State :=
  (repositories "changes" (fun _ => {}) errands).initial {} default fun _ => .uninitialized

/-- The second save has read the record of the first when the table is dropped. -/
def staleScript : Crew.Script Errand :=
  [(default, .start .opening), (default, .turn .opening .reply), (default, .turn .opening .reply),
    (default, .turn .opening .reply), (default, .start .early), (default, .turn .early .reply),
    (default, .turn .early .reply), (default, .start .late), (default, .turn .late .reply)]

def renewalScript : Crew.Script Errand :=
  [(default, .start .reopening), (default, .turn .reopening .reply),
    (default, .turn .reopening .reply), (default, .turn .reopening .reply),
    (default, .start .fresh), (default, .turn .fresh .reply), (default, .turn .fresh .reply)]

def renewed : Option (repositories "changes" (fun _ => {}) errands).State :=
  (errandStart.play? (fun _ _ => True) staleScript).bind fun s =>
    { s with memory := s.memory.drop "changes" }.play? (fun _ _ => True) renewalScript

def runAt (s : (repositories "changes" (fun _ => {}) errands).State) : Option (String × String) :=
  (s.memory.entryAt "changes" "create-users").map fun e => (e.executionId, e.author)

theorem chronicle_of_renewed {s : (repositories "changes" (fun _ => {}) errands).State}
    (h : renewed = some s) :
    ∃ cs, Crew.Chronicle (fun _ _ => True) (Dropping "changes") errandStart cs s := by
  obtain ⟨s₁, hs₁, hs⟩ := Option.bind_eq_some_iff.mp h
  have hstart : Crew.Chronicle (fun _ _ => True) (Dropping "changes") errandStart [] errandStart :=
    .refl
  obtain ⟨cs, hs₁⟩ := hstart.of_play hs₁
  exact (hs₁.outside ⟨rfl, rfl⟩).of_play hs

theorem identity_pinned_of_renewal :
    ∃ cs s, Crew.Chronicle (fun _ _ => True) (Dropping "changes") errandStart cs s ∧
      Pinned (fun _ _ => True) s "create-users" ∧ runAt s = some ("run-3", "carol") ∧
      writersOf errands "create-users" (Crew.era "changes" s.log) = [.fresh] ∧
      straysOf errands "create-users" (Crew.era "changes" s.log) = [] := by
  have hrun : renewed.map (fun s => (runAt s,
      writersOf errands "create-users" (Crew.era "changes" s.log),
      straysOf errands "create-users" (Crew.era "changes" s.log))) =
      some (some ("run-3", "carol"), [.fresh], []) := by decide +kernel
  obtain ⟨s, hs, hseen⟩ := Option.map_eq_some_iff.mp hrun
  obtain ⟨cs, hchronicle⟩ := chronicle_of_renewed hs
  have hdated : ∀ i, (errands i).call.Dated := by
    intro i
    cases i with
    | opening => trivial
    | reopening => trivial
    | _ => exact show Instant.IsValid ⟨0, 0⟩ by decide
  refine ⟨cs, s, hchronicle, ?_, congrArg (·.1) hseen, congrArg (·.2.1) hseen,
    congrArg (·.2.2) hseen⟩
  exact identity_pinned (fun _ => {}) errands hdated (by rintro t ⟨⟩) (fun _ => rfl) default
    (fun _ => .uninitialized) hchronicle "create-users"

/-- The put of the save that has read the dropped table brings its record back. -/
theorem identity_replaced_after_renewal :
    ∃ cs s s' n, Crew.Chronicle (fun _ _ => True) (Dropping "changes") errandStart cs s ∧
      s.act? (.turn .late .reply) = some s' ∧
      Crew.era "changes" s'.log = Crew.era "changes" s.log ++ [n] ∧
      runAt s = some ("run-3", "carol") ∧ runAt s' = some ("run-1", "alice") := by
  have hrun : renewed.bind (fun s => (s.act? (.turn .late .reply)).map fun s' => (runAt s, runAt s',
      (s'.log.drop s.log.length).map fun n => creates "changes" n.exchange)) =
      some (some ("run-3", "carol"), some ("run-1", "alice"), [false]) := by decide +kernel
  obtain ⟨s, hs, hrun⟩ := Option.bind_eq_some_iff.mp hrun
  obtain ⟨s', hact, hseen⟩ := Option.map_eq_some_iff.mp hrun
  obtain ⟨cs, hchronicle⟩ := chronicle_of_renewed hs
  obtain ⟨more, hmore⟩ := Crew.Step.log_prefix
    (Crew.Step.act hact : Crew.Step _ (fun _ _ => True) s s')
  have hlast : more.map (fun n => creates "changes" n.exchange) = [false] := by
    have hdrop := congrArg (·.2.2) hseen
    rw [← hmore] at hdrop
    simpa using hdrop
  obtain ⟨n, rfl, hn⟩ := List.map_eq_singleton_iff.mp hlast
  refine ⟨cs, s, s', n, hchronicle, hact, ?_, congrArg (·.1) hseen, congrArg (·.2.1) hseen⟩
  rw [← hmore, Crew.era_append, if_neg (by rw [hn]; exact Bool.false_ne_true)]

end Recreation

end MigrationLedger
