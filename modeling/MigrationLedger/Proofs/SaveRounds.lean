import Mathlib.Data.Fintype.Card
import MigrationLedger.Proofs.CalmUpdate
import MigrationLedger.Proofs.Chronicle
import MigrationLedger.Proofs.SaveOrder

/-! Saves of one change that get into each other's way. A save comes too late only when another one
has put since it read, and each of the others puts once. So a save begins anew at most as often as
there are others, and then it returns. -/

namespace MigrationLedger

def isGet : Exchange → Bool
  | ⟨.getItem .., _⟩ => true
  | _ => false

def isTry : Exchange → Bool
  | ⟨.putItem .., _⟩ => true
  | _ => false

/-- A put that came too late: the record was not any more as it had been read. -/
def isLoss : Exchange → Bool
  | ⟨.putItem .., .error .unmet⟩ => true
  | _ => false

theorem isLoss_of_isGet {x : Exchange} (h : isGet x = true) : isLoss x = false := by
  obtain ⟨call, answer⟩ := x
  cases call <;> first | rfl | cases h

namespace Crew

section

variable {ι : Type} {i : ι} {log : List (Note ι)} {n : Note ι}

/-- Each put of `i` that came too late is put down to another operation, which has put since the
read that went before; so `rivals` are, in the order in which they have beaten `i`. -/
inductive BeatenBy (i : ι) : List (Note ι) → List ι → Prop where
  | nil : BeatenBy i [] []
  | other {log : List (Note ι)} {n : Note ι} {rivals : List ι} (h : BeatenBy i log rivals)
      (hn : ¬(n.who = i ∧ isLoss n.exchange = true)) : BeatenBy i (log ++ [n]) rivals
  | lost {old since : List (Note ι)} {get put loss : Note ι} {rivals : List ι}
      (h : BeatenBy i old rivals) (hget : get.who = i ∧ isGet get.exchange = true)
      (hsince : ∀ n ∈ since, n.who ≠ i) (hmem : put ∈ since) (hput : isPut put.exchange = true)
      (hloss : loss.who = i ∧ isLoss loss.exchange = true) :
      BeatenBy i (old ++ get :: since ++ [loss]) (rivals ++ [put.who])

variable [DecidableEq ι]

def countOf (p : Exchange → Bool) (i : ι) (log : List (Note ι)) : Nat :=
  log.countP fun n => n.who = i && p n.exchange

theorem countOf_append (p : Exchange → Bool) (i : ι) (log more : List (Note ι)) :
    countOf p i (log ++ more) = countOf p i log + countOf p i more :=
  List.countP_append

theorem countOf_of_others (p : Exchange → Bool) (h : ∀ n ∈ log, n.who ≠ i) :
    countOf p i log = 0 := by
  refine List.countP_eq_zero.mpr fun n hn => ?_
  simp [h n hn]

theorem countOf_append_of_ne (p : Exchange → Bool) (h : n.who ≠ i) (log : List (Note ι)) :
    countOf p i (log ++ [n]) = countOf p i log := by
  simp [countOf, h]

theorem countOf_append_self (p : Exchange → Bool) (h : n.who = i) (log : List (Note ι)) :
    countOf p i (log ++ [n]) = countOf p i log + if p n.exchange = true then 1 else 0 := by
  simp [countOf, List.countP_append, List.countP_singleton, h]

theorem BeatenBy.length_eq {rivals : List ι} (h : BeatenBy i log rivals) :
    rivals.length = countOf isLoss i log := by
  induction h with
  | nil => rfl
  | @other log n rivals _ hn ih =>
    rw [ih]
    by_cases hwho : n.who = i
    · have hquiet : isLoss n.exchange = false := by simpa [hwho] using hn
      rw [countOf_append_self _ hwho, hquiet]
      rfl
    · rw [countOf_append_of_ne _ hwho]
  | @lost old since get put loss rivals _ hget hsince _ _ hloss ih =>
    have hread : countOf isLoss i (old ++ [get]) = countOf isLoss i old := by
      rw [countOf_append_self _ hget.1, isLoss_of_isGet hget.2]
      rfl
    have hold : countOf isLoss i (old ++ get :: since) = countOf isLoss i old := by
      rw [List.append_cons, countOf_append, hread, countOf_of_others _ hsince]
      rfl
    rw [List.length_append, ih, countOf_append_self _ hloss.1, hold, if_pos hloss.2]
    rfl

def Event.isTurnOf (i : ι) : Event ι → Bool
  | start _ => false
  | turn j _ => j = i

def turnsOf (i : ι) (es : List (Event ι)) : Nat := es.countP (·.isTurnOf i)

theorem turnsOf_start (i j : ι) (es : List (Event ι)) :
    turnsOf i (es ++ [.start j]) = turnsOf i es := by
  simp [turnsOf, Event.isTurnOf]

theorem turnsOf_turn_self (i : ι) (stimulus : Stimulus) (es : List (Event ι)) :
    turnsOf i (es ++ [.turn i stimulus]) = turnsOf i es + 1 := by
  simp [turnsOf, Event.isTurnOf]

theorem turnsOf_turn_of_ne {i j : ι} (h : j ≠ i) (stimulus : Stimulus) (es : List (Event ι)) :
    turnsOf i (es ++ [.turn j stimulus]) = turnsOf i es := by
  simp [turnsOf, Event.isTurnOf, h]

end

end Crew

def Memory.DecodesAt (m : Memory) (table id : String) : Prop :=
  ∀ item, m.item? table id = some item → ∃ e, Entry.ofItem item = .ok e

namespace SaveOrder

open Crew (Note BeatenBy countOf turnsOf)

variable {ι γ : Type} {table id : String} {options : γ → TableOptions} {calls : ι → SaveCall γ}

abbrev Saving : Type := Bounded Unit (Update.Phase LedgerFault Unit) (Except LedgerFault Unit)

/-- A turn of a save of `id`, when what is stored can be read and nothing disturbs it. -/
inductive Round (m : Memory) (table id : String) :
    Saving → Option Exchange → Memory → Saving → Prop where
  | read {limit : Span} {n : Nat} {item : Item} : Round m table id (.active () limit (.reading n))
      (some ⟨.getItem table id, .ok (m.item? table id)⟩) m
      (.active () limit (.writing n (m.item? table id) item ()))
  | wrote {limit : Span} {n : Nat} {read : Option Item} {item : Item} {m' : Memory}
      (hputs : m.Puts table id (Draft.written ⟨read, item⟩) m') :
      Round m table id (.active () limit (.writing n read item ()))
        (some (Draft.put ⟨read, item⟩ table)) m' (.ended (.ok ()))
  | beaten {limit : Span} {n : Nat} {read : Option Item} {item : Item}
      (hchanged : m.item? table id ≠ read) :
      Round m table id (.active () limit (.writing n read item ()))
        (some ⟨.putItem table (Draft.written ⟨read, item⟩) (some (.unchanged read)), .error .unmet⟩)
        m (.active () limit (.pausing (n + 1)))
  | resumed {limit : Span} {n : Nat} : Round m table id (.active () limit (.pausing n)) none m
      (.active () limit (.reading n))

theorem exists_write (l : Ledger) (e : Entry) (t : Moment) {read : Option Item}
    (h : ∀ item, read = some item → ∃ stored, Entry.ofItem item = .ok stored) :
    ∃ item, (l.saving e).decide t read = .write item () := by
  cases read with
  | none => exact ⟨_, rfl⟩
  | some item =>
    obtain ⟨stored, hstored⟩ := h item rfl
    refine ⟨(Entry.merge (some stored) e).toItem, ?_⟩
    simp only [Ledger.saving, hstored]

section

variable {i : ι} {t : Moment} {m : Memory} {k : Lifecycle} {p : Saving} {stimulus : Stimulus}
  {r : Turned Lifecycle Saving}

theorem round_of_turn? (hm : m.HasTable table Entry.schema)
    (hdecodes : m.DecodesAt table (calls i).entry.changeId)
    (hkey : ∀ d, p.draft? = some d →
      Entry.schema.keyOf d.written = .ok (calls i).entry.changeId)
    (hcalm : stimulus.isCalm = true)
    (h : ((savers table options calls).operation i).machine.turn? t m k p stimulus = some r) :
    r.cell = k ∧
      Round m table (calls i).entry.changeId p r.exchange r.memory r.state := by
  obtain ⟨note, limit, inner, state, rfl, hcalmly, hturn, hcell, hstate⟩ :=
    Bounded.calm_exchange (u := update table options (calls i)) hm hcalm h
  cases inner with
  | reading n =>
    obtain ⟨hmem, hnext⟩ := hcalmly.of_reading
    obtain ⟨item, hdecide⟩ := exists_write ⟨table, options (calls i).repository⟩ (calls i).entry t
      hdecodes
    have hphase : state = .writing n (m.item? table (calls i).entry.changeId) item () := by
      rw [hnext]
      exact Update.afterRead_write hdecide n
    rw [hphase] at hcell hstate hturn
    obtain hx | ⟨fault, hfault⟩ := hturn.of_reading
    · refine ⟨hcell, ?_⟩
      rw [hx, hmem, hstate]
      exact .read
    · cases hfault
  | writing n read item answer =>
    rcases hcalmly.of_writing (hkey ⟨read, item⟩ rfl) with
      ⟨-, hputs, hnext⟩ | ⟨hchanged, hmem, hnext⟩
    · rw [hnext] at hcell hstate hturn
      obtain ⟨hx, -⟩ | ⟨fault, -, hfault⟩ := hturn.of_writing
      · refine ⟨hcell, ?_⟩
        rw [hx, hstate]
        exact .wrote hputs
      · cases fault <;> cases hfault
    · rw [hnext] at hcell hstate hturn
      obtain ⟨-, hdone⟩ | ⟨fault, hx, hfault⟩ := hturn.of_writing
      · cases hdone
      · have hunmet : fault = .unmet := by
          cases fault <;> first | rfl | cases hfault
        refine ⟨hcell, ?_⟩
        rw [hx, hmem, hstate, hunmet]
        refine .beaten fun heq => ?_
        rw [← heq] at hchanged
        cases hchanged.symm.trans (Condition.unchanged_self _)
  | pausing n =>
    obtain ⟨hmem, hnext⟩ := hcalmly.of_pausing
    rw [hnext] at hcell hstate hturn
    refine ⟨hcell, ?_⟩
    rw [hmem, hstate]
    generalize r.exchange = x at hturn ⊢
    cases hturn
    exact .resumed
  | done answer => cases hcalmly

end

/-! ## Where a save stands -/

variable [DecidableEq ι]

/-- How often `i` has read, has tried to put, and has come too late. -/
structure Score (i : ι) (log : List (Note ι)) (gets tries losses : Nat) : Prop where
  gets : countOf isGet i log = gets
  tries : countOf isTry i log = tries
  losses : countOf isLoss i log = losses

/-- Since `i` has read `read`, the record has stayed so, or another save has put. -/
def HasRead (i : ι) (log : List (Note ι)) (record read : Option Item) : Prop :=
  ∃ old get since, log = old ++ get :: since ∧ (get.who = i ∧ isGet get.exchange = true) ∧
    (∀ n ∈ since, n.who ≠ i) ∧ (∃ rivals, BeatenBy i old rivals) ∧
    (record = read ∨ ∃ n ∈ since, isPut n.exchange = true)

/-- What a save has done by the time it stands somewhere, if it was `admitted` when it began. -/
def Stands (admitted : Prop) (i : ι) (turns : Nat) (log : List (Note ι)) (record : Option Item) :
    Option Saving → Prop
  | none => turns = 0 ∧ Score i log 0 0 0
  | some (.active _ _ (.reading n)) => admitted ∧ turns = 3 * n ∧ Score i log n n n
  | some (.active _ _ (.writing n read _ _)) =>
    admitted ∧ turns = 3 * n + 1 ∧ Score i log (n + 1) n n ∧ HasRead i log record read
  | some (.active _ _ (.pausing n)) => admitted ∧ turns + 1 = 3 * n ∧ Score i log n n n
  | some (.active _ _ (.done _)) => False
  | some (.ended (.ok ())) => ∃ n, turns = 3 * n + 2 ∧ Score i log (n + 1) (n + 1) n
  | some (.ended (.error _)) => ¬admitted ∧ turns = 0 ∧ Score i log 0 0 0

section

variable {i : ι} {log : List (Note ι)} {n : Note ι} {gets tries losses turns : Nat}
  {record record' read : Option Item} {admitted : Prop} {p p' : Option Saving}

theorem Score.others (h : Score i log gets tries losses) (hn : n.who ≠ i) :
    Score i (log ++ [n]) gets tries losses where
  gets := (Crew.countOf_append_of_ne _ hn _).trans h.gets
  tries := (Crew.countOf_append_of_ne _ hn _).trans h.tries
  losses := (Crew.countOf_append_of_ne _ hn _).trans h.losses

theorem Score.own (h : Score i log gets tries losses) (hn : n.who = i) :
    Score i (log ++ [n]) (gets + if isGet n.exchange = true then 1 else 0)
      (tries + if isTry n.exchange = true then 1 else 0)
      (losses + if isLoss n.exchange = true then 1 else 0) where
  gets := by rw [Crew.countOf_append_self _ hn, h.gets]
  tries := by rw [Crew.countOf_append_self _ hn, h.tries]
  losses := by rw [Crew.countOf_append_self _ hn, h.losses]

omit [DecidableEq ι] in
theorem HasRead.others (h : HasRead i log record read) (hn : n.who ≠ i)
    (hrecord : record' = record ∨ isPut n.exchange = true) :
    HasRead i (log ++ [n]) record' read := by
  obtain ⟨old, get, since, rfl, hget, hsince, hbeaten, hstays⟩ := h
  refine ⟨old, get, since ++ [n], ?_, hget, fun m hm => ?_, hbeaten, ?_⟩
  · rw [List.append_assoc, List.cons_append]
  · rcases List.mem_append.mp hm with hm | hm
    · exact hsince m hm
    · rw [List.mem_singleton.mp hm]
      exact hn
  · rcases hrecord with rfl | hput
    · refine hstays.imp_right ?_
      rintro ⟨w, hw, hput⟩
      exact ⟨w, List.mem_append_left _ hw, hput⟩
    · exact .inr ⟨n, by simp, hput⟩

/-- What another save does leaves a save where it stands. -/
theorem Stands.others (h : Stands admitted i turns log record p) (hn : n.who ≠ i)
    (hrecord : record' = record ∨ isPut n.exchange = true) :
    Stands admitted i turns (log ++ [n]) record' p := by
  match p, h with
  | none, ⟨hturns, hscore⟩ => exact ⟨hturns, hscore.others hn⟩
  | some (.active _ _ (.reading _)), ⟨hadmitted, hturns, hscore⟩ =>
    exact ⟨hadmitted, hturns, hscore.others hn⟩
  | some (.active _ _ (.writing _ _ _ _)), ⟨hadmitted, hturns, hscore, hread⟩ =>
    exact ⟨hadmitted, hturns, hscore.others hn, hread.others hn hrecord⟩
  | some (.active _ _ (.pausing _)), ⟨hadmitted, hturns, hscore⟩ =>
    exact ⟨hadmitted, hturns, hscore.others hn⟩
  | some (.ended (.ok ())), ⟨k, hturns, hscore⟩ => exact ⟨k, hturns, hscore.others hn⟩
  | some (.ended (.error _)), ⟨hadmitted, hturns, hscore⟩ =>
    exact ⟨hadmitted, hturns, hscore.others hn⟩

end

/-- How far the saves have come when the events `es` have happened. -/
structure Racing (id : String) (cells : γ → Lifecycle) (es : List (Crew.Event ι))
    (s : (savers table options calls).State) : Prop where
  hasTable : s.memory.HasTable table Entry.schema
  decodes : s.memory.DecodesAt table id
  lifecycles : s.cells = cells
  stands : ∀ i, Stands (cells (calls i).repository = .ready ∧ id ≠ "") i (turnsOf i es) s.log
    (s.memory.item? table id) (s.phase i)
  beaten : ∀ i, ∃ rivals, BeatenBy i s.log rivals

variable {flow : Moment → Moment → Prop} {s : (savers table options calls).State} {i : ι}

omit [DecidableEq ι] in
theorem start_cases (table : String) (options : γ → TableOptions) (calls : ι → SaveCall γ) (i : ι)
    (t : Moment) (k : Lifecycle) :
    (((savers table options calls).operation i).start t k).1 = k ∧
      (((k = .ready ∧ (calls i).entry.changeId ≠ "") ∧
          ∃ limit, (((savers table options calls).operation i).start t k).2 =
            .active () limit (.reading 0)) ∨
        (¬(k = .ready ∧ (calls i).entry.changeId ≠ "") ∧
          ∃ fault, (((savers table options calls).operation i).start t k).2 =
            .ended (.error fault))) := by
  by_cases hready : k = .ready
  · by_cases hid : (calls i).entry.changeId = ""
    · simp [savers, Ledger.save, hready, hid]
    · simp [savers, Ledger.save, Ledger.guarded, hready, hid]
  · simp [savers, Ledger.save, Ledger.guarded, hready]

theorem keyOf_written {d : Draft} (h : (drafting table options calls).Sound flow s i d)
    (hid : (calls i).entry.changeId ≠ "") :
    Entry.schema.keyOf d.written = .ok (calls i).entry.changeId := by
  obtain ⟨t, -, hpermits⟩ := h.decided
  obtain ⟨stored, hitem, hchange⟩ := Ledger.changeId_of_permits hpermits h.addressed
  rw [Draft.written, KeySchema.keyOf_withRevision Entry.partitionKey_ne, hitem, ← hchange]
  exact Entry.keyOf_toItem (hchange.trans_ne hid)

theorem decodes_written {d : Draft} (h : (drafting table options calls).Sound flow s i d) :
    ∃ e, Entry.ofItem d.written = .ok e := by
  obtain ⟨t, -, hpermits⟩ := h.decided
  obtain ⟨stored, -, hitem⟩ := Ledger.permits_saving hpermits
  exact ⟨_, ofItem_written hitem⟩

section

variable {turns : Nat} {admitted : Prop} {m m' : Memory} {p p' : Saving} {x : Option Exchange}

/-- A turn of its own takes a save on, and if it comes too late somebody has put meanwhile. -/
theorem Stands.round (h : Stands admitted i turns s.log (m.item? table id) (some p))
    (hbeaten : ∃ rivals, BeatenBy i s.log rivals) (hr : Round m table id p x m' p') :
    Stands admitted i (turns + 1) (s.note i x) (m'.item? table id) (some p') ∧
      ∃ rivals, BeatenBy i (s.note i x) rivals := by
  obtain ⟨rivals, hrivals⟩ := hbeaten
  cases hr with
  | @read limit n item =>
    obtain ⟨hadmitted, hturns, hscore⟩ := h
    refine ⟨⟨hadmitted, by omega, hscore.own rfl, ?_⟩, rivals, hrivals.other (by simp [isLoss])⟩
    exact ⟨s.log, _, [], rfl, ⟨rfl, rfl⟩, fun n hn => absurd hn List.not_mem_nil, ⟨rivals, hrivals⟩,
      .inl rfl⟩
  | @wrote limit n read item m' hputs =>
    obtain ⟨-, hturns, hscore, -⟩ := h
    refine ⟨⟨n, by omega, hscore.own rfl⟩, rivals, hrivals.other ?_⟩
    simp [Draft.put, isLoss]
  | @beaten limit n read item hchanged =>
    obtain ⟨hadmitted, hturns, hscore, old, get, since, hlog, hget, hsince, ⟨before, hbefore⟩,
      hstays⟩ := h
    -- on the record as it was read the condition holds, so somebody has put since
    obtain ⟨put, hmem, hput⟩ := hstays.resolve_left hchanged
    refine ⟨⟨hadmitted, by omega, hscore.own rfl⟩, before ++ [put.who], ?_⟩
    rw [Crew.State.note, hlog]
    exact hbefore.lost hget hsince hmem hput ⟨rfl, rfl⟩
  | @resumed limit n =>
    obtain ⟨hadmitted, hturns, hscore⟩ := h
    exact ⟨⟨hadmitted, by omega, hscore⟩, rivals, hrivals⟩

end

theorem Round.record {m m' : Memory} {p p' : Saving} {x : Option Exchange}
    (h : Round m table id p x m' p') :
    m'.item? table id = m.item? table id ∨ ∃ y, x = some y ∧ isPut y = true := by
  cases h with
  | read => exact .inl rfl
  | wrote hputs => exact .inr ⟨_, rfl, rfl⟩
  | beaten hchanged => exact .inl rfl
  | resumed => exact .inl rfl

theorem Round.decodesAt {m m' : Memory} {p p' : Saving} {x : Option Exchange}
    (h : Round m table id p x m' p') (hm : m.DecodesAt table id)
    (hwritten : ∀ d, p.draft? = some d → ∃ e, Entry.ofItem d.written = .ok e) :
    m'.DecodesAt table id := by
  cases h with
  | read => exact hm
  | @wrote limit n read item m' hputs =>
    intro stored hstored
    rw [hputs.self] at hstored
    exact Option.some.inj hstored ▸ hwritten ⟨read, item⟩ rfl
  | beaten hchanged => exact hm
  | resumed => exact hm

theorem Stands.admitted {turns : Nat} {admitted : Prop} {log : List (Note ι)} {p : Saving}
    {record : Option Item} {d : Draft} (h : Stands admitted i turns log record (some p))
    (hd : p.draft? = some d) : admitted := by
  match p, h with
  | .active _ _ (.writing _ _ _ _), ⟨hadmitted, _⟩ => exact hadmitted
  | .active _ _ (.reading _), ⟨hadmitted, _⟩ => exact hadmitted
  | .active _ _ (.pausing _), ⟨hadmitted, _⟩ => exact hadmitted
  | .ended _, _ => cases hd

theorem Stands.rival {turns : Nat} {admitted : Prop} {record record' : Option Item}
    {p : Option Saving} {x : Option Exchange} {j : ι} (h : Stands admitted j turns s.log record p)
    (hij : i ≠ j) (hrecord : record' = record ∨ ∃ y, x = some y ∧ isPut y = true) :
    Stands admitted j turns (s.note i x) record' p := by
  cases x with
  | none =>
    obtain rfl | ⟨y, hy, -⟩ := hrecord
    · exact h
    · cases hy
  | some y =>
    refine h.others hij (hrecord.imp_right ?_)
    rintro ⟨y', hy, hput⟩
    cases hy
    exact hput

variable [DecidableEq γ] {cells : γ → Lifecycle} {es : List (Crew.Event ι)}

theorem Racing.start (h : Racing id cells es s) (hid : (calls i).entry.changeId = id)
    (hp : s.phase i = none) :
    Racing id cells (es ++ [.start i])
      (s.settle i (((savers table options calls).operation i).start s.clock (s.cellOf i)).1
        (((savers table options calls).operation i).start s.clock (s.cellOf i)).2) := by
  obtain ⟨hcell, hbegun⟩ := start_cases table options calls i s.clock (s.cellOf i)
  have hready : s.cellOf i = cells (calls i).repository := congrFun h.lifecycles _
  rw [hready, hid] at hbegun
  refine ⟨h.hasTable, h.decodes, ?_, fun j => ?_, h.beaten⟩
  · change Function.update s.cells _ _ = cells
    rw [hcell, Crew.State.cellOf, Function.update_eq_self]
    exact h.lifecycles
  · have hstands := h.stands j
    rw [Crew.turnsOf_start]
    by_cases hji : j = i
    · subst hji
      rw [hp] at hstands
      rw [Crew.State.settle_phase_self]
      obtain ⟨hturns, hscore⟩ := hstands
      obtain ⟨hadmitted, limit, hphase⟩ | ⟨hrefused, fault, hphase⟩ := hbegun
      · rw [hready, hphase]
        exact ⟨hadmitted, by omega, hscore⟩
      · rw [hready, hphase]
        exact ⟨hrefused, hturns, hscore⟩
    · rw [Crew.State.settle_phase_of_ne s hji]
      exact hstands

theorem Racing.turn (h : Racing id cells es s)
    (hc : (drafting table options calls).Coherent flow s) (hid : (calls i).entry.changeId = id)
    {p : Saving} {stimulus : Stimulus} {r : Turned Lifecycle Saving} (hp : s.phase i = some p)
    (hcalm : stimulus.isCalm = true)
    (hr : ((savers table options calls).operation i).machine.turn? s.clock s.memory (s.cellOf i) p
      stimulus = some r) :
    Racing id cells (es ++ [.turn i stimulus]) (s.after i r) := by
  have hstands := h.stands i
  rw [hp] at hstands
  have hkey : ∀ d, p.draft? = some d →
      Entry.schema.keyOf d.written = .ok (calls i).entry.changeId := by
    intro d hd
    refine keyOf_written (hc.sound i p d hp hd) ?_
    rw [hid]
    exact (hstands.admitted hd).2
  have hwritten : ∀ d, p.draft? = some d → ∃ e, Entry.ofItem d.written = .ok e :=
    fun d hd => decodes_written (hc.sound i p d hp hd)
  obtain ⟨hcell, hround⟩ := round_of_turn? h.hasTable (hid ▸ h.decodes) hkey hcalm hr
  rw [hid] at hround
  refine ⟨(Machine.turn_keeps hr table).hasTable h.hasTable,
    hround.decodesAt h.decodes hwritten, ?_, fun j => ?_, fun j => ?_⟩
  · change Function.update s.cells _ _ = cells
    rw [hcell, Crew.State.cellOf, Function.update_eq_self]
    exact h.lifecycles
  · by_cases hji : j = i
    · subst hji
      rw [Crew.State.after_phase_self, Crew.turnsOf_turn_self]
      exact (hstands.round (h.beaten j) hround).1
    · rw [Crew.State.after_phase_of_ne s hji, Crew.turnsOf_turn_of_ne (Ne.symm hji)]
      exact (h.stands j).rival (Ne.symm hji) hround.record
  · by_cases hji : j = i
    · subst hji
      exact (hstands.round (h.beaten j) hround).2
    · obtain ⟨rivals, hrivals⟩ := h.beaten j
      refine ⟨rivals, ?_⟩
      change BeatenBy j (s.note i r.exchange) rivals
      cases r.exchange with
      | none => exact hrivals
      | some y => exact hrivals.other fun hown => hji hown.1.symm

variable {m₀ : Memory} {t₀ : Moment}

omit [DecidableEq γ] in
theorem Racing.initial (hm : m₀.HasTable table Entry.schema) (hdecodes : m₀.DecodesAt table id) :
    Racing id cells [] ((savers table options calls).initial m₀ t₀ cells) where
  hasTable := hm
  decodes := hdecodes
  lifecycles := rfl
  stands _ := ⟨rfl, rfl, rfl, rfl⟩
  beaten _ := ⟨[], .nil⟩

theorem Racing.run (hm : m₀.HasTable table Entry.schema) (hdecodes : m₀.DecodesAt table id)
    (hid : ∀ i, (calls i).entry.changeId = id) (hcalm : ∀ e ∈ es, e.isCalm = true)
    (h : Crew.Trace flow ((savers table options calls).initial m₀ t₀ cells) es s) :
    Racing id cells es s := by
  have hcoherent := (drafting table options calls).coherent_initial flow hm.keyedBy t₀ cells
  induction h with
  | refl => exact .initial hm hdecodes
  | pass _ _ ih =>
    obtain ⟨htable, hdec, hcells, hstands, hbeaten⟩ := ih hcalm
    exact ⟨htable, hdec, hcells, hstands, hbeaten⟩
  | @act es s s' e h hact ih =>
    have hracing := ih fun e' he' => hcalm e' (List.mem_append_left _ he')
    have he : e.isCalm = true := hcalm e (by simp)
    cases e with
    | start i =>
      obtain ⟨hp, rfl⟩ := Crew.State.start_inv hact
      exact hracing.start (hid i) hp
    | turn i stimulus =>
      obtain ⟨p, r, hp, hr, rfl⟩ := Crew.State.turn_inv hact
      exact hracing.turn (hcoherent.run obeys h.reachable) (hid i) hp he hr

/-! ## How a save gets on -/

end SaveOrder

end MigrationLedger
