import MigrationLedger.Proofs.Chronicle
import MigrationLedger.Proofs.ConditionalWrite
import MigrationLedger.Proofs.Provisioning

/-! The lifecycle of a ledger that many operations share. What it says is what the latest of the
operations has found that learned something about the table. -/

namespace MigrationLedger

namespace Bounded

variable {κ ν σ α : Type} {mc : Machine κ σ α} {finish : ν → κ → α → κ × α} {late : α}

theorem answer?_ended (a : α) : (machine mc finish late).answer? (.ended a) = some a := rfl

theorem answer?_active (note : ν) (limit : Span) (s : σ) :
    (machine mc finish late).answer? (.active note limit s) = mc.answer? s := by
  cases h : mc.next s <;> simp [Machine.answer?, machine, h]

theorem settle_of_none {s : σ} (h : mc.answer? s = none) (note : ν) (limit : Span) (k : κ) :
    settle mc finish note limit (k, s) = (k, .active note limit s) := by
  cases hnext : mc.next s with
  | done a => simp [Machine.answer?, hnext] at h
  | _ => simp [settle, hnext]

theorem settle_of_some {s : σ} {a : α} (h : mc.answer? s = some a) (note : ν) (limit : Span)
    (k : κ) :
    settle mc finish note limit (k, s) = ((finish note k a).1, .ended (finish note k a).2) := by
  cases hnext : mc.next s with
  | done b =>
    obtain rfl : b = a := by simpa [Machine.answer?, hnext] using h
    simp [settle, hnext]
  | _ => simp [Machine.answer?, hnext] at h

/-- A turn under a time limit: the inner machine goes on, or it ends, or it is given up. -/
theorem turn_inv {t : Moment} {m : Memory} {k : κ} {p : Bounded ν σ α} {stimulus : Stimulus}
    {r : Turned κ (Bounded ν σ α)}
    (h : (machine mc finish late).turn? t m k p stimulus = some r) :
    ∃ note limit inner, p = .active note limit inner ∧
      ((∃ q, mc.turn? t m k inner stimulus = some q ∧ r.exchange = q.exchange ∧
          r.memory = q.memory ∧
          (mc.answer? q.state = none ∧ r.cell = q.cell ∧ r.state = .active note limit q.state ∨
            ∃ a, mc.answer? q.state = some a ∧ r.cell = (finish note q.cell a).1 ∧
              r.state = .ended (finish note q.cell a).2)) ∨
        r.exchange = none ∧ r.memory = m ∧ r.cell = (finish note k late).1 ∧
          r.state = .ended (finish note k late).2) := by
  obtain ⟨note, limit, inner, rfl, ⟨q, hq, hin⟩ | hlate⟩ := turn_cases h
  · refine ⟨note, limit, inner, rfl, .inl ⟨q, hq, hin.exchange, hin.memory, ?_⟩⟩
    have hcell := hin.cell
    have hstate := hin.state
    cases ha : mc.answer? q.state with
    | none =>
      rw [settle_of_none ha] at hcell hstate
      exact .inl ⟨rfl, hcell, hstate⟩
    | some a =>
      rw [settle_of_some ha] at hcell hstate
      exact .inr ⟨a, rfl, hcell, hstate⟩
  · exact ⟨note, limit, inner, rfl, .inr hlate⟩

end Bounded

/-! ## Data operations -/

def isMissing : Exchange → Bool
  | ⟨_, .error (.missingTable _)⟩ => true
  | _ => false

def isGone {α : Type} : Except LedgerFault α → Bool
  | .error (.notInitialized _) => true
  | _ => false

theorem isGone_ofStore {α : Type} (c : Call) (fault : StoreFault) :
    isGone (.error (.ofStore fault) : Except LedgerFault α) = isMissing ⟨c, .error fault⟩ := by
  cases fault <;> rfl

theorem observe_eq {α : Type} (k : Lifecycle) (answer : Except LedgerFault α) :
    Ledger.observe k answer = if isGone answer = true then .uninitialized else k := by
  rcases answer with fault | a
  · cases fault <;> rfl
  · rfl

theorem isGone_ofItem {α : Type} {item : Item} {fault : LedgerFault}
    (h : Entry.ofItem item = .error fault) :
    isGone (.error fault : Except LedgerFault α) = false := by
  rw [Entry.ofItem] at h
  cases hdecode : Entry.decode item.withoutRevision with
  | error flaw =>
    rw [hdecode] at h
    cases h
    rfl
  | ok e =>
    rw [hdecode] at h
    cases h

/-- A machine that lets the lifecycle alone, and ends with the news that the table is gone exactly
when the store has said so. -/
structure Reports {σ α : Type} (mc : Machine Lifecycle σ (Except LedgerFault α)) : Prop where
  turn (t : Moment) (m : Memory) (k : Lifecycle) (s : σ) (stimulus : Stimulus)
    (q : Turned Lifecycle σ) (h : mc.turn? t m k s stimulus = some q) :
    q.cell = k ∧ q.exchange.any isMissing = (mc.answer? q.state).any isGone

theorem Ledger.saving_reports (l : Ledger) (e : Entry) : Reports (l.saving e).machine := by
  constructor
  intro t m k s stimulus q h
  obtain ⟨hcell, hturn⟩ := Update.turn_of_turn? h
  refine ⟨hcell, ?_⟩
  generalize q.exchange = x, q.memory = m', q.state = s' at hturn
  cases hturn with
  | read =>
    rw [Update.afterRead]
    cases hd : (l.saving e).decide t (m.item? (l.saving e).table (l.saving e).key) with
    | write item answer => rfl
    | stop answer =>
      simp only [saving] at hd
      split at hd
      · cases hd
      · split at hd
        · next fault hfault =>
          cases hd
          exact (isGone_ofItem hfault).symm
        · cases hd
  | unread fault => exact (isGone_ofStore _ fault).symm
  | wrote hkey hunchanged hputs => rfl
  | unwritten fault => cases fault <;> rfl
  | resumed => rfl

theorem Listing.isGone_collect {α : Type} {entries : List Entry} {items : List Item}
    {fault : LedgerFault} (h : collect entries items = .error fault) :
    isGone (.error fault : Except LedgerFault α) = false := by
  induction items generalizing entries with
  | nil => cases h
  | cons item items ih =>
    cases hitem : Entry.ofItem item with
    | error flaw =>
      rw [collect, hitem] at h
      cases h
      exact isGone_ofItem hitem
    | ok e =>
      rw [collect, hitem] at h
      by_cases hknown : entries.any (·.changeId = e.changeId)
      · exact ih (by simpa [bind, Except.bind, hknown] using h)
      · exact ih (by simpa [bind, Except.bind, hknown] using h)

theorem Listing.answer?_afterPage (entries : List Entry) (table : String)
    (cursor : Option String) (limit : Nat) (x : Except StoreFault Page) :
    isMissing ⟨.scan table cursor limit, x⟩ =
      ((machine (κ := Lifecycle) ⟨table, limit⟩).answer? (afterPage entries x)).any isGone := by
  cases x with
  | error fault => exact (isGone_ofStore _ fault).symm
  | ok page =>
    rw [afterPage]
    cases hcollect : collect entries page.items with
    | error fault => exact (isGone_collect hcollect).symm
    | ok entries => cases page.next <;> rfl

theorem Listing.reports (l : Listing) : Reports (machine (κ := Lifecycle) l) := by
  constructor
  intro t m k s stimulus q h
  cases s with
  | reading cursor entries =>
    cases stimulus with
    | reply =>
      cases h
      exact ⟨rfl, answer?_afterPage entries l.table cursor l.pageSize _⟩
    | refuse fault =>
      cases h
      exact ⟨rfl, answer?_afterPage entries l.table cursor l.pageSize (.error fault)⟩
    | wake => cases h
    | expire => cases h
  | done answer => cases stimulus <;> cases h

theorem isGone_entryOfAnswer (table key : String) (x : Except StoreFault (Option Item)) :
    isMissing ⟨.getItem table key, x⟩ = isGone (Ledger.entryOfAnswer x) := by
  rcases x with fault | _ | item
  · exact (isGone_ofStore _ fault).symm
  · rfl
  · rw [Ledger.entryOfAnswer]
    cases hitem : Entry.ofItem item with
    | error fault => exact (isGone_ofItem hitem).symm
    | ok e => rfl

theorem inquiry_reports (table key : String) :
    Reports (inquiry (κ := Lifecycle) (.getItem table key) Ledger.entryOfAnswer) := by
  constructor
  intro t m k s stimulus q h
  cases s with
  | none =>
    cases stimulus with
    | reply =>
      cases h
      exact ⟨rfl, isGone_entryOfAnswer table key _⟩
    | refuse fault =>
      cases h
      exact ⟨rfl, isGone_entryOfAnswer table key (.error fault)⟩
    | wake => cases h
    | expire => cases h
  | some answer => cases stimulus <;> cases h

/-! ## What becomes of the lifecycle -/

/-- What the end of an operation says about the table, if it says anything: that it is there, or
that it is not. -/
def verdict {α : Type} (prepares : Bool) (x : Option Exchange) (answer : Except LedgerFault α) :
    Option Bool :=
  if prepares then
    match answer with
    | .ok _ => some true
    | .error (.creationRefused _) | .error (.notInitialized _) => some false
    | .error _ => none
  else if x.any isMissing then some false
  else none

/-- How the lifecycle may change in one turn, and what is said of the table then. -/
inductive Shift : Lifecycle → Lifecycle → List Bool → Prop where
  | same (k : Lifecycle) : Shift k k []
  | begun : Shift .uninitialized .initializing []
  | reset : Shift .initializing .uninitialized []
  | found (k : Lifecycle) : Shift k .ready [true]
  | lost (k : Lifecycle) : Shift k .uninitialized [false]

theorem Shift.ready_iff {k k' : Lifecycle} {said more : List Bool} (h : Shift k k' more)
    (hk : k = .ready ↔ said.getLast? = some true) :
    k' = .ready ↔ (said ++ more).getLast? = some true := by
  cases h with
  | same => simpa using hk
  | begun => simpa using hk
  | reset => simpa using hk
  | found => simp
  | lost => simp

theorem shift_prepare (wasReady : Bool) (k : Lifecycle) (answer : Except LedgerFault Unit)
    (x : Option Exchange) :
    Shift k (Ledger.settleLifecycle wasReady k answer) (verdict true x answer).toList := by
  have hother : Shift k (if !wasReady && k = .initializing then .uninitialized else k) [] := by
    split
    · next hreset =>
      rw [Bool.and_eq_true, decide_eq_true_eq] at hreset
      rw [hreset.2]
      exact .reset
    · exact .same k
  rcases answer with fault | _
  · cases fault with
    | creationRefused table => exact .lost k
    | notInitialized table => exact .lost k
    | _ => exact hother
  · exact .found k

theorem initializing_prepare {wasReady : Bool} {k : Lifecycle} {answer : Except LedgerFault Unit}
    (h : Ledger.settleLifecycle wasReady k answer = .initializing) :
    k = .initializing ∧ wasReady = true := by
  have hother : (if !wasReady && k = .initializing then .uninitialized else k) = .initializing →
      k = .initializing ∧ wasReady = true := by
    intro hk
    split at hk
    · cases hk
    · next hkept =>
      subst hk
      simpa using hkept
  rcases answer with fault | _
  · cases fault with
    | creationRefused table => cases h
    | notInitialized table => cases h
    | _ => exact hother h
  · cases h

theorem ready_prepare {wasReady : Bool} {k : Lifecycle} {answer : Except LedgerFault Unit}
    (h : Ledger.settleLifecycle wasReady k answer = .ready) : k = .ready ∨ answer = .ok () := by
  have hother : (if !wasReady && k = .initializing then .uninitialized else k) = .ready →
      k = .ready := by
    intro hk
    split at hk
    · cases hk
    · exact hk
  rcases answer with fault | _
  · cases fault with
    | creationRefused table => cases h
    | notInitialized table => cases h
    | _ => exact .inl (hother h)
  · exact .inr rfl

theorem guarded_turn {σ α : Type} {mc : Machine Lifecycle σ (Except LedgerFault α)}
    (hmc : Reports mc) {late : Except LedgerFault α} (hlate : isGone late = false) {t : Moment}
    {m : Memory} {k : Lifecycle} {p : Bounded Unit σ (Except LedgerFault α)} {stimulus : Stimulus}
    {r : Turned Lifecycle (Bounded Unit σ (Except LedgerFault α))}
    (h : (Bounded.machine mc (fun _ k a => (Ledger.observe k a, a)) late).turn? t m k p stimulus =
      some r) :
    Shift k r.cell (((Bounded.machine mc (fun _ k a => (Ledger.observe k a, a)) late).answer?
        r.state).toList.filterMap (verdict false r.exchange)) ∧
      (r.cell = k ∨ r.cell = .uninitialized) := by
  obtain ⟨note, limit, inner, rfl, hturn | ⟨hx, -, hcell, hstate⟩⟩ := Bounded.turn_inv h
  · obtain ⟨q, hq, hx, -, ⟨hgoes, hcell, hstate⟩ | ⟨a, ha, hcell, hstate⟩⟩ := hturn
    · obtain ⟨hk, -⟩ := hmc.turn _ _ _ _ _ _ hq
      rw [hstate, Bounded.answer?_active, hgoes, hcell, hk]
      exact ⟨.same k, .inl rfl⟩
    · obtain ⟨hk, hmissing⟩ := hmc.turn _ _ _ _ _ _ hq
      -- the answer and the exchange agree on whether the table is missing
      rw [ha, Option.any_some, ← hx] at hmissing
      rw [hstate, Bounded.answer?_ended, hcell, hk, observe_eq, ← hmissing]
      by_cases hgone : r.exchange.any isMissing = true
      · have hsaid : (some a).toList.filterMap (verdict false r.exchange) = [false] := by
          simp [verdict, hgone]
        rw [if_pos hgone, hsaid]
        exact ⟨.lost k, .inr rfl⟩
      · have hsaid : (some a).toList.filterMap (verdict false r.exchange) = [] := by
          simp [verdict, hgone]
        rw [if_neg hgone, hsaid]
        exact ⟨.same k, .inl rfl⟩
  · rw [hstate, Bounded.answer?_ended, hcell, observe_eq, hlate, hx]
    exact ⟨.same k, .inl rfl⟩

/-! ## The operations of a ledger -/

inductive LedgerCall where
  | prepare (allowCreate : Bool) (after : Span)
  | save (e : Entry) (after : Span)
  | list (after : Span)
  | find (changeId : String)

namespace LedgerCall

abbrev Note : LedgerCall → Type
  | prepare .. => Bool
  | _ => Unit

abbrev Inner : LedgerCall → Type
  | prepare .. => Provision.Phase
  | save .. => Update.Phase LedgerFault Unit
  | list _ => Listing.Phase
  | find _ => Option (Except LedgerFault (Option Entry))

abbrev Reply : LedgerCall → Type
  | prepare .. => Unit
  | save .. => Unit
  | list _ => List Entry
  | find _ => Option Entry

abbrev Phase (call : LedgerCall) : Type :=
  Bounded call.Note call.Inner (Except LedgerFault call.Reply)

def operation (l : Ledger) :
    (call : LedgerCall) → Operation Lifecycle call.Phase (Except LedgerFault call.Reply)
  | prepare allowCreate after => l.prepare allowCreate after
  | save e after => l.save e after
  | list after => l.list after
  | find changeId => l.find changeId

def prepares : LedgerCall → Bool
  | prepare .. => true
  | _ => false

/-- In a preparation that found the ledger not ready when it began. -/
def opening : (call : LedgerCall) → call.Phase → Bool
  | prepare .., .active wasReady _ _ => !wasReady
  | _, _ => false

theorem opening_inv {call : LedgerCall} {p : call.Phase} (h : call.opening p = true) :
    call.prepares = true ∧ ∃ note limit inner, p = .active note limit inner := by
  cases call with
  | prepare allowCreate after =>
    cases p with
    | active wasReady limit inner => exact ⟨rfl, wasReady, limit, inner, rfl⟩
    | ended answer => cases h
  | _ => cases h

/-- What the ledger is told when `call` reaches the phase `p`. -/
def said (l : Ledger) (call : LedgerCall) (x : Option Exchange) (p : call.Phase) : List Bool :=
  ((call.operation l).machine.answer? p).toList.filterMap (verdict call.prepares x)

/-- What a start or a turn of `call` does to the lifecycle. -/
structure Advance (l : Ledger) (call : LedgerCall) (before : Option call.Phase) (k : Lifecycle)
    (x : Option Exchange) (k' : Lifecycle) (p : call.Phase) : Prop where
  shift : Shift k k' (call.said l x p)
  opened : k' = .initializing → call.opening p = true ∨
    k = .initializing ∧ ∀ q, before = some q → call.opening q = false

variable {l : Ledger} {call : LedgerCall} {t : Moment} {m : Memory} {k : Lifecycle}
  {stimulus : Stimulus}

theorem advance_of_data {before : Option call.Phase} {x : Option Exchange} {k' : Lifecycle}
    {p : call.Phase} (hdata : call.prepares = false) (hshift : Shift k k' (call.said l x p))
    (hk : k' = k ∨ k' = .uninitialized) : call.Advance l before k x k' p := by
  refine ⟨hshift, fun hinit => .inr ⟨?_, fun q _ => ?_⟩⟩
  · rcases hk with hk | hk
    · exact hk.symm.trans hinit
    · cases hk.symm.trans hinit
  · cases call with
    | prepare allowCreate after => cases hdata
    | _ => rfl

/-- A data operation that finds the ledger not ready is over at once. -/
theorem start_of_data (hdata : call.prepares = false) (l : Ledger) (t : Moment) (k : Lifecycle) :
    ((call.operation l).start t k).1 = k ∧
      (k ≠ .ready → ((call.operation l).start t k).2 = .ended (.error (.notInitialized l.table))) ∧
      call.said l none ((call.operation l).start t k).2 = [] := by
  cases call with
  | prepare allowCreate after => cases hdata
  | save e after =>
    simp only [operation, Ledger.save, Ledger.guarded]
    split
    · next h => exact ⟨rfl, fun hk => absurd h.1 hk, rfl⟩
    · split
      · next h => exact ⟨rfl, fun hk => absurd h hk, rfl⟩
      · exact ⟨rfl, fun _ => rfl, rfl⟩
  | list after =>
    simp only [operation, Ledger.list, Ledger.guarded]
    split
    · next h => exact ⟨rfl, fun hk => absurd h hk, rfl⟩
    · exact ⟨rfl, fun _ => rfl, rfl⟩
  | find changeId =>
    simp only [operation, Ledger.find, Ledger.guarded]
    split
    · next h => exact ⟨rfl, fun hk => absurd h hk, rfl⟩
    · exact ⟨rfl, fun _ => rfl, rfl⟩

theorem advance_start (l : Ledger) (call : LedgerCall) (t : Moment) (k : Lifecycle) :
    call.Advance l none k none ((call.operation l).start t k).1
      ((call.operation l).start t k).2 := by
  by_cases hdata : call.prepares = false
  · obtain ⟨hk, -, hsaid⟩ := start_of_data hdata l t k
    rw [hk]
    exact advance_of_data hdata (hsaid ▸ .same k) (.inl rfl)
  · cases call with
    | prepare allowCreate after =>
      cases k with
      | uninitialized => exact ⟨.begun, fun _ => .inl rfl⟩
      | initializing => exact ⟨.same _, fun _ => .inl rfl⟩
      | ready => exact ⟨.same _, nofun⟩
    | _ => exact absurd rfl hdata

theorem said_ended (l : Ledger) (allowCreate : Bool) (after : Span) (x : Option Exchange)
    (answer : Except LedgerFault Unit) :
    (prepare allowCreate after).said l x (.ended answer) = (verdict true x answer).toList := by
  have hanswer : ((prepare allowCreate after).operation l).machine.answer? (.ended answer) =
      some answer := rfl
  rw [said, hanswer]
  cases hv : verdict true x answer <;> simp [prepares, hv]

theorem advance_settle (l : Ledger) (allowCreate : Bool) (after : Span) (wasReady : Bool)
    (limit : Span) (inner : Provision.Phase) (k : Lifecycle) (x : Option Exchange)
    (answer : Except LedgerFault Unit) :
    (prepare allowCreate after).Advance l (some (.active wasReady limit inner)) k x
      (Ledger.settleLifecycle wasReady k answer) (.ended answer) := by
  refine ⟨?_, fun hinit => .inr ?_⟩
  · rw [said_ended]
    exact shift_prepare wasReady k answer x
  · obtain ⟨hk, rfl⟩ := initializing_prepare hinit
    refine ⟨hk, fun q hq => ?_⟩
    cases hq
    rfl

theorem advance_turn {p : call.Phase} {r : Turned Lifecycle call.Phase}
    (h : (call.operation l).machine.turn? t m k p stimulus = some r) :
    call.Advance l (some p) k r.exchange r.cell r.state := by
  cases call with
  | prepare allowCreate after =>
    obtain ⟨wasReady, limit, inner, rfl, hturn | ⟨-, -, hcell, hstate⟩⟩ := Bounded.turn_inv h
    · obtain ⟨q, hq, -, -, hend⟩ := hturn
      have hk := Provision.turn_cell hq
      obtain ⟨hgoes, hcell, hstate⟩ | ⟨a, -, hcell, hstate⟩ := hend
      · rw [hcell, hstate, hk]
        have hsaid : (prepare allowCreate after).said l r.exchange
            (.active wasReady limit q.state) = [] := by
          have hanswer : ((prepare allowCreate after).operation l).machine.answer?
              (.active wasReady limit q.state) = none :=
            (Bounded.answer?_active wasReady limit q.state).trans hgoes
          rw [said, hanswer]
          rfl
        refine ⟨hsaid ▸ .same k, fun hinit => ?_⟩
        cases wasReady with
        | false => exact .inl rfl
        | true => exact .inr ⟨hinit, fun p hp => by cases hp; rfl⟩
      · rw [hcell, hstate, hk]
        exact advance_settle ..
    · rw [hcell, hstate]
      exact advance_settle l allowCreate after wasReady limit inner k r.exchange
        ((l.provision allowCreate).late after)
  | save e after =>
    obtain ⟨hshift, hk⟩ := guarded_turn (l.saving_reports e) rfl h
    exact advance_of_data rfl hshift hk
  | list after =>
    obtain ⟨hshift, hk⟩ := guarded_turn (Listing.reports _) rfl h
    exact advance_of_data rfl hshift hk
  | find changeId =>
    obtain ⟨hshift, hk⟩ := guarded_turn (inquiry_reports _ _) rfl h
    exact advance_of_data rfl hshift hk

/-- What a preparation under way has found out about the table. -/
def Grounded (l : Ledger) (m : Memory) : (call : LedgerCall) → call.Phase → Prop
  | prepare allowCreate _, .active _ _ inner => (l.provision allowCreate).Grounded m inner
  | _, _ => True

theorem Grounded.keeps {m' : Memory} (hm : Memory.Keeps l.table m m') {p : call.Phase}
    (h : call.Grounded l m p) : call.Grounded l m' p := by
  cases call with
  | prepare allowCreate after =>
    cases p with
    | active wasReady limit inner => exact Provision.Grounded.keeps h hm
    | ended answer => trivial
  | _ => trivial

theorem grounded_start (l : Ledger) (call : LedgerCall) (t : Moment) (k : Lifecycle)
    (m : Memory) : call.Grounded l m ((call.operation l).start t k).2 := by
  cases call with
  | prepare allowCreate after => exact ⟨nofun, nofun⟩
  | _ => trivial

theorem ready_of_start (l : Ledger) (call : LedgerCall) (t : Moment) (k : Lifecycle)
    (h : ((call.operation l).start t k).1 = .ready) : k = .ready := by
  by_cases hdata : call.prepares = false
  · rw [(start_of_data hdata l t k).1] at h
    exact h
  · cases call with
    | prepare allowCreate after => cases k <;> first | rfl | cases h
    | _ => exact absurd rfl hdata

theorem ready_of_data {k' : Lifecycle} (h : k' = k ∨ k' = .uninitialized) (hready : k' = .ready) :
    k = .ready := by
  rcases h with h | h
  · exact h.symm.trans hready
  · cases h.symm.trans hready

/-- The lifecycle becomes ready only when the table has just been found to be there. -/
theorem grounded_turn {p : call.Phase} {r : Turned Lifecycle call.Phase}
    (hp : call.Grounded l m p)
    (h : (call.operation l).machine.turn? t m k p stimulus = some r) :
    call.Grounded l r.memory r.state ∧
      (r.cell = .ready → k = .ready ∨ r.memory.HasActiveTable l.table Entry.schema) := by
  cases call with
  | prepare allowCreate after =>
    obtain ⟨wasReady, limit, inner, rfl, hturn | ⟨-, hm, hcell, hstate⟩⟩ := Bounded.turn_inv h
    · obtain ⟨q, hq, -, hm, hend⟩ := hturn
      have hk := Provision.turn_cell hq
      have hq' := Provision.grounded_turn hp hq
      obtain ⟨-, hcell, hstate⟩ | ⟨a, ha, hcell, hstate⟩ := hend
      · rw [hcell, hstate, hm, hk]
        exact ⟨hq', .inl⟩
      · rw [hcell, hstate, hm, hk]
        refine ⟨trivial, fun hready => ?_⟩
        rcases ready_prepare hready with hready | rfl
        · exact .inl hready
        · exact .inr (hq'.ready (Provision.done_of_answer? ha))
    · rw [hcell, hstate]
      refine ⟨trivial, fun hready => ?_⟩
      have hready' : Ledger.settleLifecycle wasReady k ((l.provision allowCreate).late after) =
          .ready := hready
      rcases ready_prepare hready' with hready | hanswer
      · exact .inl hready
      · cases hanswer
  | save e after =>
    obtain ⟨-, hk⟩ := guarded_turn (l.saving_reports e) rfl h
    exact ⟨trivial, fun hready => .inl (ready_of_data hk hready)⟩
  | list after =>
    obtain ⟨-, hk⟩ := guarded_turn (Listing.reports _) rfl h
    exact ⟨trivial, fun hready => .inl (ready_of_data hk hready)⟩
  | find changeId =>
    obtain ⟨-, hk⟩ := guarded_turn (inquiry_reports _ _) rfl h
    exact ⟨trivial, fun hready => .inl (ready_of_data hk hready)⟩

theorem turn_active {p : call.Phase} {r : Turned Lifecycle call.Phase}
    (h : (call.operation l).machine.turn? t m k p stimulus = some r) :
    ∃ note limit inner, p = .active note limit inner := by
  cases call <;> exact (Bounded.turn_inv h).imp fun _ h => h.imp fun _ h => h.imp fun _ h => h.1

end LedgerCall

abbrev usersOf {ι : Type} (l : Ledger) (calls : ι → LedgerCall) : Crew ι Unit Lifecycle where
  object _ := ()
  Phase i := (calls i).Phase
  Outcome i := Except LedgerFault (calls i).Reply
  operation i := (calls i).operation l

namespace Readiness

variable {ι : Type} {l : Ledger} {calls : ι → LedgerCall}

def sayings (cs : List (usersOf l calls).Completion) : List Bool :=
  cs.filterMap fun c => verdict (calls c.who).prepares c.exchange c.answer

def latest (cs : List (usersOf l calls).Completion) : Option Bool := (sayings cs).getLast?

theorem sayings_append (cs : List (usersOf l calls).Completion) (i : ι) (x : Option Exchange)
    (p : (calls i).Phase) :
    sayings (cs ++ (usersOf l calls).ended i x p) = sayings cs ++ (calls i).said l x p := by
  rw [sayings, List.filterMap_append, Crew.ended, List.filterMap_map]
  rfl

/-- A preparation that has begun and not ended. -/
def Preparing (s : (usersOf l calls).State) (i : ι) : Prop :=
  (calls i).prepares = true ∧ ∃ note limit inner, s.phase i = some (.active note limit inner)

structure Tracked (cs : List (usersOf l calls).Completion) (s : (usersOf l calls).State) :
    Prop where
  ready : s.cells () = .ready ↔ latest cs = some true
  opened : s.cells () = .initializing →
    ∃ i p, s.phase i = some p ∧ (calls i).opening p = true
  known : ∀ n ∈ s.log, s.phase n.who ≠ none

variable {cs : List (usersOf l calls).Completion} {s : (usersOf l calls).State}

theorem mem_note {n : Crew.Note ι} {i : ι} {x : Option Exchange} (h : n ∈ s.note i x) :
    n ∈ s.log ∨ n.who = i := by
  cases x with
  | none => exact .inl h
  | some x =>
    rcases List.mem_append.mp h with h | h
    · exact .inl h
    · rw [List.mem_singleton.mp h]
      exact .inr rfl

structure Backed (s : (usersOf l calls).State) : Prop where
  grounded : ∀ i p, s.phase i = some p → (calls i).Grounded l s.memory p
  ready : s.cells () = .ready → s.memory.HasActiveTable l.table Entry.schema

theorem Backed.keeps (h : Backed s) {m : Memory} (hm : Memory.Keeps l.table s.memory m) :
    Backed { s with memory := m } :=
  ⟨fun i p hp => (h.grounded i p hp).keeps hm, fun hready => hm.hasActiveTable (h.ready hready)⟩

variable [DecidableEq ι]

theorem Tracked.advance (h : Tracked cs s) {i : ι} {x : Option Exchange} {k : Lifecycle}
    {p : (calls i).Phase} (ha : (calls i).Advance l (s.phase i) (s.cells ()) x k p) :
    Tracked (cs ++ (usersOf l calls).ended i x p) (s.settle i k p) := by
  have hcell : (s.settle i k p).cells () = k := by
    rw [Crew.State.settle_cells, if_pos rfl]
  refine ⟨?_, fun hinit => ?_, fun n hn => ?_⟩
  · rw [hcell, latest, sayings_append]
    exact ha.shift.ready_iff h.ready
  · rw [hcell] at hinit
    rcases ha.opened hinit with hopening | ⟨hk, hbefore⟩
    · exact ⟨i, p, Crew.State.settle_phase_self .., hopening⟩
    · obtain ⟨j, q, hq, hopening⟩ := h.opened hk
      -- `i` does not leave the lifecycle in preparation when it was the one that had begun it
      have hji : j ≠ i := by
        rintro rfl
        rw [hbefore q hq] at hopening
        cases hopening
      exact ⟨j, q, (Crew.State.settle_phase_of_ne s hji k p).trans hq, hopening⟩
  · by_cases hni : n.who = i
    · rw [hni, Crew.State.settle_phase_self]
      exact Option.some_ne_none p
    · rw [Crew.State.settle_phase_of_ne s hni]
      exact h.known n hn

theorem Tracked.turn (h : Tracked cs s) {i : ι} {p : (calls i).Phase} {stimulus : Stimulus}
    {r : Turned Lifecycle (calls i).Phase} (hp : s.phase i = some p)
    (hr : ((calls i).operation l).machine.turn? s.clock s.memory (s.cellOf i) p stimulus = some r) :
    Tracked (cs ++ (usersOf l calls).ended i r.exchange r.state) (s.after i r) := by
  have ha := LedgerCall.advance_turn hr
  rw [← hp] at ha
  have hnoted : Tracked cs { s with memory := r.memory, log := s.note i r.exchange } := by
    refine ⟨h.ready, h.opened, fun n hn => ?_⟩
    rcases mem_note hn with hn | hn
    · exact h.known n hn
    · rw [hn, hp]
      exact Option.some_ne_none p
  exact hnoted.advance ha

/-- What others may do while a ledger is in use: as `others` says to the store, nothing to the
lifecycle. -/
def Beside (others : Memory → Memory → Prop) (m : Memory) (cells : Unit → Lifecycle) (m' : Memory)
    (cells' : Unit → Lifecycle) : Prop :=
  others m m' ∧ cells' = cells

variable {flow : Moment → Moment → Prop} {others : Memory → Memory → Prop}
  {s₀ : (usersOf l calls).State}

theorem Tracked.run (h : Tracked [] s₀) (hs : Crew.Chronicle flow (Beside others) s₀ cs s) :
    Tracked cs s := by
  refine hs.invariant (P := Tracked) h ?_ ?_ ?_ ?_
  · intro cs s t h _
    exact ⟨h.ready, h.opened, h.known⟩
  · rintro cs s m cells h ⟨-, rfl⟩
    exact ⟨h.ready, h.opened, h.known⟩
  · intro cs s i h hp
    have ha := (calls i).advance_start l s.clock (s.cellOf i)
    rw [← hp] at ha
    exact h.advance ha
  · intro cs s i p stimulus r h hp hr
    exact h.turn hp hr

theorem Backed.settle (h : Backed s) {i : ι} {k : Lifecycle} {p : (calls i).Phase}
    (hp : (calls i).Grounded l s.memory p)
    (hk : k = .ready → s.cells () = .ready ∨ s.memory.HasActiveTable l.table Entry.schema) :
    Backed (s.settle i k p) := by
  refine ⟨Crew.State.forall_phase_settle h.grounded hp k, fun hready => ?_⟩
  rw [Crew.State.settle_cells, if_pos rfl] at hready
  rcases hk hready with hready | hactive
  · exact h.ready hready
  · exact hactive

theorem Backed.run (h : Backed s₀) (hothers : ∀ m m', others m m' → Memory.Keeps l.table m m')
    (hs : Crew.Chronicle flow (Beside others) s₀ cs s) : Backed s := by
  refine hs.invariant (P := fun _ s => Backed s) h ?_ ?_ ?_ ?_
  · intro cs s t h _
    exact ⟨h.grounded, h.ready⟩
  · rintro cs s m cells h ⟨hm, rfl⟩
    exact h.keeps (hothers _ _ hm)
  · intro cs s i h _
    exact h.settle (LedgerCall.grounded_start ..) fun hready =>
      .inl (LedgerCall.ready_of_start _ _ _ _ hready)
  · intro cs s i p stimulus r h hp hr
    have hkept : Backed { s with memory := r.memory, log := s.note i r.exchange } :=
      ⟨(h.keeps (Machine.turn_keeps hr l.table)).grounded,
        (h.keeps (Machine.turn_keeps hr l.table)).ready⟩
    obtain ⟨hgrounded, hready⟩ := LedgerCall.grounded_turn (h.grounded i p hp) hr
    exact hkept.settle hgrounded hready

/-! ## Operations that were refused -/

/-- The operation is over and has asked the store for nothing. -/
structure Refused (s : (usersOf l calls).State) (i : ι) : Prop where
  phase : s.phase i = some (.ended (.error (.notInitialized l.table)))
  silent : ∀ n ∈ s.log, n.who ≠ i

theorem Refused.run {i : ι} (h : Refused s₀ i)
    (hs : Crew.Chronicle flow (Beside others) s₀ cs s) : Refused s i := by
  refine hs.invariant (P := fun _ s => Refused s i) h ?_ ?_ ?_ ?_
  · intro cs s t h _
    exact ⟨h.phase, h.silent⟩
  · intro cs s m cells h _
    exact ⟨h.phase, h.silent⟩
  · intro cs s j h hj
    have hij : i ≠ j := by
      rintro rfl
      cases hj.symm.trans h.phase
    exact ⟨(Crew.State.settle_phase_of_ne s hij _ _).trans h.phase, h.silent⟩
  · intro cs s j p stimulus r h hp hr
    have hij : i ≠ j := by
      rintro rfl
      cases hp.symm.trans h.phase
      obtain ⟨note, limit, inner, he⟩ := LedgerCall.turn_active hr
      cases he
    refine ⟨(Crew.State.after_phase_of_ne s hij r).trans h.phase, fun n hn => ?_⟩
    rcases mem_note hn with hn | hn
    · exact h.silent n hn
    · rw [hn]
      exact Ne.symm hij

theorem Tracked.refused (h : Tracked cs s) {i : ι} (hp : s.phase i = none)
    (hdata : (calls i).prepares = false) (hk : s.cells () ≠ .ready) :
    let begun := ((calls i).operation l).start s.clock (s.cellOf i)
    (s.settle i begun.1 begun.2).cells = s.cells ∧ Refused (s.settle i begun.1 begun.2) i := by
  obtain ⟨hcell, hended, -⟩ := LedgerCall.start_of_data hdata l s.clock (s.cellOf i)
  refine ⟨funext fun _ => ?_, ?_, fun n hn hni => ?_⟩
  · rw [Crew.State.settle_cells, if_pos rfl, hcell]
    rfl
  · rw [Crew.State.settle_phase_self, hended hk]
  · rw [← hni] at hp
    exact h.known n hn hp

/-! ## The lifecycle and the table -/

structure Sound (flow : Moment → Moment → Prop) (others : Memory → Memory → Prop)
    (cs : List (usersOf l calls).Completion) (s : (usersOf l calls).State) : Prop where
  ready : s.cells () = .ready ↔ latest cs = some true
  initializing : s.cells () = .initializing → ∃ i, Preparing s i
  refused : ∀ i s', (calls i).prepares = false → s.cells () ≠ .ready →
    s.act? (.start i) = some s' → s'.cells = s.cells ∧ s'.memory = s.memory ∧
      ∀ cs' s'', Crew.Chronicle flow (Beside others) s' cs' s'' → Refused s'' i
  backed : (∀ m m', others m m' → Memory.Keeps l.table m m') → s.cells () = .ready →
    s.memory.HasActiveTable l.table Entry.schema

theorem lifecycle_sound (l : Ledger) (calls : ι → LedgerCall) (m₀ : Memory) (t₀ : Moment)
    {cs : List (usersOf l calls).Completion} {s : (usersOf l calls).State}
    (hs : Crew.Chronicle flow (Beside others)
      ((usersOf l calls).initial m₀ t₀ fun _ => .uninitialized) cs s) :
    Sound flow others cs s := by
  have hinitial : Tracked [] ((usersOf l calls).initial m₀ t₀ fun _ => .uninitialized) :=
    ⟨⟨nofun, nofun⟩, nofun, nofun⟩
  have htracked := hinitial.run hs
  refine ⟨htracked.ready, fun hinit => ?_, fun i s' hdata hk hact => ?_, fun hothers hready => ?_⟩
  · obtain ⟨i, p, hp, hopening⟩ := htracked.opened hinit
    obtain ⟨hprepares, note, limit, inner, rfl⟩ := LedgerCall.opening_inv hopening
    exact ⟨i, hprepares, note, limit, inner, hp⟩
  · obtain ⟨hp, rfl⟩ := Crew.State.start_inv hact
    obtain ⟨hcells, hrefused⟩ := htracked.refused hp hdata hk
    exact ⟨hcells, rfl, fun cs' s'' hs' => hrefused.run hs'⟩
  · have hbacked : Backed ((usersOf l calls).initial m₀ t₀ fun _ => .uninitialized) :=
      ⟨nofun, nofun⟩
    exact (hbacked.run hothers hs).ready hready

/-- Two prepare the ledger at the same time, of which one must not create the table; then come two
searches and one more preparation. -/
def relayCalls : Fin 5 → LedgerCall
  | 0 => .prepare false (.ofSeconds 30)
  | 1 => .prepare true (.ofSeconds 30)
  | 2 => .find "create-users"
  | 3 => .find "create-users"
  | 4 => .prepare true (.ofSeconds 30)

/-- The first search is told that there is no table, so the second is refused. -/
def relayScript : Crew.Script (Fin 5) :=
  [(default, .start 0), (default, .start 1), (default, .turn 0 .reply), (default, .turn 1 .reply),
    (default, .turn 1 .reply), (default, .turn 1 .reply), (default, .start 2),
    (default, .turn 2 (.refuse (.missingTable "changes"))), (default, .start 3),
    (default, .start 4), (default, .turn 4 .reply)]

def relayStart : (usersOf ⟨"changes", {}⟩ relayCalls).State :=
  (usersOf ⟨"changes", {}⟩ relayCalls).initial {} default fun _ => .uninitialized

theorem lifecycle_sound_of_relay :
    ∃ cs s, relayStart.play? (fun _ _ => True) relayScript = some s ∧
      Sound (fun _ _ => True) (Memory.Keeps "changes") cs s ∧ latest cs = some true ∧
      s.memory.HasActiveTable "changes" Entry.schema := by
  have hrun : (relayStart.play? (fun _ _ => True) relayScript).map (fun s => s.cells ()) =
      some .ready := by decide +kernel
  obtain ⟨s, hs, hready⟩ := Option.map_eq_some_iff.mp hrun
  have hstart : Crew.Chronicle (fun _ _ => True) (Beside (Memory.Keeps "changes")) relayStart []
      relayStart := .refl
  obtain ⟨cs, hchronicle⟩ := hstart.of_play hs
  have hsound := lifecycle_sound ⟨"changes", {}⟩ relayCalls {} default hchronicle
  exact ⟨cs, s, hs, hsound, hsound.ready.mp hready, hsound.backed (fun _ _ h => h) hready⟩

end Readiness

end MigrationLedger
