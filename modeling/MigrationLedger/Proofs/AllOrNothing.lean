import MigrationLedger.Proofs.Chronicle
import MigrationLedger.Proofs.LeaseOverwrite
import MigrationLedger.Proofs.SaveOrder

/-! What the answer of a call says of its writes. Whatever others do to the store meanwhile, and
wherever a failure or the time limit strikes, a call that answers that it has written has put one
item, under its own key, and any other call has put nothing. -/

namespace MigrationLedger

namespace Update

variable {ε α : Type}

/-- How an update stands to the records of its table: it writes under its own key, and `wrote` tells
from its answer whether it has written. -/
structure Writes (u : Update ε α) (schema : KeySchema) (wrote : α → Bool) : Prop where
  keyed : schema.partitionKey ≠ revisionAttribute
  stop (t : Moment) (read : Option Item) (a : α) (h : u.decide t read = .stop (.ok a)) :
    wrote a = false
  write (t : Moment) (read : Option Item) (item : Item) (a : α)
    (h : u.decide t read = .write item a) : wrote a = true
  addressed (t : Moment) (d : Draft) (h : u.Permits t d)
    (hread : ∀ item, d.read = some item → schema.keyOf item = .ok u.key) (k : String)
    (hk : schema.keyOf d.item = .ok k) : k = u.key

/-- What is about to be written goes under `key`, and will be answered as written. -/
def Phase.Pledged (schema : KeySchema) (key : String) (wrote : α → Bool) : Phase ε α → Prop
  | writing _ _ item answer => wrote answer = true ∧ ∀ k, schema.keyOf item = .ok k → k = key
  | _ => True

end Update

/-- What a turn does to the store, and what the call answers then, if it ends: the turn puts nothing
and nothing is answered as written, or it puts one item under `key`, and that is the answer. -/
inductive Deed {ε α : Type} (table key : String) (schema : KeySchema) (wrote : α → Bool)
    (m : Memory) (x : Option Exchange) (m' : Memory) (answer : Option (Except ε α)) : Prop where
  | idle (hx : x.any isPut = false) (hm : m' = m)
      (hanswer : ∀ a, answer = some (.ok a) → wrote a = false)
  | put (item : Item) (condition : Condition) (a : α)
      (hx : x = some ⟨.putItem table item (some condition), .ok ()⟩)
      (hkey : schema.keyOf item = .ok key) (hputs : m.Puts table key item m')
      (hanswer : answer = some (.ok a)) (hwrote : wrote a = true)

namespace Update

variable {ε α : Type} {u : Update ε α} {schema : KeySchema} {wrote : α → Bool} {t : Moment}
  {m m' : Memory} {p p' : Phase ε α} {x : Option Exchange}

def Phase.answer? : Phase ε α → Option (Except ε α)
  | done answer => some answer
  | _ => none

theorem Writes.pledged (hu : u.Writes schema wrote) (hm : m.KeyedBy u.table schema)
    (hp : p.Pledged schema u.key wrote) (h : u.Turn t m p x m' p') :
    p'.Pledged schema u.key wrote := by
  cases h with
  | read =>
    cases hd : u.decide t (m.item? u.table u.key) with
    | stop answer =>
      rw [afterRead, hd]
      trivial
    | write item answer =>
      rw [afterRead, hd]
      exact ⟨hu.write _ _ _ _ hd, hu.addressed t ⟨m.item? u.table u.key, item⟩ ⟨answer, hd⟩
        fun _ hitem => Memory.keyOf_item? hm hitem⟩
  | unread fault => trivial
  | wrote hkey hunchanged hputs => trivial
  | unwritten fault => cases fault <;> trivial
  | resumed => trivial

theorem Writes.deed (hu : u.Writes schema wrote) (hm : m.KeyedBy u.table schema)
    (hp : p.Pledged schema u.key wrote) (h : u.Turn t m p x m' p') :
    Deed u.table u.key schema wrote m x m' p'.answer? := by
  cases h with
  | read =>
    refine .idle rfl rfl fun a ha => ?_
    cases hd : u.decide t (m.item? u.table u.key) with
    | stop answer =>
      rw [afterRead, hd] at ha
      obtain rfl : answer = .ok a := Option.some.inj ha
      exact hu.stop _ _ _ hd
    | write item answer =>
      rw [afterRead, hd] at ha
      cases ha
  | unread fault =>
    refine .idle rfl rfl fun a ha => ?_
    cases ha
  | @wrote n d answer k m' hkey hunchanged hputs =>
    have hk := hkey schema hm
    have hitem := hk
    rw [Draft.written, KeySchema.keyOf_withRevision hu.keyed] at hitem
    obtain rfl : k = u.key := hp.2 k hitem
    exact .put d.written (.unchanged d.read) answer rfl hk hputs rfl hp.1
  | unwritten fault =>
    refine .idle rfl rfl fun a ha => ?_
    cases fault <;> cases ha
  | resumed =>
    refine .idle rfl rfl fun a ha => ?_
    cases ha

end Update

namespace Bounded

variable {κ ν σ ε α : Type}

def Pledged {β : Type} (schema : KeySchema) (key : String) (wrote : α → Bool) :
    Bounded ν (Update.Phase ε α) β → Prop
  | active _ _ inner => inner.Pledged schema key wrote
  | ended _ => True

variable {u : Update ε α} {schema : KeySchema} {wrote : α → Bool}
  {finish : ν → κ → Except ε α → κ × Except ε α} {late : Except ε α} {t : Moment} {m : Memory}
  {k : κ} {p : Bounded ν (Update.Phase ε α) (Except ε α)} {stimulus : Stimulus}
  {r : Turned κ (Bounded ν (Update.Phase ε α) (Except ε α))}

theorem pledged_settle (note : ν) (limit : Span) (k : κ) {state : Update.Phase ε α}
    (h : state.Pledged schema u.key wrote) :
    (settle u.machine finish note limit (k, state)).2.Pledged schema u.key wrote := by
  cases state with
  | done answer => trivial
  | _ => exact h

theorem answer?_settle_update (hfinish : ∀ n k a, (finish n k a).2 = a) (note : ν) (limit : Span)
    (k : κ) (state : Update.Phase ε α) :
    (settle u.machine finish note limit (k, state)).2.answer? = state.answer? := by
  cases state with
  | done answer => exact congrArg some (hfinish note k answer)
  | _ => rfl

/-- At the time limit the update is given up, or its put has come first: then that is its answer. -/
theorem deed (hu : u.Writes schema wrote) (hfinish : ∀ n k a, (finish n k a).2 = a)
    (hlate : ∀ a, late ≠ .ok a) (hm : m.KeyedBy u.table schema)
    (hp : p.Pledged schema u.key wrote)
    (h : (machine u.machine finish late).turn? t m k p stimulus = some r) :
    p.answer? = none ∧ r.state.Pledged schema u.key wrote ∧
      Deed u.table u.key schema wrote m r.exchange r.memory r.state.answer? := by
  obtain ⟨note, limit, inner, rfl, ⟨state, hturn, -, hs⟩ | ⟨hx, hmem, -, hs⟩⟩ := update_turn h
  · rw [hs, answer?_settle_update hfinish]
    exact ⟨rfl, pledged_settle note limit k (hu.pledged hm hp hturn), hu.deed hm hp hturn⟩
  · rw [hs, hfinish]
    refine ⟨rfl, trivial, .idle (by rw [hx]; rfl) hmem fun a ha => ?_⟩
    exact absurd (Option.some.inj ha) (hlate a)

end Bounded

/-! ## The calls that write -/

namespace LockCall

def update (l : LockTable) : (call : LockCall) → Update LeaseFault call.Reply
  | take new => l.leaseUpdate new.key (LockTable.decideTake new)
  | extend new => l.leaseUpdate new.key (LockTable.decideExtend new)
  | giveBack key owner => l.leaseUpdate key (LockTable.decideGiveBack owner)

def wrote : (call : LockCall) → call.Reply → Bool
  | take _, _ | extend _, _ => true
  | giveBack .., gaveBack => gaveBack

end LockCall

namespace LockTable

variable {α : Type} {l : LockTable} {key : String}
  {decide : Instant → Option Lease → Verdict LeaseFault α} {t : Moment} {read : Option Item}

theorem leaseUpdate_cases {verdict : Verdict LeaseFault α}
    (h : (l.leaseUpdate key decide).decide t read = verdict) :
    (∃ fault, verdict = .stop (.error fault)) ∨ ∃ cur, decide t.wall cur = verdict := by
  simp only [leaseUpdate] at h
  split at h
  · exact .inr ⟨none, h⟩
  · split at h
    · next fault _ => exact .inl ⟨fault, h.symm⟩
    · next cur _ => exact .inr ⟨some cur, h⟩

theorem leaseUpdate_writes {wrote : α → Bool} {owner : String}
    (hpermits : ∀ t d, (l.leaseUpdate key decide).Permits t d → LeasePermit key owner t.wall d)
    (hstop : ∀ now cur a, decide now cur = .stop (.ok a) → wrote a = false)
    (hwrite : ∀ now cur item a, decide now cur = .write item a → wrote a = true) :
    (l.leaseUpdate key decide).Writes Lease.schema wrote where
  keyed := Lease.partitionKey_ne
  stop t read a h := by
    rcases leaseUpdate_cases h with ⟨fault, hfault⟩ | ⟨cur, hcur⟩
    · cases hfault
    · exact hstop _ _ _ hcur
  write t read item a h := by
    rcases leaseUpdate_cases h with ⟨fault, hfault⟩ | ⟨cur, hcur⟩
    · cases hfault
    · exact hwrite _ _ _ _ hcur
  addressed t d h hread _ hk := (hpermits t d h).addressed hread hk

theorem writes (l : LockTable) (call : LockCall) :
    (call.update l).Writes Lease.schema call.wrote := by
  cases call with
  | take new =>
    refine leaseUpdate_writes (fun t d h => (permits_take h).2) (fun now cur a h => ?_)
      fun _ _ _ _ _ => rfl
    cases cur with
    | none => cases h
    | some cur =>
      rw [decideTake] at h
      split at h <;> cases h
  | extend new =>
    refine leaseUpdate_writes (fun t d h => (permits_extend h).2) (fun now cur a h => ?_)
      fun _ _ _ _ _ => rfl
    cases cur with
    | none => cases h
    | some cur =>
      rw [decideExtend] at h
      split at h
      · cases h
      · split at h <;> cases h
  | giveBack key owner =>
    refine leaseUpdate_writes (fun t d h => permits_giveBack h) (fun now cur a h => ?_)
      fun now cur item a h => ?_
    · cases cur with
      | none =>
        cases h
        rfl
      | some cur =>
        rw [decideGiveBack] at h
        split at h
        · cases h
        · cases h
          rfl
    · cases cur with
      | none => cases h
      | some cur =>
        rw [decideGiveBack] at h
        split at h
        · cases h
          rfl
        · cases h

end LockTable

theorem Ledger.saving_writes (l : Ledger) (e : Entry) :
    (l.saving e).Writes Entry.schema fun _ => true where
  keyed := Entry.partitionKey_ne
  stop t read a h := absurd h (saving_ne_stop l e t read a)
  write _ _ _ _ _ := rfl
  addressed _ _ h hread _ hk := saving_addressed h hread hk

inductive WriteCall where
  | save (l : Ledger) (e : Entry) (limit : Span)
  | lock (l : LockTable) (call : LockCall)

namespace WriteCall

abbrev Fault : WriteCall → Type
  | save .. => LedgerFault
  | lock .. => LeaseFault

abbrev Reply : WriteCall → Type
  | save .. => Unit
  | lock _ call => call.Reply

abbrev Phase (w : WriteCall) : Type :=
  Bounded Unit (Update.Phase w.Fault w.Reply) (Except w.Fault w.Reply)

def operation : (w : WriteCall) → Operation Lifecycle w.Phase (Except w.Fault w.Reply)
  | save l e limit => l.save e limit
  | lock l call => call.operation l

def table : WriteCall → String
  | save l .. => l.table
  | lock l _ => l.table

def schema : WriteCall → KeySchema
  | save .. => Entry.schema
  | lock .. => Lease.schema

def key : WriteCall → String
  | save _ e _ => e.changeId
  | lock _ call => call.key

def wrote : (w : WriteCall) → w.Reply → Bool
  | save .., _ => true
  | lock _ call, a => call.wrote a

variable {w : WriteCall} {t : Moment} {m : Memory} {k : Lifecycle} {p : w.Phase}
  {stimulus : Stimulus} {r : Turned Lifecycle w.Phase}

theorem start_spec (w : WriteCall) (t : Moment) (k : Lifecycle) :
    (w.operation.start t k).2.Pledged w.schema w.key w.wrote ∧
      ∀ a, (w.operation.start t k).2 ≠ .ended (.ok a) := by
  cases w with
  | save l e limit =>
    simp only [operation, Ledger.save, Ledger.guarded]
    split
    · exact ⟨trivial, fun a h => by cases h⟩
    · split
      · exact ⟨trivial, fun a h => by cases h⟩
      · exact ⟨trivial, fun a h => by cases h⟩
  | lock l call => cases call <;> exact ⟨trivial, fun a h => by cases h⟩

theorem turn_spec (hm : m.KeyedBy w.table w.schema) (hp : p.Pledged w.schema w.key w.wrote)
    (h : w.operation.machine.turn? t m k p stimulus = some r) :
    p.answer? = none ∧ r.state.Pledged w.schema w.key w.wrote ∧
      Deed w.table w.key w.schema w.wrote m r.exchange r.memory r.state.answer? := by
  cases w with
  | save l e limit =>
    exact Bounded.deed (l.saving_writes e) (fun _ _ _ => rfl) (fun _ h => by cases h) hm hp h
  | lock l call =>
    cases call with
    | take new =>
      exact Bounded.deed (l.writes (.take new)) (fun _ _ _ => rfl) (fun _ h => by cases h) hm hp h
    | extend new =>
      exact Bounded.deed (l.writes (.extend new)) (fun _ _ _ => rfl) (fun _ h => by cases h) hm hp h
    | giveBack key owner =>
      exact Bounded.deed (l.writes (.giveBack key owner)) (fun _ _ _ => rfl) (fun _ h => by cases h)
        hm hp h

end WriteCall

/-- Calls that write, each on behalf of a ledger or of nobody in particular. -/
abbrev writing {ι γ : Type} (ledger : ι → γ) (calls : ι → WriteCall) : Crew ι γ Lifecycle where
  object := ledger
  Phase i := (calls i).Phase
  Outcome i := Except (calls i).Fault (calls i).Reply
  operation i := (calls i).operation

namespace AllOrNothing

variable {ι γ : Type} {ledger : ι → γ} {calls : ι → WriteCall}

def Wrote (s : (writing ledger calls).State) (i : ι) : Prop :=
  ∃ a, s.phase i = some (.ended (.ok a)) ∧ (calls i).wrote a = true

instance (s : (writing ledger calls).State) : DecidablePred (Wrote s) := fun i =>
  decidable_of_iff (((s.phase i).bind Bounded.answer?).any
    fun a => a.toOption.any (calls i).wrote) <| by
      rw [Wrote]
      rcases s.phase i with _ | (_ | (_ | a)) <;> simp [Bounded.answer?, Except.toOption]

variable [DecidableEq ι]

def putsOf (i : ι) (log : List (Crew.Note ι)) : List Exchange :=
  ((log.filter (·.who = i)).map (·.exchange)).filter isPut

theorem putsOf_note_of_ne {i j : ι} (h : i ≠ j) (s : (writing ledger calls).State)
    (x : Option Exchange) : putsOf j (s.note i x) = putsOf j s.log := by
  cases x with
  | none => rfl
  | some x => simp [putsOf, Crew.State.note, h]

theorem putsOf_note_self (s : (writing ledger calls).State) (i : ι) (x : Option Exchange) :
    putsOf i (s.note i x) = putsOf i s.log ++ x.toList.filter isPut := by
  cases x with
  | none => simp [Crew.State.note]
  | some x => simp [putsOf, Crew.State.note]

/-- One put, under the key of the call in its own table. -/
def OnePut (w : WriteCall) (puts : List Exchange) : Prop :=
  ∃ item condition, puts = [⟨.putItem w.table item (some condition), .ok ()⟩] ∧
    w.schema.keyOf item = .ok w.key

structure Tally (s : (writing ledger calls).State) : Prop where
  keyed : ∀ i, s.memory.KeyedBy (calls i).table (calls i).schema
  pledged : ∀ i p, s.phase i = some p → p.Pledged (calls i).schema (calls i).key (calls i).wrote
  one : ∀ i, Wrote s i → OnePut (calls i) (putsOf i s.log)
  nothing : ∀ i, ¬Wrote s i → putsOf i s.log = []

variable [DecidableEq γ] {s s' : (writing ledger calls).State}

theorem wrote_settle_of_ne {i j : ι} (h : j ≠ i) (k : Lifecycle) (p : (calls i).Phase) :
    Wrote (s.settle i k p) j ↔ Wrote s j := by
  rw [Wrote, Wrote, Crew.State.settle_phase_of_ne _ h]

theorem wrote_after {i : ι} {r : Turned Lifecycle (calls i).Phase} :
    Wrote (s.after i r) i ↔ ∃ a, r.state.answer? = some (.ok a) ∧ (calls i).wrote a = true := by
  rw [Wrote, Crew.State.after_phase_self]
  cases r.state <;> simp [Bounded.answer?]

theorem Tally.start (h : Tally s) {i : ι} (hp : s.phase i = none) :
    Tally (s.settle i ((calls i).operation.start s.clock (s.cellOf i)).1
      ((calls i).operation.start s.clock (s.cellOf i)).2) := by
  obtain ⟨hpledged, hopen⟩ := (calls i).start_spec s.clock (s.cellOf i)
  have hi : ¬Wrote s i := by
    rintro ⟨a, ha, -⟩
    cases hp.symm.trans ha
  have hi' : ¬Wrote (s.settle i ((calls i).operation.start s.clock (s.cellOf i)).1
      ((calls i).operation.start s.clock (s.cellOf i)).2) i := by
    rintro ⟨a, ha, -⟩
    rw [Crew.State.settle_phase_self] at ha
    exact hopen a (Option.some.inj ha)
  refine ⟨h.keyed, Crew.State.forall_phase_settle h.pledged hpledged _, fun j hj => ?_,
    fun j hj => ?_⟩
  · by_cases hji : j = i
    · subst hji
      exact absurd hj hi'
    · exact h.one j ((wrote_settle_of_ne hji _ _).mp hj)
  · by_cases hji : j = i
    · subst hji
      exact h.nothing j hi
    · exact h.nothing j fun hw => hj ((wrote_settle_of_ne hji _ _).mpr hw)

theorem Tally.turn (h : Tally s) {i : ι} {p : (calls i).Phase} {stimulus : Stimulus}
    {r : Turned Lifecycle (calls i).Phase} (hp : s.phase i = some p)
    (hr : (calls i).operation.machine.turn? s.clock s.memory (s.cellOf i) p stimulus = some r) :
    Tally (s.after i r) := by
  obtain ⟨hopen, hpledged, hdeed⟩ := WriteCall.turn_spec (h.keyed i) (h.pledged i p hp) hr
  -- a call that can still take a turn has not answered, so it has put nothing so far
  have hi : ¬Wrote s i := by
    rintro ⟨a, ha, -⟩
    cases hp.symm.trans ha
    cases hopen
  have hlog : ∀ j, putsOf j (s.after i r).log = putsOf j (s.note i r.exchange) := fun j => rfl
  have hphase : ∀ j, j ≠ i → (Wrote (s.after i r) j ↔ Wrote s j) := by
    intro j hji
    rw [Wrote, Wrote, Crew.State.after_phase_of_ne _ hji]
  refine ⟨fun j => ?_, Crew.State.forall_phase_after h.pledged hpledged, fun j hj => ?_,
    fun j hj => ?_⟩
  · change r.memory.KeyedBy _ _
    cases hdeed with
    | idle hx hm hanswer => exact hm ▸ h.keyed j
    | put item condition a hx hkey hputs hanswer hwrote => exact hputs.keyedBy _ _ (h.keyed j)
  · rw [hlog]
    by_cases hji : j = i
    · subst hji
      obtain ⟨a, ha, hwrote⟩ := wrote_after.mp hj
      cases hdeed with
      | idle hx hm hanswer =>
        rw [hanswer a ha] at hwrote
        cases hwrote
      | put item condition a hx hkey hputs hanswer hwrote =>
        refine ⟨item, condition, ?_, hkey⟩
        rw [putsOf_note_self, h.nothing j hi, hx]
        rfl
    · rw [putsOf_note_of_ne (Ne.symm hji)]
      exact h.one j ((hphase j hji).mp hj)
  · rw [hlog]
    by_cases hji : j = i
    · subst hji
      cases hdeed with
      | idle hx hm hanswer =>
        rw [putsOf_note_self, h.nothing j hi]
        cases hx' : r.exchange with
        | none => rfl
        | some x =>
          rw [hx', Option.any_some] at hx
          simp [hx]
      | put item condition a hx hkey hputs hanswer hwrote =>
        exact absurd (wrote_after.mpr ⟨a, hanswer, hwrote⟩) hj
    · rw [putsOf_note_of_ne (Ne.symm hji)]
      exact h.nothing j fun hw => hj ((hphase j hji).mpr hw)

/-- What others may do to the store and to the lifecycles: anything, if only the tables have their
keys. -/
def Foreign (calls : ι → WriteCall) (_ : Memory) (_ : γ → Lifecycle) (m : Memory)
    (_ : γ → Lifecycle) : Prop :=
  ∀ i, m.KeyedBy (calls i).table (calls i).schema

theorem Tally.run {flow : Moment → Moment → Prop} {cs : List (writing ledger calls).Completion}
    (h : Tally s) (hs : Crew.Chronicle flow (Foreign calls) s cs s') : Tally s' := by
  refine hs.invariant (P := fun _ s => Tally s) h ?_ ?_ ?_ ?_
  · exact fun _ s _ h _ => ⟨h.keyed, h.pledged, h.one, h.nothing⟩
  · exact fun _ s _ _ h hm => ⟨hm, h.pledged, h.one, h.nothing⟩
  · exact fun _ s i h hp => h.start hp
  · exact fun _ s i p _ r h hp hr => h.turn hp hr

/-- The puts of a call are as its answer tells. -/
structure Whole (s : (writing ledger calls).State) (i : ι) : Prop where
  one : Wrote s i → OnePut (calls i) (putsOf i s.log)
  nothing : ¬Wrote s i → putsOf i s.log = []
  /-- The turn that puts is the one that answers, whatever the time limit says by then. -/
  turn : ∀ stimulus s', s.act? (.turn i stimulus) = some s' →
    s'.memory = s.memory ∧ ¬Wrote s' i ∨
      Wrote s' i ∧ ∃ item, (calls i).schema.keyOf item = .ok (calls i).key ∧
        s.memory.Puts (calls i).table (calls i).key item s'.memory

/-- Writing is all or nothing. -/
theorem writes_whole (ledger : ι → γ) (calls : ι → WriteCall) {flow : Moment → Moment → Prop}
    {m₀ : Memory} (hkeyed : ∀ i, m₀.KeyedBy (calls i).table (calls i).schema) (t₀ : Moment)
    (cells : γ → Lifecycle) {cs : List (writing ledger calls).Completion}
    {s : (writing ledger calls).State}
    (hs : Crew.Chronicle flow (Foreign calls) ((writing ledger calls).initial m₀ t₀ cells) cs s)
    (i : ι) : Whole s i := by
  have hinitial : Tally ((writing ledger calls).initial m₀ t₀ cells) := by
    refine ⟨hkeyed, fun j p hp => ?_, fun j hj => ?_, fun j hj => rfl⟩
    · cases hp
    · obtain ⟨a, ha, -⟩ := hj
      cases ha
  have htally := hinitial.run hs
  refine ⟨htally.one i, htally.nothing i, fun stimulus s' hact => ?_⟩
  obtain ⟨p, r, hp, hr, rfl⟩ := Crew.State.turn_inv hact
  obtain ⟨-, -, hdeed⟩ := WriteCall.turn_spec (htally.keyed i) (htally.pledged i p hp) hr
  cases hdeed with
  | idle hx hm hanswer =>
    refine .inl ⟨hm, fun hw => ?_⟩
    obtain ⟨a, ha, hwrote⟩ := wrote_after.mp hw
    rw [hanswer a ha] at hwrote
    cases hwrote
  | put item condition a hx hkey hputs hanswer hwrote =>
    exact .inr ⟨wrote_after.mpr ⟨a, hanswer, hwrote⟩, item, hkey, hputs⟩

/-- A save, and the release of a lock of which there is no table. -/
def mixedCalls : Bool → WriteCall
  | false =>
    .save ⟨"changes", {}⟩
      { changeId := "create-users"
        executionId := "run-1"
        author := "ops"
        changeLogClass := "Users"
        timestamp := ⟨0, 0⟩ } (.ofSeconds 2)
  | true => .lock ⟨"locks", {}⟩ (.giveBack "migrations" "a")

def blank (now : Instant) : Memory := ({} : Memory).createActive "changes" Entry.schema now

theorem keyedBy_blank (now : Instant) (i : Bool) :
    (blank now).KeyedBy (mixedCalls i).table (mixedCalls i).schema := by
  cases i with
  | false =>
    rintro t ⟨⟩
    rfl
  | true => rintro t ⟨⟩

def mixedStart : (writing id mixedCalls).State :=
  (writing id mixedCalls).initial (blank default) (Crew.second 0) fun _ => .ready

def askingScript : Crew.Script Bool :=
  [(Crew.second 0, .start false), (Crew.second 0, .start true), (Crew.second 1, .turn true .reply),
    (Crew.second 1, .turn false .reply)]

/-- Somebody else drops the table and creates it again. -/
def rebuilt (s : (writing id mixedCalls).State) : (writing id mixedCalls).State :=
  { s with memory := blank s.clock.wall }

/-- The put comes at the very end of the time that the save has. -/
def puttingScript : Crew.Script Bool := [(Crew.second 2, .turn false .reply)]

theorem writes_whole_at_limit :
    ∃ s₁ s, mixedStart.play? Moment.Forward askingScript = some s₁ ∧
      (rebuilt s₁).play? Moment.Forward puttingScript = some s ∧
      (Whole s false ∧ Wrote s false) ∧ Whole s true ∧ ¬Wrote s true := by
  have hrun : ((mixedStart.play? Moment.Forward askingScript).bind fun s₁ =>
      (rebuilt s₁).play? Moment.Forward puttingScript).map (fun s =>
        (decide (Wrote s false), decide (Wrote s true))) = some (true, false) := by
    decide +kernel
  obtain ⟨s, hs, hwrote⟩ := Option.map_eq_some_iff.mp hrun
  obtain ⟨s₁, hs₁, hs⟩ := Option.bind_eq_some_iff.mp hs
  have hfirst : Wrote s false := of_decide_eq_true (congrArg (·.1) hwrote)
  have hsecond : ¬Wrote s true := of_decide_eq_false (congrArg (·.2) hwrote)
  have hstart : Crew.Chronicle Moment.Forward (Foreign mixedCalls) mixedStart [] mixedStart :=
    .refl
  obtain ⟨before, hbefore⟩ := hstart.of_play hs₁
  have hrebuilt : Crew.Chronicle Moment.Forward (Foreign mixedCalls) mixedStart before
      (rebuilt s₁) := hbefore.outside (keyedBy_blank _)
  obtain ⟨cs, hchronicle⟩ := hrebuilt.of_play hs
  have hwhole := writes_whole id mixedCalls (keyedBy_blank default) (Crew.second 0)
    (fun _ => .ready) hchronicle
  exact ⟨s₁, s, hs₁, hs, ⟨hwhole false, hfirst⟩, hwhole true, hsecond⟩

end AllOrNothing

end MigrationLedger
