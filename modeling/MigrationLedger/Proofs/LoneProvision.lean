import MigrationLedger.Proofs.Provisioning
import MigrationLedger.Proofs.Solitude

/-! Making sure of a table alone. What is found there, the key that is wanted and the permission to
create decide all: the answer, the calls, how many intervals are slept, and what becomes of the
table. -/

namespace MigrationLedger

namespace StoredTable

/-- How many descriptions are still to report the table in creation. -/
def pollsLeft (u : StoredTable) : Nat :=
  if u.description.status = .creating then u.pendingPolls else 0

theorem describe_of_none_left {u : StoredTable} (h : u.pollsLeft = 0) :
    u.describe.description = { u.description with status := .active } := by
  rw [pollsLeft] at h
  rw [describe]
  split
  · next hpending =>
    -- polls are left that will not report the table in creation: it is active already
    cases hstatus : u.description.status with
    | creating =>
      rw [if_pos hstatus] at h
      omega
    | active =>
      change u.description = _
      rw [← hstatus]
  · rfl

theorem describe_of_some_left {u : StoredTable} {n : Nat} (h : u.pollsLeft = n + 1) :
    u.describe.description = u.description ∧ u.description.status = .creating ∧
      u.describe.pollsLeft = n := by
  have hstatus : u.description.status = .creating := by
    by_contra hactive
    rw [pollsLeft, if_neg hactive] at h
    omega
  rw [pollsLeft, if_pos hstatus] at h
  have hdescribe : u.describe = { u with pendingPolls := u.pendingPolls - 1 } := by
    rw [describe, if_pos (by omega)]
  rw [hdescribe]
  refine ⟨rfl, hstatus, ?_⟩
  rw [pollsLeft, if_pos hstatus]
  exact Nat.sub_eq_of_eq_add h

theorem pollsLeft_create (name : String) (schema : KeySchema) (polls : Nat) (now : Instant) :
    (create name schema polls now).pollsLeft = polls := by
  by_cases hpolls : polls = 0
  · simp [pollsLeft, create, hpolls]
  · simp [pollsLeft, create, hpolls]

end StoredTable

namespace Memory

variable {m : Memory} {table : String}

theorem perform_describeTable_of_absent (h : m.tables.get? table = none) (now : Instant) :
    m.perform now (.describeTable table) = (.ok none, m) := by
  simp only [perform, h]

theorem perform_describeTable_of_table {u : StoredTable} (h : m.tables.get? table = some u)
    (now : Instant) : m.perform now (.describeTable table) =
      (.ok (some u.describe.description), m.setTable table u.describe) := by
  simp only [perform, h]

theorem perform_createTable_of_absent (h : m.tables.get? table = none) (schema : KeySchema)
    (now : Instant) : m.perform now (.createTable table schema) =
      (.ok (), m.setTable table (.create table schema m.activationPolls now)) := by
  simp [perform, Ordered.contains, h]

end Memory

namespace Provision

/-- The rests that `n` poll sleeps come to: a sleep of no length is over when it begins. -/
def sleeps (p : Provision) (n : Nat) : List Span :=
  (List.replicate n p.pollInterval).filter (· ≠ .zero)

abbrev Report : Type := Scene Unit (Except LedgerFault Unit)

/-- The table that was found as `u` has been waited for, `n` intervals long, and is ready. -/
structure Opened (p : Provision) (t : Moment) (m : Memory) (u : StoredTable) (n : Nat)
    (acts : List Act) (w : Report) : Prop where
  answer : w.state = .ok ()
  elapsed : w.clock.elapsed = t.elapsed.add (p.pollInterval.times n)
  rests : Act.rests acts = p.sleeps n
  table : ∃ u', w.memory.tables.get? p.table = some u' ∧
    u'.description = { u.description with status := .active } ∧ u'.items = u.items
  others : ∀ name, name ≠ p.table → w.memory.tables.get? name = m.tables.get? name

variable {p : Provision} {t : Moment} {m : Memory} {u : StoredTable} {n : Nat}
  {acts : List Act} {w : Report} {trusted : Bool}

/-- A description that still reports the table in creation makes no difference to what comes. -/
theorem Opened.described (h : p.Opened t (m.setTable p.table u.describe) u.describe n acts w)
    (hsame : u.describe.description = u.description) (x : Exchange) :
    p.Opened t m u n (.asked x :: acts) w := by
  refine ⟨h.answer, h.elapsed, h.rests, ?_, fun name hname => ?_⟩
  · obtain ⟨u', hu', hdescription, hitems⟩ := h.table
    rw [hsame] at hdescription
    exact ⟨u', hu', hdescription, hitems.trans u.items_describe⟩
  · rw [h.others name hname]
    exact Ordered.get?_insert_of_ne _ hname _

theorem opened_at_once
    (hactive : u.describe.description = { u.description with status := .active }) (x : Exchange) :
    p.Opened t m u 0 [.asked x] ⟨t, m.setTable p.table u.describe, (), .ok ()⟩ where
  answer := rfl
  elapsed := by simp [Span.add, Span.times]
  rests := rfl
  table := ⟨u.describe, Ordered.get?_insert_self .., hactive, u.items_describe⟩
  others name hname := Ordered.get?_insert_of_ne _ hname _

theorem unlimited {κ : Type} {s : Phase} (l : Span)
    (h : (p.machine : Machine κ _ _).limit s = some l) : t.elapsed < l := by
  cases h

/-- To sleep and poll is to poll one interval later. -/
theorem pollAgain_opens
    (h : ∀ t', ∃ acts w, p.machine.Solo ⟨t', m, (), .polling trusted⟩ acts w ∧
      p.Opened t' m u n acts w ∧ Act.calls acts = List.replicate (n + 1) (.describeTable p.table)) :
    ∃ acts w, p.machine.Solo ⟨t, m, (), p.pollAgain trusted⟩ acts w ∧
      p.Opened t m u (n + 1) acts w ∧
      Act.calls acts = List.replicate (n + 1) (.describeTable p.table) := by
  by_cases hzero : p.pollInterval = .zero
  · obtain ⟨acts, w, hsolo, hopened, hcalls⟩ := h t
    have hagain : p.pollAgain trusted = .polling trusted := if_pos hzero
    refine ⟨acts, w, hagain ▸ hsolo, ⟨hopened.answer, ?_, ?_, hopened.table, hopened.others⟩,
      hcalls⟩
    · rw [hopened.elapsed]
      simp [hzero, Span.times, Span.zero]
    · rw [hopened.rests]
      simp [sleeps, List.replicate_succ, hzero]
  · obtain ⟨acts, w, hsolo, hopened, hcalls⟩ := h (t.later p.pollInterval.nanos)
    have hagain : p.pollAgain trusted = .pausing trusted := if_neg hzero
    have hsolo' : p.machine.Solo ⟨t, m, (), .pausing trusted⟩ (.rested p.pollInterval :: acts) w :=
      .rest rfl unlimited hsolo
    rw [← hagain] at hsolo'
    refine ⟨_, w, hsolo', ⟨hopened.answer, ?_, ?_, hopened.table, hopened.others⟩, hcalls⟩
    · rw [hopened.elapsed]
      simp only [Moment.later, Span.add, Span.times, Span.mk.injEq, Nat.mul_succ]
      omega
    · rw [Act.rests_rested, hopened.rests]
      simp [sleeps, List.replicate_succ, hzero]

/-- As many polls report the table in creation as are left, and each of them is followed by a sleep;
one more poll finds it active. -/
theorem polling_opens (hu : m.tables.get? p.table = some u)
    (hschema : u.description.schema = p.schema) (trusted : Bool) (hleft : u.pollsLeft = n)
    (t : Moment) :
    ∃ acts w, p.machine.Solo ⟨t, m, (), .polling trusted⟩ acts w ∧ p.Opened t m u n acts w ∧
      Act.calls acts = List.replicate (n + 1) (.describeTable p.table) := by
  induction n generalizing t m u with
  | zero =>
    have hask := Memory.perform_describeTable_of_table hu t.wall
    have hactive := StoredTable.describe_of_none_left hleft
    have hafter : p.afterPoll trusted (.ok (some u.describe.description)) = .done (.ok ()) := by
      simp only [afterPoll, hactive, if_true, validate]
      cases trusted with
      | false => exact congrArg Phase.done (if_pos hschema)
      | true => rfl
    exact ⟨_, _, .asked rfl unlimited hask (congrArg (Prod.mk ()) hafter) (.done rfl),
      opened_at_once hactive _, rfl⟩
  | succ n ih =>
    have hask := Memory.perform_describeTable_of_table hu t.wall
    obtain ⟨hsame, hcreating, hleft'⟩ := StoredTable.describe_of_some_left hleft
    have hafter : p.afterPoll trusted (.ok (some u.describe.description)) =
        p.pollAgain trusted := by
      simp [afterPoll, hsame, hcreating]
    have hu' : (m.setTable p.table u.describe).tables.get? p.table = some u.describe :=
      Ordered.get?_insert_self ..
    obtain ⟨acts, w, hsolo, hopened, hcalls⟩ := pollAgain_opens (t := t)
      (ih hu' (hsame ▸ hschema) hleft')
    refine ⟨_, w, .asked rfl unlimited hask (congrArg (Prod.mk ()) hafter) hsolo,
      hopened.described hsame _, ?_⟩
    rw [Act.calls_asked, hcalls]
    rfl

/-- What is found of the table tells how it ends. -/
structure Settled (p : Provision) (t : Moment) (m : Memory) (acts : List Act) (w : Report) :
    Prop where
  refused : m.tables.get? p.table = none → p.allowCreate = false →
    w.state = .error (.creationRefused p.table) ∧ w.memory = m ∧
      Act.calls acts = [.describeTable p.table]
  created : m.tables.get? p.table = none → p.allowCreate = true →
    p.Opened t m (.create p.table p.schema m.activationPolls t.wall) m.activationPolls acts w ∧
      Act.calls acts = .describeTable p.table :: .createTable p.table p.schema ::
        List.replicate (m.activationPolls + 1) (.describeTable p.table)
  unfit : ∀ u, m.tables.get? p.table = some u → u.description.schema ≠ p.schema →
    w.state = .error (.creationRefused u.description.name) ∧
      Act.calls acts = [.describeTable p.table] ∧
      ∃ u', w.memory.tables.get? p.table = some u' ∧
        u'.description.schema = u.description.schema ∧ u'.items = u.items
  found : ∀ u, m.tables.get? p.table = some u → u.description.schema = p.schema →
    p.Opened t m u (u.pollsLeft - 1) acts w ∧
      Act.calls acts = List.replicate (u.pollsLeft + 1) (.describeTable p.table)
  others : ∀ name, name ≠ p.table → w.memory.tables.get? name = m.tables.get? name

theorem settled_of_absent (hm : m.tables.get? p.table = none) (t : Moment) :
    ∃ acts w, p.ensure.Alone t m () acts w ∧ p.Settled t m acts w := by
  have hask := Memory.perform_describeTable_of_absent hm t.wall
  cases hallow : p.allowCreate with
  | false =>
    have hafter : p.afterDescribe (.ok none) = .done (.error (.creationRefused p.table)) := by
      simp [afterDescribe, hallow]
    refine ⟨_, _, .asked rfl unlimited hask (congrArg (Prod.mk ()) hafter) (.done rfl),
      fun _ _ => ⟨rfl, rfl, rfl⟩, fun _ h => ?_, fun u hu => ?_, fun u hu => ?_, fun _ _ => rfl⟩
    · cases hallow.symm.trans h
    · cases hm.symm.trans hu
    · cases hm.symm.trans hu
  | true =>
    have hafter : p.afterDescribe (.ok none) = .creating := by simp [afterDescribe, hallow]
    have hcreate := Memory.perform_createTable_of_absent hm p.schema t.wall
    let u : StoredTable := .create p.table p.schema m.activationPolls t.wall
    have hu : (m.setTable p.table u).tables.get? p.table = some u := Ordered.get?_insert_self ..
    obtain ⟨acts, w, hsolo, hopened, hcalls⟩ :=
      polling_opens hu rfl false (StoredTable.pollsLeft_create ..) t
    have hothers : ∀ name, name ≠ p.table → w.memory.tables.get? name = m.tables.get? name := by
      intro name hname
      rw [hopened.others name hname]
      exact Ordered.get?_insert_of_ne _ hname _
    refine ⟨_, w, .asked rfl unlimited hask (congrArg (Prod.mk ()) hafter)
      (.asked rfl unlimited hcreate rfl hsolo), fun _ h => ?_, fun _ _ => ⟨?_, ?_⟩, fun v hv => ?_,
      fun v hv => ?_, hothers⟩
    · cases hallow.symm.trans h
    · exact ⟨hopened.answer, hopened.elapsed, hopened.rests, hopened.table, hothers⟩
    · rw [Act.calls_asked, Act.calls_asked, hcalls]
    · cases hm.symm.trans hv
    · cases hm.symm.trans hv

/-- The first description counts as a poll, and no sleep follows it. -/
theorem describing_opens (hm : m.tables.get? p.table = some u)
    (hschema : u.description.schema = p.schema) (t : Moment) :
    ∃ acts w, p.ensure.Alone t m () acts w ∧ p.Opened t m u (u.pollsLeft - 1) acts w ∧
      Act.calls acts = List.replicate (u.pollsLeft + 1) (.describeTable p.table) := by
  have hask := Memory.perform_describeTable_of_table hm t.wall
  cases hleft : u.pollsLeft with
  | zero =>
    have hactive := StoredTable.describe_of_none_left hleft
    have hafter : p.afterDescribe (.ok (some u.describe.description)) = .done (.ok ()) := by
      simp [afterDescribe, validate, hactive, hschema]
    exact ⟨_, _, .asked rfl unlimited hask (congrArg (Prod.mk ()) hafter) (.done rfl),
      opened_at_once hactive _, rfl⟩
  | succ n =>
    obtain ⟨hstill, hcreating, hleft'⟩ := StoredTable.describe_of_some_left hleft
    have hafter : p.afterDescribe (.ok (some u.describe.description)) = .polling true := by
      simp [afterDescribe, validate, hstill, hcreating, hschema]
    have hu : (m.setTable p.table u.describe).tables.get? p.table = some u.describe :=
      Ordered.get?_insert_self ..
    obtain ⟨acts, w, hsolo, hopened, hcalls⟩ :=
      polling_opens hu (hstill ▸ hschema) true hleft' t
    refine ⟨_, w, .asked rfl unlimited hask (congrArg (Prod.mk ()) hafter) hsolo,
      hopened.described hstill _, ?_⟩
    rw [Act.calls_asked, hcalls]
    rfl

theorem settled_of_found (hm : m.tables.get? p.table = some u) (t : Moment) :
    ∃ acts w, p.ensure.Alone t m () acts w ∧ p.Settled t m acts w := by
  have habsent : m.tables.get? p.table ≠ none := hm ▸ Option.some_ne_none u
  by_cases hschema : u.description.schema = p.schema
  · obtain ⟨acts, w, halone, hopened, hcalls⟩ := describing_opens hm hschema t
    refine ⟨acts, w, halone, fun h => absurd h habsent, fun h => absurd h habsent,
      fun v hv hne => ?_, fun v hv _ => ?_, hopened.others⟩
    · cases hm.symm.trans hv
      exact absurd hschema hne
    · cases hm.symm.trans hv
      exact ⟨hopened, hcalls⟩
  · have hask := Memory.perform_describeTable_of_table hm t.wall
    have hname := u.describe_name
    have hsame := Memory.describe_schema u
    have hafter : p.afterDescribe (.ok (some u.describe.description)) =
        .done (.error (.creationRefused u.description.name)) := by
      simp [afterDescribe, validate, hsame, hschema, hname]
    refine ⟨_, _, .asked rfl unlimited hask (congrArg (Prod.mk ()) hafter) (.done rfl),
      fun h => absurd h habsent, fun h => absurd h habsent, fun v hv _ => ?_, fun v hv heq => ?_,
      fun name hne => Ordered.get?_insert_of_ne _ hne _⟩
    · cases hm.symm.trans hv
      exact ⟨rfl, rfl, u.describe, Ordered.get?_insert_self .., hsame, u.items_describe⟩
    · cases hm.symm.trans hv
      exact absurd heq hschema

theorem exists_settled (p : Provision) (m : Memory) (t : Moment) :
    ∃ acts w, p.ensure.Alone t m () acts w ∧ p.Settled t m acts w := by
  cases hm : m.tables.get? p.table with
  | none => exact settled_of_absent hm t
  | some u => exact settled_of_found hm t

theorem Opened.ready (h : p.Opened t m u n acts w) (hschema : u.description.schema = p.schema) :
    w.memory.HasActiveTable p.table p.schema := by
  obtain ⟨u', hu', hdescription, -⟩ := h.table
  refine ⟨u', hu', ?_, ?_⟩
  · rw [hdescription]
    exact hschema
  · rw [hdescription]

theorem Settled.ready (h : p.Settled t m acts w) (hok : w.state = .ok ()) :
    w.memory.HasActiveTable p.table p.schema := by
  cases hm : m.tables.get? p.table with
  | none =>
    cases hallow : p.allowCreate with
    | false => cases hok.symm.trans (h.refused hm hallow).1
    | true => exact (h.created hm hallow).1.ready rfl
  | some u =>
    by_cases hschema : u.description.schema = p.schema
    · exact (h.found u hm hschema).1.ready hschema
    · cases hok.symm.trans (h.unfit u hm hschema).1

/-- The answer, with a single description and without a rest. -/
def AtOnce (p : Provision) (acts : List Act) (w : Report) : Prop :=
  w.state = .ok () ∧ Act.calls acts = [.describeTable p.table] ∧ Act.rests acts = []

theorem at_once_of_active (hm : m.HasActiveTable p.table p.schema) (t : Moment) :
    p.ensure.Achieves t m () p.AtOnce := by
  obtain ⟨u, hu, hschema, hactive⟩ := hm
  obtain ⟨acts, w, halone, hsettled⟩ := p.exists_settled m t
  obtain ⟨hopened, hcalls⟩ := hsettled.found u hu hschema
  have hleft : u.pollsLeft = 0 := by simp [StoredTable.pollsLeft, hactive]
  rw [hleft] at hopened hcalls
  exact .of_alone halone ⟨hopened.answer, hcalls, hopened.rests⟩

/-- Whatever the store holds, making sure of a table alone ends as `Settled` says, and once it has
gone well it goes well again at once, with permission to create a table or without. -/
theorem ensure_alone (p : Provision) (m : Memory) (t : Moment) :
    p.ensure.Achieves t m () fun acts w => p.Settled t m acts w ∧
      (w.state = .ok () → ∀ (q : Provision) (t' : Moment), q.table = p.table → q.schema = p.schema →
        q.ensure.Achieves t' w.memory () q.AtOnce) := by
  obtain ⟨acts, w, halone, hsettled⟩ := p.exists_settled m t
  refine .of_alone halone ⟨hsettled, fun hok q t' htable hschema => ?_⟩
  have hready := hsettled.ready hok
  rw [← htable, ← hschema] at hready
  exact at_once_of_active hready t'

end Provision

end MigrationLedger
