import MigrationLedger.Entry
import MigrationLedger.Lease
import MigrationLedger.Proofs.Provisioning

/-! What a store that may answer anything has said of a table, by the time that making sure of it
ends. Whether the table is accepted depends on its last description, and on the first: a key that
was found right while the table was in creation is not looked at again. -/

namespace MigrationLedger

/-- What has been said so far when one operation talks to a store of any kind. A wait lasts as long
as it likes, and a call may be answered by anything. -/
inductive Operation.Talks {κ σ α : Type} (o : Operation κ σ α) : List Exchange → κ → σ → Prop where
  | start (t : Moment) (k : κ) : Talks o [] (o.start t k).1 (o.start t k).2
  | answer {log : List Exchange} {k : κ} {s : σ} {c : Call} {resume : Moment → κ → Answer c → κ × σ}
      (h : Talks o log k s) (hnext : o.machine.next s = .call c resume) (t : Moment)
      (x : Answer c) : Talks o (log ++ [⟨c, x⟩]) (resume t k x).1 (resume t k x).2
  | wake {log : List Exchange} {k : κ} {s : σ} {d : Span} {resume : Moment → κ → κ × σ}
      (h : Talks o log k s) (hnext : o.machine.next s = .rest d resume) (t : Moment) :
      Talks o log (resume t k).1 (resume t k).2

def description? : Exchange → Option TableDescription
  | ⟨.describeTable _, .ok found⟩ => found
  | _ => none

def lastDescription? (log : List Exchange) : Option TableDescription :=
  (log.filterMap description?).getLast?

theorem lastDescription?_concat (log : List Exchange) (x : Exchange) :
    lastDescription? (log ++ [x]) = (description? x).or (lastDescription? log) := by
  rw [lastDescription?, List.filterMap_append, List.getLast?_append]
  cases hx : description? x with
  | none => simp [hx, lastDescription?]
  | some d => simp [hx]

namespace Provision

/-- The first answer was that the table is there with the wanted key, and still in creation. -/
def FoundCreating (p : Provision) (log : List Exchange) : Prop :=
  ∃ d, log.head?.bind description? = some d ∧ d.schema = p.schema ∧ d.status = .creating

def Accepts (p : Provision) (log : List Exchange) : Prop :=
  ∃ d, lastDescription? log = some d ∧ d.status = .active ∧
    (d.schema = p.schema ∨ p.FoundCreating log)

variable {p : Provision} {log : List Exchange} {s : Phase}

theorem foundCreating_concat (hlog : log ≠ []) (x : Exchange) :
    p.FoundCreating (log ++ [x]) ↔ p.FoundCreating log := by
  obtain ⟨first, rest, rfl⟩ := List.exists_cons_of_ne_nil hlog
  rfl

/-- Waiting: nobody has described an active table, and a table is trusted exactly if it was found in
creation. -/
structure Waits (p : Provision) (log : List Exchange) (trusted : Bool) : Prop where
  begun : log ≠ []
  trusted : trusted = true ↔ p.FoundCreating log
  creating : ∀ d, lastDescription? log = some d → d.status = .creating

def Accords (p : Provision) (log : List Exchange) : Phase → Prop
  | .describing => log = []
  | .creating => p.Waits log false
  | .polling trusted | .pausing trusted => p.Waits log trusted
  | .done answer => answer = .ok () ↔ p.Accepts log

theorem Waits.not_accepts {trusted : Bool} (h : p.Waits log trusted) : ¬ p.Accepts log := by
  rintro ⟨d, hd, hactive, -⟩
  cases (h.creating d hd).symm.trans hactive

theorem accords_error (h : ¬ p.Accepts log) (fault : LedgerFault) :
    p.Accords log (.done (.error fault)) :=
  iff_of_false (by rintro ⟨⟩) h

theorem Waits.concat {trusted : Bool} (h : p.Waits log trusted) {x : Exchange}
    (hx : description? x = none) : p.Waits (log ++ [x]) trusted := by
  refine ⟨by simp, ?_, fun d hd => h.creating d ?_⟩
  · rw [foundCreating_concat h.begun]
    exact h.trusted
  · rwa [lastDescription?_concat, hx] at hd

theorem Waits.refused {trusted : Bool} (h : p.Waits log trusted) {x : Exchange}
    (hx : description? x = none) (fault : LedgerFault) :
    p.Accords (log ++ [x]) (.done (.error fault)) :=
  accords_error (h.concat hx).not_accepts fault

theorem waits_first {x : Exchange} (hx : description? x = none) : p.Waits [x] false := by
  refine ⟨by simp, ⟨nofun, ?_⟩, fun d hd => ?_⟩
  · rintro ⟨d, hd, -⟩
    cases hx.symm.trans hd
  · rw [lastDescription?, List.filterMap_cons_none hx] at hd
    cases hd

theorem accords_afterDescribe (x : Answer (.describeTable p.table)) :
    p.Accords [⟨.describeTable p.table, x⟩] (p.afterDescribe x) := by
  cases x with
  | error fault => exact accords_error (waits_first rfl).not_accepts _
  | ok found =>
    cases found with
    | none =>
      have hwaits : p.Waits [⟨.describeTable p.table, .ok none⟩] false := waits_first rfl
      rw [afterDescribe]
      split
      · exact hwaits
      · exact accords_error hwaits.not_accepts _
    | some d =>
      have hlast : lastDescription? [⟨.describeTable p.table, .ok (some d)⟩] = some d := rfl
      have hfound : p.FoundCreating [⟨.describeTable p.table, .ok (some d)⟩] ↔
          d.schema = p.schema ∧ d.status = .creating := by
        constructor
        · rintro ⟨d', hd', h⟩
          cases hd'
          exact h
        · intro h
          exact ⟨d, rfl, h⟩
      by_cases hschema : d.schema = p.schema
      · cases hstatus : d.status with
        | active =>
          simp only [afterDescribe, validate, hschema, hstatus, if_true]
          exact ⟨fun _ => ⟨d, hlast, hstatus, .inl hschema⟩, fun _ => rfl⟩
        | creating =>
          simp only [afterDescribe, validate, hschema, hstatus, if_true, reduceCtorEq, if_false]
          refine ⟨by simp, by simp [hfound, hschema, hstatus], fun d' hd' => ?_⟩
          cases hd'
          exact hstatus
      · simp only [afterDescribe, validate, hschema, if_false]
        refine accords_error ?_ _
        rintro ⟨d', hd', -, hright | hright⟩
        · cases hd'
          exact absurd hright hschema
        · exact absurd (hfound.mp hright).1 hschema

theorem Waits.afterCreate (h : p.Waits log false) (x : Answer (.createTable p.table p.schema)) :
    p.Accords (log ++ [⟨.createTable p.table p.schema, x⟩]) (afterCreate x) := by
  have hx : description? ⟨.createTable p.table p.schema, x⟩ = none := rfl
  cases x with
  | ok _ => exact h.concat hx
  | error fault =>
    cases fault with
    | tableExists table => exact h.concat hx
    | _ => exact h.refused hx _

theorem Waits.afterPoll {trusted : Bool} (h : p.Waits log trusted)
    (x : Answer (.describeTable p.table)) :
    p.Accords (log ++ [⟨.describeTable p.table, x⟩]) (p.afterPoll trusted x) := by
  cases x with
  | error fault => exact h.refused rfl _
  | ok found =>
    cases found with
    | none => exact h.refused rfl _
    | some d =>
      have hlast : lastDescription? (log ++ [⟨.describeTable p.table, .ok (some d)⟩]) = some d := by
        rw [lastDescription?_concat]
        rfl
      have hfound := (foundCreating_concat (p := p) h.begun
        ⟨.describeTable p.table, .ok (some d)⟩).trans h.trusted.symm
      rw [Provision.afterPoll]
      by_cases hactive : d.status = .active
      · rw [if_pos hactive]
        have haccepts : p.Accepts (log ++ [⟨.describeTable p.table, .ok (some d)⟩]) ↔
            d.schema = p.schema ∨ trusted = true := by
          rw [← hfound]
          constructor
          · rintro ⟨d', hd', -, hright⟩
            cases hlast.symm.trans hd'
            exact hright
          · intro hright
            exact ⟨d, hlast, hactive, hright⟩
        rw [Accords, haccepts]
        cases trusted with
        | true => simp
        | false => by_cases hschema : d.schema = p.schema <;> simp [validate, hschema]
      · rw [if_neg hactive]
        have hwaits : p.Waits (log ++ [⟨.describeTable p.table, .ok (some d)⟩]) trusted := by
          refine ⟨by simp, hfound.symm, fun d' hd' => ?_⟩
          cases hlast.symm.trans hd'
          cases hstatus : d.status with
          | active => exact absurd hstatus hactive
          | creating => rfl
        rw [pollAgain]
        split
        · exact hwaits
        · exact hwaits

theorem accords_of_talks {κ : Type} {k : κ} (h : p.ensure.Talks log k s) : p.Accords log s := by
  induction h with
  | start t k => exact rfl
  | @answer log k s c resume h hnext t x ih =>
    cases s with
    | describing =>
      cases hnext
      cases ih
      exact accords_afterDescribe x
    | creating =>
      cases hnext
      exact Waits.afterCreate ih x
    | polling trusted =>
      cases hnext
      exact Waits.afterPoll ih x
    | pausing trusted => cases hnext
    | done answer => cases hnext
  | @wake log k s d resume h hnext t ih =>
    cases s with
    | pausing trusted =>
      cases hnext
      exact ih
    | _ => cases hnext

/-- A table is accepted exactly if it was last described as active, with the wanted key or after it
had been found in creation with that key. -/
theorem accepted_iff {κ : Type} {k : κ} {answer : Except LedgerFault Unit}
    (h : p.ensure.Talks log k (.done answer)) :
    answer = .ok () ↔ ∃ d, lastDescription? log = some d ∧ d.status = .active ∧
      (d.schema = p.schema ∨ p.FoundCreating log) :=
  accords_of_talks h

def opening : Provision := ⟨"changes", Entry.schema, true, .zero⟩

def saying (m : Memory) (c : Call) : Exchange := ⟨c, (m.perform default c).1⟩

/-- Somebody else has created the table, and it is in creation for one more description. -/
def founded : Memory :=
  (({ activationPolls := 1 } : Memory).perform default (.createTable "changes" Entry.schema)).2

def opened : Memory := (founded.perform default (.describeTable "changes")).2

/-- Somebody has dropped it, and created a table with another key in its place. -/
def refounded : Memory := (founded.drop "changes").createActive "changes" Lease.schema default

/-- The table is missing at first, then somebody else is quicker to create it. -/
def overtakenTalk : List Exchange :=
  [saying {} (.describeTable "changes"), saying founded (.createTable "changes" Entry.schema),
    saying founded (.describeTable "changes"), saying opened (.describeTable "changes")]

theorem talks_overtaken : opening.ensure.Talks overtakenTalk () (.done (.ok ())) := by
  have hstart : opening.ensure.Talks [] () .describing := .start default ()
  have hmissing := hstart.answer rfl default (({} : Memory).perform default _).1
  have hcreated := hmissing.answer rfl default (founded.perform default _).1
  have hfounded := hcreated.answer rfl default (founded.perform default _).1
  exact hfounded.answer rfl default (opened.perform default _).1

theorem accepted_of_overtaken :
    opening.ensure.Talks overtakenTalk () (.done (.ok ())) ∧
      ∃ d, lastDescription? overtakenTalk = some d ∧ d.status = .active ∧
        (d.schema = opening.schema ∨ opening.FoundCreating overtakenTalk) :=
  ⟨talks_overtaken, (accepted_iff talks_overtaken).mp rfl⟩

/-- The table is found in creation, then dropped and created anew with another key. -/
theorem accepted_unseen : ∃ log d, opening.ensure.Talks log () (.done (.ok ())) ∧
    log = [saying founded (.describeTable "changes"), saying refounded (.describeTable "changes")] ∧
    lastDescription? log = some d ∧ d.schema ≠ opening.schema := by
  have hstart : opening.ensure.Talks [] () .describing := .start default ()
  have hfounded := hstart.answer rfl default (founded.perform default _).1
  have hrefounded := hfounded.answer rfl default (refounded.perform default _).1
  exact ⟨_, ⟨"changes", Lease.schema, .active, default⟩, hrefounded, rfl, rfl, by decide⟩

end Provision

end MigrationLedger
