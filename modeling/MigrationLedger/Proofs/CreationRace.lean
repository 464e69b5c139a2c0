import MigrationLedger.Proofs.Provisioning

/-! Many at once make sure of a table that is missing. Whatever key each of them wants, one creation
succeeds, and its key decides who is served and who is refused. -/

namespace MigrationLedger

/-- The key of a table that was created. -/
def createdSchema? : Exchange → Option KeySchema
  | ⟨.createTable _ schema, .ok _⟩ => some schema
  | _ => none

/-- The creations that have succeeded, by the keys of the tables. -/
def Crew.creations {ι : Type} (log : List (Crew.Note ι)) : List KeySchema :=
  log.filterMap fun n => createdSchema? n.exchange

theorem Crew.creations_note {ι γ κ : Type} {c : Crew ι γ κ} (s : c.State) (i : ι)
    (x : Option Exchange) :
    Crew.creations (s.note i x) = Crew.creations s.log ++ (x.bind createdSchema?).toList := by
  cases x with
  | none => simp [State.note]
  | some x =>
    have hlast : Crew.creations [⟨i, s.clock, x⟩] = (createdSchema? x).toList := by
      cases hx : createdSchema? x with
      | none => simp [creations, hx]
      | some schema => simp [creations, hx]
    rw [State.note, creations, List.filterMap_append, ← creations, ← creations, hlast]
    rfl

namespace Provision

/-- A phase agrees with a table that is there: what was trusted is so, and an answer is what the key
of the table says. -/
def Agrees (d : TableDescription) (schema : KeySchema) : Phase → Prop
  | .describing | .creating => True
  | .polling trusted | .pausing trusted => trusted = true → d.schema = schema
  | .done answer => if d.schema = schema then d.status = .active ∧ answer = .ok ()
      else answer = .error (.creationRefused d.name)

variable {d d' : TableDescription} {p : Provision} {s : Phase} {m : Memory}

theorem Agrees.mono {schema : KeySchema} (h : Agrees d schema s) (hname : d'.name = d.name)
    (hschema : d'.schema = d.schema) (hactive : d.status = .active → d'.status = .active) :
    Agrees d' schema s := by
  cases s with
  | done answer =>
    simp only [Agrees] at h ⊢
    rw [hschema, hname]
    by_cases hd : d.schema = schema
    · rw [if_pos hd] at h ⊢
      exact ⟨hactive h.1, h.2⟩
    · rw [if_neg hd] at h ⊢
      exact h
  | polling trusted => exact fun htrusted => hschema.trans (h htrusted)
  | pausing trusted => exact fun htrusted => hschema.trans (h htrusted)
  | _ => trivial

theorem agrees_afterDescribe (p : Provision) (d : TableDescription) :
    Agrees d p.schema (p.afterDescribe (.ok (some d))) := by
  by_cases hd : d.schema = p.schema
  · by_cases hactive : d.status = .active
    · simp [afterDescribe, validate, hd, hactive, Agrees]
    · simp [afterDescribe, validate, hd, hactive, Agrees]
  · simp [afterDescribe, validate, hd, Agrees]

theorem agrees_afterPoll {trusted : Bool} (h : trusted = true → d.schema = p.schema) :
    Agrees d p.schema (p.afterPoll trusted (.ok (some d))) := by
  by_cases hactive : d.status = .active
  · by_cases hd : d.schema = p.schema
    · cases trusted <;> simp [afterPoll, validate, hd, hactive, Agrees]
    · have htrusted : trusted = false := by simpa using mt h hd
      simp [afterPoll, validate, hd, hactive, htrusted, Agrees]
  · rw [afterPoll, if_neg hactive, pollAgain]
    split
    · exact h
    · exact h

/-- Nothing has been seen of a table. -/
def Phase.isUnseeing : Phase → Bool
  | .describing | .creating => true
  | _ => false

variable {κ : Type} {t : Moment} {k : κ} {stimulus : Stimulus} {r : Turned κ Phase}

/-- While there is no table, a turn finds that out, or creates one. -/
theorem turn_of_absent (hm : m.tables.get? p.table = none) (hallow : p.allowCreate = true)
    (hs : s.isUnseeing = true) (hcalm : stimulus.isCalm = true)
    (h : p.machine.turn? t m k s stimulus = some r) :
    r.memory = m ∧ r.exchange.bind createdSchema? = none ∧ r.state = .creating ∨
      r.memory = m.setTable p.table (.create p.table p.schema m.activationPolls t.wall) ∧
        r.exchange.bind createdSchema? = some p.schema ∧ r.state = .polling false := by
  cases stimulus with
  | reply =>
    cases s with
    | describing =>
      have hx : m.perform t.wall (.describeTable p.table) = (.ok none, m) := by
        rw [Memory.perform, hm]
      rw [Machine.turn?] at h
      simp only [machine, hx, afterDescribe, hallow, if_true] at h
      cases h
      exact .inl ⟨rfl, rfl, rfl⟩
    | creating =>
      have hx : m.perform t.wall (.createTable p.table p.schema) = (.ok (),
          m.setTable p.table (.create p.table p.schema m.activationPolls t.wall)) := by
        rw [Memory.perform, Ordered.contains, hm]
        rfl
      rw [Machine.turn?] at h
      simp only [machine, hx] at h
      cases h
      exact .inr ⟨rfl, rfl, rfl⟩
    | _ => cases hs
  | wake =>
    cases s with
    | pausing trusted => cases hs
    | _ => cases h
  | refuse fault => cases hcalm
  | expire => cases hcalm

/-- With the table there, nothing is created any more, and the phase still agrees with it. -/
theorem turn_of_present {table : StoredTable} (hm : m.tables.get? p.table = some table)
    (hs : Agrees table.description p.schema s) (hcalm : stimulus.isCalm = true)
    (h : p.machine.turn? t m k s stimulus = some r) :
    r.exchange.bind createdSchema? = none ∧
      (r.memory = m ∧ Agrees table.description p.schema r.state ∨
        r.memory = m.setTable p.table table.describe ∧
          Agrees table.describe.description p.schema r.state) := by
  have hdescribe : m.perform t.wall (.describeTable p.table) =
      (.ok (some table.describe.description), m.setTable p.table table.describe) := by
    rw [Memory.perform, hm]
  have hschema := Memory.describe_schema table
  cases stimulus with
  | reply =>
    rw [Machine.turn?] at h
    cases s with
    | describing =>
      simp only [machine, hdescribe] at h
      cases h
      exact ⟨rfl, .inr ⟨rfl, agrees_afterDescribe p _⟩⟩
    | creating =>
      have hx : m.perform t.wall (.createTable p.table p.schema) =
          (.error (.tableExists p.table), m) := by
        rw [Memory.perform, Ordered.contains, hm]
        rfl
      simp only [machine, hx] at h
      cases h
      exact ⟨rfl, .inl ⟨rfl, by rintro ⟨⟩⟩⟩
    | polling trusted =>
      simp only [machine, hdescribe] at h
      cases h
      exact ⟨rfl, .inr ⟨rfl, agrees_afterPoll fun htrusted => hschema.trans (hs htrusted)⟩⟩
    | _ => cases h
  | wake =>
    cases s with
    | pausing trusted =>
      cases h
      exact ⟨rfl, .inl ⟨rfl, hs⟩⟩
    | _ => cases h
  | refuse fault => cases hcalm
  | expire => cases hcalm

end Provision

/-- Everybody makes sure of the same table, each for a key of their own, and may create it. -/
abbrev founders {ι : Type} (table : String) (schema : ι → KeySchema) (interval : ι → Span) :
    Crew ι Unit Unit where
  object _ := ()
  Phase _ := Provision.Phase
  Outcome _ := Except LedgerFault Unit
  operation i := Provision.ensure ⟨table, schema i, true, interval i⟩

namespace CreationRace

variable {ι : Type} {table : String} {schema : ι → KeySchema} {interval : ι → Span}

/-- Either nobody has created the table, and nobody knows of one; or one creation has succeeded, and
everybody agrees with the table that it has left. -/
inductive Founded (s : (founders table schema interval).State) : Prop where
  | absent (hm : s.memory.tables.get? table = none) (hlog : Crew.creations s.log = [])
      (hphase : ∀ i p, s.phase i = some p → Provision.Phase.isUnseeing p = true)
  | present (t : StoredTable) (hm : s.memory.tables.get? table = some t)
      (hname : t.description.name = table) (hempty : t.items.entries = [])
      (hlog : Crew.creations s.log = [t.description.schema])
      (hphase : ∀ i p, s.phase i = some p → Provision.Agrees t.description (schema i) p)

variable [DecidableEq ι] {s s' : (founders table schema interval).State}

theorem Founded.start (h : Founded s) (i : ι) (k : Unit) :
    Founded (s.settle i k Provision.Phase.describing) := by
  cases h with
  | absent hm hlog hphase =>
    exact .absent hm hlog (Crew.State.forall_phase_settle hphase rfl k)
  | present t hm hname hempty hlog hphase =>
    have hbegun : Provision.Agrees t.description (schema i) .describing := trivial
    exact .present t hm hname hempty hlog (Crew.State.forall_phase_settle hphase hbegun k)

theorem Founded.turn (h : Founded s) {i : ι} {p : Provision.Phase} {stimulus : Stimulus}
    {r : Turned Unit Provision.Phase} (hp : s.phase i = some p) (hcalm : stimulus.isCalm = true)
    (hr : ((founders table schema interval).operation i).machine.turn? s.clock s.memory (s.cellOf i)
      p stimulus = some r) : Founded (s.after i r) := by
  have hcreations := Crew.creations_note s i r.exchange
  cases h with
  | absent hm hlog hphase =>
    rw [hlog, List.nil_append] at hcreations
    rcases Provision.turn_of_absent hm rfl (hphase i p hp) hcalm hr with
      ⟨hmem, hx, hstate⟩ | ⟨hmem, hx, hstate⟩
    · refine .absent ?_ (by rw [hx] at hcreations; exact hcreations)
        (Crew.State.forall_phase_after hphase (congrArg Provision.Phase.isUnseeing hstate))
      change r.memory.tables.get? table = none
      rw [hmem]
      exact hm
    · rw [hx] at hcreations
      refine .present (.create table (schema i) s.memory.activationPolls s.clock.wall) ?_ rfl rfl
        hcreations (Crew.State.forall_phase_after (fun j q hq => ?_) ?_)
      · change r.memory.tables.get? table = _
        rw [hmem]
        exact Ordered.get?_insert_self ..
      · -- who has not seen a table agrees with any
        have hunseeing := hphase j q hq
        cases q with
        | describing => trivial
        | creating => trivial
        | _ => cases hunseeing
      · rw [hstate]
        exact nofun
  | present t hm hname hempty hlog hphase =>
    obtain ⟨hx, ⟨hmem, hagrees⟩ | ⟨hmem, hagrees⟩⟩ :=
      Provision.turn_of_present hm (hphase i p hp) hcalm hr
    · rw [hx, hlog] at hcreations
      refine .present t ?_ hname hempty hcreations (Crew.State.forall_phase_after hphase hagrees)
      change r.memory.tables.get? table = some t
      rw [hmem]
      exact hm
    · rw [hx, hlog] at hcreations
      have hschema := Memory.describe_schema t
      refine .present t.describe ?_ (t.describe_name.trans hname)
        (by rw [t.items_describe, hempty]) (by rw [hschema]; exact hcreations)
        (Crew.State.forall_phase_after (fun j q hq => ?_) hagrees)
      · change r.memory.tables.get? table = some t.describe
        rw [hmem]
        exact Ordered.get?_insert_self ..
      · exact (hphase j q hq).mono t.describe_name hschema Memory.describe_active

theorem Founded.run {flow : Moment → Moment → Prop} (h : Founded s)
    (hrun : (founders table schema interval).ReachableIf flow (fun e => e.isCalm = true) s s') :
    Founded s' := by
  induction hrun with
  | refl => exact h
  | tail _ hstep ih =>
    cases hstep with
    | pass ht =>
      cases ih with
      | absent hm hlog hphase => exact .absent hm hlog hphase
      | present t hm hname hempty hlog hphase => exact .present t hm hname hempty hlog hphase
    | @act e s' hcalm hact =>
      cases e with
      | start i =>
        obtain ⟨-, rfl⟩ := Crew.State.start_inv hact
        exact ih.start i _
      | turn i stimulus =>
        obtain ⟨p, r, hp, hr, rfl⟩ := Crew.State.turn_inv hact
        exact ih.turn hp hcalm hr

/-- The table as those find it who have made sure of it, or have been refused. -/
structure Agreed (s : (founders table schema interval).State) : Prop where
  sole : (Crew.creations s.log).length ≤ 1
  empty : ∀ t, s.memory.tables.get? table = some t → t.items.entries = []
  /-- Once one of them has returned there is the table of the creation that has succeeded. -/
  created : ∀ (i : ι) (answer : Except LedgerFault Unit), s.phase i = some (.done answer) →
    ∃ winner, Crew.creations s.log = [winner] ∧ s.memory.HasTable table winner ∧
      answer = if schema i = winner then .ok () else .error (.creationRefused table)
  active : ∀ i, s.phase i = some (.done (.ok ())) → s.memory.HasActiveTable table (schema i)

theorem founders_agree {flow : Moment → Moment → Prop} {m₀ : Memory}
    (hm₀ : m₀.tables.get? table = none) (t₀ : Moment)
    (hs : (founders table schema interval).ReachableIf flow (fun e => e.isCalm = true)
      ((founders table schema interval).initial m₀ t₀ fun _ => ()) s) : Agreed s := by
  have hinitial : Founded ((founders table schema interval).initial m₀ t₀ fun _ => ()) :=
    .absent hm₀ rfl nofun
  cases hinitial.run hs with
  | absent hm hlog hphase =>
    refine ⟨by simp [hlog], fun t ht => ?_, fun i answer hdone => ?_, fun i hdone => ?_⟩
    · cases hm.symm.trans ht
    · cases hphase i _ hdone
    · cases hphase i _ hdone
  | present t hm hname hempty hlog hphase =>
    refine ⟨by simp [hlog], fun u hu => ?_, fun i answer hdone => ?_, fun i hdone => ?_⟩
    · cases hm.symm.trans hu
      exact hempty
    · refine ⟨t.description.schema, hlog, ⟨t, hm, rfl⟩, ?_⟩
      have hagrees := hphase i _ hdone
      simp only [Provision.Agrees, hname] at hagrees
      by_cases hschema : t.description.schema = schema i
      · rw [if_pos hschema] at hagrees
        rw [if_pos hschema.symm]
        exact hagrees.2
      · rw [if_neg hschema] at hagrees
        rw [if_neg (Ne.symm hschema)]
        exact hagrees
    · have hagrees := hphase i _ hdone
      simp only [Provision.Agrees] at hagrees
      by_cases hschema : t.description.schema = schema i
      · rw [if_pos hschema] at hagrees
        exact ⟨t, hm, hschema, hagrees.1⟩
      · rw [if_neg hschema] at hagrees
        cases hagrees

/-- Two want the table keyed by change ids, the third wants it keyed by numbers. -/
def rivalSchema (i : Fin 3) : KeySchema :=
  if i = 2 then ⟨"sequence", .number⟩ else ⟨"changeId", .text⟩

def rivalStart : (founders "changes" rivalSchema fun _ => .ofMillis 200).State :=
  (founders "changes" rivalSchema fun _ => .ofMillis 200).initial
    { tables := {}, activationPolls := 1 } (Crew.second 0) fun _ => ()

/-- All three find no table, and the second is the first to create it. The first poll of the first
uses up the time that the table takes to become active. -/
def rivalScript : Crew.Script (Fin 3) :=
  [(Crew.second 0, .start 0), (Crew.second 0, .start 1), (Crew.second 0, .start 2),
    (Crew.second 0, .turn 0 .reply), (Crew.second 0, .turn 1 .reply),
    (Crew.second 0, .turn 2 .reply), (Crew.second 1, .turn 1 .reply),
    (Crew.second 1, .turn 0 .reply), (Crew.second 1, .turn 2 .reply),
    (Crew.second 1, .turn 0 .reply), (Crew.second 2, .turn 2 .reply),
    (Crew.second 2, .turn 1 .reply), (Crew.second 3, .turn 0 .wake),
    (Crew.second 3, .turn 0 .reply)]

/-- The fault a call has ended with, or that it has ended with none. -/
def endOf (s : (founders "changes" rivalSchema fun _ => .ofMillis 200).State) (i : Fin 3) :
    Option (Option LedgerFault) :=
  (s.phase i).bind fun p => match p with
    | .done (.ok ()) => some none
    | .done (.error f) => some (some f)
    | _ => none

theorem founders_agree_of_rivals :
    ∃ s, rivalStart.play? (fun _ _ => True) rivalScript = some s ∧ Agreed s ∧
      Crew.creations s.log = [rivalSchema 1] ∧ s.memory.HasActiveTable "changes" (rivalSchema 0) ∧
      [0, 1, 2].map (endOf s) =
        [some none, some none, some (some (.creationRefused "changes"))] := by
  have hrun : (rivalStart.play? (fun _ _ => True) rivalScript).map (fun s =>
      (Crew.creations s.log, [0, 1, 2].map (endOf s))) = some ([rivalSchema 1],
        [some none, some none, some (some (.creationRefused "changes"))]) := by
    decide +kernel
  obtain ⟨s, hs, hseen⟩ := Option.map_eq_some_iff.mp hrun
  have hcreations : Crew.creations s.log = [rivalSchema 1] := congrArg (·.1) hseen
  have hends := congrArg (·.2) hseen
  have hcalm : ∀ te ∈ rivalScript, te.2.isCalm = true := by decide
  have hagreed := founders_agree rfl (Crew.second 0) (Crew.State.reachableIf_of_play hcalm hs)
  have hdone : s.phase 0 = some (.done (.ok ())) := by
    have hend : endOf s 0 = some none := (List.cons.inj hends).1
    obtain ⟨p, hp, hended⟩ := Option.bind_eq_some_iff.mp hend
    match p, hended with
    | .done (.ok ()), _ => exact hp
  exact ⟨s, hs, hagreed, hcreations, hagreed.active 0 hdone, hends⟩

end CreationRace

end MigrationLedger
