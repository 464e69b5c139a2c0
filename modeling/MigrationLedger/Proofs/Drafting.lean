import MigrationLedger.Proofs.ConditionalWrite

/-! Any number of updates on one table at the same time. A draft that is about to be written was
decided on a record that still is in place, or whose count of writes has been passed. So a put that
succeeds replaces exactly the record that it was decided on. -/

namespace MigrationLedger

/-- The record `read` is still there, or the count of writes has gone beyond it. -/
def Precedes : Option Item → Option Item → Prop
  | none, _ => True
  | some _, none => False
  | some read, some stored => read = stored ∨ read.revision < stored.revision

namespace Precedes

theorem refl (item : Option Item) : Precedes item item := by
  cases item with
  | none => trivial
  | some item => exact .inl rfl

/-- On the record that was read, the count of writes picks out that record. -/
theorem eq_of_unchanged {read stored : Option Item} (h : Precedes read stored)
    (hu : (Condition.unchanged read).holds stored = true) : stored = read := by
  cases read with
  | none => exact Option.isNone_iff_eq_none.mp hu
  | some item =>
    cases stored with
    | none => exact h.elim
    | some other =>
      have hrevision : other.revision = item.revision := by
        simpa [Condition.unchanged, Condition.holds] using hu
      rcases h with rfl | hlt
      · rfl
      · omega

theorem withRevision {read stored : Option Item} (h : Precedes read stored) (item : Item) :
    Precedes read (some (item.withRevision (nextRevision stored))) := by
  cases read with
  | none => trivial
  | some old =>
    cases stored with
    | none => exact h.elim
    | some other =>
      have hle : old.revision ≤ other.revision := by
        rcases h with rfl | hlt
        · exact Nat.le_refl _
        · omega
      refine .inr ?_
      rw [Item.revision_withRevision, nextRevision]
      simp only [Option.map_some, Option.getD_some]
      omega

end Precedes

namespace Crew

variable {ι γ κ : Type}

/-- Who has written, in the order of the puts. -/
def writers (log : List (Note ι)) : List ι := (log.filter fun n => isPut n.exchange).map (·.who)

theorem writers_append (log more : List (Note ι)) :
    writers (log ++ more) = writers log ++ writers more := by
  rw [writers, List.filter_append, List.map_append]
  rfl

theorem writers_singleton (n : Note ι) :
    writers [n] = if isPut n.exchange = true then [n.who] else [] := by
  cases h : isPut n.exchange with
  | true => simp [writers, h]
  | false => simp [writers, h]

theorem writers_note {c : Crew ι γ κ} (s : c.State) (i : ι) (x : Option Exchange) :
    writers (s.note i x) = writers s.log ++ if x.any isPut = true then [i] else [] := by
  cases x with
  | none => simp [State.note]
  | some x => rw [State.note, writers_append, writers_singleton, Option.any_some]

section

variable {c : Crew ι γ κ} [DecidableEq ι] [DecidableEq γ] {flow : Moment → Moment → Prop}
  {s s' s'' : c.State}

theorem writers_after (s : c.State) (i : ι) (r : Turned κ (c.Phase i)) :
    writers (s.after i r).log = writers s.log ++ if r.exchange.any isPut = true then [i] else [] :=
  writers_note s i r.exchange

theorem isPut_of_quiet {i : ι} {r : Turned κ (c.Phase i)}
    (h : writers (s.after i r).log = writers s.log) : r.exchange.any isPut = false := by
  cases hput : r.exchange.any isPut with
  | false => rfl
  | true =>
    rw [writers_after, if_pos hput] at h
    simp at h

theorem put_of_writers {i j : ι} {r : Turned κ (c.Phase i)}
    (h : writers (s.after i r).log = writers s.log ++ [j]) :
    r.exchange.any isPut = true ∧ i = j := by
  rw [writers_after] at h
  split at h
  · next hput => exact ⟨hput, by simpa using h⟩
  · simp at h

theorem writers_grow (hs : c.Reachable flow s s') : writers s.log <+: writers s'.log := by
  obtain ⟨more, hmore⟩ := log_prefix hs
  rw [← hmore, writers_append]
  exact List.prefix_append _ _

theorem writers_between (hs : c.Reachable flow s s') (hs' : c.Reachable flow s' s'')
    (h : writers s''.log = writers s.log) : writers s'.log = writers s.log := by
  have hle := (writers_grow hs).length_le
  have hle' := (writers_grow hs').length_le
  rw [h] at hle'
  exact ((writers_grow hs).eq_of_length (by omega)).symm

/-- A step that adds a writer is the turn in which it puts. -/
theorem Step.put_inv (hs : c.Step flow s s') {i : ι}
    (h : writers s'.log = writers s.log ++ [i]) :
    ∃ p stimulus r, s.phase i = some p ∧
      (c.operation i).machine.turn? s.clock s.memory (s.cellOf i) p stimulus = some r ∧
      r.exchange.any isPut = true ∧ s' = s.after i r := by
  cases hs with
  | pass ht => simp at h
  | act hact =>
    obtain ⟨j, -, rfl⟩ | ⟨j, p, stimulus, r, hp, hr, rfl⟩ := State.act_cases hact
    · simp [State.settle] at h
    · obtain ⟨hput, rfl⟩ := put_of_writers h
      exact ⟨p, stimulus, r, hp, hr, hput, rfl⟩

end

variable [DecidableEq ι]

def lastRead (i : ι) (log : List (Note ι)) : Option (Option Item) :=
  ((log.filter (·.who = i)).filterMap fun n => readOf n.exchange).getLast?

theorem lastRead_append_of_ne {i : ι} {n : Note ι} (h : n.who ≠ i) (log : List (Note ι)) :
    lastRead i (log ++ [n]) = lastRead i log := by
  simp [lastRead, h]

theorem lastRead_append_read {i : ι} {n : Note ι} {read : Option Item} (h : n.who = i)
    (hread : readOf n.exchange = some read) (log : List (Note ι)) :
    lastRead i (log ++ [n]) = some read := by
  simp [lastRead, h, hread]

/-- A crew of updates on one table: where each carries its draft, and what it may write. -/
structure Drafting (c : Crew ι γ κ) (table : String) (schema : KeySchema) where
  key : ι → String
  draft? : (i : ι) → c.Phase i → Option Draft
  permits : ι → Moment → Draft → Prop
  keyed : schema.partitionKey ≠ revisionAttribute
  start (i : ι) (t : Moment) (k : κ) : draft? i ((c.operation i).start t k).2 = none
  /-- On a record with the key of the operation, it writes a record with that key. -/
  addressed {i : ι} {t : Moment} {d : Draft} (h : permits i t d)
    (hread : ∀ item, d.read = some item → schema.keyOf item = .ok (key i)) {k : String}
    (hk : schema.keyOf d.item = .ok k) : k = key i

namespace Drafting

variable {c : Crew ι γ κ} {table : String} {schema : KeySchema}

/-- The turns that can come next read, draft and write as they may. -/
def Obeys (D : c.Drafting table schema) (s : c.State) : Prop :=
  ∀ i p stimulus r, s.phase i = some p →
    (c.operation i).machine.turn? s.clock s.memory (s.cellOf i) p stimulus = some r →
    Effect table (D.key i) (D.permits i s.clock) s.memory (D.draft? i p) r.exchange r.memory
      (D.draft? i r.state)

structure Sound (D : c.Drafting table schema) (flow : Moment → Moment → Prop) (s : c.State) (i : ι)
    (d : Draft) : Prop where
  precedes : Precedes d.read (s.memory.item? table (D.key i))
  decided : ∃ t, Relation.ReflTransGen flow t s.clock ∧ D.permits i t d
  lastRead : lastRead i s.log = some d.read
  addressed : ∀ item, d.read = some item → schema.keyOf item = .ok (D.key i)

structure Coherent (D : c.Drafting table schema) (flow : Moment → Moment → Prop) (s : c.State) :
    Prop where
  keyedBy : s.memory.KeyedBy table schema
  sound : ∀ i p d, s.phase i = some p → D.draft? i p = some d → D.Sound flow s i d

variable {D : c.Drafting table schema} {flow : Moment → Moment → Prop} {s s' : c.State}

theorem coherent_initial (D : c.Drafting table schema) (flow : Moment → Moment → Prop) {m : Memory}
    (h : m.KeyedBy table schema) (t : Moment) (cells : γ → κ) :
    D.Coherent flow (c.initial m t cells) where
  keyedBy := h
  sound i p d hp := by cases hp

/-- A put that succeeds goes under the key of its operation, and replaces what was read. -/
theorem Sound.replaces {i : ι} {d : Draft} (h : D.Sound flow s i d)
    (hs : s.memory.KeyedBy table schema) {k : String}
    (hkey : ∀ schema, s.memory.KeyedBy table schema → schema.keyOf d.written = .ok k)
    (hunchanged : (Condition.unchanged d.read).holds (s.memory.item? table k) = true) :
    k = D.key i ∧ s.memory.item? table (D.key i) = d.read := by
  obtain ⟨t, -, hpermits⟩ := h.decided
  have hk := hkey schema hs
  rw [Draft.written, KeySchema.keyOf_withRevision D.keyed] at hk
  have heq : k = D.key i := D.addressed hpermits h.addressed hk
  rw [heq] at hunchanged
  exact ⟨heq, h.precedes.eq_of_unchanged hunchanged⟩

theorem Sound.pass {i : ι} {d : Draft} (h : D.Sound flow s i d) {t : Moment}
    (ht : flow s.clock t) : D.Sound flow { s with clock := t } i d where
  precedes := h.precedes
  decided := by
    obtain ⟨t₀, hflow, hpermits⟩ := h.decided
    exact ⟨t₀, hflow.tail ht, hpermits⟩
  lastRead := h.lastRead
  addressed := h.addressed

theorem lastRead_note_of_ne {i j : ι} (hne : i ≠ j) (s : c.State) (x : Option Exchange) :
    Crew.lastRead j (s.note i x) = Crew.lastRead j s.log := by
  cases x with
  | none => rfl
  | some x => exact lastRead_append_of_ne hne _

structure Replaces (D : c.Drafting table schema) (flow : Moment → Moment → Prop) (s s' : c.State)
    (i : ι) (d : Draft) : Prop where
  sound : D.Sound flow s i d
  read : s.memory.item? table (D.key i) = d.read
  puts : s.memory.Puts table (D.key i) d.written s'.memory
  log : s'.log = s.log ++ [⟨i, s.clock, d.put table⟩]

theorem Replaces.revision {i : ι} {d : Draft} (h : D.Replaces flow s s' i d) :
    s'.memory.revisionAt table (D.key i) = s.memory.revisionAt table (D.key i) + 1 := by
  rw [Memory.revisionAt, Memory.revisionAt, h.puts.self, h.read, Option.map_some, Option.getD_some,
    Draft.written, Item.revision_withRevision, nextRevision]

theorem Replaces.writers {i : ι} {d : Draft} (h : D.Replaces flow s s' i d) :
    Crew.writers s'.log = Crew.writers s.log ++ [i] := by
  rw [h.log, writers_append, writers_singleton]
  rfl

variable [DecidableEq γ]

theorem Sound.after {i j : ι} {d : Draft} (h : D.Sound flow s j d) (hne : i ≠ j)
    (hc : D.Coherent flow s) {p : c.Phase i} {r : Turned κ (c.Phase i)} (hp : s.phase i = some p)
    {permits : Draft → Prop} (heffect : Effect table (D.key i) permits s.memory (D.draft? i p)
      r.exchange r.memory (D.draft? i r.state)) : D.Sound flow (s.after i r) j d where
  precedes := by
    change Precedes d.read (r.memory.item? table (D.key j))
    cases heffect with
    | idle hafter hm hx => exact hm ▸ h.precedes
    | read d' hafter hm hx hread hpermits => exact hm ▸ h.precedes
    | wrote d' k hbefore hafter hx hkey hunchanged hputs =>
      obtain ⟨rfl, hread⟩ := (hc.sound i p d' hp hbefore).replaces hc.keyedBy hkey hunchanged
      -- under the same key the new record counts one write more than the one that `d` precedes
      by_cases hkeys : D.key j = D.key i
      · have hprecedes := h.precedes
        rw [hkeys, hread] at hprecedes
        rw [hkeys, hputs.self]
        exact hprecedes.withRevision d'.item
      · rw [hputs.others table (D.key j) (.inr hkeys)]
        exact h.precedes
  decided := h.decided
  lastRead := (lastRead_note_of_ne hne s r.exchange).trans h.lastRead
  addressed := h.addressed

theorem Coherent.after (h : D.Coherent flow s) {i : ι} {p : c.Phase i} {r : Turned κ (c.Phase i)}
    (hp : s.phase i = some p) (heffect : Effect table (D.key i) (D.permits i s.clock) s.memory
      (D.draft? i p) r.exchange r.memory (D.draft? i r.state)) : D.Coherent flow (s.after i r) := by
  refine ⟨?_, fun j q d hq hd => ?_⟩
  · change r.memory.KeyedBy table schema
    cases heffect with
    | idle hafter hm hx => exact hm ▸ h.keyedBy
    | read d hafter hm hx hread hpermits => exact hm ▸ h.keyedBy
    | wrote d k hbefore hafter hx hkey hunchanged hputs => exact hputs.keyedBy _ _ h.keyedBy
  · by_cases hji : j = i
    · subst hji
      rw [State.after_phase_self] at hq
      cases hq
      cases heffect with
      | idle hafter hm hx => cases hafter.symm.trans hd
      | wrote d' k hbefore hafter hx hkey hunchanged hputs => cases hafter.symm.trans hd
      | read d' hafter hm hx hread hpermits =>
        cases hafter.symm.trans hd
        refine ⟨?_, ⟨s.clock, .refl, hpermits⟩, ?_, fun item hitem => ?_⟩
        · change Precedes d.read (r.memory.item? table (D.key j))
          rw [hm, hread]
          exact .refl _
        · change Crew.lastRead j (s.note j r.exchange) = some d.read
          rw [hx]
          exact lastRead_append_read (n := ⟨j, s.clock, _⟩) rfl rfl _
        · exact Memory.keyOf_item? h.keyedBy (hread.symm.trans hitem)
    · rw [State.after_phase_of_ne _ hji] at hq
      exact (h.sound j q d hq hd).after (Ne.symm hji) h hp heffect

theorem Coherent.start (h : D.Coherent flow s) (i : ι) :
    D.Coherent flow (s.settle i ((c.operation i).start s.clock (s.cellOf i)).1
      ((c.operation i).start s.clock (s.cellOf i)).2) := by
  refine ⟨h.keyedBy, fun j q d hq hd => ?_⟩
  by_cases hji : j = i
  · subst hji
    rw [State.settle_phase_self] at hq
    cases hq
    cases (D.start ..).symm.trans hd
  · rw [State.settle_phase_of_ne _ hji] at hq
    have hsound := h.sound j q d hq hd
    exact ⟨hsound.precedes, hsound.decided, hsound.lastRead, hsound.addressed⟩

theorem Coherent.step (h : D.Coherent flow s) (ho : D.Obeys s) (hs : c.Step flow s s') :
    D.Coherent flow s' := by
  cases hs with
  | pass ht => exact ⟨h.keyedBy, fun i p d hp hd => (h.sound i p d hp hd).pass ht⟩
  | act hact =>
    obtain ⟨i, -, rfl⟩ | ⟨i, p, stimulus, r, hp, hr, rfl⟩ := State.act_cases hact
    · exact h.start i
    · exact h.after hp (ho i p stimulus r hp hr)

theorem Coherent.run (h : D.Coherent flow s) (ho : ∀ s, D.Obeys s)
    (hs : c.Reachable flow s s') : D.Coherent flow s' := by
  induction hs with
  | refl => exact h
  | tail _ hstep ih => exact ih.step (ho _) hstep

/-- What a step does to the records: nothing, or one put replaces what its operation read. -/
theorem Coherent.step_cases (h : D.Coherent flow s) (ho : D.Obeys s) (hs : c.Step flow s s') :
    (s'.memory = s.memory ∧ writers s'.log = writers s.log) ∨
      ∃ i d, D.Replaces flow s s' i d := by
  cases hs with
  | pass ht => exact .inl ⟨rfl, rfl⟩
  | act hact =>
    obtain ⟨i, -, rfl⟩ | ⟨i, p, stimulus, r, hp, hr, rfl⟩ := State.act_cases hact
    · exact .inl ⟨rfl, rfl⟩
    · have hwriters := writers_after s i r
      cases ho i p stimulus r hp hr with
      | idle hafter hm hx =>
        refine .inl ⟨hm, hwriters.trans ?_⟩
        simp [hx]
      | read d hafter hm hx hread hpermits =>
        refine .inl ⟨hm, hwriters.trans ?_⟩
        simp [hx, isPut]
      | wrote d k hbefore hafter hx hkey hunchanged hputs =>
        have hsound := h.sound i p d hp hbefore
        obtain ⟨rfl, hread⟩ := hsound.replaces h.keyedBy hkey hunchanged
        refine .inr ⟨i, d, hsound, hread, hputs, ?_⟩
        change s.note i r.exchange = _
        rw [hx, State.note]

/-- The count of writes of a record goes up by one with each put under its key. -/
theorem revisionAt_run (D : c.Drafting table schema) (ho : ∀ s, D.Obeys s) {m₀ : Memory}
    (hm : m₀.KeyedBy table schema) {t₀ : Moment} {cells : γ → κ}
    (hs : c.Reachable flow (c.initial m₀ t₀ cells) s) (key : String) :
    s.memory.revisionAt table key = m₀.revisionAt table key +
      ((writers s.log).filter fun i => D.key i = key).length := by
  have hinitial := D.coherent_initial flow hm t₀ cells
  induction hs with
  | refl => rfl
  | tail hrun hstep ih =>
    rcases (hinitial.run ho hrun).step_cases (ho _) hstep with ⟨hmemory, hwriters⟩ | ⟨i, d, hr⟩
    · rw [hmemory, hwriters]
      exact ih
    · rw [hr.writers, List.filter_append, List.length_append, ← Nat.add_assoc, ← ih]
      by_cases hkey : D.key i = key
      · subst hkey
        simpa using hr.revision
      · rw [Memory.revisionAt, hr.puts.others table key (.inr (Ne.symm hkey))]
        simp [Memory.revisionAt, hkey]

end Drafting

end Crew

end MigrationLedger
