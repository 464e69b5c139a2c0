import MigrationLedger.Ledger
import MigrationLedger.Proofs.Drafting

/-! Saves at the same time. Whatever the order of their reads and puts, what is stored is as if the
saves that have written had run one after the other, in the order of their puts. -/

namespace MigrationLedger

namespace Entry

theorem canonical_merge (stored : Option Entry) (e : Entry) :
    (merge stored e).canonical = merge stored e.canonical := by
  cases stored <;> rfl

theorem timestamp_merge (stored : Option Entry) (e : Entry) :
    (merge stored e).timestamp = e.timestamp := by
  cases stored <;> rfl

/-- All that tells of a change but its identity is in `e` as in `w`. -/
structure DescribedBy (e w : Entry) : Prop where
  changeLogClass : e.changeLogClass = w.changeLogClass
  changeSetMethod : e.changeSetMethod = w.changeSetMethod
  state : e.state = w.state
  changeType : e.changeType = w.changeType
  timestamp : e.timestamp = w.timestamp
  executionMillis : e.executionMillis = w.executionMillis
  executionHostname : e.executionHostname = w.executionHostname
  errorTrace : e.errorTrace = w.errorTrace
  systemChange : e.systemChange = w.systemChange
  metadata : e.metadata = w.metadata

theorem describedBy_merge (stored : Option Entry) (e : Entry) :
    (merge stored e).DescribedBy e := by
  cases stored <;> exact ⟨rfl, rfl, rfl, rfl, rfl, rfl, rfl, rfl, rfl, rfl⟩

/-- What is stored for a merged entry reads back; metadata that is null counts as absent. -/
theorem ofItem_merged {e : Entry} (h : e.timestamp.IsValid) (stored : Option Entry) (value : Json) :
    ofItem (insertKey revisionAttribute value (merge stored e).toItem) =
      .ok (merge stored e.canonical) := by
  have hmerged : (merge stored e).timestamp.IsValid := by
    rw [timestamp_merge]
    exact h
  rw [ofItem_toItem hmerged, canonical_merge]

theorem partitionKey_ne : schema.partitionKey ≠ revisionAttribute := by decide

theorem keyOf_toItem {e : Entry} (h : e.changeId ≠ "") :
    schema.keyOf e.toItem = .ok e.changeId := by
  have hvalue : valueAt schema.partitionKey e.toItem = some (.str e.changeId) :=
    valueAt_toItem e "changeId"
  exact KeySchema.keyOf_of_valueAt hvalue h

theorem eq_changeId_of_keyOf {e : Entry} {key : String} (h : schema.keyOf e.toItem = .ok key) :
    key = e.changeId := by
  have hkey := KeySchema.keyOf_eq_ok h
  rw [valueAt_toItem] at hkey
  exact (Json.str.inj (Option.some.inj hkey)).symm

end Entry

namespace Memory

def Decodes (m : Memory) (table : String) : Prop :=
  ∀ id item, m.item? table id = some item → ∃ e, Entry.ofItem item = .ok e

def entryAt (m : Memory) (table id : String) : Option Entry :=
  (m.item? table id).bind fun item => (Entry.ofItem item).toOption

theorem map_ofItem {m : Memory} {table : String} (h : m.Decodes table) (id : String) :
    (m.item? table id).map Entry.ofItem = (m.entryAt table id).map .ok := by
  rw [entryAt]
  cases hitem : m.item? table id with
  | none => rfl
  | some item =>
    obtain ⟨e, he⟩ := h id item hitem
    simp [he, Except.toOption]

theorem entryAt_eq {m : Memory} {table id : String} {e : Option Entry}
    (h : (m.item? table id).map Entry.ofItem = e.map .ok) : m.entryAt table id = e := by
  rw [entryAt]
  cases hitem : m.item? table id with
  | none =>
    rw [hitem] at h
    cases e with
    | none => rfl
    | some e => cases h
  | some item =>
    rw [hitem] at h
    cases e with
    | none => cases h
    | some e =>
      rw [Option.bind_some, Option.some.inj h]
      rfl

end Memory

namespace Ledger

theorem permits_saving {l : Ledger} {e : Entry} {t : Moment} {d : Draft}
    (h : (l.saving e).Permits t d) :
    ∃ stored, d.read.map Entry.ofItem = stored.map .ok ∧
      d.item = (Entry.merge stored e).toItem := by
  obtain ⟨answer, h⟩ := h
  simp only [saving] at h
  split at h
  · next hread =>
    exact ⟨none, by rw [hread]; rfl, (Verdict.write.inj h).1.symm⟩
  · next item hread =>
    split at h
    · cases h
    · next stored hstored =>
      refine ⟨some stored, ?_, (Verdict.write.inj h).1.symm⟩
      rw [hread, Option.map_some, hstored, Option.map_some]

/-- On a record of the change itself, what is written has the id of the change. -/
theorem changeId_of_permits {l : Ledger} {e : Entry} {t : Moment} {d : Draft}
    (h : (l.saving e).Permits t d)
    (hread : ∀ item, d.read = some item → Entry.schema.keyOf item = .ok e.changeId) :
    ∃ stored, d.item = (Entry.merge stored e).toItem ∧
      (Entry.merge stored e).changeId = e.changeId := by
  obtain ⟨stored, hstored, hitem⟩ := permits_saving h
  refine ⟨stored, hitem, ?_⟩
  cases hold : d.read with
  | none =>
    rw [hold] at hstored
    cases stored with
    | none => rfl
    | some stored => cases hstored
  | some item =>
    rw [hold] at hstored
    cases stored with
    | none => rfl
    | some stored =>
      have hchange : stored.changeId = e.changeId :=
        Entry.changeId_of_ofItem (hread item hold) (Option.some.inj hstored)
      exact hchange

theorem saving_addressed {l : Ledger} {e : Entry} {t : Moment} {d : Draft}
    (h : (l.saving e).Permits t d)
    (hread : ∀ item, d.read = some item → Entry.schema.keyOf item = .ok e.changeId) {k : String}
    (hk : Entry.schema.keyOf d.item = .ok k) : k = e.changeId := by
  obtain ⟨stored, hitem, hchange⟩ := changeId_of_permits h hread
  rw [hitem] at hk
  rw [Entry.eq_changeId_of_keyOf hk, hchange]

theorem saving_ne_stop (l : Ledger) (e : Entry) (t : Moment) (read : Option Item) (a : Unit) :
    (l.saving e).decide t read ≠ .stop (.ok a) := by
  intro h
  simp only [saving] at h
  split at h
  · cases h
  · split at h
    · cases h
    · cases h

end Ledger

/-- A save: by which repository, of which entry, with how much time. -/
structure SaveCall (γ : Type) where
  repository : γ
  entry : Entry
  limit : Span
  dated : entry.timestamp.IsValid

variable {ι γ : Type}

abbrev savers (table : String) (options : γ → TableOptions) (calls : ι → SaveCall γ) :
    Crew ι γ Lifecycle where
  object i := (calls i).repository
  Phase _ := Bounded Unit (Update.Phase LedgerFault Unit) (Except LedgerFault Unit)
  Outcome _ := Except LedgerFault Unit
  operation i :=
    Ledger.save ⟨table, options (calls i).repository⟩ (calls i).entry (calls i).limit

namespace SaveOrder

variable {table : String} {options : γ → TableOptions} {calls : ι → SaveCall γ}

def update (table : String) (options : γ → TableOptions) (call : SaveCall γ) :
    Update LedgerFault Unit :=
  Ledger.saving ⟨table, options call.repository⟩ call.entry

theorem ofItem_written {call : SaveCall γ} {d : Draft} {stored : Option Entry}
    (h : d.item = (Entry.merge stored call.entry).toItem) :
    Entry.ofItem d.written = .ok (Entry.merge stored call.entry.canonical) := by
  rw [Draft.written, h, Item.withRevision, Entry.ofItem_merged call.dated]

theorem draft?_start (l : Ledger) (e : Entry) (after : Span) (t : Moment) (k : Lifecycle) :
    ((l.save e after).start t k).2.draft? = none := by
  simp only [Ledger.save, Ledger.guarded]
  split
  · rfl
  · split <;> rfl

def drafting (table : String) (options : γ → TableOptions) (calls : ι → SaveCall γ) :
    (savers table options calls).Drafting table Entry.schema where
  key i := (calls i).entry.changeId
  draft? _ := Bounded.draft?
  permits i t := (update table options (calls i)).Permits t
  keyed := Entry.partitionKey_ne
  start _ _ _ := draft?_start ..
  addressed := Ledger.saving_addressed

theorem obeys (s : (savers table options calls).State) :
    (drafting table options calls).Obeys s :=
  fun _ _ _ _ _ hr => Bounded.effect hr

theorem put_iff_ended {i : ι} {t : Moment} {m : Memory} {k : Lifecycle} {stimulus : Stimulus}
    {p : Bounded Unit (Update.Phase LedgerFault Unit) (Except LedgerFault Unit)}
    {r : Turned Lifecycle (Bounded Unit (Update.Phase LedgerFault Unit) (Except LedgerFault Unit))}
    (h : ((savers table options calls).operation i).machine.turn? t m k p stimulus = some r) :
    p ≠ .ended (.ok ()) ∧ (r.exchange.any isPut = true ↔ r.state = .ended (.ok ())) := by
  refine ⟨?_, Bounded.put_iff_ended (fun _ _ _ => rfl) (by simp) (Ledger.saving_ne_stop _ _) h⟩
  obtain ⟨note, limit, inner, rfl, -⟩ := Bounded.update_turn h
  simp

theorem start_ne_ended (i : ι) (t : Moment) (k : Lifecycle) :
    (((savers table options calls).operation i).start t k).2 ≠ Bounded.ended (.ok ()) := by
  simp only [savers, Ledger.save, Ledger.guarded]
  split
  · simp
  · split <;> simp

/-! ## Who has written -/

/-- The saves of a change that have written, in the order of their puts. -/
def writersOf (calls : ι → SaveCall γ) (id : String) (log : List (Crew.Note ι)) : List ι :=
  (Crew.writers log).filter fun i => (calls i).entry.changeId = id

/-- One save after the other; metadata that is null counts as absent. -/
def saved (calls : ι → SaveCall γ) (first : Option Entry) (order : List ι) : Option Entry :=
  order.foldl (fun stored i => some (Entry.merge stored (calls i).entry.canonical)) first

theorem saved_append (first : Option Entry) (a b : List ι) :
    saved calls first (a ++ b) = saved calls (saved calls first a) b :=
  List.foldl_append

theorem saved_some (e : Entry) (order : List ι) :
    ∃ e', saved calls (some e) order = some e' ∧ e'.changeId = e.changeId ∧
      e'.executionId = e.executionId ∧ e'.author = e.author := by
  induction order generalizing e with
  | nil => exact ⟨e, rfl, rfl, rfl, rfl⟩
  | cons i rest ih =>
    obtain ⟨e', he', hchange, hexecution, hauthor⟩ :=
      ih (Entry.merge (some e) (calls i).entry.canonical)
    exact ⟨e', he', hchange, hexecution, hauthor⟩

theorem saved_description {first : Option Entry} {order : List ι} {e : Entry}
    (h : saved calls first order = some e) :
    order = [] ∧ first = some e ∨
      ∃ i ∈ order, e.DescribedBy (calls i).entry.canonical := by
  rcases List.eq_nil_or_concat order with rfl | ⟨before, i, rfl⟩
  · exact .inl ⟨rfl, h⟩
  · rw [List.concat_eq_append, saved_append] at h
    have he : Entry.merge (saved calls first before) (calls i).entry.canonical = e :=
      Option.some.inj h
    exact .inr ⟨i, by simp, he ▸ Entry.describedBy_merge _ _⟩

theorem writersOf_append (calls : ι → SaveCall γ) (id : String) (log more : List (Crew.Note ι)) :
    writersOf calls id (log ++ more) = writersOf calls id log ++ writersOf calls id more := by
  rw [writersOf, Crew.writers_append, List.filter_append]
  rfl

/-! ## The invariant -/

variable [DecidableEq ι] {flow : Moment → Moment → Prop}

/-- Under every change id, what is stored is what the saves that have written leave one after the
other. -/
def Serial (calls : ι → SaveCall γ) (table : String) (m₀ : Memory)
    (s : (savers table options calls).State) : Prop :=
  ∀ id, (s.memory.item? table id).map Entry.ofItem =
    (saved calls (m₀.entryAt table id) (writersOf calls id s.log)).map .ok

variable {m₀ : Memory} {s s' : (savers table options calls).State}

theorem Serial.replace (h : Serial calls table m₀ s) {i : ι} {d : Draft}
    (hr : (drafting table options calls).Replaces flow s s' i d) : Serial calls table m₀ s' := by
  intro id
  have hwriters : writersOf calls id s'.log =
      writersOf calls id s.log ++ if (calls i).entry.changeId = id then [i] else [] := by
    rw [writersOf, hr.writers, List.filter_append, ← writersOf]
    by_cases hid : (calls i).entry.changeId = id <;> simp [hid]
  obtain ⟨hsound, hread, hputs, -⟩ := hr
  obtain ⟨t, -, hpermits⟩ := hsound.decided
  obtain ⟨stored, hstored, hitem⟩ := Ledger.permits_saving hpermits
  change s.memory.item? table (calls i).entry.changeId = d.read at hread
  rw [hwriters]
  by_cases hid : (calls i).entry.changeId = id
  · subst hid
    -- the record that the save read is what the saves before it have left
    have hbefore : saved calls (m₀.entryAt table (calls i).entry.changeId)
        (writersOf calls (calls i).entry.changeId s.log) = stored := by
      have hrecord := h (calls i).entry.changeId
      rw [hread, hstored] at hrecord
      exact (Option.map_injective (fun _ _ he => Except.ok.inj he) hrecord).symm
    have hself : s'.memory.item? table (calls i).entry.changeId = some d.written := hputs.self
    rw [if_pos rfl, saved_append, hbefore, hself, Option.map_some, ofItem_written hitem]
    rfl
  · rw [if_neg hid, List.append_nil, hputs.others table id (.inr (Ne.symm hid))]
    exact h id

variable [DecidableEq γ]

theorem Serial.run (h : Serial calls table m₀ s)
    (hc : (drafting table options calls).Coherent flow s)
    (hrun : (savers table options calls).Reachable flow s s') : Serial calls table m₀ s' := by
  induction hrun with
  | refl => exact h
  | tail hrun hstep ih =>
    rcases (hc.run obeys hrun).step_cases (obeys _) hstep with ⟨hm, hw⟩ | ⟨i, d, hr⟩
    · intro id
      rw [hm, writersOf, hw]
      exact ih id
    · exact ih.replace hr

/-! ## Saves that have returned -/

def Saved (s : (savers table options calls).State) (i : ι) : Prop :=
  s.phase i = some (Bounded.ended (.ok ()))

structure Once (s : (savers table options calls).State) : Prop where
  nodup : (Crew.writers s.log).Nodup
  mem_iff : ∀ i, i ∈ Crew.writers s.log ↔ Saved s i

omit [DecidableEq ι] [DecidableEq γ] in
theorem Once.initial (m₀ : Memory) (t₀ : Moment) (cells : γ → Lifecycle) :
    Once ((savers table options calls).initial m₀ t₀ cells) where
  nodup := List.nodup_nil
  mem_iff i := by
    constructor
    · intro h
      exact absurd h List.not_mem_nil
    · intro h
      cases h

theorem Once.start (h : Once s) {i : ι} (hp : s.phase i = none) :
    Once (s.settle i (((savers table options calls).operation i).start s.clock (s.cellOf i)).1
      (((savers table options calls).operation i).start s.clock (s.cellOf i)).2) := by
  refine ⟨h.nodup, fun j => ?_⟩
  change j ∈ Crew.writers s.log ↔ _
  rw [h.mem_iff j, Saved, Saved]
  by_cases hji : j = i
  · subst hji
    rw [hp, Crew.State.settle_phase_self]
    constructor
    · intro he
      cases he
    · intro he
      exact absurd (Option.some.inj he) (start_ne_ended j _ _)
  · rw [Crew.State.settle_phase_of_ne _ hji]

theorem Once.after (h : Once s) {i : ι}
    {p : Bounded Unit (Update.Phase LedgerFault Unit) (Except LedgerFault Unit)}
    {stimulus : Stimulus}
    {r : Turned Lifecycle (Bounded Unit (Update.Phase LedgerFault Unit) (Except LedgerFault Unit))}
    (hp : s.phase i = some p)
    (hr : ((savers table options calls).operation i).machine.turn? s.clock s.memory (s.cellOf i) p
      stimulus = some r) : Once (s.after i r) := by
  obtain ⟨hne, hput⟩ := put_iff_ended hr
  have hi : i ∉ Crew.writers s.log := by
    rw [h.mem_iff i, Saved, hp]
    exact fun he => hne (Option.some.inj he)
  have hwriters := Crew.writers_after s i r
  refine ⟨?_, fun j => ?_⟩
  · rw [hwriters]
    split
    · refine List.nodup_append.mpr ⟨h.nodup, List.nodup_singleton i, fun a ha b hb he => hi ?_⟩
      rw [← List.mem_singleton.mp hb, ← he]
      exact ha
    · rw [List.append_nil]
      exact h.nodup
  · rw [hwriters, List.mem_append, h.mem_iff j, Saved, Saved]
    by_cases hji : j = i
    · subst hji
      rw [Crew.State.after_phase_self, hp, Option.some.injEq, Option.some.injEq, ← hput]
      constructor
      · rintro (he | hmem)
        · exact absurd he hne
        · by_contra hquiet
          simp [hquiet] at hmem
      · intro hx
        exact .inr (by simp [hx])
    · rw [Crew.State.after_phase_of_ne _ hji]
      constructor
      · rintro (he | hmem)
        · exact he
        · split at hmem
          · exact absurd (List.mem_singleton.mp hmem) hji
          · exact absurd hmem List.not_mem_nil
      · exact .inl

theorem Once.run (h : Once s) (hrun : (savers table options calls).Reachable flow s s') :
    Once s' := by
  induction hrun with
  | refl => exact h
  | tail _ hstep ih =>
    cases hstep with
    | pass ht => exact ⟨ih.nodup, ih.mem_iff⟩
    | act hact =>
      obtain ⟨i, hp, rfl⟩ | ⟨i, p, stimulus, r, hp, hr, rfl⟩ := Crew.State.act_cases hact
      · exact ih.start hp
      · exact ih.after hp hr

/-! ## The order of the saves -/

/-- The saves have made of the record of one change what they make of it one by one. -/
structure InOrder (flow : Moment → Moment → Prop) (m₀ : Memory)
    (s : (savers table options calls).State) (id : String) : Prop where
  record : (s.memory.item? table id).map Entry.ofItem =
    (saved calls (m₀.entryAt table id) (writersOf calls id s.log)).map .ok
  revision : s.memory.revisionAt table id =
    m₀.revisionAt table id + (writersOf calls id s.log).length
  /-- The saves that have written are those that have returned without a failure, each once. -/
  nodup : (writersOf calls id s.log).Nodup
  returned : ∀ i, (calls i).entry.changeId = id → (i ∈ writersOf calls id s.log ↔ Saved s i)
  /-- Once there is a record, its identity stays. -/
  identity : ∀ e, s.memory.entryAt table id = some e →
    ∀ s', (savers table options calls).Reachable flow s s' →
      ∃ e', s'.memory.entryAt table id = some e' ∧ e'.changeId = e.changeId ∧
        e'.executionId = e.executionId ∧ e'.author = e.author
  /-- All but the identity of a record comes from one save, or from the first record. -/
  description : ∀ e, s.memory.entryAt table id = some e →
    writersOf calls id s.log = [] ∧ m₀.entryAt table id = some e ∨
      ∃ i ∈ writersOf calls id s.log, e.DescribedBy (calls i).entry.canonical

/-- Saves that run at the same time are serialized by their puts. -/
theorem saves_inOrder (options : γ → TableOptions) (calls : ι → SaveCall γ) {m₀ : Memory}
    (hkeyed : m₀.KeyedBy table Entry.schema) (hdecodes : m₀.Decodes table) (t₀ : Moment)
    (cells : γ → Lifecycle) {s : (savers table options calls).State}
    (hs : (savers table options calls).Reachable flow
      ((savers table options calls).initial m₀ t₀ cells) s) (id : String) :
    InOrder flow m₀ s id := by
  have hcoherent := (drafting table options calls).coherent_initial flow hkeyed t₀ cells
  have hserial : Serial calls table m₀ ((savers table options calls).initial m₀ t₀ cells) :=
    Memory.map_ofItem hdecodes
  have honce := (Once.initial m₀ t₀ cells).run hs
  have hserial' := hserial.run hcoherent hs
  have hentry := Memory.entryAt_eq (hserial' id)
  refine ⟨hserial' id, (drafting table options calls).revisionAt_run obeys hkeyed hs id,
    honce.nodup.filter _, fun i hi => ?_, fun e he s' hs' => ?_, fun e he => ?_⟩
  · rw [writersOf, List.mem_filter, honce.mem_iff i]
    simp [hi]
  · have hserial'' := hserial.run hcoherent (hs.trans hs')
    obtain ⟨rest, hrest⟩ := Crew.log_prefix hs'
    have hbefore := hentry.symm.trans he
    rw [Memory.entryAt_eq (hserial'' id), ← hrest, writersOf_append, saved_append, hbefore]
    exact saved_some e _
  · exact saved_description (hentry.symm.trans he)

/-- Two repositories save the same change, each in another execution. -/
def rivalCalls (second : Bool) : SaveCall Bool where
  repository := second
  entry :=
    { changeId := "create-users"
      executionId := if second then "run-2" else "run-1"
      author := "ops"
      changeLogClass := "Users"
      timestamp := ⟨0, 0⟩ }
  limit := .ofSeconds 30
  dated := show Instant.IsValid ⟨0, 0⟩ by decide

/-- Both find nothing; the second to put comes too late, waits, and merges into what it finds. -/
def rivalScript : Crew.Script Bool :=
  [(default, .start false), (default, .start true), (default, .turn false .reply),
    (default, .turn true .reply), (default, .turn true .reply), (default, .turn false .reply),
    (default, .turn false .wake), (default, .turn false .reply), (default, .turn false .reply)]

def rivalRun : Option (savers "changes" (fun _ => {}) rivalCalls).State :=
  ((savers "changes" (fun _ => {}) rivalCalls).initial
    (({} : Memory).createActive "changes" Entry.schema default) default fun _ => .ready).play?
    (fun _ _ => True) rivalScript

theorem saves_inOrder_of_rivals :
    ∃ s, rivalRun = some s ∧ writersOf rivalCalls "create-users" s.log = [true, false] ∧
      InOrder (fun _ _ => True) (({} : Memory).createActive "changes" Entry.schema default) s
        "create-users" := by
  have hsome : rivalRun.isSome = true := by decide +kernel
  obtain ⟨s, hs⟩ := Option.isSome_iff_exists.mp hsome
  refine ⟨s, hs, ?_, saves_inOrder (fun _ => {}) rivalCalls ?_ ?_ default (fun _ => .ready)
    (Crew.State.reachable_of_play hs) "create-users"⟩
  · have horder : rivalRun.map (fun s => writersOf rivalCalls "create-users" s.log) =
        some [true, false] := by decide +kernel
    rw [hs] at horder
    exact Option.some.inj horder
  · rintro t ⟨⟩
    rfl
  · rintro id item ⟨⟩

end SaveOrder

end MigrationLedger
