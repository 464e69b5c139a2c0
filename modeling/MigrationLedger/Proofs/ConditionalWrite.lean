import MigrationLedger.Update
import MigrationLedger.Proofs.Crew
import MigrationLedger.Proofs.StoreCalls

/-! Updates turn by turn. Between its read and its put an update carries a draft; the put succeeds
only on a record that carries the same count of writes as the one that was read. -/

namespace MigrationLedger

/-- What is about to be written, and the record that it was decided on. -/
structure Draft where
  read : Option Item
  item : Item

namespace Draft

def written (d : Draft) : Item := d.item.withRevision (nextRevision d.read)

/-- The exchange by which a draft is written. -/
def put (d : Draft) (table : String) : Exchange :=
  ⟨.putItem table d.written (some (.unchanged d.read)), .ok ()⟩

end Draft

def isPut : Exchange → Bool
  | ⟨.putItem .., .ok _⟩ => true
  | _ => false

/-- The record that was read, if one was asked for and the store answered. -/
def readOf : Exchange → Option (Option Item)
  | ⟨.getItem .., .ok read⟩ => some read
  | _ => none

/-- What a turn means for the records of a table: nothing; one was read, and something is to be
written in its place; or that was written. -/
inductive Effect (table key : String) (permits : Draft → Prop) (m : Memory)
    (before : Option Draft) (x : Option Exchange) (m' : Memory) (after : Option Draft) : Prop where
  | idle (hafter : after = none) (hm : m' = m) (hx : x.any isPut = false)
  | read (d : Draft) (hafter : after = some d) (hm : m' = m)
      (hx : x = some ⟨.getItem table key, .ok d.read⟩) (hread : d.read = m.item? table key)
      (h : permits d)
  | wrote (d : Draft) (k : String) (hbefore : before = some d) (hafter : after = none)
      (hx : x = some (d.put table))
      (hkey : ∀ schema, m.KeyedBy table schema → schema.keyOf d.written = .ok k)
      (hunchanged : (Condition.unchanged d.read).holds (m.item? table k) = true)
      (hputs : m.Puts table k d.written m')

theorem Effect.mono {table key : String} {permits permits' : Draft → Prop} {m m' : Memory}
    {before after : Option Draft} {x : Option Exchange} (hp : ∀ d, permits d → permits' d)
    (h : Effect table key permits m before x m' after) :
    Effect table key permits' m before x m' after := by
  cases h with
  | idle hafter hm hx => exact .idle hafter hm hx
  | read d hafter hm hx hread h => exact .read d hafter hm hx hread (hp d h)
  | wrote d k hbefore hafter hx hkey hunchanged hputs =>
    exact .wrote d k hbefore hafter hx hkey hunchanged hputs

/-- A turn without a put leaves all records as they are. -/
theorem Effect.memory_eq {table key : String} {permits : Draft → Prop} {m m' : Memory}
    {before after : Option Draft} {x : Option Exchange}
    (h : Effect table key permits m before x m' after) (hx : x.any isPut = false) : m' = m := by
  cases h with
  | idle hafter hm hx' => exact hm
  | read d hafter hm hx' hread hpermits => exact hm
  | wrote d k hbefore hafter hx' hkey hunchanged hputs =>
    rw [hx'] at hx
    cases hx

namespace Update

variable {κ ε α : Type}

def Phase.draft? : Phase ε α → Option Draft
  | .writing _ read item _ => some ⟨read, item⟩
  | _ => none

def Permits (u : Update ε α) (t : Moment) (d : Draft) : Prop :=
  ∃ answer, u.decide t d.read = .write d.item answer

inductive Turn (u : Update ε α) (t : Moment) (m : Memory) :
    Phase ε α → Option Exchange → Memory → Phase ε α → Prop where
  | read {n : Nat} : Turn u t m (.reading n)
      (some ⟨.getItem u.table u.key, .ok (m.item? u.table u.key)⟩) m
      (u.afterRead t n (.ok (m.item? u.table u.key)))
  | unread {n : Nat} (fault : StoreFault) : Turn u t m (.reading n)
      (some ⟨.getItem u.table u.key, .error fault⟩) m (.done (.error (u.ofStore fault)))
  | wrote {n : Nat} {d : Draft} {answer : α} {k : String} {m' : Memory}
      (hkey : ∀ schema, m.KeyedBy u.table schema → schema.keyOf d.written = .ok k)
      (hunchanged : (Condition.unchanged d.read).holds (m.item? u.table k) = true)
      (hputs : m.Puts u.table k d.written m') :
      Turn u t m (.writing n d.read d.item answer) (some (d.put u.table)) m' (.done (.ok answer))
  | unwritten {n : Nat} {d : Draft} {answer : α} (fault : StoreFault) :
      Turn u t m (.writing n d.read d.item answer)
      (some ⟨.putItem u.table d.written (some (.unchanged d.read)), .error fault⟩) m
      (u.afterWrite n answer (.error fault))
  | resumed {n : Nat} : Turn u t m (.pausing n) none m (.reading n)

theorem turn_of_reply {u : Update ε α} {t : Moment} {m : Memory} {k : κ} {p : Phase ε α}
    {r : Turned κ (Phase ε α)} (h : u.machine.turn? t m k p .reply = some r) :
    r.cell = k ∧ u.Turn t m p r.exchange r.memory r.state := by
  cases p with
  | reading n =>
    have hget := m.perform_getItem t.wall u.table u.key
    rw [Machine.turn?] at h
    simp only [machine] at h
    cases h
    refine ⟨rfl, ?_⟩
    cases hx : m.perform t.wall (.getItem u.table u.key) with
    | mk x m' =>
      rw [hx] at hget
      obtain ⟨rfl, hread⟩ := hget
      cases x with
      | error fault => exact .unread fault
      | ok read =>
        rw [hread read rfl]
        exact .read
  | writing n read item answer =>
    rw [Machine.turn?] at h
    simp only [machine] at h
    cases h
    refine ⟨rfl, ?_⟩
    obtain ⟨fault, hx⟩ | ⟨key, m', hx, hkey, hholds, hputs⟩ := m.perform_putItem t.wall u.table
      (Draft.written ⟨read, item⟩) (.unchanged read)
    · rw [Draft.written] at hx
      rw [hx]
      exact .unwritten (d := ⟨read, item⟩) fault
    · rw [Draft.written] at hx
      rw [hx]
      exact .wrote (d := ⟨read, item⟩) hkey hholds hputs
  | pausing n => cases h
  | done answer => cases h

theorem turn_of_turn? {u : Update ε α} {t : Moment} {m : Memory} {k : κ} {p : Phase ε α}
    {stimulus : Stimulus} {r : Turned κ (Phase ε α)}
    (h : u.machine.turn? t m k p stimulus = some r) :
    r.cell = k ∧ u.Turn t m p r.exchange r.memory r.state := by
  cases stimulus with
  | reply => exact turn_of_reply h
  | refuse fault =>
    cases p with
    | reading n =>
      cases h
      exact ⟨rfl, .unread fault⟩
    | writing n read item answer =>
      cases h
      exact ⟨rfl, .unwritten (d := ⟨read, item⟩) fault⟩
    | pausing n => cases h
    | done answer => cases h
  | wake =>
    cases p with
    | pausing n =>
      cases h
      exact ⟨rfl, .resumed⟩
    | reading n => cases h
    | writing n read item answer => cases h
    | done answer => cases h
  | expire => cases h

theorem afterWrite_draft? (u : Update ε α) (n : Nat) (answer : α) (x : Except StoreFault Unit) :
    (u.afterWrite n answer x).draft? = none := by
  rcases x with fault | _
  · cases fault <;> rfl
  · rfl

theorem Turn.of_reading {u : Update ε α} {t : Moment} {m m' : Memory} {n : Nat}
    {x : Option Exchange} {p : Phase ε α} (h : u.Turn t m (.reading n) x m' p) :
    x = some ⟨.getItem u.table u.key, .ok (m.item? u.table u.key)⟩ ∨
      ∃ fault, p = .done (.error (u.ofStore fault)) := by
  cases h with
  | read => exact .inl rfl
  | unread fault => exact .inr ⟨fault, rfl⟩

theorem Turn.of_writing {u : Update ε α} {t : Moment} {m m' : Memory} {n : Nat}
    {read : Option Item} {item : Item} {answer : α} {x : Option Exchange} {p : Phase ε α}
    (h : u.Turn t m (.writing n read item answer) x m' p) :
    (x = some (Draft.put ⟨read, item⟩ u.table) ∧ p = .done (.ok answer)) ∨
      ∃ fault, x = some ⟨.putItem u.table (Draft.written ⟨read, item⟩) (some (.unchanged read)),
          .error fault⟩ ∧
        p = u.afterWrite n answer (.error fault) := by
  generalize hphase : Phase.writing n read item answer = before at h
  cases h with
  | wrote =>
    cases hphase
    exact .inl ⟨rfl, rfl⟩
  | unwritten fault =>
    cases hphase
    exact .inr ⟨fault, rfl, rfl⟩
  | read => cases hphase
  | unread => cases hphase
  | resumed => cases hphase

theorem Turn.effect {u : Update ε α} {t : Moment} {m m' : Memory} {p p' : Phase ε α}
    {x : Option Exchange} (h : u.Turn t m p x m' p') :
    Effect u.table u.key (u.Permits t) m p.draft? x m' p'.draft? := by
  cases h with
  | read =>
    cases hd : u.decide t (m.item? u.table u.key) with
    | stop answer =>
      rw [afterRead, hd]
      exact .idle rfl rfl rfl
    | write item answer =>
      rw [afterRead, hd]
      exact .read ⟨m.item? u.table u.key, item⟩ rfl rfl rfl rfl ⟨answer, hd⟩
  | unread fault => exact .idle rfl rfl rfl
  | @wrote n d answer k m' hkey hunchanged hputs =>
    exact .wrote d k rfl rfl rfl hkey hunchanged hputs
  | unwritten fault => exact .idle (afterWrite_draft? ..) rfl rfl
  | resumed => exact .idle rfl rfl rfl

/-- An update that succeeds only by writing puts in its last turn, and succeeds only then. -/
theorem Turn.put_iff_done {u : Update ε α} (hstop : ∀ t read a, u.decide t read ≠ .stop (.ok a))
    {t : Moment} {m m' : Memory} {p p' : Phase ε α} {x : Option Exchange}
    (h : u.Turn t m p x m' p') : x.any isPut = true ↔ ∃ a, p' = .done (.ok a) := by
  cases h with
  | read =>
    rw [afterRead]
    cases hd : u.decide t (m.item? u.table u.key) with
    | stop answer =>
      cases answer with
      | error e => simp [isPut]
      | ok a => exact absurd hd (hstop t _ a)
    | write item answer => simp [isPut]
  | unread fault => simp [isPut]
  | @wrote n d answer k m' hkey hunchanged hputs => simp [Draft.put, isPut]
  | unwritten fault => cases fault <;> simp [isPut, afterWrite]
  | resumed => simp

end Update

/-! ## Updates under a time limit -/

namespace Bounded

variable {κ ν σ ε α : Type} {finish : ν → κ → α → κ × α} {late : α}

def answer? : Bounded ν σ α → Option α
  | active _ _ _ => none
  | ended answer => some answer

theorem wraps (mc : Machine κ σ α) (finish : ν → κ → α → κ × α) (late : α) (note : ν)
    (limit : Span) :
    mc.Wraps (machine mc finish late) (.active note limit)
      fun _ => settle mc finish note limit where
  call s c resume h := by simp only [machine, h]
  rest s d resume h := by simp only [machine, h]
  done s a h := ⟨a, by simp only [machine, h]⟩

theorem turn_cases {mc : Machine κ σ α} {t : Moment} {m : Memory} {k : κ} {p : Bounded ν σ α}
    {stimulus : Stimulus} {r : Turned κ (Bounded ν σ α)}
    (h : (machine mc finish late).turn? t m k p stimulus = some r) :
    ∃ note limit inner, p = .active note limit inner ∧
      ((∃ q, mc.turn? t m k inner stimulus = some q ∧
          Machine.Inside (settle mc finish note limit) q r) ∨
        r.exchange = none ∧ r.memory = m ∧ r.cell = (finish note k late).1 ∧
          r.state = .ended (finish note k late).2) := by
  cases p with
  | ended answer => cases stimulus <;> cases h
  | active note limit inner =>
    refine ⟨note, limit, inner, rfl, ?_⟩
    by_cases hexpire : stimulus = .expire
    · subst hexpire
      rw [Machine.turn?] at h
      simp only [machine, Bounded.limit] at h
      split at h
      · cases h
        exact .inr ⟨rfl, rfl, rfl, rfl⟩
      · cases h
    · exact .inl ((wraps mc finish late note limit).turn_inner hexpire h)

theorem limit_turn {mc : Machine κ σ α} {t : Moment} {m : Memory} {k : κ} {p : Bounded ν σ α}
    {stimulus : Stimulus} {r : Turned κ (Bounded ν σ α)}
    (h : (machine mc finish late).turn? t m k p stimulus = some r) :
    r.state.limit = p.limit ∨ r.state.limit = none := by
  obtain ⟨note, limit, inner, rfl, ⟨q, -, hin⟩ | ⟨-, -, -, hs⟩⟩ := turn_cases h
  · rw [hin.state, settle]
    split
    · exact .inr rfl
    · exact .inl rfl
  · rw [hs]
    exact .inr rfl

section Update

variable {finish : ν → κ → Except ε α → κ × Except ε α} {late : Except ε α} {u : Update ε α}

def draft? {β : Type} : Bounded ν (Update.Phase ε α) β → Option Draft
  | active _ _ inner => inner.draft?
  | ended _ => none

theorem draft?_settle (note : ν) (limit : Span) (k : κ) (state : Update.Phase ε α) :
    (settle u.machine finish note limit (k, state)).2.draft? = state.draft? := by
  cases state <;> rfl

theorem update_turn {t : Moment} {m : Memory} {k : κ}
    {p : Bounded ν (Update.Phase ε α) (Except ε α)} {stimulus : Stimulus}
    {r : Turned κ (Bounded ν (Update.Phase ε α) (Except ε α))}
    (h : (machine u.machine finish late).turn? t m k p stimulus = some r) :
    ∃ note limit inner, p = .active note limit inner ∧
      ((∃ state, u.Turn t m inner r.exchange r.memory state ∧
          r.cell = (settle u.machine finish note limit (k, state)).1 ∧
          r.state = (settle u.machine finish note limit (k, state)).2) ∨
        r.exchange = none ∧ r.memory = m ∧ r.cell = (finish note k late).1 ∧
          r.state = .ended (finish note k late).2) := by
  obtain ⟨note, limit, inner, rfl, ⟨q, hq, hin⟩ | hlate⟩ := turn_cases h
  · obtain ⟨hcell, hturn⟩ := Update.turn_of_turn? hq
    rw [← hin.exchange, ← hin.memory] at hturn
    have hs := hin.state
    have hk := hin.cell
    rw [hcell] at hs hk
    exact ⟨note, limit, inner, rfl, .inl ⟨q.state, hturn, hk, hs⟩⟩
  · exact ⟨note, limit, inner, rfl, .inr hlate⟩

theorem effect {t : Moment} {m : Memory} {k : κ}
    {p : Bounded ν (Update.Phase ε α) (Except ε α)} {stimulus : Stimulus}
    {r : Turned κ (Bounded ν (Update.Phase ε α) (Except ε α))}
    (h : (machine u.machine finish late).turn? t m k p stimulus = some r) :
    Effect u.table u.key (u.Permits t) m p.draft? r.exchange r.memory r.state.draft? := by
  obtain ⟨note, limit, inner, rfl, ⟨state, hturn, -, hs⟩ | ⟨hx, hm, -, hs⟩⟩ := update_turn h
  · rw [hs, draft?_settle]
    exact hturn.effect
  · rw [hs]
    exact .idle rfl hm (by rw [hx]; rfl)

theorem put_iff_ended {late : Except ε Unit} {finish : ν → κ → Except ε Unit → κ × Except ε Unit}
    {u : Update ε Unit} (hfinish : ∀ n k a, (finish n k a).2 = a) (hlate : late ≠ .ok ())
    (hstop : ∀ t read a, u.decide t read ≠ .stop (.ok a)) {t : Moment} {m : Memory} {k : κ}
    {p : Bounded ν (Update.Phase ε Unit) (Except ε Unit)} {stimulus : Stimulus}
    {r : Turned κ (Bounded ν (Update.Phase ε Unit) (Except ε Unit))}
    (h : (machine u.machine finish late).turn? t m k p stimulus = some r) :
    r.exchange.any isPut = true ↔ r.state = .ended (.ok ()) := by
  obtain ⟨note, limit, inner, rfl, ⟨state, hturn, -, hs⟩ | ⟨hx, -, -, hs⟩⟩ := update_turn h
  · rw [hs, hturn.put_iff_done hstop]
    cases state with
    | done answer =>
      simp only [settle, Update.machine, hfinish, Update.Phase.done.injEq, Bounded.ended.injEq]
      constructor
      · rintro ⟨a, rfl⟩
        rfl
      · intro hok
        exact ⟨(), hok⟩
    | _ => simp [settle, Update.machine]
  · rw [hx, hs, hfinish]
    simp [hlate]

end Update

end Bounded

end MigrationLedger
