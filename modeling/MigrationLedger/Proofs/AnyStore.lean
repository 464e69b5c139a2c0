import MigrationLedger.Proofs.ConditionalWrite

/-! One operation in time, with a store that may answer anything, whenever it likes, and with others
who may change the cell. Only the operation's own clock is kept: a rest is not overslept, and a time
limit is not overrun. -/

namespace MigrationLedger

/-- What ends a wait: any answer to whatever was asked, the end of a rest, or a time limit. -/
inductive Response where
  | answered (x : (c : Call) → Answer c)
  | woken
  | expired

/-- Where an operation stands, and since when. -/
structure Stand (κ σ : Type) where
  clock : Moment
  cell : κ
  state : σ
  since : Span

def Operation.begun {κ σ α : Type} (o : Operation κ σ α) (t : Moment) (k : κ) : Stand κ σ :=
  ⟨t, (o.start t k).1, (o.start t k).2, t.elapsed⟩

structure Reaction (κ σ : Type) where
  time : Moment
  cell : κ
  before : σ
  response : Response
  after : σ

namespace Machine

variable {κ σ α : Type}

def react? (mc : Machine κ σ α) (t : Moment) (k : κ) (s : σ) : Response → Option (κ × σ)
  | .answered x =>
    match mc.next s with
    | .call c resume => some (resume t k (x c))
    | _ => none
  | .woken =>
    match mc.next s with
    | .rest _ resume => some (resume t k)
    | _ => none
  | .expired => (mc.limit s).map fun _ => mc.expire t k s

/-- The reading of the clock that cannot pass in the state: when its rest ends, or its limit. -/
def IsDue (mc : Machine κ σ α) (since : Span) (s : σ) (due : Span) : Prop :=
  mc.limit s = some due ∨ ∃ d resume, mc.next s = .rest d resume ∧ due = since.add d

/-- Time goes by, and others change the cell. -/
inductive Bides (mc : Machine κ σ α) (v : Stand κ σ) : Stand κ σ → Prop where
  | intro (t : Moment) (k : κ) (hle : v.clock.elapsed ≤ t.elapsed)
      (hdue : ∀ due, mc.IsDue v.since v.state due → t.elapsed ≤ due) :
      Bides mc v { v with clock := t, cell := k }

/-- The operation does something: a rest has lasted as long as it should, a limit has come. -/
inductive Reacts (mc : Machine κ σ α) (v : Stand κ σ) : Reaction κ σ → Stand κ σ → Prop where
  | intro (e : Response) (k : κ) (s : σ)
      (hwoken : e = .woken → ∀ d resume, mc.next v.state = .rest d resume →
        v.since.add d ≤ v.clock.elapsed)
      (hexpired : e = .expired → ∀ l, mc.limit v.state = some l → l ≤ v.clock.elapsed)
      (h : mc.react? v.clock v.cell v.state e = some (k, s)) :
      Reacts mc v ⟨v.clock, v.cell, v.state, e, s⟩ ⟨v.clock, k, s, v.clock.elapsed⟩

/-- A run from `v`, with all that the operation has done on the way. -/
inductive Fares (mc : Machine κ σ α) (v : Stand κ σ) :
    List (Reaction κ σ) → Stand κ σ → Prop where
  | refl : Fares mc v [] v
  | bide {trail : List (Reaction κ σ)} {w w' : Stand κ σ} (h : Fares mc v trail w)
      (hw : mc.Bides w w') : Fares mc v trail w'
  | react {trail : List (Reaction κ σ)} {w w' : Stand κ σ} {r : Reaction κ σ}
      (h : Fares mc v trail w) (hw : mc.Reacts w r w') : Fares mc v (trail ++ [r]) w'

variable {mc : Machine κ σ α}

/-- An answer may come at any time. -/
theorem Reacts.answered {v : Stand κ σ} {x : (c : Call) → Answer c} {k : κ} {s : σ}
    (h : mc.react? v.clock v.cell v.state (.answered x) = some (k, s)) :
    mc.Reacts v ⟨v.clock, v.cell, v.state, .answered x, s⟩ ⟨v.clock, k, s, v.clock.elapsed⟩ := by
  refine .intro (.answered x) k s (fun hwoken => ?_) (fun hexpired => ?_) h
  · cases hwoken
  · cases hexpired

/-- A machine inside another reacts as the one that it is inside of. -/
theorem Wraps.react? {σ' α' : Type} {mc' : Machine κ σ' α'} {wrap : σ → σ'}
    {settle : Moment → κ × σ → κ × σ'} (hw : mc.Wraps mc' wrap settle) {e : Response}
    (he : e ≠ .expired) (t : Moment) (k : κ) (s : σ) :
    mc'.react? t k (wrap s) e = (mc.react? t k s e).map (settle t) := by
  cases hnext : mc.next s with
  | call c resume =>
    have hnext' := hw.call s c resume hnext
    cases e with
    | answered x => simp only [Machine.react?, hnext, hnext', Option.map_some]
    | woken => simp only [Machine.react?, hnext, hnext', Option.map_none]
    | expired => exact absurd rfl he
  | rest d resume =>
    have hnext' := hw.rest s d resume hnext
    cases e with
    | answered x => simp only [Machine.react?, hnext, hnext', Option.map_none]
    | woken => simp only [Machine.react?, hnext, hnext', Option.map_some]
    | expired => exact absurd rfl he
  | done a =>
    obtain ⟨a', hnext'⟩ := hw.done s a hnext
    cases e with
    | answered x => simp only [Machine.react?, hnext, hnext', Option.map_none]
    | woken => simp only [Machine.react?, hnext, hnext', Option.map_none]
    | expired => exact absurd rfl he

theorem Encloses.react? {σ' α' : Type} {mc' : Machine κ σ' α'} {wrap : σ → σ'}
    {settle : Moment → κ × σ → κ × σ'} (he : mc.Encloses mc' wrap settle) (t : Moment) (k : κ)
    (s : σ) (e : Response) :
    mc'.react? t k (wrap s) e = (mc.react? t k s e).map (settle t) := by
  cases e with
  | expired =>
    rw [Machine.react?, Machine.react?, he.limit, he.expire, Option.map_map]
    rfl
  | answered x => exact he.toWraps.react? (e := .answered x) nofun t k s
  | woken => exact he.toWraps.react? (e := .woken) nofun t k s

/-- What every reaction keeps of the state holds all along a run. -/
theorem Fares.keeps {P : σ → Prop} {v w : Stand κ σ} {trail : List (Reaction κ σ)}
    (hstep : ∀ {t k s e q}, P s → mc.react? t k s e = some q → P q.2) (hv : P v.state)
    (h : mc.Fares v trail w) : P w.state := by
  induction h with
  | refl => exact hv
  | bide _ hw ih =>
    cases hw
    exact ih
  | react _ hw ih =>
    cases hw with
    | intro e k s _ _ hreact => exact hstep ih hreact

/-- Where nothing is waited for, nothing happens. -/
theorem Fares.idle {v w : Stand κ σ}
    {trail : List (Reaction κ σ)} (hidle : ∀ t k e, mc.react? t k v.state e = none)
    (h : mc.Fares v trail w) : trail = [] ∧ w.state = v.state := by
  induction h with
  | refl => exact ⟨rfl, rfl⟩
  | bide _ hw ih =>
    cases hw
    exact ih
  | react _ hw ih =>
    cases hw with
    | intro e k s _ _ hreact =>
      rw [ih.2, hidle] at hreact
      cases hreact

/-- There is always a way to go on without the store: time can pass, or what is waited for has come.
-/
theorem exists_advance (mc : Machine κ σ α) (v : Stand κ σ) :
    (∃ w, mc.Bides v w ∧ v.clock.elapsed < w.clock.elapsed) ∨
      ∃ r w, mc.Reacts v r w ∧ (r.response = .woken ∨ r.response = .expired) := by
  by_cases hpast : ∃ due, mc.IsDue v.since v.state due ∧ due ≤ v.clock.elapsed
  · obtain ⟨due, hlimit | ⟨d, resume, hnext, rfl⟩, hle⟩ := hpast
    · have hreact : mc.react? v.clock v.cell v.state .expired =
          some ((mc.expire v.clock v.cell v.state).1, (mc.expire v.clock v.cell v.state).2) := by
        simp only [react?, hlimit, Option.map_some]
      refine .inr ⟨_, _, .intro .expired _ _ nofun (fun _ l hl => ?_) hreact, .inr rfl⟩
      cases hlimit.symm.trans hl
      exact hle
    · have hreact : mc.react? v.clock v.cell v.state .woken =
          some ((resume v.clock v.cell).1, (resume v.clock v.cell).2) := by
        simp only [react?, hnext]
      refine .inr ⟨_, _, .intro .woken _ _ (fun _ d' resume' hnext' => ?_) nofun hreact, .inl rfl⟩
      cases hnext.symm.trans hnext'
      exact hle
  · -- nothing is due yet, so a nanosecond can pass
    refine .inl ⟨_, .intro ⟨⟨v.clock.elapsed.nanos + 1⟩, v.clock.wall⟩ v.cell (Nat.le_succ _)
      fun due hdue => ?_, Nat.lt_succ_self _⟩
    exact Nat.lt_of_not_le fun hle => hpast ⟨due, hdue, hle⟩

end Machine

theorem Bounded.react?_active {κ ν σ α : Type} {mc : Machine κ σ α} {finish : ν → κ → α → κ × α}
    {late : α} {t : Moment} {k : κ} {note : ν} {limit : Span} {s : σ} {e : Response}
    {r : κ × Bounded ν σ α}
    (h : (machine mc finish late).react? t k (.active note limit s) e = some r) :
    (∃ q, mc.react? t k s e = some q ∧ r = settle mc finish note limit q) ∨
      r = ((finish note k late).1, .ended (finish note k late).2) := by
  by_cases he : e = .expired
  · subst he
    exact .inr (Option.some.inj h).symm
  · rw [(wraps mc finish late note limit).react? he] at h
    obtain ⟨q, hq, hr⟩ := Option.map_eq_some_iff.mp h
    exact .inl ⟨q, hq, hr.symm⟩

namespace Update

variable {κ ε α : Type} {u : Update ε α} {t : Moment} {k : κ} {p : Phase ε α} {e : Response}
  {q : κ × Phase ε α}

/-- A reaction comes from what was read, from the answer to a put, or from the end of a pause. -/
theorem react?_cases (h : u.machine.react? t k p e = some q) :
    q.1 = k ∧ ((∃ n x, q.2 = u.afterRead t n x) ∨ (∃ n answer x, q.2 = u.afterWrite n answer x) ∨
      ∃ n, q.2 = .reading n) := by
  cases e with
  | answered x =>
    cases p with
    | reading n =>
      cases h
      exact ⟨rfl, .inl ⟨n, _, rfl⟩⟩
    | writing n read item answer =>
      cases h
      exact ⟨rfl, .inr (.inl ⟨n, answer, _, rfl⟩)⟩
    | pausing n => cases h
    | done answer => cases h
  | woken =>
    cases p with
    | pausing n =>
      cases h
      exact ⟨rfl, .inr (.inr ⟨n, rfl⟩)⟩
    | _ => cases h
  | expired => cases h

theorem react?_cell (h : u.machine.react? t k p e = some q) : q.1 = k :=
  (react?_cases h).1

/-- An update fails with a fault of the store, or because it decides so. -/
theorem fault_of_react? (h : u.machine.react? t k p e = some q) {fault : ε}
    (hfault : q.2 = .done (.error fault)) :
    (∃ f, fault = u.ofStore f) ∨ ∃ read, u.decide t read = .stop (.error fault) := by
  rcases (react?_cases h).2 with ⟨n, x, hread⟩ | ⟨n, answer, x, hwrite⟩ | ⟨n, hwoken⟩
  · rw [hfault] at hread
    cases x with
    | error f =>
      cases hread
      exact .inl ⟨f, rfl⟩
    | ok read =>
      rw [afterRead] at hread
      split at hread
      · next hdecide =>
        cases hread
        exact .inr ⟨read, hdecide⟩
      · cases hread
  · rw [hfault] at hwrite
    cases x with
    | ok _ => cases hwrite
    | error f =>
      cases f with
      | unmet => cases hwrite
      | _ =>
        cases hwrite
        exact .inl ⟨_, rfl⟩
  · cases hfault.symm.trans hwoken

/-- Something is to be written only where it has just been decided on. -/
theorem permits_of_react? {d : Draft} (h : u.machine.react? t k p e = some q)
    (hd : q.2.draft? = some d) : u.Permits t d := by
  rcases (react?_cases h).2 with ⟨n, x, hread⟩ | ⟨n, answer, x, hwrite⟩ | ⟨n, hwoken⟩
  · rw [hread] at hd
    cases x with
    | error f => cases hd
    | ok read =>
      rw [afterRead] at hd
      split at hd
      · cases hd
      · next item answer hdecide =>
        cases hd
        exact ⟨answer, hdecide⟩
  · rw [hwrite, afterWrite_draft?] at hd
    cases hd
  · rw [hwoken] at hd
    cases hd

end Update

theorem Bounded.permits_of_react? {κ ν ε α : Type} {u : Update ε α}
    {finish : ν → κ → Except ε α → κ × Except ε α} {late : Except ε α} {t : Moment} {k : κ}
    {p : Bounded ν (Update.Phase ε α) (Except ε α)} {e : Response}
    {r : κ × Bounded ν (Update.Phase ε α) (Except ε α)} {d : Draft}
    (h : (machine u.machine finish late).react? t k p e = some r) (hd : r.2.draft? = some d) :
    u.Permits t d := by
  cases p with
  | active note limit inner =>
    rcases react?_active h with ⟨q, hq, rfl⟩ | rfl
    · rw [draft?_settle] at hd
      exact Update.permits_of_react? hq hd
    · cases hd
  | ended answer => cases e <;> cases h

end MigrationLedger
