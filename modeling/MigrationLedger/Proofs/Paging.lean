import MigrationLedger.Ledger
import MigrationLedger.Proofs.StoreCalls

/-! Reading a table page by page. Of all that the pages deliver, the first version of every change
stands; a page of the store in memory delivers what comes next in the order of the keys. -/

namespace MigrationLedger

namespace Listing

/-- What becomes of the entries that were read when one more is delivered. -/
def adopt (entries : List Entry) (e : Entry) : List Entry :=
  if entries.any (·.changeId = e.changeId) then entries else entries ++ [e]

/-- The first version of every change. -/
def firsts (delivered : List Entry) : List Entry :=
  delivered.eraseDupsBy fun a b => a.changeId == b.changeId

theorem collect_eq {items : List Item} {delivered : List Entry}
    (h : items.map Entry.ofItem = delivered.map .ok) (entries : List Entry) :
    collect entries items = .ok (delivered.foldl adopt entries) := by
  induction items generalizing entries delivered with
  | nil =>
    cases delivered with
    | nil => rfl
    | cons e rest => cases h
  | cons item items ih =>
    cases delivered with
    | nil => cases h
    | cons e rest =>
      obtain ⟨he, hrest⟩ := List.cons.inj h
      rw [collect, he, List.foldl_cons, adopt]
      by_cases hknown : entries.any (·.changeId = e.changeId) = true
      · simp only [bind, Except.bind, hknown, if_true]
        exact ih hrest entries
      · simp only [bind, Except.bind, hknown]
        exact ih hrest (entries ++ [e])

theorem foldl_adopt (entries delivered : List Entry) :
    delivered.foldl adopt entries =
      entries ++ firsts (delivered.filter fun e => !entries.any (·.changeId = e.changeId)) := by
  induction delivered generalizing entries with
  | nil => simp [firsts]
  | cons e rest ih =>
    rw [List.foldl_cons, ih, adopt]
    by_cases hknown : entries.any (·.changeId = e.changeId) = true
    · simp [hknown]
    · have hothers : ∀ d ∈ rest, (!(entries ++ [e]).any (·.changeId = d.changeId)) =
          (decide ((d.changeId == e.changeId) = false) &&
            !entries.any (·.changeId = d.changeId)) := by
        intro d _
        rw [List.any_append, Bool.not_or, Bool.and_comm]
        congr 1
        by_cases hid : d.changeId = e.changeId
        · simp [hid]
        · simp [hid, Ne.symm hid]
      rw [if_neg hknown, List.filter_congr hothers, List.filter_cons, if_pos (by simp [hknown]),
        firsts, firsts, List.eraseDupsBy_cons, List.filter_filter, List.append_assoc]
      rfl

theorem foldl_adopt_nil (delivered : List Entry) : delivered.foldl adopt [] = firsts delivered := by
  rw [foldl_adopt]
  simp

theorem foldl_adopt_fresh {entries delivered : List Entry}
    (hfresh : ∀ e ∈ entries, ∀ d ∈ delivered, e.changeId ≠ d.changeId)
    (hdistinct : delivered.Pairwise (·.changeId ≠ ·.changeId)) :
    delivered.foldl adopt entries = entries ++ delivered := by
  induction delivered generalizing entries with
  | nil => simp
  | cons d rest ih =>
    obtain ⟨hd, hrest⟩ := List.pairwise_cons.mp hdistinct
    have hnew : entries.any (·.changeId = d.changeId) = false := by
      simpa using fun e he => hfresh e he d (by simp)
    have hfresh' : ∀ e ∈ entries ++ [d], ∀ d' ∈ rest, e.changeId ≠ d'.changeId := by
      intro e he d' hd'
      rcases List.mem_append.mp he with he | he
      · exact hfresh e he d' (by simp [hd'])
      · rw [List.mem_singleton.mp he]
        exact hd d' hd'
    rw [List.foldl_cons, adopt, hnew, if_neg Bool.false_ne_true, ih hfresh' hrest,
      List.append_assoc, List.singleton_append]

end Listing

namespace StoredTable

/-- A page is the beginning of what is left, and all of it unless a next page begins after its last
key. -/
theorem page_split (t : StoredTable) (cursor : Option String) (limit : Nat) :
    ∃ here more, t.items.after cursor = here ++ more ∧
      (t.page cursor limit).items = here.map (·.2) ∧
      ((t.page cursor limit).next = none ∧ more = [] ∨
        ∃ front key item, here = front ++ [(key, item)] ∧
          (t.page cursor limit).next = some key) := by
  have hsplit := List.take_append_drop (max limit 1) (t.items.after cursor)
  refine ⟨_, _, hsplit.symm, rfl, ?_⟩
  simp only [page]
  cases hmore : (t.items.after cursor).drop (max limit 1) with
  | nil => exact .inl ⟨rfl, rfl⟩
  | cons a more =>
    refine .inr ?_
    rcases List.eq_nil_or_concat ((t.items.after cursor).take (max limit 1)) with
      hnone | ⟨front, ⟨key, item⟩, hfront⟩
    · -- a page holds at least one item, when one is left
      have hlength := congrArg List.length hmore
      have hlength' := congrArg List.length hnone
      simp only [List.length_drop, List.length_cons, List.length_take, List.length_nil]
        at hlength hlength'
      omega
    · rw [List.concat_eq_append] at hfront
      exact ⟨front, key, item, hfront, by simp [hfront]⟩

end StoredTable

/-! ## Any store -/

/-- One operation alone with a store of any kind ends with an answer. Its waits last as long as they
like. -/
inductive Machine.Ends {S κ σ α : Type} (mc : Machine κ σ α)
    (respond : S → (c : Call) → Answer c × S) : S → κ → σ → α → Prop where
  | done {store : S} {k : κ} {s : σ} {a : α} (h : mc.next s = .done a) : Ends mc respond store k s a
  | call {store : S} {k : κ} {s : σ} {a : α} {c : Call} {resume : Moment → κ → Answer c → κ × σ}
      (h : mc.next s = .call c resume) (t : Moment)
      (hrest : Ends mc respond (respond store c).2 (resume t k (respond store c).1).1
        (resume t k (respond store c).1).2 a) : Ends mc respond store k s a
  | rest {store : S} {k : κ} {s : σ} {a : α} {d : Span} {resume : Moment → κ → κ × σ}
      (h : mc.next s = .rest d resume) (t : Moment)
      (hrest : Ends mc respond store (resume t k).1 (resume t k).2 a) : Ends mc respond store k s a

/-- The pages that a store delivers from a cursor on, each where the one before it left off. -/
inductive Delivers {S : Type} (respond : S → (c : Call) → Answer c × S) (table : String)
    (limit : Nat) : S → Option String → List Page → Prop where
  | last {store store' : S} {cursor : Option String} {page : Page}
      (h : respond store (.scan table cursor limit) = (.ok page, store'))
      (hnext : page.next = none) : Delivers respond table limit store cursor [page]
  | more {store store' : S} {cursor : Option String} {page : Page} {key : String}
      {pages : List Page} (h : respond store (.scan table cursor limit) = (.ok page, store'))
      (hnext : page.next = some key)
      (hrest : Delivers respond table limit store' (some key) pages) :
      Delivers respond table limit store cursor (page :: pages)

namespace Ledger

variable {S : Type} {respond : S → (c : Call) → Answer c × S} {store store' : S} {l : Ledger}
  {after limit : Span} {cursor : Option String} {entries : List Entry} {page : Page}
  {answer : Except LedgerFault (List Entry)}

/-- In the middle of a listing. -/
abbrev listingAt (limit : Span) (cursor : Option String) (entries : List Entry) :
    Bounded Unit Listing.Phase (Except LedgerFault (List Entry)) :=
  .active () limit (.reading cursor entries)

theorem list_ended (k : Lifecycle) (a : Except LedgerFault (List Entry)) :
    (l.list after).machine.Ends respond store k (.ended a) answer ↔ answer = a := by
  constructor
  · intro h
    cases h with
    | done h =>
      cases h
      rfl
    | call h => cases h
    | rest h => cases h
  · rintro rfl
    exact .done rfl

/-- A listing ends with the last page, and goes on from the cursor of any other. -/
theorem list_page (k : Lifecycle) (hpage : respond store (.scan l.table cursor
      l.options.scanPageSize) = (.ok page, store')) {delivered : List Entry}
    (hdecodes : page.items.map Entry.ofItem = delivered.map .ok) :
    (l.list after).machine.Ends respond store k (listingAt limit cursor entries) answer ↔
      match page.next with
      | none => answer = .ok (delivered.foldl Listing.adopt entries)
      | some key => (l.list after).machine.Ends respond store' k
          (listingAt limit (some key) (delivered.foldl Listing.adopt entries)) answer := by
  have hcollect := Listing.collect_eq hdecodes entries
  have hresume : (l.list after).machine.Ends respond store k (listingAt limit cursor entries)
      answer ↔ (l.list after).machine.Ends respond store'
        (Bounded.settle (Listing.machine ⟨l.table, l.options.scanPageSize⟩)
          (fun _ k a => (observe k a, a)) () limit (k, Listing.afterPage entries (.ok page))).1
        (Bounded.settle (Listing.machine ⟨l.table, l.options.scanPageSize⟩)
          (fun _ k a => (observe k a, a)) () limit (k, Listing.afterPage entries (.ok page))).2
        answer := by
    constructor
    · intro h
      cases h with
      | done h => cases h
      | call h t hrest =>
        cases h
        rw [hpage] at hrest
        exact hrest
      | rest h => cases h
    · intro h
      refine .call rfl default ?_
      rw [hpage]
      exact h
  rw [hresume, Listing.afterPage, hcollect]
  cases page.next with
  | none => exact list_ended _ _
  | some key => exact Iff.rfl

theorem list_pages {pages : List Page} (k : Lifecycle)
    (hpages : Delivers respond l.table l.options.scanPageSize store cursor pages)
    {delivered : List Entry}
    (hdecodes : (pages.flatMap Page.items).map Entry.ofItem = delivered.map .ok) :
    (l.list after).machine.Ends respond store k (listingAt limit cursor entries) answer ↔
      answer = .ok (delivered.foldl Listing.adopt entries) := by
  induction hpages generalizing delivered entries with
  | last h hnext =>
    rw [List.flatMap_singleton] at hdecodes
    rw [list_page k h hdecodes, hnext]
  | more h hnext hrest ih =>
    rw [List.flatMap_cons, List.map_append] at hdecodes
    obtain ⟨here, there, rfl, hhere, hthere⟩ := List.append_eq_map_iff.mp hdecodes
    rw [list_page k h hhere.symm, hnext, List.foldl_append]
    exact ih hthere.symm

/-- A listing by a ledger that is ready answers with the first version of every change that the
pages deliver, in the order of the delivery. -/
theorem list_firsts (l : Ledger) (after : Span) (t : Moment) {pages : List Page}
    (hpages : Delivers respond l.table l.options.scanPageSize store none pages)
    {delivered : List Entry}
    (hdecodes : (pages.flatMap Page.items).map Entry.ofItem = delivered.map .ok) :
    (l.list after).machine.Ends respond store ((l.list after).start t .ready).1
      ((l.list after).start t .ready).2 answer ↔ answer = .ok (Listing.firsts delivered) := by
  rw [← Listing.foldl_adopt_nil]
  exact list_pages .ready hpages hdecodes

end Ledger

end MigrationLedger
