import MigrationLedger.Entry
import MigrationLedger.Process

/-! Reading all entries of a table, page by page. Of entries with one change id the first that a
page delivers stands. -/

namespace MigrationLedger

structure Listing where
  table : String
  pageSize : Nat
  deriving Repr

namespace Listing

inductive Phase where
  | reading (cursor : Option String) (entries : List Entry)
  | done (answer : Except LedgerFault (List Entry))

/-- Appends the entries of a page whose change ids are new. -/
def collect (entries : List Entry) : List Item → Except LedgerFault (List Entry)
  | [] => .ok entries
  | item :: items => do
    let e ← Entry.ofItem item
    if entries.any (·.changeId = e.changeId) then collect entries items
    else collect (entries ++ [e]) items

def afterPage (entries : List Entry) : Except StoreFault Page → Phase
  | .error fault => .done (.error (.ofStore fault))
  | .ok page =>
    match collect entries page.items, page.next with
    | .error fault, _ => .done (.error fault)
    | .ok entries, some cursor => .reading (some cursor) entries
    | .ok entries, none => .done (.ok entries)

def machine {κ : Type} (l : Listing) : Machine κ Phase (Except LedgerFault (List Entry)) where
  next
    | .reading cursor entries =>
      .call (.scan l.table cursor l.pageSize) fun _ k x => (k, afterPage entries x)
    | .done answer => .done answer

end Listing

end MigrationLedger
