/-! Names of the keys under which a Redis server holds tables and items, and the patterns that find
the items of a table. A pattern is a list of tokens; escaping makes a character stand for itself. -/

namespace MigrationLedger.Redis

def tableKey (space table : String) : String := space ++ ":table:" ++ table

/-- What the keys of a table's items have in common; the partition value follows. -/
def itemStem (space table : String) : String := tableKey space table ++ ":item:"

def itemKey (space table key : String) : String := itemStem space table ++ key

def escapeChar (c : Char) : List Char :=
  if c = '*' ∨ c = '?' ∨ c = '[' ∨ c = ']' ∨ c = '\\' then ['\\', c] else [c]

def escape (literal : String) : String := String.ofList (literal.toList.flatMap escapeChar)

/-- Matches the keys of all items of a table. -/
def itemPattern (space table : String) : String := escape (itemStem space table) ++ "*"

namespace Pattern

inductive Token where
  /-- Any run of characters, also an empty one. -/
  | run
  | any
  | exactly (c : Char)
  | oneOf (set : List Char)
  deriving DecidableEq, Repr

mutual

/-- The tokens of a pattern; none when it ends inside a set or an escape. -/
def tokens : List Char → Option (List Token)
  | [] => some []
  | '\\' :: c :: rest => (tokens rest).map (.exactly c :: ·)
  | '*' :: rest => (tokens rest).map (.run :: ·)
  | '?' :: rest => (tokens rest).map (.any :: ·)
  | '[' :: rest => setTokens [] rest
  | c :: rest => if c = '\\' then none else (tokens rest).map (.exactly c :: ·)

def setTokens (set : List Char) : List Char → Option (List Token)
  | [] => none
  | ']' :: rest => (tokens rest).map (.oneOf set :: ·)
  | c :: rest => setTokens (c :: set) rest

end

/-- Whether a predicate holds of some end of the text, the whole text and the empty one included. -/
def anySuffix (p : List Char → Bool) : List Char → Bool
  | [] => p []
  | c :: cs => p (c :: cs) || anySuffix p cs

def accepts : List Token → List Char → Bool
  | [], text => text.isEmpty
  | .run :: ts, text => anySuffix (accepts ts) text
  | _ :: _, [] => false
  | .any :: ts, _ :: text => accepts ts text
  | .exactly c :: ts, d :: text => c = d && accepts ts text
  | .oneOf set :: ts, d :: text => set.contains d && accepts ts text

end Pattern

def matchesPattern (pattern text : String) : Bool :=
  (Pattern.tokens pattern.toList).any fun ts => Pattern.accepts ts text.toList

end MigrationLedger.Redis
