/-! TOML documents. A table remembers how it came to be, because that decides what may still be
added to it: a table may have one header, and keys with dots extend only tables made by such keys.
-/

namespace MigrationLedger

inductive Toml.Origin where
  /-- Written in one piece, or under a header. -/
  | defined
  /-- Made on the way to a header. -/
  | implied
  /-- Made on the way to a value. -/
  | dotted
  deriving DecidableEq, Repr

inductive Toml where
  | text (s : String)
  | integer (n : Int)
  | float
  | flag (b : Bool)
  | moment
  | array (items : List Toml)
  /-- A table in one piece: nothing can be added to it. -/
  | closed (fields : List (String × Toml))
  | table (origin : Toml.Origin) (fields : List (String × Toml))
  /-- Tables under repeated headers, the latest first. -/
  | tables (items : List (List (String × Toml)))

namespace Toml

abbrev Fields : Type := List (String × Toml)

def replaceField (key : String) (value : Toml) : Fields → Fields
  | [] => [(key, value)]
  | (k, v) :: rest => if k = key then (k, value) :: rest else (k, v) :: replaceField key value rest

/-- Changes the table at the end of a path, making the tables that are missing on the way. With
`dotted`, tables that have a header of their own stop the way. -/
def update (dotted : Bool) (change : Origin → Fields → Option (Origin × Fields)) :
    List String → Origin → Fields → Option (Origin × Fields)
  | [], origin, fields => change origin fields
  | key :: path, origin, fields =>
    match fields.lookup key with
    | none => do
      let (o, fs) ← update dotted change path (if dotted then .dotted else .implied) []
      some (origin, replaceField key (.table o fs) fields)
    | some (.table o fs) =>
      if dotted ∧ o = .defined then none
      else do
        let (o, fs) ← update dotted change path o fs
        some (origin, replaceField key (.table o fs) fields)
    | some (.tables (latest :: earlier)) => do
      let (_, fs) ← update dotted change path .defined latest
      some (origin, replaceField key (.tables (fs :: earlier)) fields)
    | some _ => none

/-- Adds a value under a key with dots: `path` before the last dot, `key` after it. -/
def assign (path : List String) (key : String) (value : Toml) (origin : Origin) (fields : Fields) :
    Option (Origin × Fields) :=
  update true
    (fun o fs =>
      if (o == .dotted) == path.isEmpty then none
      else if (fs.lookup key).isSome then none
      else some (o, fs ++ [(key, value)]))
    path origin fields

/-- Opens the table of a header: a new one, or one that was made on the way to another header. -/
def openTable (path : List String) (key : String) (fields : Fields) : Option Fields :=
  (update false
    (fun o fs =>
      match fs.lookup key with
      | none => some (o, fs ++ [(key, .table .defined [])])
      | some (.table .implied inner) => some (o, replaceField key (.table .defined inner) fs)
      | some _ => none)
    path .defined fields).map (·.2)

/-- Opens one more table under a repeated header. -/
def openElement (path : List String) (key : String) (fields : Fields) : Option Fields :=
  (update false
    (fun o fs =>
      match fs.lookup key with
      | none => some (o, fs ++ [(key, .tables [[]])])
      | some (.tables items) => some (o, replaceField key (.tables ([] :: items)) fs)
      | some _ => none)
    path .defined fields).map (·.2)

/-- Adds a value to the table that the last header opened. -/
def assignUnder (header path : List String) (key : String) (value : Toml) (fields : Fields) :
    Option Fields :=
  (update false (fun o fs => assign path key value o fs) header .defined fields).map (·.2)

end Toml

end MigrationLedger
