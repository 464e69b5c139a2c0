import MigrationLedger.Attribute
import MigrationLedger.Redis.Server
import MigrationLedger.Table

/-! A store on a Redis server. Tables and items are texts under keys of their own, a put goes
through the script, and a read of an item is a transaction with the check that its table exists. -/

namespace MigrationLedger.Redis

/-- Stands for the words in which a server refuses a command. -/
def refusalText : String := "<redis>"

/-- Kinds of trouble with a server, by whether it passes. -/
inductive Trouble where
  | loading
  | tryAgain
  | clusterDown
  | connection
  | lasting
  deriving DecidableEq, Repr

namespace Trouble

/-- The kind that the first word of an error tells. -/
def ofCode : String → Trouble
  | "LOADING" => loading
  | "TRYAGAIN" => tryAgain
  | "CLUSTERDOWN" => clusterDown
  | _ => lasting

/-- The kind of a name by which clients call it. -/
def ofName : String → Trouble
  | "BusyLoadingError" => loading
  | "TryAgain" => tryAgain
  | "ClusterDown" => clusterDown
  | "IoError" => connection
  | _ => lasting

def fault (t : Trouble) (reason : String) : StoreFault :=
  if t = .lasting then .backend reason else .unavailable reason

end Trouble

/-- The fault of a reply that is none of those expected. -/
def faultOf : Reply → StoreFault
  | .error text => (Trouble.ofCode (firstWord text)).fault refusalText
  | .closed => Trouble.connection.fault refusalText
  | _ => .backend refusalText

/-- The values of named fields. A list gives them in the order of the names. -/
def fieldsOf? (names : List String) : Json → Option (List Json)
  | .obj fields => names.mapM fun name => valueAt name fields
  | .arr items => if items.length = names.length then some items else none
  | _ => none

def decodeSchema? (j : Json) : Option KeySchema :=
  match fieldsOf? ["partition_key", "attribute_type"] j with
  | some [key, type] => do
    let codes := [AttributeType.text, .number].map fun t => (t.code, t)
    some ⟨← key.asString?, ← (Attribute.variant codes type).toOption⟩
  | _ => none

def decodeDescription? (j : Json) : Option TableDescription :=
  match fieldsOf? ["name", "key_schema", "status", "created_at"] j with
  | some [name, schema, status, createdAt] => do
    let codes := [TableStatus.creating, .active].map fun t => (t.code, t)
    some ⟨← name.asString?, ← decodeSchema? schema, ← (Attribute.variant codes status).toOption,
      ← (Attribute.instant createdAt).toOption⟩
  | _ => none

def parseItem (text : String) : Except StoreFault Item :=
  match Json.read text with
  | some (.obj fields) => .ok fields
  | some _ => .error (.codec "stored item is not a JSON object")
  | none => .error (.codec "failed to parse stored item:")

def parseDescription (table text : String) : Except StoreFault TableDescription :=
  match (Json.read text).bind decodeDescription? with
  | some d => .ok d
  | none => .error (.codec s!"failed to parse descriptor of table '{table}':")

/-- A text, or nothing. -/
def textOf : Reply → Except StoreFault (Option String)
  | .nil => .ok none
  | .bulk text => .ok (some text)
  | .status => .ok (some "OK")
  | .integer n => .ok (some (toString n))
  | reply => .error (faultOf reply)

def flagOf : Reply → Except StoreFault Bool
  | .integer n => .ok (n ≠ 0)
  | .bulk "1" => .ok true
  | .bulk "0" | .nil => .ok false
  | reply => .error (faultOf reply)

def textsOf : Reply → Except StoreFault (List (Option String))
  | .texts items => .ok items
  | .bulk text => .ok [some text]
  | .nil => .ok []
  | reply => .error (faultOf reply)

/-- What the script's answer says about the put. -/
def putResult (table : String) (response : Json) : Except StoreFault Unit :=
  match (response.get? "error").bind Json.asString? with
  | none => .ok ()
  | some "condition_failed" => .error .unmet
  | some "table_not_found" => .error (.missingTable table)
  | some "missing_key" =>
    let key := ((response.get? "partition_key").bind Json.asString?).getD ""
    .error (.codec s!"item is missing partition key '{key}'")
  | some other => .error (.backend other)

def putReply (table : String) : Reply → Except StoreFault Unit
  | .bulk text =>
    match Json.read text with
    | some response => putResult table response
    | none => .error (.backend "failed to parse lua response:")
  | reply => .error (faultOf reply)

/-- Has the script run; a server that does not know it is given it first. -/
def invoke (s : Server) (c : Command) : Reply × Server :=
  let (reply, s) := s.send c
  match reply with
  | .error text =>
    if firstWord text = "NOSCRIPT" then
      let (loaded, s) := s.send .loadScript
      match loaded with
      | .error _ | .closed => (loaded, s)
      | _ => s.send c
    else (reply, s)
  | _ => (reply, s)

/-- Runs reading commands as one transaction. The first error among the replies counts; an error of
the transaction itself never passes. -/
def transact (s : Server) (cs : List Command) : Except StoreFault (List Reply) × Server :=
  let (queued, s) := s.queue (.multi :: cs)
  let spoiled := queued.find? fun r => match r with | .error _ => true | _ => false
  if queued.contains .closed then (.error (.unavailable refusalText), s)
  else
    let (ended, s) := s.receive .exec fun s => (.status, s)
    match spoiled, ended with
    | _, .closed => (.error (.unavailable refusalText), s)
    | some reply, _ => (.error (faultOf reply), s)
    | none, .status =>
      if queued.all (· = .status) then (.ok (s.answers cs), s)
      else (.error (.backend refusalText), s)
    | none, _ => (.error (.backend refusalText), s)

def readPage (s : Server) (keys : List String) : Except StoreFault (List Item) × Server :=
  if keys.isEmpty then (.ok [], s)
  else
    let (reply, s) := s.send (.mget keys)
    -- keys that were deleted in between have no text any more
    ((textsOf reply).bind fun texts => texts.reduceOption.mapM parseItem, s)

def scanFrom (space table : String) (s : Server) (cursor limit : Nat) :
    Except StoreFault Page × Server :=
  let (reply, s) := s.send (.scan cursor (itemPattern space table) (max limit 1))
  match reply with
  | .page next keys =>
    let (items, s) := readPage s keys
    (items.map fun items => ⟨items, if next = 0 then none else some (toString next)⟩, s)
  | reply => (.error (faultOf reply), s)

/-- Does what a call asks, in a key space, at the time `now`. -/
def perform (space : String) (now : Instant) (s : Server) : (c : Call) → Answer c × Server
  | .tableExists table =>
    let (reply, s) := s.send (.exists (tableKey space table))
    (flagOf reply, s)
  | .createTable table schema =>
    let description : TableDescription := ⟨table, schema, .active, now⟩
    let (reply, s) := s.send (.setNew (tableKey space table) description.json.compact)
    ((textOf reply).bind fun created =>
      if created.isSome then .ok () else .error (.tableExists table), s)
  | .describeTable table =>
    let (reply, s) := s.send (.get (tableKey space table))
    ((textOf reply).bind fun text => text.mapM (parseDescription table), s)
  | .putItem table item condition =>
    let (reply, s) := invoke s (.evaluate (tableKey space table) (Json.obj item).compact
      (itemStem space table) (condition.elim "" (·.json.compact)))
    (putReply table reply, s)
  | .getItem table key =>
    let (replies, s) := transact s [.exists (tableKey space table), .get (itemKey space table key)]
    (replies.bind fun
      | [found, text] => do
        if ← flagOf found then (← textOf text).mapM parseItem
        else .error (.missingTable table)
      | _ => .error (.backend refusalText), s)
  | .scan table cursor limit =>
    let (reply, s) := s.send (.exists (tableKey space table))
    match flagOf reply with
    | .error fault => (.error fault, s)
    | .ok false => (.error (.missingTable table), s)
    | .ok true =>
      match cursor with
      | none => scanFrom space table s 0 limit
      | some text =>
        match wordOf? text with
        | none => (.error (.backend s!"invalid scan cursor '{text}'"), s)
        | some n => scanFrom space table s n limit

end MigrationLedger.Redis
