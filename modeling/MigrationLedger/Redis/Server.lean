import MigrationLedger.Redis.Keys
import MigrationLedger.Redis.Script

/-! A Redis server as its clients see it: a key space of texts, commands and replies, transactions,
one script, and faults that spoil single commands. It keeps a log of what it received. -/

namespace MigrationLedger.Redis

inductive Command where
  | exists (key : String)
  | get (key : String)
  | mget (keys : List String)
  /-- Sets a key that does not exist yet. -/
  | setNew (key value : String)
  | scan (cursor : Nat) (pattern : String) (count : Nat)
  | evaluate (tableKey payload stem condition : String)
  | loadScript
  | multi
  | exec
  deriving DecidableEq, Repr

/-- The command as it is received, the digest of the script left out. -/
def Command.words : Command → List String
  | .exists key => ["EXISTS", key]
  | .get key => ["GET", key]
  | .mget keys => "MGET" :: keys
  | .setNew key value => ["SET", key, value, "NX"]
  | .scan cursor pattern count =>
    ["SCAN", toString cursor, "MATCH", pattern, "COUNT", toString count]
  | .evaluate tableKey payload stem condition =>
    ["EVALSHA", "1", tableKey, payload, stem, condition]
  | .loadScript => ["SCRIPT", "LOAD"]
  | .multi => ["MULTI"]
  | .exec => ["EXEC"]

def Command.name (c : Command) : String := c.words.headD ""

inductive Reply where
  | nil
  | status
  | integer (n : Nat)
  | bulk (text : String)
  | texts (items : List (Option String))
  | page (next : Nat) (keys : List String)
  | error (text : String)
  /-- No reply: the connection was closed. -/
  | closed
  deriving DecidableEq, Repr

inductive Misbehaviour where
  | error (text : String)
  | close
  | bulk (text : String)
  deriving DecidableEq, Repr

/-- Spoils the next command of a name. -/
structure Fault where
  on : String
  act : Misbehaviour
  deriving DecidableEq, Repr

/-- How a server goes through its keys: the cursor to go on from, zero after the last part, and the
keys looked at from a cursor on. The layout that this follows depends on all that was received. -/
abbrev Walk := (log : List Command) → (keys : Ordered String) → (cursor count : Nat) →
  Nat × List String

/-- `count` keys at a time, in their order. -/
def Walk.inOrder : Walk := fun _ keys cursor count =>
  (if keys.size ≤ cursor + count then 0 else cursor + count,
    ((keys.entries.drop cursor).take count).map (·.1))

structure Server where
  keys : Ordered String := {}
  walk : Walk := .inOrder
  scriptLoaded : Bool := true
  faults : List Fault := []
  /-- The commands received, the latest first. -/
  log : List Command := []
  /-- Whether an error other than that of a missing script was answered, or a connection closed. -/
  troubled : Bool := false

def firstWord (text : String) : String := String.ofList (text.toList.takeWhile (· ≠ ' '))

namespace Server

def setKey (s : Server) (key : String) : Option String → Server
  | some value => { s with keys := s.keys.insert key value }
  | none => { s with keys := s.keys.erase key }

/-- A part of the keys, of which those that match are shown. -/
def scan (s : Server) (cursor : Nat) (pattern : String) (count : Nat) : Reply :=
  let (next, found) := s.walk s.log s.keys cursor count
  .page next (found.filter (matchesPattern pattern))

def missingScript : String := "NOSCRIPT No matching script."

/-- What a command does when nothing spoils it. -/
def execute (s : Server) : Command → Reply × Server
  | .exists key => (.integer (if s.keys.contains key then 1 else 0), s)
  | .get key => ((s.keys.get? key).elim .nil .bulk, s)
  | .mget keys => (.texts (keys.map s.keys.get?), s)
  | .setNew key value =>
    if s.keys.contains key then (.nil, s) else (.status, s.setKey key (some value))
  | .scan cursor pattern count => (s.scan cursor pattern count, s)
  | .evaluate tableKey payload stem condition =>
    if !s.scriptLoaded then (.error missingScript, s)
    else match Script.run s.keys tableKey payload stem condition with
      | none => (.error "ERR script", s)
      | some outcome =>
        (.bulk outcome.reply.compact,
          outcome.write.elim s fun (key, value) => s.setKey key (some value))
  | .loadScript => (.status, { s with scriptLoaded := true })
  | .multi | .exec => (.status, s)

/-- Takes the first fault for commands of a name. -/
def takeFault (name : String) : List Fault → Option (Misbehaviour × List Fault)
  | [] => none
  | f :: fs =>
    if f.on = name then some (f.act, fs)
    else (takeFault name fs).map fun (act, fs) => (act, f :: fs)

/-- Notes trouble: any error but that of a missing script. -/
def note (s : Server) : Reply → Server
  | .error text => { s with troubled := s.troubled || firstWord text != "NOSCRIPT" }
  | .closed => { s with troubled := true }
  | _ => s

/-- Receives a command: the log grows, and a fault may spoil it. -/
def receive (s : Server) (c : Command) (run : Server → Reply × Server) : Reply × Server :=
  let s := { s with log := c :: s.log }
  let (reply, s) : Reply × Server := match takeFault c.name s.faults with
    | none => run s
    | some (act, faults) =>
      let s := { s with faults }
      match act with
      | .error text => (.error text, s)
      | .close => (.closed, s)
      | .bulk text => (.bulk text, s)
  (reply, s.note reply)

def send (s : Server) (c : Command) : Reply × Server := s.receive c fun s => s.execute c

/-- Queues commands of a transaction: the replies are those to the queueing. After a closed
connection nothing more is received. -/
def queue (s : Server) : List Command → List Reply × Server
  | [] => ([], s)
  | c :: cs =>
    let (reply, s) := s.receive c fun s => (.status, s)
    if reply = .closed then ([reply], s)
    else
      let (replies, s) := queue s cs
      (reply :: replies, s)

/-- The replies of commands that only read. -/
def answers (s : Server) (cs : List Command) : List Reply := cs.map fun c => (s.execute c).1

end Server

end MigrationLedger.Redis
