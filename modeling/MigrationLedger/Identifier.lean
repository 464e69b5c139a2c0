/-! Identifiers of runs and of lock owners. A part of each is drawn at random from an alphabet
without letters that are easily confused; here it is given from outside. -/

namespace MigrationLedger.Identifier

def alphabet : List Char := "0123456789abcdefghjkmnpqrstuvwxyz".toList

def randomLength : Nat := 16

def isRandomPart (s : String) : Bool := s.length = randomLength && s.toList.all alphabet.contains

/-- What stands for the random part where its letters do not matter. -/
def placeholder : String := "".pushn 'x' randomLength

def executionStem : String := "exec-"

def execution (random : String) : String := executionStem ++ random

/-- The name of the machine goes in front, if it is known. -/
def ownerStem (host : String) : String := if host.isEmpty then "" else host ++ "-"

def owner (host random : String) : String := ownerStem host ++ random

/-- Whether an identifier is the given stem and a random part. -/
def hasForm (stem id : String) : Bool :=
  stem.toList.isPrefixOf id.toList && isRandomPart (String.ofList (id.toList.drop stem.length))

end MigrationLedger.Identifier
