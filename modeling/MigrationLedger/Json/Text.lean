import MigrationLedger.Json

/-! JSON text: a compact form without blanks, and a form with one field or element a line. Both
write fields in the order in which the object lists them. -/

namespace MigrationLedger.Json

/-- Floating point numbers are positional from `1e-5` up to sixteen digits before the point. -/
def floatForm : Binary64.DecimalForm := ⟨-5, 15, 2⟩

def Number.text : Number → String
  | .nat n => toString n
  | .below n => "-" ++ toString (n + 1)
  | .float x => x.render floatForm

def hexDigit (n : Nat) : Char := Nat.digitChar n

/-- Quotes, backslashes and control characters are escaped and nothing else is. -/
def escapeChar (c : Char) : List Char :=
  if c = '"' then ['\\', '"']
  else if c = '\\' then ['\\', '\\']
  else if c = '\n' then ['\\', 'n']
  else if c = '\r' then ['\\', 'r']
  else if c = '\t' then ['\\', 't']
  else if c = '\x08' then ['\\', 'b']
  else if c = '\x0c' then ['\\', 'f']
  else if c.toNat < 32 then ['\\', 'u', '0', '0', hexDigit (c.toNat / 16), hexDigit (c.toNat % 16)]
  else [c]

def quotedText (s : String) : List Char :=
  '"' :: (s.toList.flatMap escapeChar ++ ['"'])

mutual

def compactChars : Json → List Char
  | .null => "null".toList
  | .bool b => (toString b).toList
  | .num n => n.text.toList
  | .str s => quotedText s
  | .arr [] => ['[', ']']
  | .arr (x :: xs) => '[' :: (compactChars x ++ compactItems xs)
  | .obj [] => ['{', '}']
  | .obj ((k, v) :: fs) => '{' :: (quotedText k ++ ':' :: (compactChars v ++ compactFields fs))

def compactItems : List Json → List Char
  | [] => [']']
  | x :: xs => ',' :: (compactChars x ++ compactItems xs)

def compactFields : List (String × Json) → List Char
  | [] => ['}']
  | (k, v) :: fs => ',' :: (quotedText k ++ ':' :: (compactChars v ++ compactFields fs))

end

def compact (j : Json) : String := String.ofList j.compactChars

def newline (depth : Nat) : List Char := '\n' :: List.replicate (2 * depth) ' '

mutual

def prettyChars (depth : Nat) : Json → List Char
  | .null => "null".toList
  | .bool b => (toString b).toList
  | .num n => n.text.toList
  | .str s => quotedText s
  | .arr [] => ['[', ']']
  | .arr (x :: xs) =>
    '[' :: (newline (depth + 1) ++ prettyChars (depth + 1) x ++ prettyItems depth xs)
  | .obj [] => ['{', '}']
  | .obj ((k, v) :: fs) =>
    '{' :: (newline (depth + 1) ++ quotedText k ++ ':' :: ' ' ::
      (prettyChars (depth + 1) v ++ prettyFields depth fs))

def prettyItems (depth : Nat) : List Json → List Char
  | [] => newline depth ++ [']']
  | x :: xs => ',' :: (newline (depth + 1) ++ prettyChars (depth + 1) x ++ prettyItems depth xs)

def prettyFields (depth : Nat) : List (String × Json) → List Char
  | [] => newline depth ++ ['}']
  | (k, v) :: fs =>
    ',' :: (newline (depth + 1) ++ quotedText k ++ ':' :: ' ' ::
      (prettyChars (depth + 1) v ++ prettyFields depth fs))

end

/-- Two blanks a level. -/
def pretty (j : Json) : String := String.ofList (j.prettyChars 0)

end MigrationLedger.Json
