import MigrationLedger.Text.Emoji
import MigrationLedger.Text.Quoted
import MigrationLedger.Text.Wide

/-! How many columns of a terminal a line of text fills. Most characters fill one, wide ones two,
and those that join or extend others none; a picture that is made of several characters fills two.
-/

namespace MigrationLedger

/-- Characters without a picture of their own (the property Default_Ignorable_Code_Point), the later
parts of Korean syllables, and signs that go before a number. -/
def invisibleRanges : Array (Nat × Nat) :=
  #[(0xAD, 0xAD), (0x34F, 0x34F), (0x605, 0x605), (0x61C, 0x61C), (0x70F, 0x70F), (0x890, 0x891),
    (0x8E2, 0x8E2), (0x1160, 0x11FF), (0x17B4, 0x17B5), (0x180B, 0x180F), (0x200B, 0x200F),
    (0x202A, 0x202E), (0x2060, 0x206F), (0x3164, 0x3164), (0xA8FA, 0xA8FA), (0xD7B0, 0xD7C6),
    (0xD7CB, 0xD7FB), (0xFE00, 0xFE0F), (0xFEFF, 0xFEFF), (0xFFA0, 0xFFA0), (0xFFF0, 0xFFF8),
    (0x1BCA0, 0x1BCA3), (0x1D173, 0x1D17A), (0xE0000, 0xE0FFF)]

/-- The columns of a character that stands alone. Control characters count as one. -/
def charColumns (c : Char) : Nat :=
  if c.toNat < 0xA0 then 1
  else if c.toNat = 0x17D8 then 3
  else if c.toNat = 0x115F ∨ c.toNat = 0x17A4 then 2
  else if c.toNat = 0x2D7F then 1
  else if inRanges invisibleRanges c || isExtending c then 0
  else if inRanges wideRanges c then 2
  else 1

/-- Letters that stand for countries in pairs are no emoji by themselves. -/
def isEmoji (c : Char) : Bool :=
  inRanges emojiRanges c && !(0x1F1E6 ≤ c.toNat && c.toNat ≤ 0x1F1FF)

def isSkinTone (c : Char) : Bool := 0x1F3FB ≤ c.toNat && c.toNat ≤ 0x1F3FF

def asPicture : Char := '\uFE0F'

def asText : Char := '\uFE0E'

def joiner : Char := '\u200D'

/-- Whether a character is drawn as a picture unless told otherwise. -/
def isPictureByNature (c : Char) : Bool :=
  isEmoji c && charColumns c = 2 && !(0x3000 ≤ c.toNat && c.toNat ≤ 0x33FF) &&
    !(0x1F200 ≤ c.toNat && c.toNat ≤ 0x1F2FF)

/-- The columns of a character, given the one that follows it. -/
def columnsBefore (c : Char) : Option Char → Nat
  | none => charColumns c
  | some d =>
    if d = asPicture ∧ isEmoji c then 2
    else if isSkinTone d ∧ inRanges modifiableRanges c then 2
    else if d = asText ∧ isPictureByNature c then 1
    else charColumns c

/-- The picture that a text is in the middle of. -/
inductive Picture where
  | none
  | shown (modifiable : Bool)
  /-- Another picture will melt into it. -/
  | joined

def columnsAfter : Picture → List Char → Nat
  | _, [] => 0
  | p, c :: cs =>
    if c = joiner then columnsAfter (match p with | .none => .none | _ => .joined) cs
    else if c = asPicture ∨ c = asText then columnsAfter p cs
    else
      match p, isSkinTone c with
      | .shown true, true => columnsAfter (.shown false) cs
      | _, _ =>
        if isEmoji c && 0xA0 ≤ c.toNat then
          let shown := Picture.shown (inRanges modifiableRanges c)
          match p with
          | .joined => columnsAfter shown cs
          | _ => columnsBefore c cs.head? + columnsAfter shown cs
        else columnsBefore c cs.head? + columnsAfter .none cs

/-- The columns of one line. -/
def columns (line : String) : Nat := columnsAfter .none line.toList

end MigrationLedger
