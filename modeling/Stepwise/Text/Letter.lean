import Stepwise.Text.Letter.Ranges
import Stepwise.Text.Ranges

/-!
Letters and numerals, the characters that names are made of.

Characters below 128 are decided without the tables.
-/

namespace Stepwise.Text

/-- Whether a character is one of the digits `0` to `9`. -/
def isDigit (c : Char) : Bool := '0' ≤ c && c ≤ '9'

/-- Whether a character is one of the letters `a` to `z` or `A` to `Z`. -/
def isBasicLetter (c : Char) : Bool := ('a' ≤ c && c ≤ 'z') || ('A' ≤ c && c ≤ 'Z')

def isLetter (c : Char) : Bool :=
  if c.toNat < 128 then isBasicLetter c else inRanges letterRanges c

def isNumeral (c : Char) : Bool :=
  if c.toNat < 128 then isDigit c else inRanges numeralRanges c

def isNameStart (c : Char) : Bool := isLetter c || c == '_'

def isNamePart (c : Char) : Bool := isLetter c || isNumeral c || c == '_'

end Stepwise.Text
