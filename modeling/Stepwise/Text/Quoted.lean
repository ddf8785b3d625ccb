/-!
Texts between quotes, as a script writes them.
-/

namespace Stepwise.Text

/-- The quote around a text: a double one if that saves escaping single ones. -/
def quoteFor (text : List Char) : Char :=
  if text.contains '\'' && !text.contains '"' then '"' else '\''

def escapeFor (quote c : Char) : List Char :=
  match c with
  | '\\' => ['\\', '\\']
  | '\n' => ['\\', 'n']
  | '\r' => ['\\', 'r']
  | '\t' => ['\\', 't']
  | c =>
      if c == quote then ['\\', c]
      else if c.toNat < 32 || c.toNat == 127 then
        ['\\', 'x', Nat.digitChar (c.toNat / 16), Nat.digitChar (c.toNat % 16)]
      else [c]

def quoted (text : List Char) : List Char :=
  let quote := quoteFor text
  quote :: text.flatMap (escapeFor quote) ++ [quote]

end Stepwise.Text
