/-!
Cutting a text into lines.

A line ends with a line feed, or with a carriage return and a line feed.  The end of the text ends
a line only if there is something on it.
-/

namespace Stepwise.Text

def dropReturn (line : List Char) : List Char :=
  if line.getLast? = some '\r' then line.dropLast else line

/-- The lines of a text, the first of which starts with the characters of `line` in reverse. -/
def linesFrom (line : List Char) : List Char → List (List Char)
  | [] => if line.isEmpty then [] else [line.reverse]
  | c :: rest =>
      if c = '\n' then dropReturn line.reverse :: linesFrom [] rest
      else linesFrom (c :: line) rest

def lines (text : List Char) : List (List Char) := linesFrom [] text

end Stepwise.Text
