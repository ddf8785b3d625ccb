import Stepwise.Text.Ranges

/-!
White space: trimming a text and cutting it into words.

`words` cuts at every run of white space.  `wordsUpTo` stops after a number of words and keeps
what is left as one piece.
-/

namespace Stepwise.Text

def blankRanges : List (Nat × Nat) :=
  [(9, 13), (32, 32), (133, 133), (160, 160), (5760, 5760), (8192, 8202), (8232, 8233),
    (8239, 8239), (8287, 8287), (12288, 12288)]

def isBlank (c : Char) : Bool := inRanges blankRanges c

/-- The text without the characters at either end that satisfy `drop`. -/
def trimWhere (drop : Char → Bool) (text : List Char) : List Char :=
  ((text.dropWhile drop).reverse.dropWhile drop).reverse

def trim (text : List Char) : List Char := trimWhere isBlank text

/-- The maximal runs of characters that are not white space, in order. -/
def words : List Char → List (List Char)
  | [] => []
  | c :: rest =>
      if isBlank c then words rest
      else match rest, words rest with
        | next :: _, word :: more =>
            if isBlank next then [c] :: word :: more else (c :: word) :: more
        | _, more => [c] :: more

/-- The first `limit` words, then the text from the next word on as one last piece. -/
def wordsUpTo : Nat → List Char → List (List Char)
  | limit, text =>
      match text.dropWhile isBlank with
      | [] => []
      | c :: rest =>
          match limit with
          | 0 => [c :: rest]
          | limit + 1 =>
              (c :: rest).takeWhile (fun d => !isBlank d) ::
                wordsUpTo limit ((c :: rest).dropWhile fun d => !isBlank d)

end Stepwise.Text
