/-!
# Words

Whitespace in running text, and the words it separates.
-/

namespace CodeGraph.Words

/-- Whitespace: besides the usual blanks and line ends, the information separators, the next-line
control and every space of the Unicode standard. -/
def isSpace (c : Char) : Bool :=
  let n := c.toNat
  (0x09 ≤ n && n ≤ 0x0D) || (0x1C ≤ n && n ≤ 0x20) || n == 0x85 || n == 0xA0 || n == 0x1680 ||
    (0x2000 ≤ n && n ≤ 0x200A) || n == 0x2028 || n == 0x2029 || n == 0x202F || n == 0x205F ||
    n == 0x3000

/-- The words of a text: its longest stretches without whitespace. -/
def words : List Char → List (List Char)
  | [] => []
  | c :: cs =>
    if isSpace c then words cs
    else
      match cs with
      | [] => [[c]]
      | d :: _ =>
        if isSpace d then [c] :: words cs
        else
          match words cs with
          | [] => [[c]]
          | first :: rest => (c :: first) :: rest

/-- Words with single spaces between them. -/
def unwords : List (List Char) → List Char
  | [] => []
  | [w] => w
  | w :: rest => w ++ ' ' :: unwords rest

/-- The text with every stretch of whitespace made one space, and none at its ends. -/
def collapse (cs : List Char) : List Char :=
  unwords (words cs)

/-- The text without whitespace at its ends. -/
def strip (cs : List Char) : List Char :=
  ((cs.dropWhile isSpace).reverse.dropWhile isSpace).reverse

end CodeGraph.Words
