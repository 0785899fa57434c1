import WebCrawl.Text.Basic

/-!
# Blank characters

The characters that separate words in any script, and what is built on them: trimming, and the
words of a text.

## Main definitions

* `WebCrawl.Text.isBlank` — the characters that count as white space.
* `WebCrawl.Text.trimStart`, `WebCrawl.Text.trim` — the text without blanks around it.
* `WebCrawl.Text.words` — the maximal runs of other characters.
-/

set_option autoImplicit false

namespace WebCrawl.Text

/-- The characters that count as white space. -/
def isBlank (c : Char) : Bool :=
  let n := c.toNat
  (9 ≤ n && n ≤ 13) || n == 0x20 || n == 0x85 || n == 0xa0 || n == 0x1680 ||
    (0x2000 ≤ n && n ≤ 0x200a) || n == 0x2028 || n == 0x2029 || n == 0x202f || n == 0x205f ||
    n == 0x3000

/-- The text from its first character that is not blank. -/
def trimStart (s : Text) : Text := s.dropWhile isBlank

/-- The text up to its last character that is not blank. -/
def trimEnd (s : Text) : Text := (s.reverse.dropWhile isBlank).reverse

/-- The text without the blanks around it. -/
def trim (s : Text) : Text := trimEnd (trimStart s)

/-- The maximal runs of characters that are not blank. -/
def words : Text → List Text
  | [] => []
  | c :: cs =>
    if isBlank c then words cs
    else match cs with
      | [] => [[c]]
      | d :: _ =>
        if isBlank d then [c] :: words cs
        else match words cs with
          | [] => [[c]]
          | w :: ws => (c :: w) :: ws

end WebCrawl.Text
