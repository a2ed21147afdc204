/-!
# Blank characters

A line is judged after its margins are taken away. The margin of a line is made of
the characters with Unicode's White_Space property and of the byte order mark, which
editors leave at the head of a file.
-/
namespace LineCensus.Text

/-- The characters with Unicode's White_Space property. -/
def isBlank (c : Char) : Bool :=
  let n := c.toNat
  (9 ≤ n && n ≤ 13) || n == 0x20 || n == 0x85 || n == 0xA0 || n == 0x1680 ||
    (0x2000 ≤ n && n ≤ 0x200A) || n == 0x2028 || n == 0x2029 || n == 0x202F ||
    n == 0x205F || n == 0x3000

/-- Blanks and the byte order mark. -/
def isMargin (c : Char) : Bool := isBlank c || c == '\uFEFF'

/-- The text without the characters of `p` at its two ends. -/
def trimBy (p : Char → Bool) (s : List Char) : List Char :=
  ((s.dropWhile p).reverse.dropWhile p).reverse

@[simp] theorem trimBy_nil (p : Char → Bool) : trimBy p [] = [] := rfl

theorem trimBy_isInfix (p : Char → Bool) (s : List Char) : trimBy p s <:+: s := by
  have hfront : s.dropWhile p <:+ s := List.dropWhile_suffix p
  have hback : (s.dropWhile p).reverse.dropWhile p <:+ (s.dropWhile p).reverse :=
    List.dropWhile_suffix p
  have hprefix : trimBy p s <+: s.dropWhile p := by
    rw [← List.reverse_suffix, trimBy, List.reverse_reverse]
    exact hback
  exact hprefix.isInfix.trans hfront.isInfix

def trimBlank (s : List Char) : List Char := trimBy isBlank s

/-- The line as it is judged: without its margins. -/
def trimMargin (s : List Char) : List Char := trimBy isMargin s

theorem trimMargin_isInfix (s : List Char) : trimMargin s <:+: s := trimBy_isInfix isMargin s

end LineCensus.Text
