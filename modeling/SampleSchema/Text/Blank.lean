/-!
# White space and line boundaries

The white space of running text is the Unicode property, wider than the four characters that
a JSON text may have between its tokens. Lines end at more characters than the line feed.
-/

namespace SampleSchema.Text

/-- Whether the character is white space: a bidirectional separator or a space separator. -/
def isBlank (c : Char) : Bool :=
  let n := c.toNat
  (0x09 ≤ n && n ≤ 0x0d) || (0x1c ≤ n && n ≤ 0x20) || n == 0x85 || n == 0xa0 || n == 0x1680 ||
    (0x2000 ≤ n && n ≤ 0x200a) || n == 0x2028 || n == 0x2029 || n == 0x202f || n == 0x205f ||
    n == 0x3000

/-- Whether the character ends a line. -/
def isLineEnd (c : Char) : Bool :=
  let n := c.toNat
  (0x0a ≤ n && n ≤ 0x0d) || (0x1c ≤ n && n ≤ 0x1e) || n == 0x85 || n == 0x2028 || n == 0x2029

/-- A line boundary is white space. -/
theorem isBlank_of_isLineEnd {c : Char} (h : isLineEnd c = true) : isBlank c = true := by
  simp only [isLineEnd, isBlank, Bool.or_eq_true, Bool.and_eq_true, decide_eq_true_eq,
    beq_iff_eq] at h ⊢
  omega

/-- The text without the white space at its two ends. -/
def trim (cs : List Char) : List Char :=
  ((cs.dropWhile isBlank).reverse.dropWhile isBlank).reverse

/-- Whether the text has nothing but white space. -/
def isBlankText (cs : List Char) : Bool :=
  cs.all isBlank

/-! ## Lines -/

/-- Reads the two foreign line endings, carriage return with and without a line feed, as a
line feed. -/
def unifyNewlines : List Char → List Char
  | '\r' :: '\n' :: rest => '\n' :: unifyNewlines rest
  | '\r' :: rest => '\n' :: unifyNewlines rest
  | c :: rest => c :: unifyNewlines rest
  | [] => []

/-- The lines of a text without their ends. A line end at the end of the text opens no
further line. A carriage return does not count together with a following line feed: texts
are cut after their newlines have been unified. -/
def lines : List Char → List (List Char)
  | [] => []
  | c :: rest =>
    if isLineEnd c then [] :: lines rest
    else
      match lines rest with
      | [] => [[c]]
      | line :: more => (c :: line) :: more

end SampleSchema.Text
