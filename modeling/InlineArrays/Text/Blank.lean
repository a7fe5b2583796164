/-!
# Blanks

The characters with the Unicode property White_Space, and the text that is left when they
are taken off both ends.  Every blank of the ASCII class is among them.
-/

namespace InlineArrays.Text

/-- Tab to carriage return, space, and the fourteen blanks beyond ASCII. -/
def isBlank (c : Char) : Bool :=
  let n := c.toNat
  (0x09 ≤ n && n ≤ 0x0D) || n == 0x20 || n == 0x85 || n == 0xA0 || n == 0x1680 ||
    (0x2000 ≤ n && n ≤ 0x200A) || n == 0x2028 || n == 0x2029 || n == 0x202F || n == 0x205F ||
    n == 0x3000

def trimEnd (text : List Char) : List Char := (text.reverse.dropWhile isBlank).reverse

def trim (text : List Char) : List Char := trimEnd (text.dropWhile isBlank)

theorem isBlank_of_isWhitespace {c : Char} (h : c.isWhitespace = true) : isBlank c = true := by
  simp only [Char.isWhitespace, Bool.or_eq_true, decide_eq_true_eq] at h
  rcases h with ((h | h) | h) | h <;> subst h <;> decide

theorem length_trim_le (text : List Char) : (trim text).length ≤ text.length := by
  have drop (cs : List Char) : (cs.dropWhile isBlank).length ≤ cs.length :=
    (List.dropWhile_sublist isBlank).length_le
  calc
    (trim text).length ≤ (text.dropWhile isBlank).length := by
      simpa [trim, trimEnd] using drop (text.dropWhile isBlank).reverse
    _ ≤ text.length := drop text

end InlineArrays.Text
