/-! White space and trimming. A blank is a white space character of any script or one of the four
information separators; trimming removes blanks from both ends and nothing else. -/
namespace Pseudocode.Text

/-- White space of any script. -/
def isSpace (c : Char) : Bool :=
  let n := c.toNat
  (0x09 ≤ n && n ≤ 0x0D) || n == 0x20 || n == 0x85 || n == 0xA0 || n == 0x1680 ||
    (0x2000 ≤ n && n ≤ 0x200A) || n == 0x2028 || n == 0x2029 || n == 0x202F || n == 0x205F ||
    n == 0x3000

/-- One of the characters that separate files, groups, records and units. -/
def isSeparator (c : Char) : Bool := 0x1C ≤ c.toNat && c.toNat ≤ 0x1F

def isBlank (c : Char) : Bool := isSpace c || isSeparator c

/-- Every white space character of the core library is white space here. -/
theorem isSpace_of_isWhitespace {c : Char} (h : c.isWhitespace = true) : isSpace c = true := by
  simp only [Char.isWhitespace, Bool.or_eq_true, decide_eq_true_eq] at h
  rcases h with ((h | h) | h) | h <;> subst h <;> decide

/-- Removes the characters of a class from both ends. -/
def trimWhile (p : Char → Bool) (text : List Char) : List Char :=
  ((text.dropWhile p).reverse.dropWhile p).reverse

def trimChars (text : List Char) : List Char := trimWhile isBlank text

def trim (text : String) : String := String.ofList (trimChars text.toList)

end Pseudocode.Text
