import Pseudocode.Numeral
import Pseudocode.Token

/-! Scanning a text into tokens. No token crosses a line break, so each line is scanned by itself. At
each place of a line the first form that fits is taken, in this order: blanks, a comment, an operator
(the longer of two that start alike), a number, a quoted literal, a word. Where no form fits, the
rest of the line is one invalid token. -/
namespace Pseudocode.Scan

open Text

/-- Blanks inside a line. -/
def isSpace (c : Char) : Bool := c == ' ' || c == '\t' || c == '\r'

def isWordStart (c : Char) : Bool := c.isAlpha || c == '_'

def isWordPart (c : Char) : Bool := c.isAlphanum || c == '_'

/-- The operator at the front of a text, with the number of characters it takes after the first. -/
def sign? : List Char → Option (Sign × Nat)
  | '←' :: _ => some (.assign, 0)
  | '<' :: '-' :: _ => some (.assign, 1)
  | '≠' :: _ => some (.notEqual, 0)
  | '<' :: '>' :: _ => some (.notEqual, 1)
  | '≤' :: _ => some (.lessEqual, 0)
  | '<' :: '=' :: _ => some (.lessEqual, 1)
  | '≥' :: _ => some (.greaterEqual, 0)
  | '>' :: '=' :: _ => some (.greaterEqual, 1)
  | '=' :: _ => some (.equal, 0)
  | '<' :: _ => some (.less, 0)
  | '>' :: _ => some (.greater, 0)
  | '+' :: _ => some (.plus, 0)
  | '-' :: _ => some (.minus, 0)
  | '*' :: _ => some (.times, 0)
  | '/' :: _ => some (.slash, 0)
  | '&' :: _ => some (.ampersand, 0)
  | '(' :: _ => some (.openParen, 0)
  | ')' :: _ => some (.closeParen, 0)
  | '[' :: _ => some (.openBracket, 0)
  | ']' :: _ => some (.closeBracket, 0)
  | ':' :: _ => some (.colon, 0)
  | ',' :: _ => some (.comma, 0)
  | _ => none

/-- The number of characters after an opening quote up to and including the closing one; a backslash
takes the next character with it. -/
def stringLength? : List Char → Option Nat
  | [] => none
  | '"' :: _ => some 1
  | ['\\'] => none
  | '\\' :: _ :: rest => (stringLength? rest).map (· + 2)
  | _ :: rest => (stringLength? rest).map (· + 1)

/-- The number of characters of a character literal after its opening quote. -/
def charLength? : List Char → Option Nat
  | '\\' :: _ :: '\'' :: _ => some 3
  | c :: '\'' :: _ => if c = '\'' ∨ c = '\\' then none else some 2
  | _ => none

/-- The character that an escape stands for; an escape without a meaning is the character itself. -/
def escaped : Char → Char
  | 'n' => '\n'
  | 't' => '\t'
  | c => c

/-- The text that the body of a quoted literal denotes. -/
def unescape : List Char → List Char
  | '\\' :: c :: rest => escaped c :: unescape rest
  | c :: rest => c :: unescape rest
  | [] => []

/-- The kind of a word. -/
def wordKind (word : String) : TokenKind :=
  match Keyword.ofText? word with
  | some k => .keyword k
  | none =>
    match TypeWord.ofText? word with
    | some t => .typeName t
    | none =>
      if word = "TRUE" then .truth true
      else if word = "FALSE" then .truth false
      else if word = "NULL" then .null
      else .identifier

/-- A number that starts with the digits `whole`, in front of `rest`: a real if a point and a digit
follow, otherwise an integer. With it stands the number of characters after `whole`. -/
def number (whole rest : List Char) : TokenKind × Nat :=
  match rest with
  | '.' :: behind =>
    let fraction := behind.takeWhile isDigit
    if fraction.isEmpty then (integerKind whole, 0)
    else (.real (Numeral.decimal false whole fraction 0), fraction.length + 1)
  | _ => (integerKind whole, 0)
where
  integerKind (digits : List Char) : TokenKind :=
    if digits.length > maxLiteralDigits then .invalid .integerTooLong
    else .integer (digitsValue digits)

/-- The form at the front of `c :: rest`: its kind, `none` for what is skipped, and the number of
characters of `rest` that belong to it. -/
def munch (c : Char) (rest : List Char) : Option TokenKind × Nat :=
  if isSpace c then (none, (rest.takeWhile isSpace).length)
  else if c = '#' ∨ (c = '/' ∧ rest.head? = some '/') then (none, rest.length)
  else
    match sign? (c :: rest) with
    | some (s, extra) => (some (.sign s), extra)
    | none =>
      if isDigit c then
        let digits := rest.takeWhile isDigit
        let (kind, extra) := number (c :: digits) (rest.dropWhile isDigit)
        (some kind, digits.length + extra)
      else if c = '"' then
        match stringLength? rest with
        | some n => (some (.string (String.ofList (unescape (rest.take (n - 1))))), n)
        | none => (some (.invalid .unterminatedString), rest.length)
      else if isWordStart c then
        let part := rest.takeWhile isWordPart
        (some (wordKind (String.ofList (c :: part))), part.length)
      else
        match (if c = '\'' then charLength? rest else none) with
        | some n => (some (.char (String.ofList (unescape (rest.take (n - 1))))), n)
        | none => (some (.invalid (.unexpected c)), rest.length)

/-- The tokens of the rest of a line that starts at `column`; `fuel` is at least its length. -/
def lineFrom (line : Nat) : (fuel column : Nat) → List Char → List Token
  | 0, _, _ => []
  | _ + 1, _, [] => []
  | fuel + 1, column, c :: rest =>
    let (kind?, extra) := munch c rest
    let others := lineFrom line fuel (column + 1 + extra) (rest.drop extra)
    match kind? with
    | none => others
    | some kind => ⟨kind, String.ofList (c :: rest.take extra), ⟨line, column⟩⟩ :: others

def scanLine (line : Nat) (text : List Char) : List Token := lineFrom line text.length 1 text

/-- The lines of a text; there is one more than there are line breaks. -/
def lines (source : List Char) : List (List Char) := source.splitOn '\n'

end Pseudocode.Scan

namespace Pseudocode

/-- The tokens of a text and the position of its end. -/
structure Scan where
  tokens : List Token
  finish : Position

namespace Scan

def ofChars (source : List Char) : Scan where
  tokens := ((lines source).zipIdx 1).flatMap fun (text, line) => scanLine line text
  finish := ⟨(lines source).length, ((lines source).getLast?.map List.length).getD 0 + 1⟩

def ofText (source : String) : Scan := ofChars source.toList

def endToken (s : Scan) : Token := ⟨.endOfInput, "", s.finish⟩

/-- All tokens with the end of input as the last. -/
def allTokens (s : Scan) : List Token := s.tokens ++ [s.endToken]

/-- The lexical errors, one for each invalid token. -/
def errors (s : Scan) : List Diagnostic := s.tokens.filterMap Token.diagnostic?

end Scan

end Pseudocode
