import Pseudocode.Diagnostic
import Pseudocode.Number
import Pseudocode.Text.Quoted

/-! Tokens of the language. A token has a kind, the characters it was written with and its position;
the kind of a literal holds the value that it denotes, and the kind of an invalid token says what is
wrong with it. Keywords are recognised in capitals only. -/
namespace Pseudocode

inductive Keyword where
  | DECLARE | CONSTANT | SET | OF | TYPE
  | PROCEDURE | ENDPROCEDURE | FUNCTION | ENDFUNCTION | RETURNS | RETURN | BYREF | BYVAL | CALL
  | IF | THEN | ELSE | ENDIF | CASE | OTHERWISE | ENDCASE
  | FOR | TO | STEP | NEXT | ENDFOR | REPEAT | UNTIL | WHILE | DO | ENDWHILE
  | INPUT | OUTPUT | DIV | MOD | AND | OR | NOT
  deriving DecidableEq, Repr

namespace Keyword

def text : Keyword → String
  | .DECLARE => "DECLARE" | .CONSTANT => "CONSTANT" | .SET => "SET" | .OF => "OF" | .TYPE => "TYPE"
  | .PROCEDURE => "PROCEDURE" | .ENDPROCEDURE => "ENDPROCEDURE"
  | .FUNCTION => "FUNCTION" | .ENDFUNCTION => "ENDFUNCTION"
  | .RETURNS => "RETURNS" | .RETURN => "RETURN"
  | .BYREF => "BYREF" | .BYVAL => "BYVAL" | .CALL => "CALL"
  | .IF => "IF" | .THEN => "THEN" | .ELSE => "ELSE" | .ENDIF => "ENDIF"
  | .CASE => "CASE" | .OTHERWISE => "OTHERWISE" | .ENDCASE => "ENDCASE"
  | .FOR => "FOR" | .TO => "TO" | .STEP => "STEP" | .NEXT => "NEXT" | .ENDFOR => "ENDFOR"
  | .REPEAT => "REPEAT" | .UNTIL => "UNTIL"
  | .WHILE => "WHILE" | .DO => "DO" | .ENDWHILE => "ENDWHILE"
  | .INPUT => "INPUT" | .OUTPUT => "OUTPUT"
  | .DIV => "DIV" | .MOD => "MOD" | .AND => "AND" | .OR => "OR" | .NOT => "NOT"

def all : List Keyword :=
  [.DECLARE, .CONSTANT, .SET, .OF, .TYPE, .PROCEDURE, .ENDPROCEDURE, .FUNCTION, .ENDFUNCTION,
    .RETURNS, .RETURN, .BYREF, .BYVAL, .CALL, .IF, .THEN, .ELSE, .ENDIF, .CASE, .OTHERWISE,
    .ENDCASE, .FOR, .TO, .STEP, .NEXT, .ENDFOR, .REPEAT, .UNTIL, .WHILE, .DO, .ENDWHILE, .INPUT,
    .OUTPUT, .DIV, .MOD, .AND, .OR, .NOT]

theorem mem_all (k : Keyword) : k ∈ all := by cases k <;> decide

def ofText? (word : String) : Option Keyword := all.find? (·.text == word)

/-- Words that end a block or start its next part. -/
def closesBlock : Keyword → Bool
  | .ENDIF | .ELSE | .ENDWHILE | .ENDFOR | .NEXT | .UNTIL | .ENDCASE | .OTHERWISE | .ENDFUNCTION
  | .ENDPROCEDURE => true
  | _ => false

/-- Words that start a statement. -/
def startsStatement : Keyword → Bool
  | .DECLARE | .CONSTANT | .SET | .INPUT | .OUTPUT | .IF | .CASE | .WHILE | .REPEAT | .FOR
  | .PROCEDURE | .FUNCTION | .CALL | .RETURN | .TYPE => true
  | _ => false

end Keyword

/-- Names of types that the language reserves, supported or not. -/
inductive TypeWord where
  | INTEGER | REAL | STRING | BOOLEAN | CHAR | DATE | ARRAY | RECORD
  deriving DecidableEq, Repr

namespace TypeWord

def text : TypeWord → String
  | .INTEGER => "INTEGER" | .REAL => "REAL" | .STRING => "STRING" | .BOOLEAN => "BOOLEAN"
  | .CHAR => "CHAR" | .DATE => "DATE" | .ARRAY => "ARRAY" | .RECORD => "RECORD"

def all : List TypeWord := [.INTEGER, .REAL, .STRING, .BOOLEAN, .CHAR, .DATE, .ARRAY, .RECORD]

def ofText? (word : String) : Option TypeWord := all.find? (·.text == word)

end TypeWord

inductive Sign where
  | assign | notEqual | lessEqual | greaterEqual | equal | less | greater
  | plus | minus | times | slash | ampersand
  | openParen | closeParen | openBracket | closeBracket | colon | comma
  deriving DecidableEq, Repr

namespace Sign

/-- The spelling used in messages. -/
def text : Sign → String
  | .assign => "←" | .notEqual => "<>" | .lessEqual => "<=" | .greaterEqual => ">="
  | .equal => "=" | .less => "<" | .greater => ">"
  | .plus => "+" | .minus => "-" | .times => "*" | .slash => "/" | .ampersand => "&"
  | .openParen => "(" | .closeParen => ")" | .openBracket => "[" | .closeBracket => "]"
  | .colon => ":" | .comma => ","

def name : Sign → String
  | .assign => "ASSIGN" | .notEqual => "NE" | .lessEqual => "LE" | .greaterEqual => "GE"
  | .equal => "EQ" | .less => "LT" | .greater => "GT"
  | .plus => "PLUS" | .minus => "MINUS" | .times => "MULTIPLY" | .slash => "DIVIDE"
  | .ampersand => "AMPER" | .openParen => "LPAREN" | .closeParen => "RPAREN"
  | .openBracket => "LBRACKET" | .closeBracket => "RBRACKET" | .colon => "COLON" | .comma => "COMMA"

end Sign

/-- What is wrong with an invalid token. -/
inductive LexicalFault where
  | unexpected (c : Char)
  | unterminatedString
  | integerTooLong
  deriving DecidableEq, Repr

namespace LexicalFault

def code : LexicalFault → Code
  | .unexpected _ => .invalidCharacter
  | .unterminatedString => .unterminatedString
  | .integerTooLong => .invalidNumber

def message : LexicalFault → String
  | .unexpected c => s!"Unexpected character {Text.quoted (String.singleton c)}"
  | .unterminatedString => "Unterminated string literal"
  | .integerTooLong => s!"Integer literal has more than {maxLiteralDigits} digits"

end LexicalFault

inductive TokenKind where
  | integer (value : Int)
  | real (value : Binary64)
  | string (value : String)
  | char (value : String)
  | truth (value : Bool)
  | null
  | identifier
  | keyword (word : Keyword)
  | typeName (word : TypeWord)
  | sign (sign : Sign)
  | invalid (fault : LexicalFault)
  | endOfInput
  deriving DecidableEq, Repr

namespace TokenKind

def name : TokenKind → String
  | .integer _ => "INTEGER"
  | .real _ => "REAL"
  | .string _ => "STRING"
  | .char _ => "CHAR_LITERAL"
  | .truth value => if value then "TRUE" else "FALSE"
  | .null => "NULL"
  | .identifier => "IDENTIFIER"
  | .keyword word => word.text
  | .typeName word =>
    match word with
    | .ARRAY | .RECORD => word.text
    | _ => word.text ++ "_KW"
  | .sign s => s.name
  | .invalid _ => "INVALID"
  | .endOfInput => "EOF"

/-- The class of a token, as an editor colours it. -/
def className : TokenKind → String
  | .integer _ | .real _ => "NUMBER"
  | .string _ => "STRING"
  | .char _ => "CHAR"
  | .truth _ | .null => "CONSTANT"
  | .identifier => "IDENTIFIER"
  | .keyword _ => "KEYWORD"
  | .typeName _ => "TYPE_NAME"
  | .sign _ => "OPERATOR"
  | .invalid _ => "INVALID"
  | .endOfInput => "EOF"

def isLiteral : TokenKind → Bool
  | .integer _ | .real _ | .string _ | .char _ | .truth _ | .null => true
  | _ => false

def isNumber : TokenKind → Bool
  | .integer _ | .real _ => true
  | _ => false

end TokenKind

structure Token where
  kind : TokenKind
  lexeme : String
  position : Position
  deriving DecidableEq, Repr

namespace Token

def line (t : Token) : Nat := t.position.line

/-- The position just behind the token. -/
def ending (t : Token) : Position := ⟨t.position.line, t.position.column + t.lexeme.length⟩

/-- The token as messages show it. -/
def describe (t : Token) : String :=
  match t.kind with
  | .endOfInput => "end of input"
  | _ => s!"'{t.lexeme}'"

def summary (t : Token) : String :=
  s!"Token({t.kind.name}, {Text.quoted t.lexeme}, line={t.position.line}, col={t.position.column})"

/-- The lexical error that an invalid token stands for. -/
def diagnostic? (t : Token) : Option Diagnostic :=
  match t.kind with
  | .invalid fault =>
    some (.atLine t.position.line t.position.column fault.code .error
      s!"Lexical Error - {fault.message}")
  | _ => none

end Token

end Pseudocode
