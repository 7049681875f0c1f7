import Pseudocode.Text.Quoted

/-! JSON documents and their compact text: no blanks, fields in the order given, characters written as
they are except for quotes, backslashes and control characters. -/
namespace Pseudocode

/-- A document without nulls; the text of a number is given. -/
inductive Json where
  | truth (value : Bool)
  | number (text : String)
  | text (value : String)
  | list (items : List Json)
  | record (fields : List (String × Json))

namespace Json

def escapeChar (c : Char) : List Char :=
  match c with
  | '"' => ['\\', '"']
  | '\\' => ['\\', '\\']
  | '\n' => ['\\', 'n']
  | '\t' => ['\\', 't']
  | '\r' => ['\\', 'r']
  | '\x08' => ['\\', 'b']
  | '\x0c' => ['\\', 'f']
  | c => if c.toNat < 0x20 then '\\' :: 'u' :: Text.hexDigits 4 c.toNat else [c]

/-- A text between quotes. -/
def quote (s : String) : String := String.ofList ('"' :: s.toList.flatMap escapeChar ++ ['"'])

mutual

def render : Json → String
  | .truth b => if b then "true" else "false"
  | .number digits => digits
  | .text s => quote s
  | .list items => "[" ++ ",".intercalate (renderItems items) ++ "]"
  | .record fields => "\x7b" ++ ",".intercalate (renderFields fields) ++ "\x7d"

def renderItems : List Json → List String
  | [] => []
  | item :: rest => item.render :: renderItems rest

def renderFields : List (String × Json) → List String
  | [] => []
  | (name, value) :: rest => (quote name ++ ":" ++ value.render) :: renderFields rest

end

end Json

end Pseudocode
