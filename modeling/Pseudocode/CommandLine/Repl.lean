import Pseudocode.Text.Blank
import Pseudocode.Text.Case

/-! Reading blocks of lines. A block is finished by an empty line or by the end of the lines; the word
`exit` ends the reading when no block is pending. -/
namespace Pseudocode.CommandLine

/-- The lines of a block that is not finished yet, last first. -/
abbrev Pending := List String

def Pending.prompt (pending : Pending) : String := if pending.isEmpty then ">>> " else "... "

/-- The text of a block. -/
def Pending.text (pending : Pending) : String := "\n".intercalate pending.reverse

def isBlankLine (line : String) : Bool := (Text.trim line).isEmpty

def isExit (line : String) : Bool := Text.lower (Text.trim line) == "exit"

/-- What a line does to a pending block. -/
inductive LineEffect where
  | more (pending : Pending)
  | finish (text : String)
  | skip
  | exit
  deriving DecidableEq, Repr

def LineEffect.of (pending : Pending) (line : String) : LineEffect :=
  if pending.isEmpty && isExit line then .exit
  else if !isBlankLine line then .more (line :: pending)
  else if pending.isEmpty then .skip
  else .finish pending.text

/-- The blocks that are run for the lines, in order. -/
def blocksFrom : Pending → List String → List String
  | pending, [] => if pending.isEmpty then [] else [pending.text]
  | pending, line :: rest =>
    match LineEffect.of pending line with
    | .more pending => blocksFrom pending rest
    | .finish text => text :: blocksFrom [] rest
    | .skip => blocksFrom [] rest
    | .exit => []

def blocks (lines : List String) : List String := blocksFrom [] lines

end Pseudocode.CommandLine
