import Pseudocode.Text.CaseTable

/-! Upper and lower case of a text. Both are the full mappings: one character may become several,
and a capital sigma becomes the final form at the end of a word. The end of a word is where a cased
letter stands before the sigma and none after it, looking past characters that carry no case. -/
namespace Pseudocode.Text

def inRanges (ranges : List (Nat × Nat)) (code : Nat) : Bool :=
  ranges.any fun (lower, upper) => lower ≤ code && code ≤ upper

/-- The other case of one character under the given tables. -/
def changeCase (expansions : List (Nat × List Nat)) (runs : List CaseRun) (c : Char) : List Char :=
  match expansions.lookup c.toNat with
  | some codes => codes.map Char.ofNat
  | none =>
    match runs.find? (·.covers c.toNat) with
    | some run => [Char.ofNat ((c.toNat : Int) + run.shift).toNat]
    | none => [c]

def upperChar (c : Char) : List Char :=
  if c.toNat < 0x80 then [c.toUpper] else changeCase upperExpansions upperRuns c

def lowerChar (c : Char) : List Char :=
  if c.toNat < 0x80 then [c.toLower] else changeCase lowerExpansions lowerRuns c

def isCased (c : Char) : Bool := inRanges casedRanges c.toNat

def isCaseIgnorable (c : Char) : Bool := inRanges caseIgnorableRanges c.toNat

/-- Whether the nearest character that is not looked past is a cased letter. -/
def meetsCased (text : List Char) : Bool := (text.dropWhile isCaseIgnorable).head?.any isCased

def capitalSigma : Char := 'Σ'

/-- Lower case of `rest`, where `before` holds the characters in front of it, nearest first. -/
def lowerAfter (before : List Char) : List Char → List Char
  | [] => []
  | c :: rest =>
    let lowered :=
      if c = capitalSigma then
        if meetsCased before && !meetsCased rest then ['ς'] else ['σ']
      else lowerChar c
    lowered ++ lowerAfter (c :: before) rest

def upper (text : String) : String := String.ofList (text.toList.flatMap upperChar)

def lower (text : String) : String := String.ofList (lowerAfter [] text.toList)

/-- Whether a text starts with an upper case letter. -/
def startsUpper (text : String) : Bool :=
  text.toList.head?.any fun c => upperLetterRuns.any (·.covers c.toNat)

end Pseudocode.Text
