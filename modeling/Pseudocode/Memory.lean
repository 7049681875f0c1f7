import Pseudocode.Table
import Pseudocode.Value

/-! Memory: arrays, bindings and frames, each at a number that never changes. A frame gives names to
bindings, so one binding can have names in several frames; a binding holds a value with the type it
was declared with; arrays are held by value of their number and hence shared. An environment is the
list of frames in which a name is looked up, innermost first. -/
namespace Pseudocode

/-- An array: its bounds and element type never change, its elements stand in row-major order. -/
structure ArrayCell where
  bounds : List Bound
  elementType : Option DataType
  elements : Array Value
  deriving DecidableEq, Repr

namespace ArrayCell

/-- The number of elements that bounds ask for; reversed bounds count negatively. -/
def elementCount (bounds : List Bound) : Int := bounds.foldl (fun total b => total * b.extent) 1

def shape (cell : ArrayCell) : List Int := cell.bounds.map Bound.extent

/-- An array with every element at the default of its type. -/
def fresh (bounds : List Bound) (elementType : Option DataType) : ArrayCell :=
  ⟨bounds, elementType, Array.replicate (elementCount bounds).toNat (.initial elementType)⟩

/-- The position of an index tuple in row-major order, counted on from `offset`. -/
def offsetFrom (offset : Nat) : List Bound → List Int → Except StoreFault Nat
  | b :: bounds, i :: indices =>
    if i < b.lower ∨ b.upper < i then .error .indexOutOfBounds
    else offsetFrom (offset * b.extent.toNat + (i - b.lower).toNat) bounds indices
  | _, _ => .ok offset

def offset (bounds : List Bound) (indices : List Int) : Except StoreFault Nat :=
  if indices.length ≠ bounds.length then .error (.indexCount bounds.length indices.length)
  else offsetFrom 0 bounds indices

def get (cell : ArrayCell) (indices : List Int) : Except StoreFault Value := do
  return cell.elements.getD (← offset cell.bounds indices) .null

/-- The position and the converted value of a store into an element. -/
def place (cell : ArrayCell) (indices : List Int) (value : Value) :
    Except StoreFault (Nat × Value) := do
  let position ← offset cell.bounds indices
  return (position, ← value.coerce cell.elementType)

def setAt (cell : ArrayCell) (offset : Nat) (value : Value) : ArrayCell :=
  { cell with elements := cell.elements.setIfInBounds offset value }

/-- Same extents and element type; the bounds may be shifted. -/
def compatible (a b : ArrayCell) : Bool := a.shape == b.shape && a.elementType == b.elementType

/-- The array as a message names it; `none` without an element type. -/
def summary? (cell : ArrayCell) : Option String :=
  cell.elementType.map fun type =>
    let dims := ", ".intercalate (cell.bounds.map fun b => s!"{b.lower}:{b.upper}")
    s!"ArrayValue([{dims}] OF {type.text})"

end ArrayCell

abbrev BindingId := Nat

abbrev FrameId := Nat

/-- A named place for one value; `declared` is `none` for a name that was never declared. -/
structure Binding where
  value : Value
  declared : Option DataType
  isConstant : Bool
  deriving DecidableEq, Repr

/-- Names with their bindings, in the order of their first definition. -/
abbrev Frame := Table BindingId

/-- Frames in which names are looked up, innermost first. -/
abbrev Environment := List FrameId

structure Memory where
  arrays : Array ArrayCell
  bindings : Array Binding
  frames : Array Frame

namespace Memory

/-- A memory with one empty frame, for global names. -/
def initial : Memory := ⟨#[], #[], #[[]]⟩

def globals : Environment := [0]

def addArray (m : Memory) (cell : ArrayCell) : ArrayId × Memory :=
  (m.arrays.size, { m with arrays := m.arrays.push cell })

def addBinding (m : Memory) (b : Binding) : BindingId × Memory :=
  (m.bindings.size, { m with bindings := m.bindings.push b })

def addFrame (m : Memory) : FrameId × Memory :=
  (m.frames.size, { m with frames := m.frames.push [] })

def setElement (m : Memory) (id : ArrayId) (offset : Nat) (value : Value) : Memory :=
  { m with arrays := m.arrays.modify id (·.setAt offset value) }

def setValue (m : Memory) (id : BindingId) (value : Value) : Memory :=
  { m with bindings := m.bindings.modify id fun b => { b with value } }

/-- Names a binding in a frame. -/
def bind (m : Memory) (frame : FrameId) (name : String) (id : BindingId) : Memory :=
  { m with frames := m.frames.modify frame (·.set name id) }

/-- Names a binding in the innermost frame. -/
def bindHere (m : Memory) (env : Environment) (name : String) (id : BindingId) : Memory :=
  match env with
  | [] => m
  | frame :: _ => m.bind frame name id

/-- Adds a binding and names it in the innermost frame. -/
def define (m : Memory) (env : Environment) (name : String) (b : Binding) : BindingId × Memory :=
  let (id, m) := m.addBinding b
  (id, m.bindHere env name id)

def findIn (m : Memory) (frame : FrameId) (name : String) : Option BindingId :=
  Table.get? (m.frames.getD frame []) name

/-- The binding that a name has in the innermost frame that knows it. -/
def find (m : Memory) : Environment → String → Option BindingId
  | [], _ => none
  | frame :: outer, name =>
    match m.findIn frame name with
    | some id => some id
    | none => m.find outer name

/-- The binding with a number. -/
def binding? (m : Memory) (id : BindingId) : Option Binding := m.bindings[id]?

/-- What a name is bound to. -/
def lookup (m : Memory) (env : Environment) (name : String) : Option Binding :=
  (m.find env name).bind m.binding?

def cell? (m : Memory) : Value → Option ArrayCell
  | .array id => m.arrays[id]?
  | _ => none

/-- Copies an array; the elements are shared. Any other value is its own copy. -/
def copyValue (m : Memory) (value : Value) : Value × Memory :=
  match m.cell? value with
  | some cell =>
    let (id, m) := m.addArray cell
    (.array id, m)
  | none => (value, m)

end Memory

/-- Why a value has no text: it is a number with too many digits or an array that contains itself. -/
inductive TextFault where
  | overflow (cause : Overflow)
  | endless
  deriving DecidableEq, Repr

def TextFault.toStoreFault : TextFault → StoreFault
  | .overflow cause => .overflow cause
  | .endless => .endless

/-- The text of a value that is not an array. -/
def Value.scalarText : Value → Except TextFault String
  | .null => .ok "NULL"
  | .boolean b => .ok (if b then "TRUE" else "FALSE")
  | .integer n =>
    let digits := toString n.natAbs
    if digits.length > maxTextDigits then .error (.overflow .integerSize)
    else .ok (if n < 0 then "-" ++ digits else digits)
  | .real x => .ok x.text
  | .string s | .char s => .ok s
  | .array _ => .error .endless

namespace Memory

/-- The text of a value; `depth` is the number of arrays that may be nested in each other. -/
def textTo (m : Memory) : (depth : Nat) → Value → Except TextFault String
  | depth, value =>
    match m.cell? value, depth with
    | none, _ => value.scalarText
    | some _, 0 => .error .endless
    | some cell, depth + 1 => do
      let parts ← cell.elements.toList.mapM (m.textTo depth)
      return "[" ++ ", ".intercalate parts ++ "]"

/-- The text of a value. Arrays nested deeper than there are arrays contain themselves. -/
def text (m : Memory) (value : Value) : Except TextFault String := m.textTo m.arrays.size value

end Memory

/-- Why a value cannot be shown under a limit on the length of texts. -/
inductive ShowFault where
  | tooLong
  | noText (fault : TextFault)
  deriving DecidableEq, Repr

namespace Memory

/-- The texts of the elements of an array, stopping as soon as the text of the whole, of which
`length` characters are known, is past the limit. Each element counts two characters more than it
has, for the separator. -/
def partsWithin (limit : Nat) (render : Value → Except ShowFault String) :
    (length : Nat) → List Value → Except ShowFault (List String)
  | _, [] => .ok []
  | length, value :: rest => do
    let part ← render value
    let length := length + part.length + 2
    if length > limit then .error .tooLong
    else return part :: (← partsWithin limit render length rest)

/-- The text of a value of at most `limit` characters. -/
def textWithin (m : Memory) (limit : Nat) : (depth : Nat) → Value → Except ShowFault String
  | depth, value =>
    match m.cell? value, depth with
    | none, _ =>
      match value.scalarText with
      | .error fault => .error (.noText fault)
      | .ok text => if text.length > limit then .error .tooLong else .ok text
    | some _, 0 => .error (.noText .endless)
    | some cell, depth + 1 => do
      let parts ← partsWithin limit (m.textWithin limit depth) 2 cell.elements.toList
      return "[" ++ ", ".intercalate parts ++ "]"

/-- The value that a binding holds after a store, by the rules of its declaration. An array is shared
and must fit the array it takes the place of. -/
def accept (m : Memory) (b : Binding) (value : Value) : Except StoreFault Value :=
  if b.isConstant then
    match m.text b.value with
    | .ok shown => .error (.constant shown)
    | .error fault => .error fault.toStoreFault
  else
    match value with
    | .array _ =>
      match b.declared with
      | none | some .array =>
        match m.cell? b.value, m.cell? value with
        | some old, some new => if old.compatible new then .ok value else .error .arraysDiffer
        | _, _ => .ok value
      | some type => .error (.mismatch .array type)
    | _ =>
      if b.declared = some .array ∧ value ≠ .null then .error .scalarToArray
      else value.coerce b.declared

/-- Stores a value under a name: in the innermost frame that knows the name, otherwise as a new name
without a type in the innermost frame. The memory is returned on failure too, because the new name
stays. -/
def assign (m : Memory) (env : Environment) (name : String) (value : Value) :
    Except StoreFault BindingId × Memory :=
  let (id, m) := match m.find env name with
    | some id => (id, m)
    | none => m.define env name ⟨.null, none, false⟩
  match m.binding? id with
  | none => (.ok id, m)
  | some b =>
    match m.accept b value with
    | .ok kept => (.ok id, m.setValue id kept)
    | .error fault => (.error fault, m)

/-- Whether two arrays have the same bounds and the same elements, whatever their element types.
`depth` is the number of arrays that may be nested in each other. -/
def sameArrays (m : Memory) : (depth : Nat) → ArrayCell → ArrayCell → Bool
  | 0, _, _ => false
  | depth + 1, a, b =>
    let sameElements (x y : Value) : Bool :=
      match m.cell? x, m.cell? y with
      | some c, some d => m.sameArrays depth c d
      | none, none => x.sameScalar y
      | _, _ => false
    a.bounds == b.bounds && a.elements.size == b.elements.size &&
      (a.elements.toList.zip b.elements.toList).all fun (x, y) => sameElements x y

/-- Stores a value into an element of an array. -/
def assignElement (m : Memory) (id : ArrayId) (indices : List Int) (value : Value) :
    Except StoreFault Memory :=
  match m.arrays[id]? with
  | none => .error .indexOutOfBounds
  | some cell => do
    let (offset, kept) ← cell.place indices value
    return m.setElement id offset kept

end Memory

end Pseudocode
