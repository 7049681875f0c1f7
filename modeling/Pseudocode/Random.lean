import Pseudocode.Binary64

/-! Random numbers: the Mersenne Twister with 624 words of 32 bits, started from the words of a seed.
Each random fraction uses the upper bits of two outputs, 53 bits in all, so it is exact in binary64. -/
namespace Pseudocode

/-- The words of a generator and the position of the next one to give out. -/
structure Twister where
  words : Array UInt32
  next : Nat

namespace Twister

def size : Nat := 624

def word (words : Array UInt32) (i : Nat) : UInt32 := words.getD i 0

/-- A word with its two highest bits mixed into the lowest. -/
def fold30 (w : UInt32) : UInt32 := w ^^^ (w >>> 30)

def fillFrom (seed : UInt32) : Array UInt32 :=
  (List.range (size - 1)).foldl
    (fun words i => words.push (1812433253 * fold30 (word words i) + (i + 1).toUInt32)) #[seed]

/-- The 32-bit words of a number, lowest first; zero has one word. -/
def seedWords (n : Nat) : Array UInt32 :=
  ((List.range (n.log2 / 32 + 1)).map fun i => (n >>> (32 * i)).toUInt32).toArray

/-- One mixing step at position `i`: `update` gets the word there and the folded word before it.
Answers the next position; past the end the last word is copied to the front. -/
def mixAt (update : UInt32 → UInt32 → UInt32) (words : Array UInt32) (i : Nat) :
    Array UInt32 × Nat :=
  let words := words.setIfInBounds i (update (word words i) (fold30 (word words (i - 1))))
  if i + 1 ≥ size then (words.setIfInBounds 0 (word words (size - 1)), 1) else (words, i + 1)

/-- The generator of a seed; the sign of the seed does not count. -/
def ofSeed (seed : Int) : Twister :=
  let key := seedWords seed.natAbs
  let mixKey := fun (state : Array UInt32 × Nat) (k : Nat) =>
    let j := k % key.size
    mixAt (fun w before => (w ^^^ (before * 1664525)) + word key j + j.toUInt32) state.1 state.2
  let mixPlace := fun (state : Array UInt32 × Nat) (_ : Nat) =>
    mixAt (fun w before => (w ^^^ (before * 1566083941)) - state.2.toUInt32) state.1 state.2
  let keyed := (List.range (max size key.size)).foldl mixKey (fillFrom 19650218, 1)
  let placed := (List.range (size - 1)).foldl mixPlace keyed
  ⟨placed.1.setIfInBounds 0 0x80000000, size⟩

/-- All words replaced by the next ones. -/
def renew (words : Array UInt32) : Array UInt32 :=
  (List.range size).foldl (fun words i =>
    let joined := (word words i &&& 0x80000000) ||| (word words ((i + 1) % size) &&& 0x7FFFFFFF)
    let twist : UInt32 := if joined % 2 = 1 then 0x9908B0DF else 0
    words.setIfInBounds i (word words ((i + 397) % size) ^^^ (joined >>> 1) ^^^ twist)) words

def temper (w : UInt32) : UInt32 :=
  let w := w ^^^ (w >>> 11)
  let w := w ^^^ ((w <<< 7) &&& 0x9D2C5680)
  let w := w ^^^ ((w <<< 15) &&& 0xEFC60000)
  w ^^^ (w >>> 18)

def output (t : Twister) : UInt32 × Twister :=
  let t := if t.next ≥ size then ⟨renew t.words, 0⟩ else t
  (temper (word t.words t.next), ⟨t.words, t.next + 1⟩)

/-- A fraction from zero up to but not including one. -/
def fraction (t : Twister) : Binary64 × Twister :=
  let (a, t) := t.output
  let (b, t) := t.output
  (Binary64.ofRatio false ((a >>> 5).toNat * 67108864 + (b >>> 6).toNat) (Nat.pow 2 53), t)

end Twister

/-- A source of random numbers. Its words are made from the seed when the first number is asked for. -/
inductive Random where
  | seeded (seed : Int)
  | started (twister : Twister)

namespace Random

def ofSeed (seed : Int) : Random := .seeded seed

/-- The next fraction from zero up to but not including one. -/
def fraction : Random → Binary64 × Random
  | .seeded seed =>
    let (x, t) := (Twister.ofSeed seed).fraction
    (x, .started t)
  | .started t =>
    let (x, t) := t.fraction
    (x, .started t)

end Random

end Pseudocode
