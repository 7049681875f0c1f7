import Mathlib.Data.List.Basic
import Pseudocode.CommandLine.Session

/-! Blocks that the user types. The lines of a session up to an `exit` that is typed while no block is pending are
taken apart at the blank ones; the pieces that have lines are the blocks. Each block is run once, when the line that
ends it has been read, and in the order of the lines. Only a run that cannot begin, because its time limit is no
number of seconds, ends a session before all blocks have been run. -/
namespace Pseudocode.CommandLine

/-- The line with this number is `exit` and no block is pending when it is read: it is the first line of a session that
starts without one, or the line above it is blank. -/
def ExitAt (fresh : Bool) (lines : List String) : Nat → Prop
  | 0 => fresh = true ∧ ∃ line ∈ lines[0]?, isExit line = true
  | i + 1 => (∃ above ∈ lines[i]?, isBlankLine above = true) ∧ ∃ line ∈ lines[i + 1]?, isExit line = true

/-- A session takes in the first `n` lines: they are all lines, or the next one is the `exit` that ends it. -/
structure TakesIn (fresh : Bool) (lines : List String) (n : Nat) : Prop where
  inside : n ≤ lines.length
  before : ∀ i < n, ¬ExitAt fresh lines i
  behind : n < lines.length → ExitAt fresh lines n

/-- The blocks of some lines: their longest rows of lines that are not blank. -/
def typedBlocks (lines : List String) : List (List String) :=
  (lines.splitOnP isBlankLine).filter fun piece => !piece.isEmpty

section Lines

variable {fresh : Bool} {line : String} {rest : List String} {n : Nat}

theorem exitAt_zero : ExitAt fresh (line :: rest) 0 ↔ fresh = true ∧ isExit line = true := by
  simp [ExitAt]

theorem exitAt_succ (i : Nat) : ExitAt fresh (line :: rest) (i + 1) ↔ ExitAt (isBlankLine line) rest i := by
  cases i with
  | zero => simp [ExitAt]
  | succ i => simp [ExitAt]

theorem takesIn_nil : TakesIn fresh [] n ↔ n = 0 := by
  constructor
  · intro takes
    exact Nat.le_zero.mp takes.inside
  · rintro rfl
    exact ⟨Nat.le_refl _, nofun, nofun⟩

theorem takesIn_zero : TakesIn fresh (line :: rest) 0 ↔ fresh = true ∧ isExit line = true := by
  rw [← exitAt_zero]
  constructor
  · intro takes
    exact takes.behind (Nat.succ_pos _)
  · intro exit
    exact ⟨Nat.zero_le _, nofun, fun _ => exit⟩

theorem takesIn_succ : TakesIn fresh (line :: rest) (n + 1) ↔
    ¬(fresh = true ∧ isExit line = true) ∧ TakesIn (isBlankLine line) rest n := by
  rw [← exitAt_zero]
  constructor
  · intro takes
    refine ⟨takes.before 0 (Nat.succ_pos _), Nat.le_of_succ_le_succ takes.inside, ?_, ?_⟩
    · intro i less
      rw [← exitAt_succ]
      exact takes.before (i + 1) (Nat.succ_lt_succ less)
    · intro less
      rw [← exitAt_succ]
      exact takes.behind (Nat.succ_lt_succ less)
  · rintro ⟨stays, takes⟩
    refine ⟨Nat.succ_le_succ takes.inside, ?_, ?_⟩
    · intro i less
      cases i with
      | zero => exact stays
      | succ i =>
        rw [exitAt_succ]
        exact takes.before i (Nat.lt_of_succ_lt_succ less)
    · intro less
      rw [exitAt_succ]
      exact takes.behind (Nat.lt_of_succ_lt_succ less)

/-- Every session comes to an end of what it takes in. -/
theorem exists_takesIn (fresh : Bool) (lines : List String) : ∃ n, TakesIn fresh lines n := by
  induction lines generalizing fresh with
  | nil => exact ⟨0, takesIn_nil.mpr rfl⟩
  | cons line rest ih =>
    by_cases exit : fresh = true ∧ isExit line = true
    · exact ⟨0, takesIn_zero.mpr exit⟩
    · obtain ⟨n, takes⟩ := ih (isBlankLine line)
      exact ⟨n + 1, takesIn_succ.mpr ⟨exit, takes⟩⟩

/-- What a line does to a pending block, beside what it is for the lines taken in. -/
theorem effect_cases (pending : Pending) (takes : TakesIn pending.isEmpty (line :: rest) n) :
    (LineEffect.of pending line = .exit ∧ pending = [] ∧ n = 0) ∨
      ∃ k, n = k + 1 ∧
        ((LineEffect.of pending line = .more (line :: pending) ∧ isBlankLine line = false ∧ TakesIn false rest k) ∨
          (isBlankLine line = true ∧ TakesIn true rest k ∧
            LineEffect.of pending line = if pending.isEmpty then .skip else .finish pending.text)) := by
  cases n with
  | zero =>
    obtain ⟨fresh, exit⟩ := takesIn_zero.mp takes
    left
    simp only [LineEffect.of, fresh, exit, Bool.and_self, if_true]
    exact ⟨trivial, List.isEmpty_iff.mp fresh, trivial⟩
  | succ k =>
    obtain ⟨stays, takes⟩ := takesIn_succ.mp takes
    right
    refine ⟨k, rfl, ?_⟩
    have goesOn : (pending.isEmpty && isExit line) = false := by
      rw [Bool.eq_false_iff, ne_eq, Bool.and_eq_true]
      exact stays
    cases blank : isBlankLine line with
    | false =>
      left
      rw [blank] at takes
      simp [LineEffect.of, goesOn, blank, takes]
    | true =>
      right
      rw [blank] at takes
      simp [LineEffect.of, goesOn, blank, takes]

end Lines

/-- What is put out when a piece of lines between blank ones is run: nothing if it has no lines. -/
def Options.answer (o : Options) (host : Host) (piece : List String) : Except Overflow (List Write) :=
  if piece.isEmpty then .ok []
  else (o.respond host o.givenInputs ("\n".intercalate piece)).map (·.writes)

/-- The prompts in front of the lines of a piece and of what ends it. -/
def prompts (pending : Pending) (piece : List String) : List Write :=
  .out pending.prompt :: piece.map fun _ => .out "... "

namespace Transcript

/-- A session that goes on behind a piece, unless the run of it cannot begin. -/
def behind (asked : List Write) (answer : Except Overflow (List Write)) (rest : Transcript) : Transcript :=
  match answer with
  | .ok writes => ⟨asked ++ writes ++ rest.writes, rest.ending⟩
  | .error cause => ⟨asked, .overflow cause⟩

/-- A session in which the pieces are typed and run one after the other. -/
def ofPieces (o : Options) (host : Host) : List (List String) → Transcript
  | [] => ⟨[], .status .fine⟩
  | piece :: rest => behind (prompts [] piece) (o.answer host piece) (ofPieces o host rest)

/-- What is put out first stands in front whatever comes of the run. -/
theorem behind_append (writes asked : List Write) (answer : Except Overflow (List Write)) (rest : Transcript) :
    behind (writes ++ asked) answer rest =
      ⟨writes ++ (behind asked answer rest).writes, (behind asked answer rest).ending⟩ := by
  cases answer with
  | ok more => simp only [behind, List.append_assoc]
  | error cause => rfl

end Transcript

section Sessions

variable {o : Options} {host : Host} {lines : List String} {n : Nat}

theorem answer_pending (pending : Pending) : o.answer host pending.reverse =
    if pending.isEmpty then .ok [] else (o.respond host o.givenInputs pending.text).map (·.writes) := by
  simp only [Options.answer, List.isEmpty_reverse, Pending.text]

/-- With some lines pending, the first piece is the rest of the block. -/
theorem blockSession_eq (pending : Pending) (takes : TakesIn pending.isEmpty lines n)
    (pieces : (lines.take n).splitOnP isBlankLine = first :: rest) :
    blockSession o host pending lines =
      .behind (prompts pending first) (o.answer host (pending.reverse ++ first)) (.ofPieces o host rest) := by
  induction lines generalizing pending n first rest with
  | nil =>
    rw [List.take_nil, List.splitOnP_nil] at pieces
    obtain ⟨rfl, rfl⟩ := List.cons.inj pieces
    rw [List.append_nil, answer_pending]
    cases pending with
    | nil => rfl
    | cons line before =>
      simp only [blockSession, List.isEmpty_cons]
      cases o.respond host o.givenInputs (Pending.text (line :: before)) with
      | ok response => simp [Transcript.behind, Transcript.ofPieces, prompts, Except.map]
      | error cause => rfl
  | cons line lines ih =>
    obtain ⟨exit, rfl, rfl⟩ | ⟨k, rfl, ⟨more, text, takes⟩ | ⟨blank, takes, ends⟩⟩ := effect_cases pending takes
    · rw [List.take_zero, List.splitOnP_nil] at pieces
      obtain ⟨rfl, rfl⟩ := List.cons.inj pieces
      rw [blockSession, exit]
      rfl
    · rw [List.take_succ_cons, List.splitOnP_cons_eq_if_modifyHead, text, if_neg Bool.false_ne_true] at pieces
      obtain ⟨next, others, split⟩ := List.exists_cons_of_ne_nil (List.splitOnP_ne_nil isBlankLine (lines.take k))
      rw [split, List.modifyHead_cons] at pieces
      obtain ⟨rfl, rfl⟩ := List.cons.inj pieces
      rw [blockSession, more]
      dsimp only
      rw [ih (line :: pending) takes split, List.reverse_cons, List.append_assoc]
      exact (Transcript.behind_append [.out pending.prompt] ..).symm
    · rw [List.take_succ_cons, List.splitOnP_cons_eq_if_modifyHead, blank, if_pos rfl] at pieces
      obtain ⟨rfl, rfl⟩ := List.cons.inj pieces
      obtain ⟨next, others, split⟩ := List.exists_cons_of_ne_nil (List.splitOnP_ne_nil isBlankLine (lines.take k))
      have goesOn : blockSession o host [] lines = .ofPieces o host (next :: others) := ih [] takes split
      rw [blockSession, ends, goesOn, split, List.append_nil, answer_pending]
      cases pending with
      | nil => rfl
      | cons last before =>
        simp only [List.isEmpty_cons, Bool.false_eq_true, if_false]
        cases o.respond host o.givenInputs (Pending.text (last :: before)) with
        | ok response => rfl
        | error cause => rfl

/-- With some lines pending, the first block is what they are the beginning of. -/
theorem blocksFrom_eq (pending : Pending) (takes : TakesIn pending.isEmpty lines n)
    (pieces : (lines.take n).splitOnP isBlankLine = first :: rest) :
    blocksFrom pending lines =
      (((pending.reverse ++ first) :: rest).filter fun piece => !piece.isEmpty).map ("\n".intercalate ·) := by
  induction lines generalizing pending n first rest with
  | nil =>
    rw [List.take_nil, List.splitOnP_nil] at pieces
    obtain ⟨rfl, rfl⟩ := List.cons.inj pieces
    rw [List.append_nil]
    cases pending with
    | nil => rfl
    | cons line before => simp [blocksFrom, Pending.text]
  | cons line lines ih =>
    obtain ⟨exit, rfl, rfl⟩ | ⟨k, rfl, ⟨more, text, takes⟩ | ⟨blank, takes, ends⟩⟩ := effect_cases pending takes
    · rw [List.take_zero, List.splitOnP_nil] at pieces
      obtain ⟨rfl, rfl⟩ := List.cons.inj pieces
      rw [blocksFrom, exit]
      rfl
    · rw [List.take_succ_cons, List.splitOnP_cons_eq_if_modifyHead, text, if_neg Bool.false_ne_true] at pieces
      obtain ⟨next, others, split⟩ := List.exists_cons_of_ne_nil (List.splitOnP_ne_nil isBlankLine (lines.take k))
      rw [split, List.modifyHead_cons] at pieces
      obtain ⟨rfl, rfl⟩ := List.cons.inj pieces
      rw [blocksFrom, more]
      dsimp only
      rw [ih (line :: pending) takes split, List.reverse_cons, List.append_assoc]
      rfl
    · rw [List.take_succ_cons, List.splitOnP_cons_eq_if_modifyHead, blank, if_pos rfl] at pieces
      obtain ⟨rfl, rfl⟩ := List.cons.inj pieces
      obtain ⟨next, others, split⟩ := List.exists_cons_of_ne_nil (List.splitOnP_ne_nil isBlankLine (lines.take k))
      have goesOn := ih [] takes split
      rw [blocksFrom, ends, split, List.append_nil]
      cases pending with
      | nil => exact goesOn
      | cons last before => simpa [Pending.text] using goesOn

end Sessions

/-- What a list is taken apart at is all that gets lost. -/
theorem flatten_splitOnP (p : α → Bool) (xs : List α) : (xs.splitOnP p).flatten = xs.filter fun x => !p x := by
  induction xs with
  | nil => rfl
  | cons x xs ih =>
    rw [List.splitOnP_cons_eq_if_modifyHead]
    obtain ⟨first, rest, split⟩ := List.exists_cons_of_ne_nil (List.splitOnP_ne_nil p xs)
    rw [split, List.flatten_cons] at ih
    cases taken : p x with
    | true => simp [split, ih, taken]
    | false => simp [split, ih, taken]

theorem flatten_typedBlocks (lines : List String) :
    (typedBlocks lines).flatten = lines.filter fun line => !isBlankLine line := by
  rw [typedBlocks, List.flatten_filter_not_isEmpty, flatten_splitOnP]

/-- The run of a block cannot begin: the block is a program without errors, and the time limit is no number of
seconds. -/
def Options.Stalls (o : Options) (source : String) : Prop :=
  let settings := (o.settings o.givenInputs).toOption.getD {}
  o.check = false ∧ (Analysis.ofText settings.limits source).isValid = true ∧ settings.hasDeadline = false

theorem respond_ok_iff (o : Options) (host : Host) (source : String) :
    (∃ response, o.respond host o.givenInputs source = .ok response) ↔ ¬o.Stalls source := by
  simp only [Options.respond, Options.Stalls]
  generalize (o.settings o.givenInputs).toOption.getD {} = settings
  generalize Analysis.ofText settings.limits source = a
  cases o.check with
  | true => simp
  | false =>
    cases valid : a.isValid with
    | false => simp [Analysis.execute, valid, Except.map]
    | true =>
      cases deadline : settings.hasDeadline with
      | false => simp [Analysis.execute, Program.run, valid, deadline, Except.map]
      | true => simp [Analysis.execute, Program.run, valid, deadline, Except.map]

/-- Where runs can begin, they have responses. -/
theorem exists_responses (o : Options) (host : Host) : ∃ responses : String → Response,
    ∀ source, ¬o.Stalls source → o.respond host o.givenInputs source = .ok (responses source) := by
  refine ⟨fun source => (o.respond host o.givenInputs source).toOption.getD ⟨[], .fine⟩, ?_⟩
  intro source begins
  obtain ⟨response, responds⟩ := (respond_ok_iff o host source).mpr begins
  simp [responds, Except.toOption]

section Pieces

variable {o : Options} {host : Host} {piece : List String} {pieces : List (List String)}

theorem answer_of_empty (empty : piece.isEmpty = true) : o.answer host piece = .ok [] := by
  rw [Options.answer, if_pos empty]

theorem answer_of_block (block : piece.isEmpty = false) :
    o.answer host piece = (o.respond host o.givenInputs ("\n".intercalate piece)).map (·.writes) := by
  rw [Options.answer, block, if_neg Bool.false_ne_true]

theorem answer_ok_iff : (∃ writes, o.answer host piece = .ok writes) ↔
    (piece.isEmpty = false → ¬o.Stalls ("\n".intercalate piece)) := by
  cases block : piece.isEmpty with
  | true => simp [answer_of_empty block]
  | false =>
    rw [← respond_ok_iff o host, answer_of_block block]
    cases o.respond host o.givenInputs ("\n".intercalate piece) with
    | ok response => simp [Except.map]
    | error cause => simp [Except.map]

namespace Transcript

/-- A session in which every run comes to its end. -/
theorem ofPieces_complete {answers : List String → List Write}
    (answered : ∀ piece ∈ pieces, o.answer host piece = .ok (answers piece)) :
    ofPieces o host pieces = ⟨pieces.flatMap fun piece => prompts [] piece ++ answers piece, .status .fine⟩ := by
  induction pieces with
  | nil => rfl
  | cons piece rest ih =>
    obtain ⟨first, others⟩ := List.forall_mem_cons.mp answered
    rw [ofPieces, first, ih others, List.flatMap_cons]
    rfl

theorem ofPieces_ending : (ofPieces o host pieces).ending = .status .fine ↔
    ∀ piece ∈ pieces, ∃ writes, o.answer host piece = .ok writes := by
  induction pieces with
  | nil => simp [ofPieces]
  | cons piece rest ih =>
    rw [List.forall_mem_cons, ← ih, ofPieces]
    cases o.answer host piece with
    | ok writes => simp [behind]
    | error cause => simp [behind]

end Transcript

end Pieces

/-- What a session makes of its lines, of which it takes in the first `n`. -/
structure RunsBlocks (o : Options) (host : Host) (lines : List String) (n : Nat) : Prop where
  extent : TakesIn true lines n
  /-- The lines of the blocks are those that are not blank, each once and in their order. -/
  kept : (typedBlocks (lines.take n)).flatten = (lines.take n).filter fun line => !isBlankLine line
  texts : blocks lines = (typedBlocks (lines.take n)).map ("\n".intercalate ·)
  /-- Each piece is run when the line that ends it has been read, up to a run that cannot begin. -/
  session : blockSession o host [] lines = .ofPieces o host ((lines.take n).splitOnP isBlankLine)
  ending : (blockSession o host [] lines).ending = .status .fine ↔ ∀ source ∈ blocks lines, ¬o.Stalls source
  /-- If every run can begin, all blocks are run, and what they put out stands behind the prompts for their lines. -/
  complete : (∀ source ∈ blocks lines, ¬o.Stalls source) → ∃ responses : String → Response,
    (∀ source ∈ blocks lines, o.respond host o.givenInputs source = .ok (responses source)) ∧
    blockSession o host [] lines = ⟨((lines.take n).splitOnP isBlankLine).flatMap fun piece => prompts [] piece ++
      if piece.isEmpty then [] else (responses ("\n".intercalate piece)).writes, .status .fine⟩

example : blocks ["a", "exit", "", " EXIT ", "b"] = ["a\nexit"] := by decide +kernel

/-- A time limit of so many milliseconds that they are no number of seconds. -/
def boundless : Options := { timeoutMs := some (.ofNat (Nat.pow 10 400)) }

end Pseudocode.CommandLine
