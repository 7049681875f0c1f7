import Pseudocode.Proofs.InternalErrors
import Pseudocode.Proofs.TreeBounds

/-! What a tree may lack. A part of a statement is left out only where its header or its end was
reported, so the tree of a text without errors lacks nothing. The tree of a text with errors lacks no
other parts, and holds nothing that a check has no rule for. -/
namespace Pseudocode

theorem branchesComplete_iff {branches : List (Branch Stmt)} :
    branchesComplete branches = true ↔ ∀ b ∈ branches, blockComplete b.body = true := by
  induction branches with
  | nil => simp [branchesComplete]
  | cons b rest ih => simp [branchesComplete, ih]

theorem Slot.ofMissing_eq_nil {slot : Slot} {part : Option α} :
    slot.ofMissing part = [] ↔ part.isSome = true := by
  cases part <;> simp [ofMissing]

namespace Stmt

variable {s : Stmt}

/-- A statement that lacks nothing has blocks that lack nothing. -/
theorem complete_part {part : List Stmt} (complete : s.complete = true) (given : part ∈ s.parts) :
    ∀ t ∈ part, t.complete = true := by
  apply blockComplete_iff.mp
  cases s with
  | ifThen p condition thenBranch elseBranch =>
    simp only [Stmt.complete, Bool.and_eq_true] at complete
    simp only [parts, blocks, List.mem_cons, Option.mem_toList] at given
    rcases given with rfl | rfl
    · exact complete.1.2
    · exact complete.2
  | whileDo | repeatUntil | forLoop =>
    simp only [Stmt.complete, Bool.and_eq_true] at complete
    simp only [parts, blocks, List.mem_singleton] at given
    subst given
    simp only [complete]
  | caseOf p selector branches otherwise =>
    simp only [Stmt.complete, Bool.and_eq_true] at complete
    simp only [parts, blocks, List.mem_append, List.mem_map, Option.mem_toList] at given
    rcases given with ⟨b, member, rfl⟩ | rfl
    · exact branchesComplete_iff.mp complete.1.2 b member
    · exact complete.2
  | routine r =>
    obtain ⟨p, kind, name, params, returns, body⟩ := r
    simp only [Stmt.complete, Bool.and_eq_true] at complete
    cases List.mem_singleton.mp given
    exact complete.2
  | _ => cases given

theorem blanks_of_complete (complete : s.complete = true) : s.blanks = [] := by
  cases s with
  | routine r =>
    obtain ⟨p, kind, name, params, returns, body⟩ := r
    cases kind <;> simp_all [Stmt.complete, blanks, Slot.ofMissing_eq_nil]
  | _ => simp_all [Stmt.complete, blanks, Slot.ofMissing_eq_nil]

end Stmt

/-- Only what is reported leaves holes. Whatever the text, every node means something where it stands, in
particular there is none for a missing child; a statement lacks only what the reader leaves out when it
goes on after an error; and routines stand at the top level. So a check never comes to a node that it
has no rule for. The tree of a text without errors lacks nothing at all. -/
theorem holes_reported (source : String) :
    (Reading.ofScan (.ofText source)).program.Tidy ∧
    (∀ v ∈ (Reading.ofScan (.ofText source)).program.walk,
      (∀ slot ∈ v.stmt.blanks, slot.recoverable = true) ∧
      (v.stmt.routine?.isSome = true → v.depth = 0) ∧
      (Readable source → v.stmt.blanks = [])) ∧
    ∀ limit node, Review.ofProgram limit (Reading.ofScan (.ofText source)).program ≠
      .error (.noRule node) := by
  have tidy : (Reading.ofScan (.ofText source)).program.Tidy := Reading.tidy _ _
  refine ⟨tidy, ?_, ?_⟩
  · intro v member
    have read := Reading.asRead _ _ v member
    refine ⟨read.blanks, read.top, fun readable => ?_⟩
    have complete : ∀ s ∈ bodyOf source, s.complete = true := blockComplete_iff.mp readable.complete
    exact Stmt.blanks_of_complete
      (blockWalk_of_hereditary Stmt.complete_part 0 (bodyOf source) complete v member)
  · intro limit node failed
    cases Review.unknownBounds_of_error tidy failed

/-- The condition cannot be read. -/
def brokenLoop : String := "WHILE DO\nOUTPUT 1\nENDWHILE"

/-- The same loop with a condition, inside of a procedure. -/
def mendedLoop : String := "PROCEDURE p\nWHILE TRUE DO\nOUTPUT 1\nENDWHILE\nENDPROCEDURE"

theorem brokenLoop_reported :
    (¬Readable brokenLoop ∧ ∃ v ∈ (Reading.ofScan (.ofText brokenLoop)).program.walk,
      v.stmt.blanks = [.condition] ∧ ∀ slot ∈ v.stmt.blanks, slot.recoverable = true) ∧
    (Readable mendedLoop ∧ ∃ v ∈ (Reading.ofScan (.ofText mendedLoop)).program.walk,
      v.stmt.routine?.isSome = true ∧ v.depth = 0 ∧ v.stmt.blanks = []) := by
  have readable : Readable mendedLoop := by decide +kernel
  have blank : (Reading.ofScan (.ofText brokenLoop)).program.walk.any (fun v =>
      decide (v.stmt.blanks = [.condition])) = true := by decide +kernel
  have routine : (Reading.ofScan (.ofText mendedLoop)).program.walk.any (fun v =>
      v.stmt.routine?.isSome) = true := by decide +kernel
  obtain ⟨v, member, known⟩ := List.any_eq_true.mp blank
  obtain ⟨w, member', known'⟩ := List.any_eq_true.mp routine
  have reported := (holes_reported brokenLoop).2.1 v member
  obtain ⟨-, top, filled⟩ := (holes_reported mendedLoop).2.1 w member'
  refine ⟨⟨by decide +kernel, v, member, of_decide_eq_true known, reported.1⟩, readable, w, member', ?_⟩
  exact ⟨known', top known', filled readable⟩

end Pseudocode
