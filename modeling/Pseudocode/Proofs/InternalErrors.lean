import Pseudocode.Execution
import Pseudocode.Proofs.CheckFaults
import Pseudocode.Proofs.Composition
import Pseudocode.Proofs.EngineFaults
import Pseudocode.Proofs.StoreTyping

/-! Internal errors. What is wrong with a program is reported as a fault of the program: every error of
a text, a check or a run has a code of its own. An internal error is left for three things only: a check
needs the bounds of an array that has none, the counter of a loop is NULL when the loop comes around,
and a number that is no number is to become an integer. -/
namespace Pseudocode

section Codes

theorem LexicalFault.code_ne (fault : LexicalFault) : fault.code ≠ .internalError := by
  cases fault <;> nofun

theorem SyntaxError.code_ne (error : SyntaxError) : error.code ≠ .internalError := by
  cases error <;> nofun

theorem Finding.code_ne (finding : Finding) : finding.code ≠ .internalError := by
  cases finding <;> nofun

theorem RunFault.code_ne (fault : RunFault) : fault.code ≠ .internalError := by
  cases fault with
  | store cause =>
    show (if _ then Code.typeMismatch else .indexOutOfRange) ≠ _
    split <;> nofun
  | _ => nofun

end Codes

section Texts

variable {source : String}

theorem Scan.code_ne {d : Diagnostic} (member : d ∈ (Scan.ofText source).errors) :
    d.code ≠ .internalError := by
  obtain ⟨token, -, reported⟩ := List.mem_filterMap.mp member
  unfold Token.diagnostic? at reported
  split at reported
  next fault _ =>
    cases reported
    exact fault.code_ne
  next => cases reported

theorem Reading.code_ne {d : Diagnostic} (member : d ∈ (Reading.ofScan (.ofText source)).errors) :
    d.code ≠ .internalError := by
  obtain ⟨t, ran, errors, -⟩ := program_ends source
  have onward : (Reader.ofText source).Onward t := Parse.Forward.of_ok ran
  obtain ⟨found, all⟩ := onward.added
  rw [errors, all] at member
  obtain ⟨e, -, rfl⟩ := List.mem_map.mp member
  exact e.2.code_ne

theorem Review.code_ne {r : Review} {d : Diagnostic} (member : d ∈ r.errors ∨ d ∈ r.warnings) :
    d.code ≠ .internalError := by
  have reported : d ∈ r.reports.map Report.diagnostic :=
    member.elim (fun found => (List.mem_filter.mp found).1) fun found => (List.mem_filter.mp found).1
  obtain ⟨report, -, rfl⟩ := List.mem_map.mp reported
  exact report.finding.code_ne

/-- A text by itself, as a text that stands in no longer one. -/
def Embedding.alone (source : String) : Embedding where
  above := 0
  height := Scan.height source
  below := []
  finish := (Scan.ofText source).endToken
  inherits := False

theorem Readable.alone_joins (readable : Readable source) :
    (Embedding.alone source).Joins (.ofText source) (.ofText source) where
  rest := by
    show _ = List.map (Token.down 0) _ ++ []
    rw [map_down_zero, List.append_nil]
  ends := rfl
  finish := rfl
  previous := rfl
  operators := .inl rfl
  tokens := fun _ => readable.holds _ rfl
  before := nofun
  clean := rfl
  clean' := rfl

/-- A text that is read without errors is read completely. -/
theorem Readable.complete (readable : Readable source) : blockComplete (bodyOf source) = true := by
  obtain ⟨t, ran, clean, -⟩ := readable.ends
  have proper : (Embedding.alone source).Proper := .inl ⟨rfl, rfl⟩
  have stmts := Embedding.statement_agrees proper (SyntaxError.maxNesting + 1)
  have agrees := Embedding.statements_agrees (stmts.agrees .top) (stmts.shrinks .top) []
    readable.alone_joins (Nat.le_refl _) (Nat.le_refl _)
  obtain ⟨_, below⟩ | past | ⟨_, _, _, _, same⟩ := agrees _ t ran clean
  · cases below rfl
  · exact past.1.elim
  · exact same.complete

end Texts

namespace Analysis

variable {limits : Limits} {source : String}

theorem mem_sort {d : Diagnostic} {ds : List Diagnostic} : d ∈ Diagnostic.sort ds ↔ d ∈ ds :=
  (List.mergeSort_perm ds _).mem_iff

/-- An internal error of an analysis is that a check needs bounds that are not known. -/
theorem eq_unknownBounds {d : Diagnostic}
    (member : d ∈ (ofText limits source).errors ∨ d ∈ (ofText limits source).warnings)
    (internal : d.code = .internalError) : d = internalError .unknownBounds := by
  have tidy : (Reading.ofScan (.ofText source)).program.Tidy := Reading.tidy _ _
  unfold Analysis.errors Analysis.warnings at member
  cases reviewed : (ofText limits source).review with
  | ok review =>
    simp only [reviewed, mem_sort, List.mem_append] at member
    obtain ((found | found) | found) | found := member
    · exact absurd internal (Scan.code_ne found)
    · exact absurd internal (Reading.code_ne found)
    · exact absurd internal (Review.code_ne (.inl found))
    · exact absurd internal (Review.code_ne (.inr found))
  | error fault =>
    simp only [reviewed, List.mem_singleton, List.not_mem_nil, or_false] at member
    rw [review_ofText] at reviewed
    rw [member, Review.unknownBounds_of_error tidy reviewed]

/-- A valid text is readable, and its check has found no error. -/
theorem parts_of_valid (valid : (ofText limits source).isValid = true) : Readable source ∧
    ∃ review, (ofText limits source).review = .ok review ∧ review.errors = [] := by
  have none : (ofText limits source).errors = [] := List.isEmpty_iff.mp valid
  unfold Analysis.errors at none
  cases reviewed : (ofText limits source).review with
  | ok review =>
    rw [reviewed] at none
    have found := List.eq_nil_iff_forall_not_mem.mp none
    simp only [mem_sort, List.mem_append, not_or] at found
    refine ⟨⟨?_, ?_⟩, review, rfl, ?_⟩
    · exact List.eq_nil_iff_forall_not_mem.mpr fun d => (found d).1.1
    · exact List.eq_nil_iff_forall_not_mem.mpr fun d => (found d).1.2
    · exact List.eq_nil_iff_forall_not_mem.mpr fun d => (found d).2
  | error fault =>
    rw [reviewed] at none
    cases none

end Analysis

/-- The engine faults of a program that was checked: the counter of a loop is NULL, or a number that is
no number is to become an integer. -/
def EngineFault.Remains (fault : EngineFault) : Prop :=
  fault = .nanToInteger ∨ ∃ realStep, fault = .nullCounter realStep

section Runs

variable {settings : Settings} {source : String}

/-- A valid text runs into no other engine fault: its tree is tidy and complete, and all its arrays
have an element type. -/
theorem Analysis.remains_of_engine (host : Host)
    (valid : (Analysis.ofText settings.limits source).isValid = true)
    (stopped : ((Analysis.ofText settings.limits source).reading.program.outcome settings host).stop =
      some (.engine fault)) : fault.Remains := by
  obtain ⟨readable, review, reviewed, clean⟩ := Analysis.parts_of_valid valid
  rw [Analysis.review_ofText] at reviewed
  rw [Analysis.reading_ofText] at stopped
  have whole : blockComplete (Reading.ofScan (.ofText source)).program.body = true := readable.complete
  have tidy : (Reading.ofScan (.ofText source)).program.Tidy := Reading.tidy _ _
  have guarded := (Run.program_guarded tidy whole settings host).ends (.initial settings)
  have obeys := Review.obeys reviewed clean (Program.context _ settings host)
    (Program.context_routines _ settings host)
  have conducts := Run.program_conducts obeys settings host
  unfold Program.outcome at stopped
  split at stopped
  next => cases stopped
  next e s ran =>
    cases stopped
    have residual := guarded.of_error ran
    obtain ⟨-, -, due⟩ := conducts.of_error ran
    cases fault with
    | nullCounter realStep => exact .inr ⟨realStep, rfl⟩
    | nanToInteger => exact .inl rfl
    | namelessType =>
      obtain ⟨cell, member, nameless⟩ := residual
      obtain ⟨i, inside, held⟩ := Array.mem_iff_getElem.mp member
      have typed := due.memory.typed.arrays (Array.getElem?_eq_some_iff.mpr ⟨inside, held⟩)
      obtain ⟨type, named, -⟩ := typed.elements
      rw [nameless] at named
      cases named
    | _ => exact residual.elim

/-- An event says that there is an internal error only if the run ended with an engine fault. -/
theorem Outcome.engine_of_internal {o : Outcome} (member : event ∈ o.events limit)
    (internal : event.code = some .internalError) :
    ∃ fault, o.stop = some (.engine fault) ∧ event = Event.ofStop o.line (.engine fault) := by
  unfold Outcome.events at member
  simp only [List.mem_append, List.mem_map, Option.mem_toList, Option.map_eq_some_iff] at member
  obtain (⟨_, -, rfl⟩ | dropped) | ⟨e, stopped, rfl⟩ := member
  · cases internal
  · split at dropped
    · cases dropped
    · rw [List.mem_singleton.mp dropped] at internal
      cases internal
  · cases e with
    | fault line cause => exact absurd (Option.some.inj internal) cause.code_ne
    | overflow => cases internal
    | endless => cases internal
    | engine fault => exact ⟨fault, stopped, rfl⟩

end Runs

/-- A constant that holds an array is indexed. -/
def constantArray : String := "DECLARE a : ARRAY[1:3] OF INTEGER\nCONSTANT c = a\nOUTPUT c[1]"

/-- The body of a loop makes its counter NULL. -/
def nullCounter : String := "FOR i <- 1 TO 3\ni <- NULL\nNEXT i"

/-- A number that is read is divided as if it were an integer. -/
def wholePart : String := "DECLARE x : REAL\nINPUT x\nOUTPUT x DIV 1"

end Pseudocode
