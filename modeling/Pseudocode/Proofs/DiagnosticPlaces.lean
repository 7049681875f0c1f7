import Mathlib.Data.Prod.Lex
import Pseudocode.Analysis
import Pseudocode.Proofs.GroundedChecks
import Pseudocode.Proofs.GroundedReading
import Pseudocode.Proofs.WholeText

/-! Where diagnostics point. Every token and the end of the text stand on a line of the text, and the
place behind a token is still on its line, so the same goes for whatever reading and checking take their
places from. A report lists its diagnostics by place, and those at one place as the phases found them. -/
namespace Pseudocode

/-- The place is on a line of the text, at one of its characters or just behind the last. -/
structure Position.Inside (source : String) (p : Position) : Prop where
  line : 1 ≤ p.line
  column : 1 ≤ p.column
  ends : ∃ text, (Scan.lines source.toList)[p.line - 1]? = some text ∧ p.column ≤ text.length + 1

/-- Places inside a text; nothing is asked of literals and names. -/
def Ground.inside (source : String) : Ground where
  place := Position.Inside source
  integer _ := True
  neg := id

namespace Scan

/-- A token stands behind where its line began to be scanned, and ends on the line. -/
theorem columns_of_mem {t : Token} (member : t ∈ lineFrom line fuel column text) :
    column ≤ t.position.column ∧ t.ending.column ≤ column + text.length := by
  induction fuel generalizing column text with
  | zero => cases member
  | succ fuel ih =>
    cases text with
    | nil => cases member
    | cons c rest =>
      have short := munch_le c rest
      rw [lineFrom] at member
      generalize munch c rest = form at member short
      obtain ⟨kind?, extra⟩ := form
      dsimp only at member short
      have later (after : t ∈ lineFrom line fuel (column + 1 + extra) (rest.drop extra)) :
          column ≤ t.position.column ∧ t.ending.column ≤ column + (c :: rest).length := by
        have bounds := ih after
        rw [List.length_drop] at bounds
        rw [List.length_cons]
        omega
      cases kind? with
      | none => exact later member
      | some kind =>
        rcases List.mem_cons.mp member with rfl | after
        · refine ⟨Nat.le_refl _, ?_⟩
          simp only [Token.ending, String.length_ofList, List.length_cons, List.length_take_of_le short]
          omega
        · exact later after

variable {source : String}

theorem token_inside {t : Token} (member : t ∈ (ofText source).tokens) : t.Grounded (.inside source) := by
  obtain ⟨⟨text, line⟩, numbered, there⟩ := List.mem_flatMap.mp member
  obtain ⟨positive, found⟩ := List.mem_zipIdx_iff_le_and_getElem?_sub.mp numbered
  obtain ⟨behind, ended⟩ := columns_of_mem there
  obtain rfl := line_of_mem there
  have grows : t.position.column ≤ t.ending.column := Nat.le_add_right _ _
  refine ⟨⟨positive, behind, text, found, ?_⟩, ⟨positive, Nat.le_trans behind grows, text, found, ?_⟩,
    fun _ _ => trivial, fun _ _ => trivial, trivial⟩
  · omega
  · omega

theorem endToken_inside : (ofText source).endToken.Grounded (.inside source) := by
  have some_line : lines source.toList ≠ [] := List.splitOnP_ne_nil _ _
  have positive := List.length_pos_iff.mpr some_line
  have inside : Position.Inside source (ofText source).finish := by
    refine ⟨positive, Nat.succ_le_succ (Nat.zero_le _), (lines source.toList).getLast some_line, ?_, ?_⟩
    · exact (List.getLast?_eq_getElem? ..).symm.trans (List.getLast?_eq_some_getLast some_line)
    · show ((lines source.toList).getLast?.map List.length).getD 0 + 1 ≤ _
      rw [List.getLast?_eq_some_getLast some_line]
      exact Nat.le_refl _
  exact ⟨inside, inside, nofun, fun _ _ => trivial, trivial⟩

end Scan

theorem Position.Inside.le_height {p : Position} (inside : p.Inside source) : p.line ≤ Scan.height source := by
  obtain ⟨text, found, -⟩ := inside.ends
  have bound := (List.getElem?_eq_some_iff.mp found).1
  have positive := inside.line
  unfold Scan.height
  omega

namespace Diagnostic

/-- The diagnostic is about a line of the text, and its message begins with the number of that line. -/
def NamesLine (source : String) (d : Diagnostic) : Prop :=
  ∃ line : Nat, 1 ≤ line ∧ line ≤ Scan.height source ∧ d.line = line ∧
    ∃ detail : String, d.message = s!"Line {line}: {detail}"

/-- The diagnostic is about a place on a line of the text, or the one behind the last character. -/
def NamesPlace (source : String) (d : Diagnostic) : Prop :=
  d.NamesLine source ∧ ∃ text, (Scan.lines source.toList)[d.line.toNat - 1]? = some text ∧
    1 ≤ d.column ∧ d.column ≤ text.length + 1

theorem namesLine_atLine {p : Position} (inside : p.Inside source) (column : Nat) (code : Code)
    (severity : Severity) (detail : String) : (atLine p.line column code severity detail).NamesLine source :=
  ⟨p.line, inside.line, inside.le_height, rfl, detail, rfl⟩

theorem namesPlace_atLine {p : Position} (inside : p.Inside source) (code : Code) (severity : Severity)
    (detail : String) : (atLine p.line p.column code severity detail).NamesPlace source := by
  obtain ⟨text, found, ended⟩ := inside.ends
  exact ⟨namesLine_atLine inside p.column code severity detail, text, found, Int.ofNat_le.mpr inside.column,
    Int.ofNat_le.mpr ended⟩

/-- The two lists have the same diagnostics, the second of them by place, and those at one place in the
same order. -/
structure SortedByPlace (before after : List Diagnostic) : Prop where
  ordered : after.Pairwise fun a b => toLex (a.line, a.column) ≤ toLex (b.line, b.column)
  perm : after.Perm before
  stable : ∀ line column, after.filter (fun d => d.line = line ∧ d.column = column) =
    before.filter fun d => d.line = line ∧ d.column = column

theorem notAfter_iff {a b : Diagnostic} :
    a.notAfter b = true ↔ toLex (a.line, a.column) ≤ toLex (b.line, b.column) := by
  simp [notAfter, Prod.Lex.toLex_le_toLex]

theorem sort_sorted (ds : List Diagnostic) : SortedByPlace ds (sort ds) := by
  have trans (a b c : Diagnostic) (first : a.notAfter b = true) (second : b.notAfter c = true) :
      a.notAfter c = true := notAfter_iff.mpr ((notAfter_iff.mp first).trans (notAfter_iff.mp second))
  have total (a b : Diagnostic) : (a.notAfter b || b.notAfter a) = true :=
    Bool.or_eq_true_iff.mpr ((le_total _ _).imp notAfter_iff.mpr notAfter_iff.mpr)
  have perm := List.mergeSort_perm ds notAfter
  refine ⟨(List.pairwise_mergeSort trans total ds).imp notAfter_iff.mp, perm, fun line column => ?_⟩
  -- Those at one place are in order as they are, so sorting leaves them as a sublist.
  have here : (ds.filter fun d => d.line = line ∧ d.column = column).Pairwise (notAfter · ·) := by
    refine List.pairwise_of_forall_mem_list fun a left b right => notAfter_iff.mpr ?_
    simp only [List.mem_filter, decide_eq_true_eq] at left right
    rw [left.2.1, left.2.2, right.2.1, right.2.2]
  have kept := (List.sublist_mergeSort trans total here List.filter_sublist).filter
    fun d => decide (d.line = line ∧ d.column = column)
  rw [List.filter_filter] at kept
  simp only [Bool.and_self] at kept
  exact (kept.eq_of_length (perm.filter _).length_eq.symm).symm

end Diagnostic

/-- The errors and the warnings of an analysis are sorted by place. -/
theorem Analysis.lists_sorted (a : Analysis) :
    match a.review with
    | .ok review =>
      Diagnostic.SortedByPlace (a.scan.errors ++ a.reading.errors ++ review.errors) a.errors ∧
        Diagnostic.SortedByPlace review.warnings a.warnings
    | .error fault =>
      Diagnostic.SortedByPlace [internalError fault] a.errors ∧ Diagnostic.SortedByPlace [] a.warnings := by
  unfold errors warnings
  cases a.review with
  | ok review => exact ⟨Diagnostic.sort_sorted _, Diagnostic.sort_sorted _⟩
  | error fault =>
    have one := Diagnostic.sort_sorted [internalError fault]
    have none := Diagnostic.sort_sorted []
    rw [Diagnostic.sort, List.mergeSort_singleton] at one
    rw [Diagnostic.sort, List.mergeSort_nil] at none
    exact ⟨one, none⟩

section Phases

variable {source : String}

theorem lexical_namesPlace {d : Diagnostic} (found : d ∈ (Scan.ofText source).errors) :
    d.NamesPlace source := by
  obtain ⟨t, inside, reported⟩ := List.mem_filterMap.mp found
  unfold Token.diagnostic? at reported
  split at reported
  · cases reported
    exact Diagnostic.namesPlace_atLine (Scan.token_inside inside).position ..
  · cases reported

theorem Reading.inside (source : String) :
    (ofScan (Scan.ofText source)).program.Grounded (.inside source) ∧
      ∀ d ∈ (ofScan (Scan.ofText source)).errors, d.NamesPlace source := by
  have finish : (Scan.ofText source).endToken.Grounded (.inside source) := Scan.endToken_inside
  obtain ⟨tree, errors⟩ := grounded (fun _ => Scan.token_inside) finish
  refine ⟨tree, fun d found => ?_⟩
  obtain ⟨p, e, inside, rfl⟩ := errors d found
  exact Diagnostic.namesPlace_atLine inside ..

theorem Report.namesLine {r : Report} (known : (Ground.inside source).Line r.position.line) :
    r.diagnostic.NamesLine source := by
  obtain ⟨p, inside, same⟩ := known
  unfold diagnostic Finding.diagnostic
  rw [← same]
  exact Diagnostic.namesLine_atLine inside ..

theorem CheckState.initial_grounded : CheckState.initial.Grounded G := by
  refine ⟨fun symbol has => ?_, fun entry member => absurd member (List.not_mem_nil), fun r member =>
    absurd member (Array.not_mem_empty r)⟩
  rcases has with outer | ⟨scope, member, -⟩
  · cases outer
  · cases member

/-- What checking reports, however far it comes. -/
theorem reports_nameLine {p : Program} (tree : p.Grounded (.inside source)) (limit : Int) :
    Ends (Check.checkProgram limit p) .initial (fun _ s => ∀ r ∈ s.reports, r.diagnostic.NamesLine source)
      (fun _ s => ∀ r ∈ s.reports, r.diagnostic.NamesLine source) :=
  ((Check.checkProgram_points limit tree).ends .initial CheckState.initial_grounded).mono
    (fun _ _ known r member => Report.namesLine (known.reports r member))
    fun _ _ known r member => Report.namesLine (known.reports r member)

theorem Review.namesLine {p : Program} (tree : p.Grounded (.inside source))
    (reviewed : ofProgram limit p = .ok review) :
    ∀ d ∈ review.errors ++ review.warnings, d.NamesLine source := by
  have checked := reports_nameLine tree limit
  unfold ofProgram EStateM.run at reviewed
  split at reviewed
  next s ran =>
    cases reviewed
    have known := checked.of_ok ran
    have all (d : Diagnostic) (member : d ∈ s.reports.toList.map Report.diagnostic) : d.NamesLine source := by
      obtain ⟨r, inside, rfl⟩ := List.mem_map.mp member
      exact known r (Array.mem_toList_iff.mp inside)
    intro d member
    rcases List.mem_append.mp member with error | warning
    · exact all d (List.mem_filter.mp error).1
    · exact all d (List.mem_filter.mp warning).1
  · cases reviewed

/-- What an analysis reports lies in the text if its first two phases report places of the text and the
tree has no others. -/
theorem Analysis.checked_inside (a : Analysis) {limit : Int}
    (phases : ∀ d ∈ a.scan.errors ++ a.reading.errors, d.NamesPlace source)
    (tree : a.reading.program.Grounded (.inside source))
    (reviewed : a.review = Review.ofProgram limit a.reading.program) :
    Ends (Check.checkProgram limit a.reading.program) .initial
        (fun _ s => ∀ r ∈ s.reports, r.diagnostic.NamesLine source)
        (fun _ s => ∀ r ∈ s.reports, r.diagnostic.NamesLine source) ∧
      match a.review with
      | .ok review =>
        (∀ d ∈ a.errors ++ a.warnings, d.NamesLine source) ∧
          Diagnostic.SortedByPlace (a.scan.errors ++ a.reading.errors ++ review.errors) a.errors ∧
          Diagnostic.SortedByPlace review.warnings a.warnings
      | .error fault =>
        Diagnostic.SortedByPlace [internalError fault] a.errors ∧
          Diagnostic.SortedByPlace [] a.warnings := by
  refine ⟨reports_nameLine tree limit, ?_⟩
  have sorted := a.lists_sorted
  cases ended : a.review with
  | error fault => rwa [ended] at sorted
  | ok review =>
    rw [ended] at sorted reviewed
    have checked := Review.namesLine tree reviewed.symm
    refine ⟨fun d member => ?_, sorted⟩
    rcases List.mem_append.mp member with error | warning
    · rcases List.mem_append.mp (sorted.1.perm.mem_iff.mp error) with early | late
      · exact (phases d early).1
      · exact checked d (List.mem_append_left _ late)
    · exact checked d (List.mem_append_right _ (sorted.2.perm.mem_iff.mp warning))

end Phases

/-- Diagnostics point into the text. Those of scanning and reading name a place on one of its lines, and
those of checking, however far it comes, name one of its lines. The lists of errors and warnings are
sorted by place, and diagnostics at one place are in the order in which the phases reported them. -/
theorem diagnostics_point_into_text (limits : Limits) (source : String) :
    let a := Analysis.ofText limits source
    (∀ d ∈ a.scan.errors ++ a.reading.errors, d.NamesPlace source) ∧
      Ends (Check.checkProgram limits.maxArrayElements a.reading.program) .initial
        (fun _ s => ∀ r ∈ s.reports, r.diagnostic.NamesLine source)
        (fun _ s => ∀ r ∈ s.reports, r.diagnostic.NamesLine source) ∧
      match a.review with
      | .ok review =>
        (∀ d ∈ a.errors ++ a.warnings, d.NamesLine source) ∧
          Diagnostic.SortedByPlace (a.scan.errors ++ a.reading.errors ++ review.errors) a.errors ∧
          Diagnostic.SortedByPlace review.warnings a.warnings
      | .error fault =>
        Diagnostic.SortedByPlace [Analysis.internalError fault] a.errors ∧
          Diagnostic.SortedByPlace [] a.warnings := by
  obtain ⟨tree, syntactic⟩ := Reading.inside source
  have phases (d : Diagnostic) (member : d ∈ (Scan.ofText source).errors ++
      (Reading.ofScan (Scan.ofText source)).errors) : d.NamesPlace source :=
    (List.mem_append.mp member).elim lexical_namesPlace (syntactic d)
  -- Scanning, reading and checking are generalized so that no step evaluates them.
  dsimp only [Analysis.ofText]
  generalize Reading.ofScan (Scan.ofText source) = reading at tree phases ⊢
  generalize Scan.ofText source = scan at phases ⊢
  generalize reviewed : Review.ofProgram limits.maxArrayElements reading.program = review
  exact ⟨phases, Analysis.checked_inside ⟨scan, reading, review⟩ phases tree reviewed.symm⟩

end Pseudocode
