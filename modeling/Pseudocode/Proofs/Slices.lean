import Pseudocode.Proofs.Totality
import Pseudocode.Proofs.WholeText

/-! The tokens of a text are slices of it. Between them stand blanks, line breaks and comments only, each
token stands at the place that the text in front of it leads to, and a line break keeps what is above
from what is below. -/
namespace Pseudocode.Scan

/-- The place behind a text: a line further down for each line break, and a column further on for each
character of the last line. -/
def placeAfter (text : List Char) : Position :=
  ⟨1 + text.count '\n', 1 + (text.reverse.takeWhile (· ≠ '\n')).length⟩

/-- What may stand between two tokens, in front of `behind`: blanks, line breaks and comments. A comment
goes on to the end of its line. -/
inductive Gap (behind : List Char) : List Char → Prop
  | nil : Gap behind []
  | blank : c ∈ [' ', '\t', '\r', '\n'] → Gap behind gap → Gap behind (c :: gap)
  | comment : mark ∈ [['#'], ['/', '/']] → '\n' ∉ text → LineEnds (gap ++ behind) → Gap behind gap →
      Gap behind (mark ++ text ++ gap)

/-- The tokens are slices of `left`, which stands behind `before`, in their order, and what is not in
a slice may stand between tokens. The end of input is the last token and no other one. -/
inductive Slices : (before left : List Char) → List Token → Prop
  | last : Gap [] gap → Slices before gap [⟨.endOfInput, "", placeAfter (before ++ gap)⟩]
  | next : Gap (lexeme ++ left) gap → lexeme ≠ [] → kind ≠ .endOfInput →
      Slices (before ++ gap ++ lexeme) left others →
      Slices before (gap ++ lexeme ++ left)
        (⟨kind, String.ofList lexeme, placeAfter (before ++ gap)⟩ :: others)

theorem foldl_past_place (text more : List Char) :
    more.foldl past (placeAfter text) = placeAfter (text ++ more) := by
  induction more generalizing text with
  | nil => rw [List.foldl_nil, List.append_nil]
  | cons c more ih =>
    have step : past (placeAfter text) c = placeAfter (text ++ [c]) := by
      by_cases ends : c = '\n'
      · simp [past, placeAfter, ends, Nat.add_assoc]
      · simp [past, placeAfter, ends, Nat.add_comm]
    rw [List.foldl_cons, step, ih, List.append_assoc, List.singleton_append]

namespace Gap

variable {behind gap : List Char}

theorem blanks (blank : ∀ c ∈ text, isSpace c = true) (known : Gap behind gap) : Gap behind (text ++ gap) := by
  induction text with
  | nil => exact known
  | cons c text ih =>
    obtain ⟨space, others⟩ := List.forall_mem_cons.mp blank
    refine .blank ?_ (ih others)
    simp only [isSpace, Bool.or_eq_true, beq_iff_eq] at space
    rcases space with (rfl | rfl) | rfl <;> decide

/-- What is skipped on a line may stand between tokens. -/
theorem skipped {line below : List Char} (inside : '\n' ∉ line) (skips : (munch c line).1 = none)
    (ends : LineEnds below) (apart : gap ++ behind = line.drop (munch c line).2 ++ below)
    (known : Gap behind gap) : Gap behind (c :: line.take (munch c line).2 ++ gap) := by
  revert skips apart
  unfold munch
  split
  next space =>
    intro _ _
    have row : line.take (line.takeWhile isSpace).length = line.takeWhile isSpace :=
      (List.prefix_iff_eq_take.mp (List.takeWhile_prefix isSpace)).symm
    dsimp only
    rw [row]
    have blank : ∀ d ∈ c :: line.takeWhile isSpace, isSpace d = true :=
      List.forall_mem_cons.mpr ⟨space, fun d member => List.mem_takeWhile_imp member⟩
    exact blanks blank known
  split
  next mark =>
    intro _ apart
    simp only [List.drop_length, List.nil_append] at apart
    have ends : LineEnds (gap ++ behind) := apart ▸ ends
    dsimp only
    rw [List.take_length]
    obtain rfl | ⟨rfl, second⟩ := mark
    · have hash : ['#'] ∈ [['#'], ['/', '/']] := .head _
      exact .comment hash inside ends known
    · cases line with
      | nil => cases second
      | cons d line =>
        obtain rfl := Option.some.inj second
        have slashes : ['/', '/'] ∈ [['#'], ['/', '/']] := .tail _ (.head _)
        exact .comment slashes (fun member => inside (.tail _ member)) ends known
  -- every other form is a token
  repeat' split
  all_goals
    intro skips
    cases skips

end Gap

theorem toLineEnd_eq (text : List Char) : ∃ below, text = toLineEnd text ++ below ∧ LineEnds below := by
  refine ⟨text.dropWhile (· ≠ '\n'), List.takeWhile_append_dropWhile.symm, ?_⟩
  intro c member
  have stopped := List.head?_dropWhile_not (· ≠ '\n') text
  rw [Option.mem_def.mp member] at stopped
  simpa using stopped

theorem not_mem_toLineEnd (text : List Char) : '\n' ∉ toLineEnd text := by
  intro member
  simpa using List.mem_takeWhile_imp member

/-- A slice that is skipped is one with the gap behind it. -/
theorem Slices.skip (slices : Slices (before ++ text) left others)
    (joins : ∀ gap behind, gap ++ behind = left → Gap behind gap → Gap behind (text ++ gap)) :
    Slices before (text ++ left) others := by
  cases slices with
  | last gap =>
    rw [List.append_assoc]
    exact .last (joins _ _ (List.append_nil _) gap)
  | @next lexeme left gap kind _ _ between full inner others =>
    rw [List.append_assoc before, ← List.append_assoc text, ← List.append_assoc text]
    refine .next (joins _ _ (List.append_assoc ..).symm between) full inner ?_
    rwa [← List.append_assoc before]

theorem sweep_slices (before left : List Char) : Slices before left
    ((sweep (placeAfter before) left).tokens ++
      [⟨.endOfInput, "", (sweep (placeAfter before) left).finish⟩]) := by
  -- The induction is on the text that is left. What stands before it only gives the place.
  cases left with
  | nil =>
    have last : Slices before [] _ := .last .nil
    rw [List.append_nil] at last
    rwa [sweep]
  | cons c rest =>
    by_cases break' : c = '\n'
    · subst break'
      have others := sweep_slices (before ++ ['\n']) rest
      rw [← foldl_past_place] at others
      rw [sweep]
      have joins (gap behind : List Char) (known : Gap behind gap) : Gap behind (['\n'] ++ gap) :=
        .blank (by decide) known
      exact others.skip fun gap behind _ known => joins gap behind known
    · obtain ⟨below, apart, ends⟩ := toLineEnd_eq rest
      -- No form reaches beyond its line, so the line is taken apart from the text below it.
      have inside := not_mem_toLineEnd rest
      generalize toLineEnd rest = line at apart inside
      subst apart
      have short := munch_le c line
      have inner := munch_ne_end c line
      have known {gap behind : List Char} := @Gap.skipped behind gap c line below inside
      rw [sweep, front_append ends inside break']
      generalize munch c line = form at short inner known
      obtain ⟨kind?, extra⟩ := form
      have others := sweep_slices (before ++ c :: line.take extra) (line.drop extra ++ below)
      have whole : c :: (line ++ below) = c :: line.take extra ++ (line.drop extra ++ below) := by
        rw [List.cons_append, ← List.append_assoc, List.take_append_drop]
      rw [← foldl_past_place] at others
      simp only [List.take_append_of_le_length short, List.drop_append_of_le_length short]
      cases kind? with
      | none =>
        rw [whole]
        exact others.skip fun gap behind joins between => known rfl ends joins between
      | some kind =>
        have slice : Slices before _ _ := .next .nil (List.cons_ne_nil c _)
          (fun same => inner (congrArg some same)) (by rwa [List.append_nil])
        rw [List.append_nil, List.nil_append, ← whole] at slice
        exact slice
  termination_by left.length
  decreasing_by
    · exact Nat.lt_succ_self _
    · have parts := congrArg List.length ‹rest = toLineEnd rest ++ below›
      simp only [List.length_append, List.length_drop, List.length_cons] at parts ⊢
      omega

/-- How an error of scanning reports an invalid token. -/
def Reported (t : Token) (d : Diagnostic) : Prop :=
  ∃ fault, t.kind = .invalid fault ∧ d.line = t.line ∧ d.column = t.position.column ∧
    d.code = fault.code ∧ d.severity = .error

theorem reported_of_diagnostic {t : Token} (found : t.diagnostic? = some d) :
    t.kind.isInvalid = true ∧ Reported t d := by
  unfold Token.diagnostic? at found
  split at found
  next fault invalid =>
    cases found
    exact ⟨by rw [invalid]; rfl, fault, invalid, rfl, rfl, rfl, rfl⟩
  · cases found

theorem errors_reported (tokens : List Token) : List.Forall₂ Reported
    (tokens.filter (·.kind.isInvalid)) (tokens.filterMap Token.diagnostic?) := by
  induction tokens with
  | nil => exact .nil
  | cons t tokens ih =>
    cases found : t.diagnostic? with
    | none =>
      have valid := isInvalid_of_diagnostic found
      rw [List.filterMap_cons_none found, List.filter_cons_of_neg (by simp [valid])]
      exact ih
    | some d =>
      obtain ⟨invalid, reported⟩ := reported_of_diagnostic found
      rw [List.filterMap_cons_some found, List.filter_cons_of_pos (by exact invalid)]
      exact .cons reported ih

/-- Scanning partitions the text: the tokens are slices of it with only blanks, line breaks and comments
around them, each at its place, and the errors report the invalid tokens one by one. -/
theorem tokens_partition (source : String) :
    Slices [] source.toList (ofText source).allTokens ∧
      List.Forall₂ Reported ((ofText source).allTokens.filter (·.kind.isInvalid)) (ofText source).errors := by
  constructor
  · have slices := sweep_slices [] source.toList
    have start : placeAfter [] = ⟨1, 1⟩ := rfl
    rw [start, sweep_eq] at slices
    exact slices
  · have reported := errors_reported (ofText source).tokens
    have ended : [(ofText source).endToken].filter (·.kind.isInvalid) = [] := rfl
    rwa [allTokens, List.filter_append, ended, List.append_nil]

section LineLocal

/-- The same diagnostic some lines further down; its message names the line there. -/
def Shifted (lines : Nat) (d d' : Diagnostic) : Prop :=
  ∃ (line column : Nat) (code : Code) (severity : Severity) (detail : String),
    d = .atLine line column code severity detail ∧ d' = .atLine (line + lines) column code severity detail

theorem diagnostic_down (lines : Nat) (t : Token) :
    Option.Rel (Shifted lines) t.diagnostic? (t.down lines).diagnostic? := by
  unfold Token.diagnostic?
  rw [Token.kind_down]
  split
  next fault invalid => exact .some ⟨_, _, _, _, _, rfl, rfl⟩
  · exact .none

theorem errors_down (lines : Nat) (tokens : List Token) : List.Forall₂ (Shifted lines)
    (tokens.filterMap Token.diagnostic?) ((tokens.map (.down lines)).filterMap Token.diagnostic?) := by
  induction tokens with
  | nil => exact .nil
  | cons t tokens ih =>
    have first := diagnostic_down lines t
    rw [List.map_cons, List.filterMap_cons, List.filterMap_cons]
    revert first
    generalize t.diagnostic? = d, (t.down lines).diagnostic? = d'
    intro first
    cases first with
    | none => exact ih
    | some shifted => exact .cons shifted ih

theorem allTokens_append (source more : String) : (ofText (source ++ "\n" ++ more)).allTokens =
    (ofText source).tokens ++ (ofText more).allTokens.map (.down (height source)) := by
  have apart : (source ++ "\n" ++ more).toList = source.toList ++ '\n' :: more.toList := by simp
  have below : lines more.toList ≠ [] := List.splitOnP_ne_nil _ _
  have finish : (ofText (source ++ "\n" ++ more)).finish = (ofText more).finish.down (height source) := by
    simp only [ofText, ofChars, apart, lines_append, List.length_append,
      List.getLast?_append_of_ne_nil _ below, Position.down, height, Nat.add_comm]
  rw [allTokens, allTokens, List.map_append, tokens_append, List.append_assoc, endToken, finish]
  rfl

theorem not_mem_line {line source : List Char} (member : line ∈ lines source) : '\n' ∉ line := by
  induction source using by_lines with
  | last text inside =>
    rw [lines, List.splitOn_eq_singleton inside, List.mem_singleton] at member
    rwa [member]
  | above text below inside ih =>
    rw [lines_append, List.mem_append, lines, List.splitOn_eq_singleton inside, List.mem_singleton] at member
    obtain rfl | member := member
    · exact inside
    · exact ih member

/-- The tokens on a line are those of the line alone. -/
theorem tokens_on_line {source : String} (found : (lines source.toList)[i]? = some line) :
    (ofText source).tokens.filter (·.line = i + 1) = (ofChars line).tokens.map (.down i) := by
  obtain ⟨inside, rfl⟩ := List.getElem?_eq_some_iff.mp found
  have all : lines source.toList = (lines source.toList).take i ++
      (lines source.toList)[i] :: (lines source.toList).drop (i + 1) := by
    rw [List.getElem_cons_drop, List.take_append_drop]
  have alone : lines (lines source.toList)[i] = [(lines source.toList)[i]] :=
    List.splitOn_eq_singleton (not_mem_line (List.getElem_mem inside))
  rw [ofText, tokens_ofChars, tokens_ofChars, alone]
  generalize (lines source.toList)[i] = line at all
  -- The lines above and below give tokens of other lines only.
  have upper : ∀ t ∈ linesFrom 1 ((lines source.toList).take i), t.line ≠ i + 1 := by
    intro t member
    have bounds := line_bounds member
    rw [List.length_take_of_le (Nat.le_of_lt inside)] at bounds
    omega
  have here : ∀ t ∈ (scanLine 1 line).map (Token.down i), t.line = i + 1 := by
    refine List.forall_mem_map.mpr fun t member => ?_
    rw [Token.line_down, line_of_mem member, Nat.add_comm]
  have lower : ∀ t ∈ (linesFrom 2 ((lines source.toList).drop (i + 1))).map (Token.down i),
      t.line ≠ i + 1 := by
    refine List.forall_mem_map.mpr fun t member => ?_
    have bounds := line_bounds member
    rw [Token.line_down]
    omega
  have single : linesFrom 1 [line] = scanLine 1 line := by
    rw [linesFrom_cons]
    exact List.append_nil _
  rw [all, linesFrom_append, linesFrom_cons, List.length_take_of_le (Nat.le_of_lt inside), single,
    List.filter_append, List.map_append, List.filter_append,
    List.filter_eq_nil_iff.mpr (by simpa only [decide_eq_true_eq] using upper),
    List.filter_eq_self.mpr (by simpa only [decide_eq_true_eq] using here),
    List.filter_eq_nil_iff.mpr (by simpa only [decide_eq_true_eq] using lower), List.nil_append,
    List.append_nil]

/-- Scanning is local to the lines. Of two texts with a line break between them the one below is scanned
as if it stood alone, and so is each line of a text. The scanner of the whole text finds the same. -/
theorem scanning_line_local (source more : String) :
    (ofText (source ++ "\n" ++ more)).allTokens = (ofText source).tokens ++
        (ofText more).allTokens.map (.down (1 + source.toList.count '\n')) ∧
      (∃ below, (ofText (source ++ "\n" ++ more)).errors = (ofText source).errors ++ below ∧
        List.Forall₂ (Shifted (1 + source.toList.count '\n')) (ofText more).errors below) ∧
      (∀ i line, (lines source.toList)[i]? = some line →
        (ofText source).tokens.filter (·.line = i + 1) = (ofChars line).tokens.map (.down i)) ∧
      ∀ source, sweep ⟨1, 1⟩ source.toList =
        ⟨(ofText source).tokens, (ofText source).errors, (ofText source).finish⟩ := by
  rw [← length_lines]
  refine ⟨allTokens_append source more, ⟨_, ?_, errors_down _ _⟩, fun i line => tokens_on_line, sweep_eq⟩
  rw [errors, tokens_append, List.filterMap_append]
  rfl

end LineLocal

end Pseudocode.Scan
