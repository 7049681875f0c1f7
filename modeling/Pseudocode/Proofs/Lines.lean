import Pseudocode.Proofs.Embedding

/-! A text is scanned line by line: a token stands on its line and does not depend on the line's
number. So the tokens of two texts with a line break between them are those of the first and,
further down, those of the second. -/
namespace Pseudocode.Scan

theorem lineFrom_down (lines line fuel column : Nat) (text : List Char) :
    lineFrom (line + lines) fuel column text = (lineFrom line fuel column text).map (.down lines) := by
  induction fuel generalizing column text with
  | zero => rfl
  | succ fuel ih =>
    cases text with
    | nil => rfl
    | cons c rest =>
      simp only [lineFrom, ih]
      split <;> rfl

theorem line_of_mem (member : t ∈ lineFrom line fuel column text) : t.line = line := by
  induction fuel generalizing column text with
  | zero => cases member
  | succ fuel ih =>
    cases text with
    | nil => cases member
    | cons c rest =>
      simp only [lineFrom] at member
      split at member
      · exact ih member
      · obtain rfl | later := List.mem_cons.mp member
        · rfl
        · exact ih later

theorem scanLine_down (lines line : Nat) (text : List Char) :
    scanLine (line + lines) text = (scanLine line text).map (.down lines) := lineFrom_down ..

/-- The tokens of some lines, the first of which has the given number. -/
def linesFrom (first : Nat) (texts : List (List Char)) : List Token :=
  (texts.zipIdx first).flatMap fun numbered => scanLine numbered.2 numbered.1

theorem tokens_ofChars (source : List Char) : (ofChars source).tokens = linesFrom 1 (lines source) := by
  rw [ofChars, linesFrom]

theorem linesFrom_cons (first : Nat) (text : List Char) (texts : List (List Char)) :
    linesFrom first (text :: texts) = scanLine first text ++ linesFrom (first + 1) texts := by
  rw [linesFrom, List.zipIdx_cons, List.flatMap_cons, linesFrom]

theorem linesFrom_down (lines first : Nat) (texts : List (List Char)) :
    linesFrom (first + lines) texts = (linesFrom first texts).map (.down lines) := by
  induction texts generalizing first with
  | nil => rfl
  | cons text texts ih =>
    rw [linesFrom_cons, linesFrom_cons, Nat.add_right_comm, ih, scanLine_down, List.map_append]

theorem linesFrom_append (first : Nat) (texts more : List (List Char)) :
    linesFrom first (texts ++ more) =
      linesFrom first texts ++ (linesFrom first more).map (.down texts.length) := by
  rw [← linesFrom_down, linesFrom, List.zipIdx_append, List.flatMap_append]
  rfl

theorem line_bounds (member : t ∈ linesFrom first texts) :
    first ≤ t.line ∧ t.line < first + texts.length := by
  obtain ⟨⟨text, line⟩, found, there⟩ := List.mem_flatMap.mp member
  have placed := line_of_mem there
  have := List.le_snd_of_mem_zipIdx found
  have := List.snd_lt_add_of_mem_zipIdx found
  dsimp only at *
  omega

theorem lines_append (source more : List Char) :
    lines (source ++ '\n' :: more) = lines source ++ lines more :=
  List.splitOnP_append_cons source more rfl

variable (source more : String)

/-- The number of lines of a text. -/
def height (source : String) : Nat := (lines source.toList).length

theorem finish_line : (ofText source).finish.line = height source := by
  rw [ofText, ofChars, height]

theorem tokens_append : (ofText (source ++ "\n" ++ more)).tokens =
    (ofText source).tokens ++ (ofText more).tokens.map (.down (height source)) := by
  have apart : (source ++ "\n" ++ more).toList = source.toList ++ '\n' :: more.toList := by simp
  rw [ofText, tokens_ofChars, apart, lines_append, linesFrom_append, ofText, tokens_ofChars, ofText,
    tokens_ofChars, height]

theorem isInvalid_of_diagnostic {t : Token} (found : t.diagnostic? = none) : t.kind.isInvalid = false := by
  unfold Token.diagnostic? at found
  split at found
  · cases found
  next valid =>
    cases kind : t.kind with
    | invalid fault => exact absurd kind (valid fault)
    | _ => rfl

variable {source}

/-- No token of a text without lexical errors is invalid. -/
theorem valid_of_mem (clean : (ofText source).errors = []) (member : t ∈ (ofText source).tokens) :
    t.kind.isInvalid = false :=
  isInvalid_of_diagnostic (List.filterMap_eq_nil_iff.mp clean t member)

theorem errors_append (clean : (ofText source).errors = []) (clean' : (ofText more).errors = []) :
    (ofText (source ++ "\n" ++ more)).errors = [] := by
  unfold errors at *
  have same (t : Token) (lines : Nat) : (t.down lines).diagnostic? = none ↔ t.diagnostic? = none := by
    unfold Token.diagnostic?
    rw [Token.kind_down]
    split <;> simp
  rw [tokens_append, List.filterMap_append, clean, List.nil_append, List.filterMap_map,
    List.filterMap_eq_nil_iff]
  intro t member
  exact (same t _).mpr (List.filterMap_eq_nil_iff.mp clean' t member)

end Pseudocode.Scan
