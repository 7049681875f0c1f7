import Pseudocode.Proofs.Slices
import Pseudocode.Proofs.TokenForms

/-! The layout of a line does not count. Every lexeme is scanned by itself as it was in its line, so a line
that has single blanks between the lexemes and no comment gives the same tokens, at other columns. -/
namespace Pseudocode

/-- What a token says, at whatever column it stands: its kind with the value, its characters and its line. -/
def Token.content (t : Token) : TokenKind × String × Nat := (t.kind, t.lexeme, t.line)

namespace Scan

/-- The lexemes of some tokens with single blanks between them. -/
def row (tokens : List Token) : String := " ".intercalate (tokens.map Token.lexeme)

/-- The lexemes of a scan, each on its line. -/
def respaced (s : Scan) : String :=
  "\n".intercalate ((List.range s.finish.line).map fun i => row (s.tokens.filter (·.line = i + 1)))

/-- A token that was found in a line and is not invalid. -/
structure Sound (t : Token) : Prop where
  form : ∃ c rest n, Form c rest t.kind n ∧ n ≤ rest.length ∧ t.lexeme = String.ofList (c :: rest.take n)
  valid : t.kind.isInvalid = false
  inside : '\n' ∉ t.lexeme.toList

variable {t : Token} {tokens : List Token} {tail : List Char}

theorem sound_of_mem {source : String} (clean : (ofText source).errors = [])
    (member : t ∈ (ofText source).tokens) : Sound t := by
  have valid := valid_of_mem clean member
  obtain ⟨⟨line, number⟩, place, there⟩ := List.mem_flatMap.mp member
  have inside := not_mem_line (List.fst_mem_of_mem_zipIdx place)
  obtain ⟨before, c, rest, n, rfl, form, short, lexeme⟩ := form_of_mem there
  have part : c :: rest.take n ⊆ c :: rest := List.cons_subset_cons c (List.take_subset n rest)
  constructor
  · exact ⟨c, rest, n, form, short, lexeme⟩
  · exact valid
  · intro break'
    rw [lexeme, String.toList_ofList] at break'
    apply inside
    exact List.mem_append_right _ (part break')

theorem Sound.full (sound : Sound t) : 0 < t.lexeme.toList.length := by
  obtain ⟨c, rest, n, -, -, lexeme⟩ := sound.form
  simp [lexeme]

/-- A token begins with no blank. -/
theorem Form.solid (form : Form c rest kind n) : isSpace c = false := by
  cases form with
  | sign space => exact space
  | number plain => exact plain.space
  | word plain => exact plain.space
  | unexpected plain => exact plain.space
  | string quote => exact quote ▸ plain_double.space
  | unterminated quote => exact quote ▸ plain_double.space
  | char quote => exact quote ▸ plain_single.space

/-- In front of a blank the lexeme of a token is scanned as the token. -/
theorem Sound.scans (sound : Sound t) (parted : Parted tail) (line fuel column : Nat) :
    ∃ column', lineFrom line (fuel + 1) column (t.lexeme.toList ++ tail) =
      ⟨t.kind, t.lexeme, ⟨line, column⟩⟩ :: lineFrom line fuel column' tail := by
  obtain ⟨c, rest, n, form, short, lexeme⟩ := sound.form
  have apart := (form.apart sound.valid parted).munch
  have size := List.length_take_of_le short
  rw [lexeme, String.toList_ofList, List.cons_append, lineFrom, apart]
  dsimp only
  rw [List.take_left' size, List.drop_left' size]
  exact ⟨_, rfl⟩

/-- A single blank in front of a lexeme is skipped. -/
theorem Sound.skips (sound : Sound t) (line fuel column : Nat) (tail : List Char) :
    ∃ column', lineFrom line (fuel + 1) column (' ' :: (t.lexeme.toList ++ tail)) =
      lineFrom line fuel column' (t.lexeme.toList ++ tail) := by
  obtain ⟨c, rest, n, form, -, lexeme⟩ := sound.form
  have blank (more : List Char) : munch ' ' (c :: more) = (none, 0) := by
    have space : isSpace ' ' = true := rfl
    rw [munch, if_pos space, List.takeWhile_cons_of_neg (by simp [form.solid])]
    rfl
  rw [lexeme, String.toList_ofList, List.cons_append, lineFrom, blank]
  exact ⟨_, rfl⟩

/-- The lexemes of some tokens, each behind a blank. -/
def trail (tokens : List Token) : List Char := tokens.flatMap fun t => ' ' :: t.lexeme.toList

theorem parted_trail (tokens : List Token) : Parted (trail tokens) := by
  cases tokens with
  | nil => exact .nil
  | cons t tokens => exact .cons

theorem row_cons (t : Token) (tokens : List Token) :
    (row (t :: tokens)).toList = t.lexeme.toList ++ trail tokens := by
  induction tokens generalizing t with
  | nil => simp [row, trail]
  | cons u tokens ih =>
    have apart : row (t :: u :: tokens) = t.lexeme ++ " " ++ row (u :: tokens) := String.intercalate_cons_cons
    rw [apart, String.toList_append, String.toList_append, ih, List.append_assoc]
    rfl

theorem trail_content (sound : ∀ t ∈ tokens, Sound t ∧ t.line = line) (enough : (trail tokens).length ≤ fuel) :
    (lineFrom line fuel column (trail tokens)).map Token.content = tokens.map Token.content := by
  induction tokens generalizing fuel column with
  | nil => cases fuel <;> rfl
  | cons t tokens ih =>
    obtain ⟨⟨known, rfl⟩, others⟩ := List.forall_mem_cons.mp sound
    have text : trail (t :: tokens) = ' ' :: (t.lexeme.toList ++ trail tokens) := rfl
    have full := known.full
    rw [text, List.length_cons, List.length_append] at enough
    -- one step for the blank and one for the lexeme
    obtain ⟨fuel, rfl⟩ : ∃ less, fuel = less + 1 + 1 := ⟨fuel - 2, by omega⟩
    obtain ⟨start, skips⟩ := known.skips t.line (fuel + 1) column (trail tokens)
    obtain ⟨next, scans⟩ := known.scans (parted_trail tokens) t.line fuel start
    rw [text, skips, scans, List.map_cons, List.map_cons, ih others (by omega)]
    rfl

theorem row_content (sound : ∀ t ∈ tokens, Sound t ∧ t.line = line) :
    (scanLine line (row tokens).toList).map Token.content = tokens.map Token.content := by
  cases tokens with
  | nil => rfl
  | cons t tokens =>
    obtain ⟨⟨known, rfl⟩, others⟩ := List.forall_mem_cons.mp sound
    have full := known.full
    rw [scanLine, row_cons, List.length_append]
    obtain ⟨fuel, size⟩ : ∃ less, t.lexeme.toList.length + (trail tokens).length = less + 1 :=
      ⟨t.lexeme.toList.length + (trail tokens).length - 1, by omega⟩
    obtain ⟨next, scans⟩ := known.scans (parted_trail tokens) t.line fuel 1
    rw [size, scans, List.map_cons, List.map_cons, trail_content others (by omega)]
    rfl

/-- The lexemes of a line do not depend on its number. -/
theorem row_scanLine (line : Nat) (text : List Char) : row (scanLine line text) = row (scanLine 1 text) := by
  have lexemes (line : Nat) : (scanLine line text).map Token.lexeme = (scanLine 0 text).map Token.lexeme := by
    have down := scanLine_down line 0 text
    rw [Nat.zero_add] at down
    rw [down, List.map_map]
    rfl
  rw [row, row, lexemes, lexemes 1]

theorem lines_content (sound : ∀ t ∈ linesFrom first texts, Sound t) :
    (linesFrom first (texts.map fun text => (row (scanLine 1 text)).toList)).map Token.content =
      (linesFrom first texts).map Token.content := by
  induction texts generalizing first with
  | nil => rfl
  | cons text texts ih =>
    rw [linesFrom_cons, List.forall_mem_append] at sound
    have here : ∀ t ∈ scanLine first text, Sound t ∧ t.line = first :=
      fun t member => ⟨sound.1 t member, line_of_mem member⟩
    rw [List.map_cons, linesFrom_cons, linesFrom_cons, List.map_append, List.map_append, ih sound.2,
      ← row_scanLine first, row_content here]

theorem row_inside (sound : ∀ t ∈ tokens, Sound t) : '\n' ∉ (row tokens).toList := by
  cases tokens with
  | nil => exact List.not_mem_nil
  | cons t tokens =>
    obtain ⟨known, others⟩ := List.forall_mem_cons.mp sound
    rw [row_cons, List.mem_append]
    rintro (break' | member)
    · exact known.inside break'
    · obtain ⟨u, there, break'⟩ := List.mem_flatMap.mp member
      obtain different | lower := List.mem_cons.mp break'
      · cases different
      · exact (others u there).inside lower

/-- The lexemes on a line are those of the line alone. -/
theorem row_of_line {source : String} (found : (lines source.toList)[i]? = some line) :
    row ((ofText source).tokens.filter (·.line = i + 1)) = row (scanLine 1 line) := by
  have single : lines line = [line] := List.splitOn_eq_singleton (not_mem_line (List.mem_of_getElem? found))
  have alone : (ofChars line).tokens = scanLine 1 line := by simp [ofChars, single]
  rw [tokens_on_line found, alone, ← scanLine_down, row_scanLine]

/-- The lines of the text that is spaced anew are those of the source, each spaced anew. -/
theorem lines_respaced {source : String} (clean : (ofText source).errors = []) :
    lines (ofText source).respaced.toList =
      (lines source.toList).map fun text => (row (scanLine 1 text)).toList := by
  have rows : ((List.range (ofText source).finish.line).map fun i =>
      (row ((ofText source).tokens.filter (·.line = i + 1))).toList) =
      (lines source.toList).map fun text => (row (scanLine 1 text)).toList := by
    apply List.ext_getElem
    · simp [ofText, ofChars]
    · intro i short inside
      rw [List.length_map] at inside
      rw [List.getElem_map, List.getElem_map, List.getElem_range, row_of_line (List.getElem?_eq_getElem inside)]
  have present : (lines source.toList).map (fun text => (row (scanLine 1 text)).toList) ≠ [] := by
    have some : lines source.toList ≠ [] := List.splitOnP_ne_nil _ _
    simpa using some
  rw [respaced, String.toList_intercalate, List.map_map]
  show lines (['\n'].intercalate (List.map (fun i => _) _)) = _
  rw [lines, List.splitOn_intercalate]
  · exact rows
  · refine List.forall_mem_map.mpr fun i _ => row_inside fun t member => ?_
    exact sound_of_mem clean (List.mem_of_mem_filter member)
  · rw [← rows] at present
    exact present

/-- The tokens of a text without lexical errors do not depend on its layout. Spaced anew, with single blanks
between the lexemes of a line and without comments, the text has no lexical error either, and the same kinds,
lexemes, values and lines in the same order. -/
theorem respacing_keeps_tokens {source : String} (clean : (ofText source).errors = []) :
    (ofText (ofText source).respaced).errors = [] ∧
      (ofText (ofText source).respaced).allTokens.map Token.content =
        (ofText source).allTokens.map Token.content := by
  have rows := lines_respaced clean
  have content : (ofText (ofText source).respaced).tokens.map Token.content =
      (ofText source).tokens.map Token.content := by
    rw [ofText, tokens_ofChars, rows, ofText, tokens_ofChars]
    exact lines_content fun t member => sound_of_mem clean member
  have finish : (ofText (ofText source).respaced).finish.line = (ofText source).finish.line := by
    rw [finish_line, finish_line, height, rows, List.length_map, height]
  constructor
  · rw [errors, List.filterMap_eq_nil_iff]
    intro t member
    obtain ⟨u, known, same⟩ := List.mem_map.mp (content ▸ List.mem_map_of_mem member)
    have kind : u.kind = t.kind := congrArg Prod.fst same
    have valid := valid_of_mem clean known
    cases found : t.diagnostic? with
    | none => rfl
    | some d =>
      have invalid := (reported_of_diagnostic found).1
      rw [← kind, valid] at invalid
      cases invalid
  · rw [allTokens, allTokens, List.map_append, List.map_append, content]
    simp [Token.content, endToken, Token.line, finish]

/-- Signs that stand close together and a comment with a quote in it. -/
theorem comparison_respaced :
    (ofText "IF a<-1<>b//\"\n\r  THEN x<=-2\n\t").respaced = "IF a <- 1 <> b\nTHEN x <= - 2\n" ∧
      (ofText "IF a <- 1 <> b\nTHEN x <= - 2\n").allTokens.map Token.content =
        (ofText "IF a<-1<>b//\"\n\r  THEN x<=-2\n\t").allTokens.map Token.content := by
  have text : (ofText "IF a<-1<>b//\"\n\r  THEN x<=-2\n\t").respaced = "IF a <- 1 <> b\nTHEN x <= - 2\n" := by
    decide +kernel
  have clean : (ofText "IF a<-1<>b//\"\n\r  THEN x<=-2\n\t").errors = [] := by decide +kernel
  have known := (respacing_keeps_tokens clean).2
  rw [text] at known
  exact ⟨text, known⟩

end Scan

end Pseudocode
