import Mathlib.Data.List.TakeWhile
import Pseudocode.Proofs.Lines

/-! A scanner that runs over the whole text with a position that it moves along character by character.
It knows nothing of lines beforehand: each form looks at all the text that is left and ends by itself
in front of a line break. It finds the same tokens, errors and end as scanning line by line. -/
namespace Pseudocode.Scan

open Text

/-- The position behind a character. -/
def past (p : Position) (c : Char) : Position :=
  if c = '\n' then ⟨p.line + 1, 1⟩ else ⟨p.line, p.column + 1⟩

/-- The number of characters after an opening quote up to and including the closing one. No character
of the literal is a line break, an escaped one neither. -/
def closing? : List Char → Option Nat
  | [] => none
  | '"' :: _ => some 1
  | '\n' :: _ => none
  | ['\\'] => none
  | '\\' :: c :: rest => if c = '\n' then none else (closing? rest).map (· + 2)
  | _ :: rest => (closing? rest).map (· + 1)

/-- The number of characters of a character literal after its opening quote: one plain character or an
escaped one, and the closing quote. -/
def single? : List Char → Option Nat
  | c :: d :: rest =>
    if c = '\\' then if d ≠ '\n' ∧ rest.head? = some '\'' then some 3 else none
    else if c ≠ '\'' ∧ c ≠ '\n' ∧ d = '\'' then some 2 else none
  | _ => none

/-- What stands in front of the next line break. -/
def toLineEnd (text : List Char) : List Char := text.takeWhile (· ≠ '\n')

/-- The form at the front of `c :: rest`, where `rest` is all that is left of the text: its kind, `none`
for what is skipped, and the number of characters of `rest` that belong to it. -/
def front (c : Char) (rest : List Char) : Option TokenKind × Nat :=
  if isSpace c then (none, (rest.takeWhile isSpace).length)
  else if c = '\n' then (none, 0)
  else if c = '#' ∨ (c = '/' ∧ rest.head? = some '/') then (none, (toLineEnd rest).length)
  else
    match sign? (c :: rest) with
    | some (s, extra) => (some (.sign s), extra)
    | none =>
      if isDigit c then
        let digits := rest.takeWhile isDigit
        let (kind, extra) := number (c :: digits) (rest.dropWhile isDigit)
        (some kind, digits.length + extra)
      else if c = '"' then
        match closing? rest with
        | some n => (some (.string (String.ofList (unescape (rest.take (n - 1))))), n)
        | none => (some (.invalid .unterminatedString), (toLineEnd rest).length)
      else if isWordStart c then
        let part := rest.takeWhile isWordPart
        (some (wordKind (String.ofList (c :: part))), part.length)
      else
        match (if c = '\'' then single? rest else none) with
        | some n => (some (.char (String.ofList (unescape (rest.take (n - 1))))), n)
        | none => (some (.invalid (.unexpected c)), (toLineEnd rest).length)

/-- What the scanner of the whole text has collected at the end. -/
structure Sweep where
  tokens : List Token
  errors : List Diagnostic
  finish : Position

/-- The token found, with the error that it stands for. -/
def Sweep.found (t : Token) (s : Sweep) : Sweep :=
  { s with tokens := t :: s.tokens, errors := t.diagnostic?.toList ++ s.errors }

/-- The whole text from a position on. -/
def sweep (p : Position) : List Char → Sweep
  | [] => ⟨[], [], p⟩
  | c :: rest =>
    let (kind?, extra) := front c rest
    let lexeme := c :: rest.take extra
    let others := sweep (lexeme.foldl past p) (rest.drop extra)
    match kind? with
    | none => others
    | some kind => others.found ⟨kind, String.ofList lexeme, p⟩
  termination_by text => text.length
  decreasing_by
    rw [List.length_drop, List.length_cons]
    omega

section Extent

theorem sign?_le (found : sign? (c :: rest) = some (s, extra)) : extra ≤ rest.length := by
  unfold sign? at found
  split at found
  all_goals cases found
  all_goals
    obtain ⟨-, rfl⟩ := List.cons.inj ‹_ :: _ = _›
    simp

theorem takeWhile_le (p : Char → Bool) (text : List Char) : (text.takeWhile p).length ≤ text.length :=
  (List.takeWhile_sublist p).length_le

theorem number_le (whole rest : List Char) : (number whole rest).2 ≤ rest.length := by
  unfold number
  split
  next behind =>
    dsimp only
    split
    · exact Nat.zero_le _
    · exact Nat.succ_le_succ (takeWhile_le isDigit behind)
  · exact Nat.zero_le _

theorem stringLength?_le (found : stringLength? text = some n) : n ≤ text.length := by
  fun_induction stringLength? text generalizing n with
  | case1 => cases found
  | case2 rest =>
    cases found
    exact Nat.succ_le_succ (Nat.zero_le _)
  | case3 => cases found
  | case4 c rest ih =>
    obtain ⟨m, closed, rfl⟩ := Option.map_eq_some_iff.mp found
    exact Nat.add_le_add_right (ih closed) 2
  | case5 c rest quote lone escape ih =>
    obtain ⟨m, closed, rfl⟩ := Option.map_eq_some_iff.mp found
    exact Nat.add_le_add_right (ih closed) 1

theorem charLength?_le (found : charLength? text = some n) : n ≤ text.length := by
  unfold charLength? at found
  split at found
  · cases found
    simp
  · split at found
    · cases found
    · cases found
      simp
  · cases found

/-- A form ends where its line does, or before. -/
theorem munch_le (c : Char) (rest : List Char) : (munch c rest).2 ≤ rest.length := by
  unfold munch
  split
  · exact takeWhile_le isSpace rest
  split
  · exact Nat.le_refl _
  split
  next s extra sign => exact sign?_le sign
  split
  · have parts := congrArg List.length (List.takeWhile_append_dropWhile (p := isDigit) (l := rest))
    have behind := number_le (c :: rest.takeWhile isDigit) (rest.dropWhile isDigit)
    rw [List.length_append] at parts
    dsimp only
    omega
  split
  · split
    next n closed => exact stringLength?_le closed
    · exact Nat.le_refl _
  split
  · exact takeWhile_le isWordPart rest
  · split
    next n closed =>
      split at closed
      · exact charLength?_le closed
      · cases closed
    · exact Nat.le_refl _

end Extent

section Below

/-- Nothing follows, or the next line. -/
def LineEnds (below : List Char) : Prop := ∀ c ∈ below.head?, c = '\n'

variable {line below : List Char}

theorem LineEnds.nil : LineEnds [] := by
  intro c member
  cases member

theorem LineEnds.cons : LineEnds ('\n' :: below) := by
  intro c member
  exact (Option.some.inj member).symm

/-- A row of characters that a line break ends does not go on below the line. -/
theorem takeWhile_append (ends : LineEnds below) (stop : p '\n' = false) :
    (line ++ below).takeWhile p = line.takeWhile p := by
  induction line with
  | nil =>
    cases below with
    | nil => rfl
    | cons c more =>
      obtain rfl := ends c rfl
      simp [stop]
  | cons c line ih =>
    simp only [List.cons_append, List.takeWhile_cons, ih]

theorem dropWhile_append (ends : LineEnds below) (stop : p '\n' = false) :
    (line ++ below).dropWhile p = line.dropWhile p ++ below := by
  induction line with
  | nil =>
    cases below with
    | nil => rfl
    | cons c more =>
      obtain rfl := ends c rfl
      simp [stop]
  | cons c line ih =>
    simp only [List.cons_append, List.dropWhile_cons, ih]
    split <;> rfl

theorem toLineEnd_append (ends : LineEnds below) (inside : '\n' ∉ line) :
    toLineEnd (line ++ below) = line := by
  rw [toLineEnd, takeWhile_append ends (by simp), List.takeWhile_eq_self_iff]
  intro c member
  simpa using ne_of_mem_of_not_mem member inside

/-- The characters that operators start with. -/
def signStarts : List Char :=
  ['←', '<', '≠', '≤', '≥', '>', '=', '+', '-', '*', '/', '&', '(', ')', '[', ']', ':', ',']

theorem sign?_of_not_mem (other : c ∉ signStarts) (rest : List Char) : sign? (c :: rest) = none := by
  unfold sign?
  split
  case h_23 => rfl
  all_goals
    obtain ⟨rfl, -⟩ := List.cons.inj ‹c :: rest = _ :: _›
    exact absurd (by decide) other

theorem sign?_alone (less : c ≠ '<') (greater : c ≠ '>') (rest : List Char) :
    sign? (c :: rest) = sign? [c] := by
  by_cases starts : c ∈ signStarts
  · simp only [signStarts, List.mem_cons, List.not_mem_nil, or_false] at starts
    obtain rfl | rfl | rfl | rfl | rfl | rfl | rfl | rfl | rfl | rfl | rfl | rfl | rfl | rfl | rfl | rfl | rfl | rfl :=
      starts
    all_goals first | rfl | contradiction
  · rw [sign?_of_not_mem starts, sign?_of_not_mem starts]

/-- No operator has a line break in it, or needs to see more than two characters. -/
theorem sign?_two (c d : Char) (rest : List Char) :
    sign? (c :: d :: rest) = if d = '\n' then sign? [c] else sign? [c, d] := by
  by_cases less : c = '<'
  · by_cases arrow : d = '-'
    · simp [sign?, less, arrow]
    · by_cases apart : d = '>'
      · simp [sign?, less, apart]
      · by_cases equal : d = '=' <;> simp [sign?, *]
  · by_cases greater : c = '>'
    · by_cases equal : d = '=' <;> simp [sign?, *]
    · rw [sign?_alone less greater, sign?_alone less greater [d], ite_self]

theorem sign?_append (ends : LineEnds below) :
    sign? (c :: (line ++ below)) = sign? (c :: line) := by
  match line, below with
  | [], [] => rfl
  | [], d :: more => rw [List.nil_append, sign?_two, if_pos (ends d rfl)]
  | d :: line, below =>
    rw [List.cons_append, sign?_two, sign?_two c d line]

theorem head?_append (ends : LineEnds below) (inside : c ≠ '\n') :
    (line ++ below).head? = some c ↔ line.head? = some c := by
  cases line with
  | cons d line => rfl
  | nil =>
    cases below with
    | nil => rfl
    | cons d more =>
      obtain rfl := ends d rfl
      simp [Ne.symm inside]

theorem number_append (ends : LineEnds below) : number whole (line ++ below) = number whole line := by
  cases line with
  | nil =>
    cases below with
    | nil => rfl
    | cons d more =>
      obtain rfl := ends d rfl
      rfl
  | cons d line =>
    by_cases point : d = '.'
    · rw [point, List.cons_append, number, number, takeWhile_append ends rfl]
    · simp [number, point]

/-- A literal closes on its line or not at all. -/
theorem closing?_append (ends : LineEnds below) (inside : '\n' ∉ line) :
    closing? (line ++ below) = stringLength? line := by
  fun_induction stringLength? line with
  | case1 =>
    cases below with
    | nil => rfl
    | cons d more =>
      obtain rfl := ends d rfl
      rfl
  | case2 => rfl
  | case3 =>
    cases below with
    | nil => rfl
    | cons d more =>
      obtain rfl := ends d rfl
      simp [closing?]
  | case4 c rest ih =>
    simp only [List.mem_cons, not_or] at inside
    simp [closing?, ih inside.2.2, Ne.symm inside.2.1]
  | case5 c rest quote lone escape ih =>
    have plain : c ≠ '\\' := by
      intro same
      cases rest with
      | nil => exact lone same rfl
      | cons d rest => exact escape d rest same rfl
    simp only [List.mem_cons, not_or] at inside
    rw [List.cons_append, ← ih inside.2]
    conv => lhs; unfold closing?
    simp [plain, Ne.symm inside.1]

theorem charLength?_two (c d : Char) (rest : List Char) : charLength? (c :: d :: rest) =
    if c = '\\' then if rest.head? = some '\'' then some 3 else none
    else if c ≠ '\'' ∧ d = '\'' then some 2 else none := by
  cases rest with
  | nil =>
    by_cases quote : d = '\'' <;> by_cases escape : c = '\\' <;> simp [charLength?, *]
  | cons e rest =>
    by_cases quote : d = '\'' <;> by_cases escape : c = '\\' <;> by_cases close : e = '\'' <;>
      simp [charLength?, *]

theorem single?_append (ends : LineEnds below) (inside : '\n' ∉ line) :
    single? (line ++ below) = charLength? line := by
  match line, below with
  | [], [] => rfl
  | [], [_] => rfl
  | [], c :: d :: more =>
    obtain rfl := ends c rfl
    rfl
  | [c], [] => simp [single?, charLength?]
  | [c], d :: more =>
    obtain rfl := ends d rfl
    simp [single?, charLength?]
  | c :: d :: line, below =>
    simp only [List.mem_cons, not_or] at inside
    simp only [List.cons_append, single?, charLength?_two, head?_append ends (by decide : '\'' ≠ '\n'),
      Ne.symm inside.1, Ne.symm inside.2.1, ne_eq, not_false_eq_true, true_and]

/-- In front of a line break each form is what it is on its line alone. -/
theorem front_append (ends : LineEnds below) (inside : '\n' ∉ line) (other : c ≠ '\n') :
    front c (line ++ below) = munch c line := by
  have spaces : (line ++ below).takeWhile isSpace = line.takeWhile isSpace := takeWhile_append ends rfl
  have digits : (line ++ below).takeWhile isDigit = line.takeWhile isDigit := takeWhile_append ends rfl
  have behind : (line ++ below).dropWhile isDigit = line.dropWhile isDigit ++ below :=
    dropWhile_append ends rfl
  have word : (line ++ below).takeWhile isWordPart = line.takeWhile isWordPart := takeWhile_append ends rfl
  have slash : (line ++ below).head? = some '/' ↔ line.head? = some '/' := head?_append ends (by decide)
  have left := toLineEnd_append ends inside
  have string := closing?_append ends inside
  have char := single?_append ends inside
  unfold front munch
  simp only [spaces, digits, behind, word, slash, left, string, char, sign?_append ends,
    number_append ends, if_neg other]
  -- A string or character literal keeps the text between its quotes, which ends on the line.
  have body (n : Nat) (short : n ≤ line.length) : (line ++ below).take (n - 1) = line.take (n - 1) :=
    List.take_append_of_le_length (Nat.le_trans (Nat.sub_le n 1) short)
  cases sign? (c :: line) with
  | some found => rfl
  | none =>
    dsimp only
    split
    · rfl
    split
    · rfl
    split
    · rfl
    split
    · cases closed : stringLength? line with
      | some n => simp only [body n (stringLength?_le closed)]
      | none => rfl
    split
    · rfl
    by_cases quote : c = '\''
    · simp only [if_pos quote]
      cases closed : charLength? line with
      | some n => simp only [body n (charLength?_le closed)]
      | none => rfl
    · simp only [if_neg quote]

end Below

section Equal

theorem foldl_past {text : List Char} (inside : '\n' ∉ text) (p : Position) :
    text.foldl past p = ⟨p.line, p.column + text.length⟩ := by
  induction text generalizing p with
  | nil => rfl
  | cons c text ih =>
    simp only [List.mem_cons, not_or] at inside
    rw [List.foldl_cons, past, if_neg (Ne.symm inside.1), ih inside.2, List.length_cons]
    simp only [Nat.add_assoc, Nat.add_comm 1]

/-- On a line the scanner of the whole text finds what scanning the line finds, and it stands at the
end of the line then. -/
theorem sweep_line {line below : List Char} (ends : LineEnds below) (fuel : Nat) (enough : line.length ≤ fuel)
    (inside : '\n' ∉ line) (p : Position) : sweep p (line ++ below) =
      (lineFrom p.line fuel p.column line).foldr Sweep.found
        (sweep ⟨p.line, p.column + line.length⟩ below) := by
  induction fuel generalizing line p with
  | zero =>
    obtain rfl := List.eq_nil_of_length_eq_zero (Nat.le_zero.mp enough)
    rfl
  | succ fuel ih =>
    cases line with
    | nil => rfl
    | cons c rest =>
      have left : '\n' ∉ rest := fun member => inside (.tail c member)
      have other : c ≠ '\n' := fun same => inside (same ▸ .head rest)
      have short := munch_le c rest
      rw [List.cons_append, sweep, front_append ends left other, lineFrom]
      generalize munch c rest = form at short
      obtain ⟨kind?, extra⟩ := form
      have lexeme : '\n' ∉ c :: rest.take extra := fun member =>
        inside (List.cons_subset_cons c (List.take_subset extra rest) member)
      have taken : p.column + (c :: rest.take extra).length = p.column + 1 + extra := by
        rw [List.length_cons, List.length_take_of_le short]
        omega
      have ended : p.column + 1 + extra + (rest.drop extra).length = p.column + (c :: rest).length := by
        rw [List.length_drop, List.length_cons]
        dsimp only at short
        omega
      have others := ih (Nat.le_of_succ_le_succ (Nat.le_trans (by simp) enough))
        (fun member => left (List.drop_subset extra rest member)) ⟨p.line, p.column + 1 + extra⟩
      simp only [List.take_append_of_le_length short, List.drop_append_of_le_length short,
        foldl_past lexeme, taken, others, ended]
      cases kind? <;> rfl

/-- A text is one line, or a line with a line break and another text below. -/
theorem by_lines {motive : List Char → Prop} (last : ∀ line, '\n' ∉ line → motive line)
    (above : ∀ line below, '\n' ∉ line → motive below → motive (line ++ '\n' :: below)) (source : List Char) :
    motive source := by
  by_cases member : '\n' ∈ source
  · obtain ⟨line, below, rfl, inside⟩ := List.eq_append_cons_of_mem member
    exact above line below inside (by_lines last above below)
  · exact last source member
  termination_by source.length
  decreasing_by
    simp only [‹source = line ++ '\n' :: below›, List.length_append, List.length_cons]
    omega

theorem length_lines (source : List Char) : (lines source).length = 1 + source.count '\n' := by
  induction source using by_lines with
  | last line inside => rw [lines, List.splitOn_eq_singleton inside, List.count_eq_zero_of_not_mem inside]; rfl
  | above line below inside ih =>
    rw [lines_append, List.length_append, ih, lines, List.splitOn_eq_singleton inside, List.count_append,
      List.count_eq_zero_of_not_mem inside, List.count_cons_self]
    simp only [List.length_singleton]
    omega

theorem sweep_lines (first : Nat) (source : List Char) : sweep ⟨first, 1⟩ source =
    (linesFrom first (lines source)).foldr Sweep.found ⟨[], [], ⟨first + source.count '\n',
      ((lines source).getLast?.map List.length).getD 0 + 1⟩⟩ := by
  induction source using by_lines generalizing first with
  | last line inside =>
    have whole := sweep_line .nil line.length (Nat.le_refl _) inside ⟨first, 1⟩
    rw [List.append_nil] at whole
    rw [whole, lines, List.splitOn_eq_singleton inside, List.count_eq_zero_of_not_mem inside, sweep,
      linesFrom_cons]
    simp [linesFrom, scanLine, Nat.add_comm]
  | above line below inside ih =>
    have more : lines below ≠ [] := List.splitOnP_ne_nil _ below
    rw [sweep_line .cons line.length (Nat.le_refl _) inside, lines_append, lines,
      List.splitOn_eq_singleton inside, List.singleton_append, linesFrom_cons, List.foldr_append,
      List.getLast?_cons_of_ne_nil more, List.count_append, List.count_eq_zero_of_not_mem inside,
      List.count_cons_self]
    have next : sweep ⟨first, 1 + line.length⟩ ('\n' :: below) = sweep ⟨first + 1, 1⟩ below := by
      rw [sweep]
      rfl
    rw [next, ih]
    simp only [scanLine, Nat.zero_add, Nat.add_assoc, Nat.add_comm 1]

theorem foldr_found (tokens : List Token) (s : Sweep) : tokens.foldr Sweep.found s =
    ⟨tokens ++ s.tokens, tokens.filterMap Token.diagnostic? ++ s.errors, s.finish⟩ := by
  induction tokens with
  | nil => rfl
  | cons t tokens ih =>
    rw [List.foldr_cons, ih, Sweep.found, List.filterMap_cons]
    cases t.diagnostic? <;> rfl

/-- Scanning line by line finds what scanning the whole text finds. -/
theorem sweep_eq (source : String) : sweep ⟨1, 1⟩ source.toList =
    ⟨(ofText source).tokens, (ofText source).errors, (ofText source).finish⟩ := by
  rw [sweep_lines, foldr_found, ← length_lines]
  simp only [List.append_nil]
  rfl

end Equal

end Pseudocode.Scan
