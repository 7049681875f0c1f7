import Pseudocode.Proofs.NumeralReading
import Pseudocode.Proofs.WholeText

/-! The forms of tokens. What the scanner takes from the front of a text is said by `Form`, with one case for
each form. None of them looks further than the first character behind the token, so a token in front of a
blank has the form that it has in its text. -/
namespace Pseudocode.Scan

open Text

/-- The character begins no blank, comment or operator, whatever follows it. -/
structure Plain (c : Char) : Prop where
  space : isSpace c = false
  mark : c ≠ '#'
  sign : ∀ rest, sign? (c :: rest) = none

/-- The form of the token at the front of `c :: rest`: its kind and the number of characters of `rest` that
belong to it. -/
inductive Form (c : Char) (rest : List Char) : TokenKind → Nat → Prop
  | sign : isSpace c = false → c ≠ '#' → (c = '/' → rest.head? ≠ some '/') →
      sign? (c :: rest) = some (s, extra) → Form c rest (.sign s) extra
  | number : Plain c → isDigit c = true →
      number (c :: rest.takeWhile isDigit) (rest.dropWhile isDigit) = (kind, extra) →
      Form c rest kind ((rest.takeWhile isDigit).length + extra)
  | string : c = '"' → stringLength? rest = some n →
      Form c rest (.string (String.ofList (unescape (rest.take (n - 1))))) n
  | unterminated : c = '"' → stringLength? rest = none → Form c rest (.invalid .unterminatedString) rest.length
  | word : Plain c → isDigit c = false → c ≠ '"' → isWordStart c = true →
      Form c rest (wordKind (String.ofList (c :: rest.takeWhile isWordPart))) (rest.takeWhile isWordPart).length
  | char : c = '\'' → charLength? rest = some n →
      Form c rest (.char (String.ofList (unescape (rest.take (n - 1))))) n
  | unexpected : Plain c → isDigit c = false → c ≠ '"' → isWordStart c = false →
      (c = '\'' → charLength? rest = none) → Form c rest (.invalid (.unexpected c)) rest.length

variable {c : Char} {rest tail : List Char} {kind : TokenKind} {n : Nat}

theorem sign?_less (rest : List Char) : sign? ('<' :: rest) ≠ none := by
  cases rest with
  | nil => exact Option.some_ne_none _
  | cons d rest =>
    by_cases arrow : d = '-'
    · simp [sign?, arrow]
    · by_cases apart : d = '>'
      · simp [sign?, apart]
      · by_cases equal : d = '=' <;> simp [sign?, *]

theorem sign?_greater (rest : List Char) : sign? ('>' :: rest) ≠ none := by
  cases rest with
  | nil => exact Option.some_ne_none _
  | cons d rest => by_cases equal : d = '=' <;> simp [sign?, *]

theorem sign?_signStarts (starts : c ∈ signStarts) : sign? [c] ≠ none := by
  have each : signStarts.all (fun c => (sign? [c]).isSome) = true := by decide +kernel
  exact Option.isSome_iff_ne_none.mp (List.all_eq_true.mp each c starts)

theorem sign?_none (free : sign? (c :: rest) = none) (more : List Char) : sign? (c :: more) = none := by
  refine sign?_of_not_mem (fun starts => ?_) more
  by_cases less : c = '<'
  · exact sign?_less rest (less ▸ free)
  by_cases greater : c = '>'
  · exact sign?_greater rest (greater ▸ free)
  rw [sign?_alone less greater] at free
  exact sign?_signStarts starts free

theorem plain_of_sign (space : ¬isSpace c = true) (mark : ¬(c = '#' ∨ (c = '/' ∧ rest.head? = some '/')))
    (sign : sign? (c :: rest) = none) : Plain c where
  space := Bool.eq_false_iff.mpr space
  mark same := mark (.inl same)
  sign := sign?_none sign

theorem Plain.no_comment (plain : Plain c) (rest : List Char) :
    ¬(c = '#' ∨ (c = '/' ∧ rest.head? = some '/')) := by
  rintro (hash | ⟨rfl, -⟩)
  · exact plain.mark hash
  · cases plain.sign []

theorem plain_double : Plain '"' := ⟨by decide, by decide, fun _ => rfl⟩

theorem plain_single : Plain '\'' := ⟨by decide, by decide, fun _ => rfl⟩

/-- What the scanner finds has a form. -/
theorem form_of_munch (found : munch c rest = (some kind, n)) : Form c rest kind n := by
  unfold munch at found
  split at found
  · cases found
  next space =>
  split at found
  · cases found
  next mark =>
  split at found
  next s extra sign =>
    cases found
    refine .sign (Bool.eq_false_iff.mpr space) (fun same => mark (.inl same)) ?_ sign
    exact fun slash again => mark (.inr ⟨slash, again⟩)
  next sign =>
  have plain := plain_of_sign space mark sign
  split at found
  next digit =>
    cases found
    exact .number plain digit rfl
  next digit =>
  split at found
  next quote =>
    split at found
    next closed =>
      cases found
      exact .string quote closed
    next opened =>
      cases found
      exact .unterminated quote opened
  next quote =>
  have digit := Bool.eq_false_iff.mpr digit
  split at found
  next word =>
    cases found
    exact .word plain digit quote word
  next word =>
  split at found
  next closed =>
    split at closed
    next single =>
      cases found
      exact .char single closed
    · cases closed
  next opened =>
    cases found
    refine .unexpected plain digit quote (Bool.eq_false_iff.mpr word) fun single => ?_
    rwa [if_pos single] at opened

/-- The scanner finds every form. -/
theorem Form.munch (form : Form c rest kind n) : munch c rest = (some kind, n) := by
  cases form with
  | sign space mark slash sign =>
    have comment : ¬(c = '#' ∨ (c = '/' ∧ rest.head? = some '/')) := by
      rintro (hash | ⟨first, second⟩)
      · exact mark hash
      · exact slash first second
    simp only [Scan.munch, space, comment, sign, Bool.false_eq_true, if_false]
  | number plain digit number =>
    simp only [Scan.munch, plain.space, plain.no_comment, plain.sign, digit, number, Bool.false_eq_true, if_false,
      if_true]
  | string quote closed =>
    subst quote
    have digit : isDigit '"' = false := by decide
    simp only [Scan.munch, plain_double.space, plain_double.no_comment, plain_double.sign, digit, closed,
      Bool.false_eq_true, if_false, if_true]
  | unterminated quote opened =>
    subst quote
    have digit : isDigit '"' = false := by decide
    simp only [Scan.munch, plain_double.space, plain_double.no_comment, plain_double.sign, digit, opened,
      Bool.false_eq_true, if_false, if_true]
  | word plain digit quote word =>
    simp only [Scan.munch, plain.space, plain.no_comment, plain.sign, digit, quote, word, Bool.false_eq_true,
      if_false, if_true]
  | char quote closed =>
    subst quote
    have digit : isDigit '\'' = false := by decide
    have word : isWordStart '\'' = false := by decide
    have other : ('\'' : Char) ≠ '"' := by decide
    simp only [Scan.munch, plain_single.space, plain_single.no_comment, plain_single.sign, digit, word, other, closed,
      Bool.false_eq_true, if_false, if_true]
  | unexpected plain digit quote word single =>
    have opened : (if c = '\'' then charLength? rest else none) = none := ite_eq_right_iff.mpr single
    simp only [Scan.munch, plain.space, plain.no_comment, plain.sign, digit, quote, word, opened, Bool.false_eq_true,
      if_false]

/-- Each token of a line has its form there. -/
theorem form_of_mem {t : Token} {text : List Char} (member : t ∈ lineFrom line fuel column text) :
    ∃ before c rest n, text = before ++ c :: rest ∧ Form c rest t.kind n ∧ n ≤ rest.length ∧
      t.lexeme = String.ofList (c :: rest.take n) := by
  induction fuel generalizing column text with
  | zero => cases member
  | succ fuel ih =>
    cases text with
    | nil => cases member
    | cons c rest =>
      have short := munch_le c rest
      rw [lineFrom] at member
      cases form : Scan.munch c rest with
      | mk kind? extra =>
        rw [form] at member short
        have later (there : t ∈ lineFrom line fuel (column + 1 + extra) (rest.drop extra)) :
            ∃ before d rest' n, c :: rest = before ++ d :: rest' ∧ Form d rest' t.kind n ∧ n ≤ rest'.length ∧
              t.lexeme = String.ofList (d :: rest'.take n) := by
          obtain ⟨before, d, rest', n, apart, known⟩ := ih there
          refine ⟨c :: rest.take extra ++ before, d, rest', n, ?_, known⟩
          rw [List.append_assoc, ← apart, List.cons_append, List.take_append_drop]
        cases kind? with
        | none => exact later member
        | some kind =>
          obtain rfl | there := List.mem_cons.mp member
          · exact ⟨[], c, rest, extra, rfl, form_of_munch form, short, rfl⟩
          · exact later there

section Apart

/-- Nothing follows, or a blank. -/
def Parted (tail : List Char) : Prop := ∀ c ∈ tail.head?, c = ' '

theorem Parted.nil : Parted [] := by
  intro c member
  cases member

theorem Parted.cons : Parted (' ' :: tail) := by
  intro c member
  exact (Option.some.inj member).symm

theorem Parted.takeWhile (parted : Parted tail) (stop : p ' ' = false) : tail.takeWhile p = [] := by
  cases tail with
  | nil => rfl
  | cons c tail =>
    obtain rfl := parted c rfl
    exact List.takeWhile_cons_of_neg (by simp [stop])

theorem take_row (p : Char → Bool) (text : List Char) : text.take (text.takeWhile p).length = text.takeWhile p :=
  (List.prefix_iff_eq_take.mp (List.takeWhile_prefix p)).symm

theorem takeWhile_row (p : Char → Bool) (text more : List Char) :
    (text.takeWhile p ++ more).takeWhile p = text.takeWhile p ++ more.takeWhile p :=
  List.takeWhile_append_of_pos fun _ member => List.mem_takeWhile_imp member

theorem dropWhile_row (p : Char → Bool) (text more : List Char) :
    (text.takeWhile p ++ more).dropWhile p = more.dropWhile p :=
  List.dropWhile_append_of_pos fun _ member => List.mem_takeWhile_imp member

theorem sign?_parted (parted : Parted tail) (found : sign? (c :: rest) = some (s, extra)) :
    sign? (c :: (rest.take extra ++ tail)) = some (s, extra) := by
  unfold sign? at found
  split at found
  case h_23 => cases found
  all_goals
    obtain ⟨rfl, rfl⟩ := List.cons.inj ‹c :: rest = _›
    cases found
  -- behind a sign that is a part of a longer one there is at most a blank
  all_goals
    cases tail with
    | nil => rfl
    | cons d tail =>
      obtain rfl := parted d rfl
      rfl

/-- A number in front of a blank has the same fraction, or none. -/
theorem number_parted (parted : Parted tail) (found : number whole rest = (kind, extra)) :
    number whole (rest.take extra ++ tail) = (kind, extra) ∧
      (rest.take extra ++ tail).takeWhile isDigit = [] := by
  have integer (same : number whole [] = (kind, extra)) : number whole (rest.take extra ++ tail) = (kind, extra) ∧
      (rest.take extra ++ tail).takeWhile isDigit = [] := by
    cases same
    constructor
    · cases tail with
      | nil => rfl
      | cons d tail =>
        obtain rfl := parted d rfl
        rfl
    · exact parted.takeWhile rfl
  unfold number at found
  split at found
  next behind =>
    dsimp only at found
    split at found
    · exact integer found
    next fraction =>
      cases found
      rw [List.take_succ_cons, take_row, List.cons_append]
      constructor
      · rw [number, takeWhile_row, parted.takeWhile rfl, List.append_nil]
        exact if_neg fraction
      · rfl
  · exact integer found

theorem stringLength?_plain (quote : c ≠ '"') (escape : c ≠ '\\') (rest : List Char) :
    stringLength? (c :: rest) = (stringLength? rest).map (· + 1) := by
  rw [stringLength?]
  · exact quote
  · exact fun same _ => escape same
  · exact fun _ _ same _ => escape same

theorem stringLength?_take (closed : stringLength? rest = some n) (more : List Char) :
    stringLength? (rest.take n ++ more) = some n := by
  fun_induction stringLength? rest generalizing n with
  | case1 => cases closed
  | case2 below =>
    cases closed
    rfl
  | case3 => cases closed
  | case4 c rest ih =>
    obtain ⟨m, found, rfl⟩ := Option.map_eq_some_iff.mp closed
    rw [List.take_succ_cons, List.take_succ_cons, List.cons_append, List.cons_append, stringLength?, ih found]
    rfl
  | case5 c rest quote lone escape ih =>
    obtain ⟨m, found, rfl⟩ := Option.map_eq_some_iff.mp closed
    have plain : c ≠ '\\' := fun same => by
      cases rest with
      | nil => exact lone same rfl
      | cons d rest => exact escape d rest same rfl
    rw [List.take_succ_cons, List.cons_append, stringLength?_plain quote plain, ih found]
    rfl

theorem charLength?_take (closed : charLength? rest = some n) (more : List Char) :
    charLength? (rest.take n ++ more) = some n := by
  unfold charLength? at closed
  split at closed
  · cases closed
    rfl
  next c below escape =>
    split at closed
    · cases closed
    next plain =>
      cases closed
      simp only [not_or] at plain
      simp [charLength?_two, plain]
  · cases closed

theorem take_take_append (short : n ≤ rest.length) (tail : List Char) :
    (rest.take n ++ tail).take (n - 1) = rest.take (n - 1) := by
  rw [List.take_append_of_le_length, List.take_take, Nat.min_eq_left (Nat.sub_le n 1)]
  rw [List.length_take_of_le short]
  exact Nat.sub_le n 1

/-- In front of a blank a token has the form that it has in its text. -/
theorem Form.apart (form : Form c rest kind n) (valid : kind.isInvalid = false) (parted : Parted tail) :
    Form c (rest.take n ++ tail) kind n := by
  cases form with
  | sign space mark slash sign =>
    refine .sign space mark ?_ (sign?_parted parted sign)
    rintro rfl second
    cases sign
    exact absurd (parted '/' second) (by decide)
  | @number _ extra plain digit number =>
    obtain ⟨number, stops⟩ := number_parted parted number
    have behind := List.takeWhile_append_dropWhile (p := isDigit) (l := (rest.dropWhile isDigit).take extra ++ tail)
    rw [stops, List.nil_append] at behind
    have text : rest.take ((rest.takeWhile isDigit).length + extra) ++ tail =
        rest.takeWhile isDigit ++ ((rest.dropWhile isDigit).take extra ++ tail) := by
      rw [← List.append_assoc, ← List.take_length_add_append, List.takeWhile_append_dropWhile]
    have row : (rest.takeWhile isDigit ++ ((rest.dropWhile isDigit).take extra ++ tail)).takeWhile isDigit =
        rest.takeWhile isDigit := by rw [takeWhile_row, stops, List.append_nil]
    rw [text]
    have known : Form c (rest.takeWhile isDigit ++ ((rest.dropWhile isDigit).take extra ++ tail)) _ _ :=
      .number plain digit (by rw [row, dropWhile_row, behind, number])
    rwa [row] at known
  | string quote closed =>
    have known := Form.string quote (stringLength?_take closed tail)
    rwa [take_take_append (stringLength?_le closed)] at known
  | unterminated => cases valid
  | word plain digit quote word =>
    have row : (rest.takeWhile isWordPart ++ tail).takeWhile isWordPart = rest.takeWhile isWordPart := by
      rw [takeWhile_row, parted.takeWhile rfl, List.append_nil]
    have known : Form c (rest.takeWhile isWordPart ++ tail) _ _ := .word plain digit quote word
    rw [row] at known
    rwa [take_row]
  | char quote closed =>
    have known := Form.char quote (charLength?_take closed tail)
    rwa [take_take_append (charLength?_le closed)] at known
  | unexpected => cases valid

end Apart

end Pseudocode.Scan
