import Mathlib.Data.List.Induction
import Mathlib.Tactic.Ring
import Pseudocode.Numeral

/-! What the readers of numbers make of a plain numeral: ASCII digits, perhaps a point and more digits, perhaps
an exponent with its sign. Nothing of it is trimmed, grouped or taken for a word, so it is read part by part. -/
namespace Pseudocode

namespace Text

/-- A row of ASCII digits. -/
def Digits (text : List Char) : Prop := ∀ c ∈ text, c.isDigit = true

variable {c : Char} {text : List Char}

theorem digitValue_ascii (digit : c.isDigit = true) : digitValue? c = some (c.toNat - '0'.toNat) := by
  have inside : '0' ≤ c ∧ c ≤ '9' := by simpa [Char.isDigit, Char.le_def] using digit
  exact if_pos inside

theorem isDigit_ascii (digit : c.isDigit = true) : isDigit c = true := by
  rw [isDigit, digitValue_ascii digit]
  rfl

theorem Digits.all (digits : Digits text) : text.all isDigit = true :=
  List.all_eq_true.mpr fun c member => isDigit_ascii (digits c member)

theorem digits_toDigits (n : Nat) : Digits (Nat.toDigits 10 n) := fun _ member =>
  Nat.isDigit_of_mem_toDigits (by decide) (by decide) member

theorem digits_zeros (count : Nat) : Digits (List.replicate count '0') := by
  intro c member
  rw [List.eq_of_mem_replicate member]
  decide

theorem Digits.append {more : List Char} (first : Digits text) (second : Digits more) : Digits (text ++ more) :=
  List.forall_mem_append.mpr ⟨first, second⟩

theorem digitsValue_append (text more : List Char) :
    digitsValue (text ++ more) = digitsValue text * 10 ^ more.length + digitsValue more := by
  induction more using List.reverseRecOn with
  | nil => simp [digitsValue]
  | append_singleton more c ih =>
    have step (all : List Char) : digitsValue (all ++ [c]) = 10 * digitsValue all + (digitValue? c).getD 0 := by
      simp [digitsValue]
    rw [← List.append_assoc, step, step, ih, List.length_append, List.length_singleton, Nat.pow_succ]
    ring

theorem digitsValue_zeros (count : Nat) : digitsValue (List.replicate count '0') = 0 := by
  induction count with
  | zero => rfl
  | succ count ih =>
    rw [List.replicate_succ', digitsValue_append, ih, Nat.zero_mul]
    rfl

/-- The digits of a number write the number. -/
theorem digitsValue_toDigits (n : Nat) : digitsValue (Nat.toDigits 10 n) = n := by
  have same {text : List Char} (digits : Digits text) (start : Nat) :
      text.foldl (fun n c => 10 * n + (digitValue? c).getD 0) start = Nat.ofDigitChars 10 text start := by
    induction text generalizing start with
    | nil => rfl
    | cons c rest ih =>
      obtain ⟨digit, others⟩ := List.forall_mem_cons.mp digits
      rw [List.foldl_cons, digitValue_ascii digit, ih others]
      rfl
  exact (same (digits_toDigits n) 0).trans (Nat.ofDigitChars_toDigits (by decide) (by decide))

theorem trimWhile_eq {p : Char → Bool} (none : ∀ c ∈ text, p c = false) : trimWhile p text = text := by
  have kept {text : List Char} (none : ∀ c ∈ text, p c = false) : text.dropWhile p = text := by
    cases text with
    | nil => rfl
    | cons c rest => exact List.dropWhile_cons_of_neg (by simp [none c (.head _)])
  have reversed : ∀ c ∈ text.reverse, p c = false := fun c member => none c (List.mem_reverse.mp member)
  rw [trimWhile, kept none, kept reversed, List.reverse_reverse]

end Text

namespace Numeral

open Text

/-- The parts of a numeral: digits, perhaps a point and more digits, perhaps a signed exponent. -/
structure Parts where
  whole : List Char
  fraction : Option (List Char) := none
  exponent : Option (Bool × List Char) := none
  begun : whole ≠ []
  wholeDigits : Digits whole
  fractionDigits : ∀ digits ∈ fraction, Digits digits
  exponentDigits : ∀ power ∈ exponent, power.2 ≠ [] ∧ Digits power.2

namespace Parts

/-- The digits of a natural number. -/
def ofNat (n : Nat) : Parts :=
  ⟨Nat.toDigits 10 n, none, none, Nat.toDigits_ne_nil, digits_toDigits n, by simp, by simp⟩

variable (p : Parts)

def behindPoint : List Char := p.fraction.getD []

/-- What is written after all digits. -/
def tail : List Char :=
  match p.exponent with
  | none => []
  | some (negative, digits) => 'e' :: (if negative then '-' else '+') :: digits

/-- What is written after the digits in front of the point. -/
def behindWhole : List Char :=
  match p.fraction with
  | none => p.tail
  | some digits => '.' :: (digits ++ p.tail)

def chars : List Char := p.whole ++ p.behindWhole

/-- The characters with a sign in front. -/
def signedChars (negative : Bool) : List Char := (if negative then ['-'] else []) ++ p.chars

def power : Int :=
  match p.exponent with
  | none => 0
  | some (negative, digits) => Binary64.signed negative (digitsValue digits)

/-- The number that is nearest to the numeral. -/
def value (negative : Bool) : Binary64 :=
  Binary64.ofDecimal negative (digitsValue (p.whole ++ p.behindPoint)) (p.power - p.behindPoint.length)

/-- Which characters are written. -/
theorem mem_chars {c : Char} {negative : Bool} (member : c ∈ p.signedChars negative) :
    c.isDigit = true ∨ c ∈ ['.', 'e', '+', '-'] := by
  have tail (member : c ∈ p.tail) : c.isDigit = true ∨ c ∈ ['.', 'e', '+', '-'] := by
    unfold tail at member
    split at member
    · cases member
    next negative digits given =>
      rcases member with _ | ⟨_, _ | ⟨_, member⟩⟩
      · exact .inr (by decide)
      · exact .inr (by cases negative <;> decide)
      · exact .inl ((p.exponentDigits _ given).2 c member)
  rcases List.mem_append.mp member with sign | member
  · cases negative with
    | false => cases sign
    | true =>
      cases List.mem_singleton.mp sign
      exact .inr (by decide)
  rcases List.mem_append.mp member with whole | member
  · exact .inl (p.wholeDigits c whole)
  unfold behindWhole at member
  split at member
  · exact tail member
  next digits given =>
    rcases member with _ | ⟨_, member⟩
    · exact .inr (by decide)
    · rcases List.mem_append.mp member with fraction | member
      · exact .inl (p.fractionDigits digits given c fraction)
      · exact tail member

theorem chars_begin : ∃ c rest, p.chars = c :: rest ∧ c.isDigit = true := by
  cases begun : p.whole with
  | nil => exact absurd begun p.begun
  | cons c rest =>
    have digit := p.wholeDigits c (begun ▸ .head _)
    rw [chars, begun]
    exact ⟨c, _, rfl, digit⟩

end Parts

section Reading

variable {c : Char} {negative : Bool}

/-- No character of a numeral is blank or groups digits. -/
theorem plain_char (known : c.isDigit = true ∨ c ∈ ['.', 'e', '+', '-']) : isBlank c = false ∧ c ≠ '_' := by
  rcases known with digit | other
  · have inside : 48 ≤ c.toNat ∧ c.toNat ≤ 57 := Char.isDigit_iff_toNat.mp digit
    constructor
    · simp only [isBlank, isSpace, isSeparator, Bool.or_eq_false_iff, Bool.and_eq_false_iff, decide_eq_false_iff_not,
        beq_eq_false_iff_ne]
      omega
    · rintro rfl
      cases digit
  · simp only [List.mem_cons, List.not_mem_nil, or_false] at other
    rcases other with rfl | rfl | rfl | rfl <;> decide

theorem takeSign_of_digit {rest : List Char} (digit : c.isDigit = true) :
    takeSign (c :: rest) = (false, c :: rest) := by
  unfold takeSign
  split
  next same =>
    cases same
    cases digit
  next same =>
    cases same
    cases digit
  next => rfl

theorem takeSign_signed (p : Parts) (negative : Bool) : takeSign (p.signedChars negative) = (negative, p.chars) := by
  cases negative with
  | true => rfl
  | false =>
    obtain ⟨c, rest, begins, digit⟩ := p.chars_begin
    rw [Parts.signedChars, begins]
    exact takeSign_of_digit digit

theorem ungroup_eq {text : List Char} (plain : ∀ c ∈ text, c ≠ '_') (afterDigit : Bool) :
    ungroup? afterDigit text = some text := by
  induction text generalizing afterDigit with
  | nil => rfl
  | cons c rest ih =>
    obtain ⟨other, others⟩ := List.forall_mem_cons.mp plain
    rw [ungroup?.eq_3 _ _ _ other, ih others]
    rfl

/-- What begins with a digit is no word for infinity or NaN. -/
theorem word_digit {rest : List Char} (digit : c.isDigit = true) : word? negative (c :: rest) = none := by
  have inside : c.toNat ≤ 57 := (Char.isDigit_iff_toNat.mp digit).2
  have lowered : c.toLower = c := by
    unfold Char.toLower
    split
    next upper =>
      have letter : 65 ≤ c.toNat := upper.1
      omega
    next => rfl
  have other {word : String} {letter : Char} {others : List Char} (spelled : word.toList = letter :: others)
      (plain : letter.isDigit = false) : String.ofList ((c :: rest).map Char.toLower) ≠ word := by
    rintro rfl
    rw [String.toList_ofList, List.map_cons, lowered] at spelled
    cases spelled
    rw [plain] at digit
    cases digit
  have infinity : ¬(String.ofList ((c :: rest).map Char.toLower) = "inf" ∨
      String.ofList ((c :: rest).map Char.toLower) = "infinity") :=
    not_or.mpr ⟨other rfl rfl, other rfl rfl⟩
  unfold word?
  dsimp only
  rw [if_neg infinity, if_neg (other rfl rfl)]

theorem exponent_tail (p : Parts) : exponent? p.tail = some p.power := by
  unfold Parts.tail Parts.power
  split
  next => rfl
  next negative digits given =>
    obtain ⟨some, plain⟩ := p.exponentDigits _ given
    have sign : takeSign ((if negative then '-' else '+') :: digits) = (negative, digits) := by cases negative <;> rfl
    have present : digits.isEmpty = false := by simpa using some
    simp only [exponent?, true_or, if_true, sign, present, plain.all]
    rfl

/-- Digits end where the tail begins. -/
theorem tail_no_digit (p : Parts) : ∀ c ∈ p.tail.head?, isDigit c = false ∧ c ≠ '.' := by
  unfold Parts.tail
  split
  · simp
  · rintro c ⟨⟩
    decide

theorem digits_taken {digits rest : List Char} (plain : Digits digits) (ends : ∀ c ∈ rest.head?, isDigit c = false) :
    (digits ++ rest).takeWhile isDigit = digits ∧ (digits ++ rest).dropWhile isDigit = rest := by
  have known (c : Char) (member : c ∈ digits) : isDigit c = true := isDigit_ascii (plain c member)
  rw [List.takeWhile_append_of_pos known, List.dropWhile_append_of_pos known]
  cases rest with
  | nil => simp
  | cons c rest =>
    have other := ends c rfl
    simp [other]

/-- The digits behind a point, if there is one, and what is left. -/
def afterWhole (text : List Char) : List Char × List Char :=
  match text with
  | '.' :: behind => (behind.takeWhile isDigit, behind.dropWhile isDigit)
  | _ => ([], text)

theorem unsignedReal_eq (negative : Bool) (text : List Char) :
    unsignedReal? negative text = (ungroup? false text).bind fun body =>
      let (fraction, rest) := afterWhole (body.dropWhile isDigit)
      if (body.takeWhile isDigit).isEmpty && fraction.isEmpty then none
      else (exponent? rest).bind fun power => some (decimal negative (body.takeWhile isDigit) fraction power) := rfl

theorem afterWhole_behindWhole (p : Parts) : afterWhole p.behindWhole = (p.behindPoint, p.tail) := by
  have tail (c : Char) (first : c ∈ p.tail.head?) : isDigit c = false := (tail_no_digit p c first).1
  unfold Parts.behindWhole Parts.behindPoint
  cases fraction : p.fraction with
  | none =>
    refine afterWhole.eq_2 _ ?_
    intro behind same
    exact absurd rfl (tail_no_digit p '.' (congrArg List.head? same)).2
  | some digits =>
    obtain ⟨behind, rest⟩ := digits_taken (p.fractionDigits digits fraction) tail
    show (List.takeWhile _ _, List.dropWhile _ _) = _
    rw [behind, rest]
    rfl

theorem not_blank (p : Parts) (negative : Bool) : ∀ c ∈ p.signedChars negative, isBlank c = false :=
  fun _ member => (plain_char (p.mem_chars member)).1

theorem not_grouped (p : Parts) : ∀ c ∈ p.chars, c ≠ '_' := fun _ member =>
  (plain_char (p.mem_chars (List.mem_append_right (if false then ['-'] else []) member))).2

/-- The reader of unsigned reals gives the number that is nearest to the numeral. -/
theorem unsignedReal_chars (p : Parts) (negative : Bool) :
    unsignedReal? negative p.chars = some (p.value negative) := by
  have ends : ∀ c ∈ p.behindWhole.head?, isDigit c = false := by
    unfold Parts.behindWhole
    split
    · exact fun c first => (tail_no_digit p c first).1
    · rintro c ⟨⟩
      decide
  have begun : p.whole.isEmpty = false := by simpa using p.begun
  obtain ⟨taken, left⟩ := digits_taken p.wholeDigits ends
  rw [unsignedReal_eq, ungroup_eq (not_grouped p), Option.bind_some, Parts.chars, taken, left, afterWhole_behindWhole]
  dsimp only
  rw [begun, exponent_tail]
  rfl

theorem trim_signed (p : Parts) (negative : Bool) :
    trimWhile isSpace (p.signedChars negative) = p.signedChars negative :=
  trimWhile_eq fun c member => (Bool.or_eq_false_iff.mp (not_blank p negative c member)).1

theorem realChars_signed (p : Parts) (negative : Bool) :
    realChars? (p.signedChars negative) = some (p.value negative) := by
  obtain ⟨c, rest, begins, digit⟩ := p.chars_begin
  have word : word? negative p.chars = none := by
    rw [begins]
    exact word_digit digit
  unfold realChars?
  rw [trim_signed, takeSign_signed]
  dsimp only
  rw [word]
  exact unsignedReal_chars p negative

/-- Digits alone are read as an integer, if there are not too many of them. -/
theorem integerChars_whole {p : Parts} (only : p.chars = p.whole) (few : p.whole.length ≤ maxTextDigits)
    (negative : Bool) :
    integerChars? (p.signedChars negative) = some (Binary64.signed negative (digitsValue p.whole)) := by
  have begun : p.whole.isEmpty = false := by simpa using p.begun
  have short : decide (p.whole.length > maxTextDigits) = false := decide_eq_false (Nat.not_lt.mpr few)
  unfold integerChars?
  rw [trim_signed, takeSign_signed]
  dsimp only
  rw [ungroup_eq (not_grouped p), only]
  dsimp only
  rw [begun, p.wholeDigits.all, short]
  rfl

/-- Nothing else is an integer. -/
theorem integerChars_none {p : Parts} {c : Char} (member : c ∈ p.chars) (other : isDigit c = false) (negative : Bool) :
    integerChars? (p.signedChars negative) = none := by
  have some : p.chars.all isDigit = false := List.all_eq_false.mpr ⟨c, member, by simp [other]⟩
  unfold integerChars?
  rw [trim_signed, takeSign_signed]
  dsimp only
  rw [ungroup_eq (not_grouped p)]
  dsimp only
  rw [some]
  simp

end Reading

section Points

variable {p : Parts} {negative : Bool}

theorem point_not_in_tail (p : Parts) : '.' ∉ p.tail := by
  unfold Parts.tail
  split
  · simp
  next sign digits given =>
    have plain : '.' ∉ digits := fun member => by cases (p.exponentDigits _ given).2 _ member
    cases sign <;> simp [plain]

/-- A point is written just if there are digits behind it. -/
theorem point_mem_iff : '.' ∈ p.signedChars negative ↔ p.fraction ≠ none := by
  have sign : '.' ∉ (if negative then ['-'] else []) := by cases negative <;> decide
  have whole : '.' ∉ p.whole := fun member => by cases p.wholeDigits _ member
  unfold Parts.signedChars Parts.chars Parts.behindWhole
  simp only [List.mem_append, sign, whole, false_or]
  cases p.fraction with
  | none => simpa using point_not_in_tail p
  | some digits => simp

/-- An exponent is written with its letter. -/
theorem letter_mem (given : p.exponent ≠ none) : 'e' ∈ p.chars := by
  have tail : 'e' ∈ p.tail := by
    unfold Parts.tail
    split
    next absent => exact absurd absent given
    next => exact .head _
  refine List.mem_append_right _ ?_
  unfold Parts.behindWhole
  split
  · exact tail
  · exact .tail _ (List.mem_append_right _ tail)

end Points

end Numeral

end Pseudocode
