import Pseudocode.Analysis
import Pseudocode.Proofs.BuiltinTexts
import Pseudocode.Proofs.CallFrames
import Pseudocode.Proofs.CaseWidth
import Pseudocode.Proofs.UtteredParts

/-! The lengths of texts over a whole run. What is joined or read is checked against the limit, and literals
are as long as they are written. The results of built-in functions are not checked, so the text of a number
and the other case of a text can be longer than the limit, though not by much: no text that is held has more
than three times as many characters as the limit, the longest literal or the text of a number has. -/
namespace Pseudocode

/-- The length of the text that a string literal stands for. -/
def TokenKind.textLength : TokenKind → Nat
  | .string text => text.length
  | _ => 0

/-- The length of the longest string literal. -/
def Scan.longestText (scan : Scan) : Nat := (scan.tokens.map (·.kind.textLength)).foldr max 0

/-- What the limit on texts says: a text is no longer than the limit, unless it is a literal or a single
character. -/
def textLimit (limits : Limits) (source : String) : Nat :=
  max limits.maxStringLength (max (Scan.ofText source).longestText 1)

namespace Scan

theorem number_char (whole rest : List Char) (text : String) : (number whole rest).1 ≠ .char text := by
  have plain (digits : List Char) : number.integerKind digits ≠ .char text := by
    intro found
    unfold number.integerKind at found
    split at found <;> cases found
  intro found
  unfold number at found
  split at found
  · dsimp only at found
    split at found
    · exact plain whole found
    · cases found
  · exact plain whole found

theorem wordKind_char (word text : String) : wordKind word ≠ .char text := by
  intro found
  unfold wordKind at found
  split at found
  · cases found
  · split at found
    · cases found
    · split_ifs at found

/-- What stands between the quotes of a character literal stands for one character. -/
theorem unescape_short (found : charLength? rest = some n) : (unescape (rest.take (n - 1))).length = 1 := by
  unfold charLength? at found
  split at found
  · cases found
    rfl
  next c _ _ =>
    split at found
    · cases found
    · cases found
      show (unescape [c]).length = 1
      rw [unescape, unescape]
      · rfl
      · rintro _ _ - ⟨⟩
  · cases found

theorem munch_char (found : (munch c rest).1 = some (.char text)) : text.length = 1 := by
  unfold munch at found
  split at found
  · cases found
  split at found
  · cases found
  split at found
  · cases found
  split at found
  · exact absurd (Option.some.inj found) (number_char _ _ _)
  split at found
  · split at found <;> cases found
  split at found
  · exact absurd (Option.some.inj found) (wordKind_char _ _)
  split at found
  next quoted =>
    cases found
    rw [String.length_ofList]
    split at quoted
    · exact unescape_short quoted
    · cases quoted
  next => cases found

theorem lineFrom_char {t : Token} (member : t ∈ lineFrom line fuel column rest) (same : t.kind = .char text) :
    text.length = 1 := by
  induction fuel generalizing column rest with
  | zero => cases member
  | succ fuel ih =>
    cases rest with
    | nil => cases member
    | cons c rest =>
      rw [lineFrom] at member
      cases form : (munch c rest).1 with
      | none =>
        simp only [form] at member
        exact ih member
      | some kind =>
        simp only [form] at member
        rcases List.mem_cons.mp member with rfl | after
        · exact munch_char (form.trans (congrArg some same))
        · exact ih after

theorem ofText_char {source : String} {t : Token} (member : t ∈ (ofText source).tokens)
    (same : t.kind = .char text) : text.length = 1 := by
  obtain ⟨⟨line, number⟩, -, there⟩ := List.mem_flatMap.mp member
  exact lineFrom_char there same

theorem le_longestText {scan : Scan} {t : Token} (member : t ∈ scan.tokens) :
    t.kind.textLength ≤ scan.longestText := by
  unfold longestText
  generalize scan.tokens = tokens at member
  induction tokens with
  | nil => cases member
  | cons first rest ih =>
    rw [List.map_cons, List.foldr_cons]
    rcases List.mem_cons.mp member with rfl | after
    · exact Nat.le_max_left _ _
    · exact Nat.le_trans (ih after) (Nat.le_max_right _ _)

end Scan

/-- Names of functions that give no text longer than the limit. -/
def Plain (limit : Nat) (name : String) : Prop :=
  name ≠ "UCASE" ∧ name ≠ "LCASE" ∧ (name = "NUM_TO_STR" → maxNumberLength ≤ limit)

instance (limit : Nat) (name : String) : Decidable (Plain limit name) := inferInstanceAs (Decidable (_ ∧ _ ∧ _))

section Wordings

variable (ctx : RunContext) {limit : Nat} (most : ctx.settings.limits.maxStringLength ≤ limit)

/-- No text is longer than the limit if the functions that do not keep to it are not called. -/
def Wording.plain (positive : 1 ≤ limit) : Wording ctx where
  good text := text.length ≤ limit
  callee := Plain limit
  short few := Nat.le_trans few positive
  checked within := Nat.le_trans within most
  answered := by
    intro name arguments random v permitted known answered text held
    cases Builtin.call_answers answered held with
    | part member whole sublist => exact Nat.le_trans sublist.length_le (known _ member _ whole)
    | character few => exact Nat.le_trans few positive
    | number same few => exact Nat.le_trans few (permitted.2.2 same)
    | upper same => exact absurd same permitted.1
    | lower same => exact absurd same permitted.2.1

theorem Text.width_within {text : String} (few : text.length ≤ limit) : width text.toList ≤ 3 * limit :=
  Nat.le_trans (width_bounds _).2 (Nat.mul_le_mul_left 3 few)

/-- No text is wider than three times a limit that the texts of numbers keep to. -/
def Wording.wide (numbers : maxNumberLength ≤ limit) : Wording ctx where
  good text := Text.width text.toList ≤ 3 * limit
  callee _ := True
  short few := Text.width_within (Nat.le_trans few (Nat.le_trans (by decide) numbers))
  checked within := Text.width_within (Nat.le_trans within most)
  answered := by
    intro name arguments random v permitted known answered text held
    cases Builtin.call_answers answered held with
    | part member whole sublist => exact Nat.le_trans (Text.width_sublist sublist) (known _ member _ whole)
    | character few => exact Text.width_within (Nat.le_trans few (Nat.le_trans (by decide) numbers))
    | number same few => exact Text.width_within (Nat.le_trans few numbers)
    | upper same member whole => exact Nat.le_trans (Text.upper_width _) (known _ member _ whole)
    | lower same member whole => exact Nat.le_trans (Text.lower_width _) (known _ member _ whole)

/-- The program that is read from a source has its literals and calls names that stand in it. -/
theorem Reading.worded {source : String} {ctx : RunContext} (W : Wording ctx)
    (literals : ∀ {text : String}, text.length ≤ max (Scan.ofText source).longestText 1 → W.good text)
    (callees : ∀ t ∈ (Scan.ofText source).tokens, W.callee t.lexeme) (last : W.callee "") :
    (ofScan (Scan.ofText source)).program.Grounded W.ground := by
  have known : ∀ t ∈ (Scan.ofText source).tokens, t.Grounded W.ground := by
    intro t member
    refine ⟨trivial, trivial, fun _ _ => trivial, fun text written => literals ?_, callees t member⟩
    rcases written with string | char
    · have longest := Scan.le_longestText member
      rw [string] at longest
      exact Nat.le_trans longest (Nat.le_max_left _ _)
    · exact Nat.le_trans (Nat.le_of_eq (Scan.ofText_char member char)) (Nat.le_max_right _ _)
  have ending : (Scan.ofText source).endToken.Grounded W.ground := by
    refine ⟨trivial, trivial, fun _ _ => trivial, ?_, last⟩
    rintro text (⟨⟨⟩⟩ | ⟨⟨⟩⟩)
  exact (Reading.grounded known ending).1

end Wordings

/-- However a program that is read from a source is run, no text that is held has more than three times as
many characters as the limit, or as the text of a number can have if that is more. If neither UCASE nor LCASE
is called, and NUM_TO_STR only where the text of every number is within the limit, then no text is longer than
the limit. -/
theorem texts_within_limit {source : String} {p : Program}
    (read : (Reading.ofScan (Scan.ofText source)).program = p) (settings : Settings) (host : Host)
    {a : Activity} (reached : Activity.Reaches (p.context settings host) (.start p settings) a) :
    a.Worded (p.context settings host)
      (fun text => text.length ≤ 3 * max (textLimit settings.limits source) maxNumberLength) ∧
    ((∀ t ∈ (Scan.ofText source).tokens, Plain (textLimit settings.limits source) t.lexeme) →
      a.Worded (p.context settings host) fun text => text.length ≤ textLimit settings.limits source) := by
  have most : (p.context settings host).settings.limits.maxStringLength ≤ textLimit settings.limits source :=
    Nat.le_max_left _ _
  have longest : max (Scan.ofText source).longestText 1 ≤ textLimit settings.limits source :=
    Nat.le_max_right _ _
  constructor
  · let W := Wording.wide (p.context settings host) (Nat.le_trans most (Nat.le_max_left _ maxNumberLength))
      (Nat.le_max_right _ _)
    have known : p.Grounded W.ground := by
      subst read
      exact Reading.worded W
        (fun few => Text.width_within (Nat.le_trans few (Nat.le_trans longest (Nat.le_max_left _ _))))
        (fun _ _ => trivial) trivial
    refine (reached.worded W known).weaken fun text wide => ?_
    exact Nat.le_trans (Text.width_bounds text.toList).1 wide
  · intro plain
    let W := Wording.plain (p.context settings host) most (Nat.le_trans (Nat.le_max_right _ _) longest)
    have known : p.Grounded W.ground := by
      subst read
      exact Reading.worded W (fun few => Nat.le_trans few longest) plain ⟨by decide, by decide, nofun⟩
    exact reached.worded W known

/-- What a name stands for in an activity. -/
def Activity.finds (a : Activity) (name : String) : Option Value :=
  (a.state.memory.lookup a.state.env name).map (·.value)

section Examples

/-- At most three characters. -/
def threeCharacters : Settings := { limits := { maxStringLength := 3 } }

/-- Joins two texts to one that is as long as the limit. -/
def joinedSource : String := "x <- \"ab\" & \"c\"\nOUTPUT x"

def joinedText : Program := (Reading.ofScan (Scan.ofText joinedSource)).program

theorem joinedText_within_limit :
    ∃ a, Activity.Reaches (joinedText.context threeCharacters {}) (.start joinedText threeCharacters) a ∧
      a.finds "x" = some (.string "abc") ∧
      a.Worded (joinedText.context threeCharacters {}) (fun text => text.length ≤ 3) := by
  have seen : ((Activity.start joinedText threeCharacters).follow (joinedText.context threeCharacters {})
      [1]).bind (·.finds "x") = some (.string "abc") := by decide +kernel
  obtain ⟨a, followed, seen⟩ := Option.bind_eq_some_iff.mp seen
  have reached := Activity.Reaches.of_follow followed
  have read : (Reading.ofScan (Scan.ofText joinedSource)).program = joinedText := rfl
  have worded := (texts_within_limit read threeCharacters {} reached).2 (by decide +kernel)
  have limit : textLimit threeCharacters.limits joinedSource = 3 := by decide +kernel
  exact ⟨a, reached, seen, limit ▸ worded⟩

/-- Asks for the text of a number that has more digits than the limit. -/
def numberSource : String := "x <- NUM_TO_STR(12345)\nOUTPUT LENGTH(x)"

def numberText : Program := (Reading.ofScan (Scan.ofText numberSource)).program

/-- The text is held all the same, and its length is shown. -/
theorem numberText_exceeds_limit :
    (Analysis.ofText threeCharacters.limits numberSource).isValid = true ∧
    (∃ a, Activity.Reaches (numberText.context threeCharacters {}) (.start numberText threeCharacters) a ∧
      a.finds "x" = some (.string "12345") ∧
      textLimit threeCharacters.limits numberSource < "12345".length) ∧
    numberText.run threeCharacters {} = .ok ⟨[.ofOutput ⟨"5", 2⟩], true, 2⟩ := by
  refine ⟨by decide +kernel, ?_, by decide +kernel⟩
  have seen : ((Activity.start numberText threeCharacters).follow (numberText.context threeCharacters {})
      [1]).bind (·.finds "x") = some (.string "12345") := by decide +kernel
  obtain ⟨a, followed, seen⟩ := Option.bind_eq_some_iff.mp seen
  exact ⟨a, .of_follow followed, seen, by decide +kernel⟩

end Examples

end Pseudocode
