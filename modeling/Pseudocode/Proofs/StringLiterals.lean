import Pseudocode.Proofs.Slices
import Pseudocode.Proofs.TokenForms

/-! String literals. Finding the end of a literal and decoding its body are two passes over the same
characters, and `Denotes` is what both go by: a body is a row of plain characters and complete escapes. Every
text is denoted by a body, the one in which what has no other way to stand in a literal is escaped. -/
namespace Pseudocode.Scan

/-- The body of a string literal and the text that it denotes: characters that stand for themselves, and
backslashes that each take the next character with them. -/
inductive Denotes : List Char → List Char → Prop
  | nil : Denotes [] []
  | plain : c ≠ '"' → c ≠ '\\' → c ≠ '\n' → Denotes body text → Denotes (c :: body) (c :: text)
  | escape : c ≠ '\n' → Denotes body text → Denotes ('\\' :: c :: body) (escaped c :: text)

/-- How a character is written in a string literal. -/
def written : Char → List Char
  | '\\' => ['\\', '\\']
  | '"' => ['\\', '"']
  | '\n' => ['\\', 'n']
  | '\t' => ['\\', 't']
  | c => [c]

/-- The string literal of a text. -/
def quotation (text : String) : String := "\"" ++ String.ofList (text.toList.flatMap written) ++ "\""

variable {body text rest : List Char} {c : Char} {n : Nat}

theorem unescape_plain (escape : c ≠ '\\') (rest : List Char) : unescape (c :: rest) = c :: unescape rest := by
  rw [unescape]
  exact fun _ _ same _ => escape same

/-- A literal ends behind its body, whatever follows. -/
theorem Denotes.ends (denotes : Denotes body text) (rest : List Char) :
    stringLength? (body ++ '"' :: rest) = some (body.length + 1) := by
  induction denotes with
  | nil => rfl
  | plain quote escape _ _ ih =>
    rw [List.cons_append, stringLength?_plain quote escape, ih]
    rfl
  | escape _ _ ih =>
    rw [List.cons_append, List.cons_append, stringLength?, ih]
    rfl

/-- Decoding takes each escape of a body as a whole. -/
theorem Denotes.decodes (denotes : Denotes body text) : unescape body = text := by
  induction denotes with
  | nil => rfl
  | plain _ escape _ _ ih => rw [unescape_plain escape, ih]
  | escape _ _ ih => rw [unescape, ih]

/-- What stands in front of the end of a literal is a body. -/
theorem denotes_of_end (inside : '\n' ∉ rest) (closed : stringLength? rest = some n) :
    ∃ body text below, rest = body ++ '"' :: below ∧ n = body.length + 1 ∧ Denotes body text := by
  fun_induction stringLength? rest generalizing n with
  | case1 => cases closed
  | case2 below => exact ⟨[], [], below, rfl, (Option.some.inj closed).symm, .nil⟩
  | case3 => cases closed
  | case4 c rest ih =>
    simp only [List.mem_cons, not_or] at inside
    obtain ⟨m, found, rfl⟩ := Option.map_eq_some_iff.mp closed
    obtain ⟨body, text, below, rfl, rfl, denotes⟩ := ih inside.2.2 found
    exact ⟨'\\' :: c :: body, escaped c :: text, below, rfl, rfl, .escape (Ne.symm inside.2.1) denotes⟩
  | case5 c rest quote lone escape ih =>
    simp only [List.mem_cons, not_or] at inside
    obtain ⟨m, found, rfl⟩ := Option.map_eq_some_iff.mp closed
    obtain ⟨body, text, below, rfl, rfl, denotes⟩ := ih inside.2 found
    have plain : c ≠ '\\' := fun same => by
      cases body with
      | nil => exact escape _ _ same rfl
      | cons d body => exact escape _ _ same rfl
    exact ⟨c :: body, c :: text, below, rfl, rfl, .plain quote plain (Ne.symm inside.1) denotes⟩

/-- The literal of a text denotes it. -/
theorem denotes_written (text : List Char) : Denotes (text.flatMap written) text := by
  induction text with
  | nil => exact .nil
  | cons c text ih =>
    rw [List.flatMap_cons]
    unfold written
    split
    · exact .escape (by decide) ih
    · exact .escape (by decide) ih
    · exact .escape (by decide) ih
    · exact .escape (by decide) ih
    next backslash quote break' _ => exact .plain quote backslash break' ih

/-- The characters of a body stand on one line. -/
theorem Denotes.inside (denotes : Denotes body text) : '\n' ∉ body := by
  induction denotes with
  | nil => exact List.not_mem_nil
  | plain _ _ break' _ ih => simp [Ne.symm break', ih]
  | escape break' _ ih => simp [Ne.symm break', ih]

/-- A quoted body in front of a rest is a string literal. -/
theorem Denotes.form (denotes : Denotes body text) (rest : List Char) :
    Form '"' (body ++ '"' :: rest) (.string (String.ofList text)) (body.length + 1) := by
  have form : Form '"' (body ++ '"' :: rest) _ _ := .string rfl (denotes.ends rest)
  rwa [Nat.add_sub_cancel, List.take_left, denotes.decodes] at form

/-- A token whose kind is a string is a quoted body that denotes it. -/
theorem Form.denotes (form : Form c rest (.string v) n) (inside : '\n' ∉ rest) :
    ∃ body below, c = '"' ∧ rest = body ++ '"' :: below ∧ n = body.length + 1 ∧ Denotes body v.toList := by
  generalize same : TokenKind.string v = kind at form
  cases form with
  | string quote closed =>
    obtain ⟨body, text, below, rfl, rfl, denotes⟩ := denotes_of_end inside closed
    rw [Nat.add_sub_cancel, List.take_left, denotes.decodes] at same
    cases same
    exact ⟨body, below, quote, rfl, rfl, by simpa using denotes⟩
  | number _ _ number =>
    subst same
    unfold Scan.number Scan.number.integerKind at number
    simp only at number
    repeat' split at number
    all_goals injection number with number _; cases number
  | word =>
    unfold wordKind at same
    repeat' split at same
    all_goals cases same
  | _ => cases same

theorem tokens_of_line (inside : '\n' ∉ line) :
    ofText (String.ofList line) = ⟨scanLine 1 line, ⟨1, line.length + 1⟩⟩ := by
  have alone : lines line = [line] := List.splitOn_eq_singleton inside
  simp [ofText, ofChars, alone]

/-- The literal of a text is scanned as one token, which holds the text. -/
theorem tokens_quotation (text : String) : ofText (quotation text) =
    ⟨[⟨.string text, quotation text, ⟨1, 1⟩⟩], ⟨1, (quotation text).length + 1⟩⟩ := by
  have denotes := denotes_written text.toList
  generalize body_eq : text.toList.flatMap written = body at denotes
  have form := denotes.form []
  have chars : quotation text = String.ofList ('"' :: (body ++ ['"'])) := by
    rw [quotation, body_eq, ← String.toList_inj]
    simp
  have inside : '\n' ∉ '"' :: (body ++ ['"']) := by simp [denotes.inside]
  have size : (body ++ ['"']).length ≤ body.length + 1 := by simp
  have nothing (fuel column : Nat) : lineFrom 1 fuel column [] = [] := by cases fuel <;> rfl
  rw [chars, tokens_of_line inside, scanLine, List.length_cons, lineFrom, form.munch]
  dsimp only
  rw [List.take_of_length_le size, List.drop_eq_nil_of_le size, nothing, String.ofList_toList,
    String.length_ofList, List.length_cons]

theorem literal_of_token {t : Token} (member : t ∈ (ofText source).tokens) (kind : t.kind = .string value) :
    ∃ body, t.lexeme = "\"" ++ String.ofList body ++ "\"" ∧ value = String.ofList (unescape body) ∧
      Denotes body (unescape body) := by
  obtain ⟨⟨line, number⟩, place, there⟩ := List.mem_flatMap.mp member
  have inside := not_mem_line (List.fst_mem_of_mem_zipIdx place)
  obtain ⟨before, c, rest, n, rfl, form, short, lexeme⟩ := form_of_mem there
  rw [kind] at form
  obtain ⟨body, below, rfl, rfl, rfl, denotes⟩ := form.denotes fun break' => inside (by simp [break'])
  have row : (body ++ '"' :: below).take (body.length + 1) = body ++ ['"'] := by
    simp [List.take_append, List.take_of_length_le]
  have quoted : t.lexeme = "\"" ++ String.ofList body ++ "\"" := by
    rw [lexeme, row, ← String.toList_inj]
    simp
  have decodes := denotes.decodes
  exact ⟨body, quoted, by rw [decodes, String.ofList_toList], by rwa [decodes]⟩

/-- String literals express every text: the literal of a text is scanned without an error as one token, which
holds the text. In each string token of a source every backslash takes a character with it, and the token holds
what its body denotes. -/
theorem strings_express_every_text :
    (∀ text, (ofText (quotation text)).errors = [] ∧ (ofText (quotation text)).allTokens =
      [⟨.string text, quotation text, ⟨1, 1⟩⟩, ⟨.endOfInput, "", ⟨1, (quotation text).length + 1⟩⟩]) ∧
    ∀ source, ∀ t ∈ (ofText source).tokens, ∀ value, t.kind = .string value →
      ∃ body, t.lexeme = "\"" ++ String.ofList body ++ "\"" ∧ value = String.ofList (unescape body) ∧
        Denotes body (unescape body) := by
  constructor
  · intro text
    rw [tokens_quotation]
    exact ⟨rfl, rfl⟩
  · intro source t member value kind
    exact literal_of_token member kind

/-- Of three backslashes in front of a quote the last takes the quote with it. -/
theorem backslashes_express_quote :
    ∃ body, "\"\\\\\\\"\"" = "\"" ++ String.ofList body ++ "\"" ∧ "\\\"" = String.ofList (unescape body) ∧
      Denotes body (unescape body) :=
  strings_express_every_text.2 "OUTPUT \"\\\\\\\"\"&x"
    ⟨.string "\\\"", "\"\\\\\\\"\"", ⟨1, 8⟩⟩ (by decide +kernel) _ rfl

end Pseudocode.Scan
