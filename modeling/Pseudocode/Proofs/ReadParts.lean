import Pseudocode.Proofs.ReadExpressions

/-! The parts of a line that are not expressions are read back: types, bounds, parameters and places to
store into. What stands on the lines below ends them, and where a part may be left out, the next line
starts with a word that cannot be that part. -/
namespace Pseudocode

/-- The other target is the same, stated in some place. -/
def Target.Same (target other : Target) : Prop := other.moved nowhere = target.moved nowhere

namespace Parse

/-- What is next stands on the line or further down. -/
def Below (m : Nat) (tokens : List Token) : Prop := ∀ t ∈ tokens.head?, m ≤ t.line

/-- What is next starts a statement or ends a block. -/
def Opens (tokens : List Token) : Prop :=
  ∀ t ∈ tokens.head?, t.kind = .identifier ∨
    ∃ word, t.kind = .keyword word ∧ (word.startsStatement || word.closesBlock) = true

/-- What is next ends a block in one of the given ways, on the line or further down. -/
def Closes (closers : List Keyword) (m : Nat) (tokens : List Token) : Prop :=
  ∀ t ∈ tokens.head?, m ≤ t.line ∧ ∃ word ∈ closers, t.kind = .keyword word ∧ word.closesBlock = true

variable {α : Type} {n m rank cost : Nat} {line : Option Nat} {p : Parse α} {marks : List Mark}
  {words : List Word} {lines : List (List Word)} {follows : List Token → Prop} {good : α → Prop}
  {tokens : List Token} {t : Token} {style : Style} {closers : List Keyword}

section Below

theorem Below.less {m' : Nat} (below : Below m tokens) (less : m' ≤ m) : Below m' tokens :=
  fun t first => Nat.le_trans less (below t first)

theorem Below.stops (below : Below m tokens) (less : n < m) : Stops n rank tokens := by
  intro t first here
  have far := below t first
  omega

theorem Closes.below (closes : Closes closers m tokens) : Below m tokens :=
  fun t first => (closes t first).1

theorem Closes.opens (closes : Closes closers m tokens) : Opens tokens := by
  intro t first
  obtain ⟨-, word, -, kind, closing⟩ := closes t first
  exact .inr ⟨word, kind, by rw [closing, Bool.or_true]⟩

theorem Closes.more {closers' : List Keyword} (closes : Closes closers m tokens)
    (more : closers ⊆ closers') : Closes closers' m tokens := by
  intro t first
  obtain ⟨below, word, member, rest⟩ := closes t first
  exact ⟨below, word, more member, rest⟩

theorem fromLine_append (lines lines' : List (List Word)) :
    fromLine m (lines ++ lines') = fromLine m lines ++ fromLine (m + lines.length) lines' := by
  induction lines generalizing m with
  | nil => rfl
  | cons words rest ih =>
    rw [List.cons_append, fromLine, fromLine, ih, List.append_assoc, List.length_cons,
      Nat.add_right_comm, Nat.add_assoc]

theorem below_of_ahead (ahead : Ahead (fromLine m lines) follows tokens)
    (after : ∀ more, follows more → Below (m + lines.length) more) : Below m tokens := by
  induction lines generalizing m with
  | nil => exact after _ (ahead_nil.mp ahead)
  | cons words rest ih =>
    cases words with
    | nil =>
      have below := ih ahead fun more known => by
        have below := after more known
        rwa [List.length_cons, ← Nat.add_assoc, Nat.add_right_comm] at below
      exact below.less (Nat.le_succ m)
    | cons word words =>
      obtain ⟨t, others, rfl, same, -⟩ := ahead_cons.mp ahead
      intro u first
      cases first
      exact Nat.le_of_eq (congrArg Mark.line same).symm

/-- A line that starts with a word that ends a block. -/
theorem closes_of_ahead {word : Keyword} (member : word ∈ closers) (closing : word.closesBlock = true)
    (ahead : Ahead (fromLine m ((.keyword word :: words) :: lines)) follows tokens) :
    Closes closers m tokens := by
  obtain ⟨t, others, rfl, same, -⟩ := ahead_cons.mp ahead
  intro u first
  cases first
  exact ⟨Nat.le_of_eq (congrArg Mark.line same).symm, word, member, congrArg (·.word.kind) same, closing⟩

/-- Where a statement starts or a block ends, no other token is next. -/
theorem Opens.other {kind : TokenKind} (facing : Facing marks follows t)
    (opens : ∀ tokens, Ahead marks follows tokens → Opens tokens) (name : kind ≠ .identifier)
    (ends : kind ≠ .endOfInput)
    (inside : ∀ word, kind = .keyword word → (word.startsStatement || word.closesBlock) = false) :
    t.kind ≠ kind := by
  rintro rfl
  obtain ⟨tokens, ahead, first | ⟨-, ended⟩⟩ := facing
  · obtain same | ⟨word, same, outside⟩ := opens tokens ahead t first
    · exact name same
    · rw [inside word same] at outside
      cases outside
  · exact ends ended

end Below

section Steps

/-- A production that takes nothing. -/
theorem reads_nothing {a : α} (stays : ∀ s, follows s.rest → s.Clear → p s = .ok a s) (known : good a) :
    Reads line p [] 0 follows good := by
  intro s own more left same after clear before few
  rw [List.map_eq_nil_iff.mp same] at left
  exact ⟨a, s, stays s (left ▸ after) clear, known, left, clear, before, Nat.le_refl _⟩

/-- Behind the production no more operators are counted. -/
theorem Reads.onto {β : Type} {marks' : List Mark} {next : α → Parse β} {follows' : List Token → Prop}
    {good' : β → Prop} (first : Reads line p marks cost follows good)
    (onward : ∀ tokens, Ahead marks' follows' tokens → follows tokens)
    (rest : ∀ a, good a → Reads (lineAfter line marks) (next a) marks' 0 follows' good') :
    Reads line (p >>= next) (marks ++ marks') cost follows' good' :=
  first.bind onward rest

/-- The last production of all. -/
theorem Reads.finally {β : Type} {next : α → Parse β} {follows' : List Token → Prop} {good' : β → Prop}
    (first : Reads line p marks cost follows good) (onward : ∀ tokens, follows' tokens → follows tokens)
    (rest : ∀ a, good a → Reads (lineAfter line marks) (next a) [] 0 follows' good') :
    Reads line (p >>= next) marks cost follows' good' := by
  have reads := first.bind (fun _ ahead => onward _ (ahead_nil.mp ahead)) rest
  rwa [List.append_nil] at reads

/-- One line and then the lines below it. -/
theorem Reads.above {β : Type} {next : α → Parse β} {cost' : Nat} {follows' : List Token → Prop}
    {good' : β → Prop} (first : Reads (some n) p (onLine n words) cost follows good)
    (onward : ∀ tokens, Ahead (fromLine (n + 1) lines) follows' tokens → follows tokens)
    (rest : ∀ a, good a → Reads (some n) (next a) (fromLine (n + 1) lines) cost' follows' good') :
    Reads (some n) (p >>= next) (fromLine n (words :: lines)) (cost + cost') follows' good' := by
  refine first.bind onward fun a known => ?_
  rw [lineAfter_onLine]
  exact rest a known

/-- A complete expression is one of the highest rank on the line of the token before it. -/
theorem reads_complete {room : Nat} {good : Expr → Prop}
    (reads : Reads (some n) (ranked n (operand n room false) fullRank) (onLine n words) cost follows good) :
    Reads (some n) (expression room) (onLine n words) cost follows good := by
  unfold expression
  refine reads_previous fun before here => ?_
  obtain ⟨u, rfl, rfl⟩ := Option.map_eq_some_iff.mp here
  exact reads_current fun t _ => reads_anew reads

theorem reads_expression {e : Expr} {room : Nat} (normal : e.normal = true) (deep : e.depth ≤ room) :
    Reads (some n) (expression room) (onLine n (e.words style)) e.operators (Stops n fullRank) e.Same :=
  reads_complete ((reads_operand e normal deep false).ranked fullRank)

theorem reads_word {next : Token → Parse α} {k : Mark} {word : Keyword} {context : String}
    (found : k.word.kind = .keyword word)
    (rest : ∀ t, t.mark = k → Reads (some k.line) (next t) marks cost follows good) :
    Reads line (expectWord word context >>= next) (k :: marks) cost follows good :=
  reads_expect found rest

theorem reads_identifier {next : Token → Parse α} {k : Mark} {context : String}
    (found : k.word.kind = .identifier)
    (rest : ∀ t, t.mark = k → Reads (some k.line) (next t) marks cost follows good) :
    Reads line (expectIdentifier context >>= next) (k :: marks) cost follows good :=
  reads_expect found rest

theorem reads_sign {next : Token → Parse α} {k : Mark} {sign : Sign} {context : String}
    (found : k.word.kind = .sign sign)
    (rest : ∀ t, t.mark = k → Reads (some k.line) (next t) marks cost follows good) :
    Reads line (expectSign sign context >>= next) (k :: marks) cost follows good :=
  reads_expect found rest

theorem reads_discard {next : PUnit → Parse α} {β : Type} {q : Parse β}
    (rest : Reads line (q >>= fun _ => next ⟨⟩) marks cost follows good) :
    Reads line (discard q >>= next) marks cost follows good := by
  intro s own more left same after clear before few
  obtain ⟨a, t, ran, known⟩ := rest s own more left same after clear before few
  refine ⟨a, t, ?_, known⟩
  rw [← ran]
  show EStateM.bind (EStateM.map _ q) _ s = EStateM.bind q _ s
  unfold EStateM.bind EStateM.map
  cases q s <;> rfl

/-- The word stands between what is stored into and the value. -/
def Assigns (word : Word) : Prop := word.kind = .sign .assign ∨ word.kind = .sign .equal

theorem assigns_assignment (style : Style) : Assigns style.assignment := by
  unfold Style.assignment
  cases style.equals with
  | false => exact .inl rfl
  | true => exact .inr rfl

theorem reads_assign {next : Bool → Parse α} {word : Word} (assigns : Assigns word)
    (rest : Reads (some n) (next true) marks cost follows good) :
    Reads line (acceptAssign >>= next) (⟨word, n⟩ :: marks) cost follows good := by
  unfold acceptAssign
  rw [bind_assoc]
  obtain arrow | equal := assigns
  · exact reads_accept arrow rest
  · refine reads_decline (fun t facing => ?_) (reads_accept equal rest)
    rw [show t.kind = word.kind from congrArg (·.word.kind) (facing_cons facing), equal]
    nofun

end Steps

section Types

theorem type_words (text : String) : (Word.type text).kind = .identifier ∨
    ∃ word, (Word.type text).kind = .typeName word ∧ word.text = text := by
  unfold Word.type
  cases found : TypeWord.ofText? text with
  | none => exact .inl rfl
  | some word =>
    have spelled := List.find?_some (show TypeWord.all.find? (·.text == text) = some word from found)
    exact .inr ⟨word, rfl, eq_of_beq spelled⟩

/-- Only the name of arrays is read as that. -/
theorem type_array {text : String} (other : text ≠ TypeWord.ARRAY.text) :
    (Word.type text).kind ≠ .typeName .ARRAY := by
  intro same
  obtain kind | ⟨word, kind, spelled⟩ := type_words text
  · cases kind.symm.trans same
  · cases kind.symm.trans same
    exact other spelled.symm

theorem reads_typeName {text context : String} :
    Reads line (typeName context) (onLine n [.type text]) 0 follows (· = text) := by
  unfold typeName
  refine reads_current fun t facing => ?_
  have taken : Reads line (advance >>= fun t => pure t.lexeme) (onLine n [.type text]) 0 follows (· = text) :=
    reads_advance fun t same => reads_pure (congrArg (·.word.lexeme) same)
  rw [show t.kind = (Word.type text).kind from congrArg (·.word.kind) (facing_cons facing)]
  obtain named | ⟨word, typed, -⟩ := type_words text
  · rw [named]
    exact taken
  · rw [typed]
    exact taken

end Types

section Bounds

theorem reads_boundLiteral (k : Int) :
    Reads line boundLiteral (onLine n (integerWords k)) 0 follows (· = k) := by
  unfold boundLiteral integerWords
  split
  · refine reads_accept rfl (reads_current fun t facing => ?_)
    rw [show t.kind = .integer (-k) from congrArg (·.word.kind) (facing_cons facing)]
    exact reads_skip (reads_pure (Int.neg_neg k))
  · refine reads_decline (fun t facing => ?_) (reads_current fun t facing => ?_)
    · rw [show t.kind = .integer k from congrArg (·.word.kind) (facing_cons facing)]
      nofun
    · rw [show t.kind = .integer k from congrArg (·.word.kind) (facing_cons facing)]
      exact reads_skip (reads_pure rfl)

theorem reads_bound (b : Bound) (other : ∀ t, Facing [] follows t → t.kind ≠ .sign .colon) :
    Reads (some n) bound (onLine n (b.words style)) 0 follows (· = b) := by
  unfold bound Bound.words
  split
  next alone =>
    refine (reads_boundLiteral b.upper).last (fun _ known => known) ?_
    rintro _ rfl
    refine reads_decline other (reads_pure ?_)
    rw [← alone.2]
  next =>
    refine (reads_boundLiteral b.lower).followed (fun _ _ => trivial) ?_
    rintro _ rfl
    refine reads_accept rfl ?_
    rw [if_pos rfl]
    exact (reads_boundLiteral b.upper).last (fun _ known => known) fun _ same => reads_pure (by rw [same])

theorem closed_kind {closer : Sign} (facing : Facing [] (Closed n closer) t) : t.kind = .sign closer := by
  obtain ⟨_, ⟨u, rest, rfl, same⟩, first | ⟨none, -⟩⟩ := facing_nil facing
  · cases first
    exact congrArg (·.word.kind) same
  · cases none

theorem commaOr_kind {closer : Sign} (facing : Facing [] (CommaOr n (Closed n closer)) t) :
    t.kind = .sign .comma ∨ t.kind = .sign closer := by
  obtain ⟨more, comma | closed, first⟩ := facing_nil facing
  · exact .inl (congrArg (·.word.kind) (facing_cons ⟨more, comma, first⟩))
  · exact .inr (closed_kind ⟨more, ahead_nil.mpr closed, first⟩)

theorem reads_arrayBounds {bounds : List Bound} (present : bounds ≠ []) :
    Reads line arrayBounds
      (onLine n (bracketed (separated [.sign .comma] (bounds.map (Bound.words style))))) 0 follows
      (· = bounds) := by
  unfold arrayBounds bracketed
  refine reads_sign rfl fun opened _ => ?_
  have each : ∀ b ∈ bounds, Reads (some n) bound (onLine n (b.words style)) 0
      (CommaOr n (Closed n .closeBracket)) (· = b) := fun b _ =>
    reads_bound b fun t facing => by
      obtain kind | kind := commaOr_kind facing <;> rw [kind] <;> nofun
  have all := reads_plain present each fun t facing => by
    rw [closed_kind facing]
    nofun
  refine all.followed (fun _ => closed_of_ahead) ?_
  rintro _ rfl
  exact reads_accept rfl (reads_pure rfl)

end Bounds

section Parameters

theorem reads_passMode {mode given : PassMode} (named : ∀ t, Facing [] follows t → t.kind = .identifier) :
    Reads (some n) (passMode mode) (onLine n (if style.sticky ∧ given = mode then [] else [given.word])) 0
      follows (· = given) := by
  unfold passMode
  split
  next same =>
    rw [same.2]
    refine reads_decline (fun t facing => ?_) (reads_decline (fun t facing => ?_) (reads_pure rfl))
    · rw [named t facing]
      nofun
    · rw [named t facing]
      nofun
  next =>
    cases given with
    | byReference => exact reads_accept rfl (reads_pure rfl)
    | byValue =>
      refine reads_decline (fun t facing => ?_) (reads_accept rfl (reads_pure rfl))
      rw [show t.kind = .keyword .BYVAL from congrArg (·.word.kind) (facing_cons facing)]
      nofun

theorem reads_parameterType {x : Param} {name : String} (normal : x.normal = true)
    (other : ∀ t, Facing [] follows t → t.kind = .sign .comma ∨ t.kind = .sign .closeParen) :
    Reads (some n) (parameterType name)
      (onLine n (.type x.typeName :: (x.elementType.map fun type => [.keyword .OF, .type type]).getD [])) 0
      follows (· = (x.typeName, x.elementType)) := by
  unfold parameterType
  by_cases array : x.typeName = TypeWord.ARRAY.text
  · rw [array]
    refine reads_accept rfl ?_
    rw [if_pos rfl]
    cases x.elementType with
    | none =>
      refine reads_nextIs fun t facing => ?_
      rw [show (t.kind == .sign .openBracket) = false by
        obtain kind | kind := other t facing <;> rw [kind] <;> rfl]
      refine reads_decline (fun t facing => ?_) (reads_pure rfl)
      obtain kind | kind := other t facing <;> rw [kind] <;> nofun
    | some type =>
      refine reads_nextIs fun t facing => ?_
      rw [show t.kind = .keyword .OF from congrArg (·.word.kind) (facing_cons facing)]
      refine reads_accept rfl ?_
      rw [if_pos rfl]
      refine reads_typeName.finally (fun _ known => known) ?_
      rintro _ rfl
      exact reads_pure rfl
  · have alone : x.elementType = none := by
      simpa [Param.normal, array] using normal
    rw [alone]
    refine reads_decline (fun t facing => ?_) ?_
    · rw [show t.kind = (Word.type x.typeName).kind from congrArg (·.word.kind) (facing_cons facing)]
      exact type_array array
    · refine reads_typeName.last (fun _ known => known) ?_
      rintro _ rfl
      exact reads_pure rfl

/-- A name is next. -/
def Named (tokens : List Token) : Prop := ∃ t rest, tokens = t :: rest ∧ t.kind = .identifier

theorem named_of_ahead {name : String} (ahead : Ahead (onLine n (.name name :: words)) follows tokens) :
    Named tokens := by
  obtain ⟨t, rest, first, same, -⟩ := ahead_cons.mp ahead
  exact ⟨t, rest, first, congrArg (·.word.kind) same⟩

theorem named_kind (facing : Facing [] Named t) : t.kind = .identifier := by
  obtain ⟨_, ⟨u, rest, rfl, kind⟩, first | ⟨none, -⟩⟩ := facing_nil facing
  · cases first
    exact kind
  · cases none

/-- Behind a parameter stands another one or the end of the list. -/
theorem param_ends {mode : PassMode} {params : List Param}
    (ahead : Ahead (onLine n ((paramsWords style mode params).flatMap ([Word.sign .comma] ++ ·)))
      (Closed n .closeParen) tokens) : CommaOr n (Closed n .closeParen) tokens := by
  cases params with
  | nil => exact .inr (ahead_nil.mp ahead)
  | cons x rest =>
    obtain ⟨t, others, first, same, -⟩ := ahead_cons.mp ahead
    exact .inl (ahead_cons.mpr ⟨t, others, first, same, ahead_nil.mpr trivial⟩)

theorem reads_parameters {params : List Param} {mode : PassMode} {fuel : Nat} (present : params ≠ [])
    (enough : params.length ≤ fuel) (normal : params.all Param.normal = true) :
    Reads (some n) (parameters mode fuel)
      (onLine n (separated [.sign .comma] (paramsWords style mode params))) 0 (Closed n .closeParen)
      (· = params) := by
  induction params generalizing mode fuel with
  | nil => exact absurd rfl present
  | cons x rest ih =>
    obtain ⟨fuel, rfl⟩ : ∃ f, fuel = f + 1 := ⟨fuel - 1, by simp at enough; omega⟩
    obtain ⟨name, typeName, given, elementType⟩ := x
    simp only [List.all_cons, Bool.and_eq_true] at normal
    unfold parameters
    rw [paramsWords, separated, Param.words, List.append_assoc]
    refine (reads_passMode fun t => named_kind).followed (fun _ => named_of_ahead) ?_
    rintro _ rfl
    refine reads_identifier rfl fun t same => reads_discard (reads_sign rfl fun _ _ => ?_)
    rw [show t.lexeme = name from congrArg (·.word.lexeme) same]
    refine (reads_parameterType normal.1 fun t => commaOr_kind).followed (fun _ => param_ends) ?_
    rintro _ rfl
    dsimp only
    cases rest with
    | nil =>
      refine reads_decline (fun t facing => ?_) (reads_pure rfl)
      rw [closed_kind facing]
      decide
    | cons y rest =>
      refine reads_accept rfl ?_
      rw [if_pos rfl]
      refine (ih (List.cons_ne_nil y rest) (Nat.le_of_succ_le_succ enough) normal.2).last
        (fun _ known => known) ?_
      rintro _ rfl
      exact reads_pure rfl

theorem length_paramsWords (params : List Param) (mode : PassMode) :
    (paramsWords style mode params).length = params.length := by
  induction params generalizing mode with
  | nil => rfl
  | cons x rest ih => rw [paramsWords, List.length_cons, List.length_cons, ih]

theorem Param.words_start (style : Style) (x : Param) (mode : PassMode) :
    ∃ word rest, x.words style mode = word :: rest ∧ word.kind ≠ .sign .closeParen := by
  unfold Param.words
  split
  · exact ⟨_, _, rfl, nofun⟩
  · cases x.mode <;> exact ⟨_, _, rfl, nofun⟩

/-- The list may be left out where no opening parenthesis follows. -/
theorem reads_parameterList {params : List Param} {routine : Token} (normal : params.all Param.normal = true)
    (other : ∀ t, Facing [] follows t → t.kind ≠ .sign .openParen) :
    Reads (some n) (parameterList routine)
      (onLine n (if style.bare ∧ params.isEmpty then []
        else parenthesised (separated [.sign .comma] (paramsWords style .byValue params)))) 0 follows
      (· = params) := by
  unfold parameterList
  split
  next bare =>
    rw [List.isEmpty_iff.mp bare.2]
    exact reads_decline other (reads_pure rfl)
  next =>
    refine reads_accept rfl ?_
    rw [if_pos rfl]
    refine reads_nextIs fun t facing => ?_
    cases params with
    | nil =>
      rw [show t.kind = .sign .closeParen from congrArg (·.word.kind) (facing_cons facing)]
      exact reads_accept rfl (reads_pure rfl)
    | cons x rest =>
      have open' : t.kind ≠ .sign .closeParen := by
        obtain ⟨word, words, printed, other⟩ := Param.words_start style x .byValue
        rw [paramsWords, separated, printed] at facing
        rw [show t.kind = word.kind from congrArg (·.word.kind) (facing_cons facing)]
        exact other
      rw [beq_false_of_ne open', if_neg Bool.false_ne_true]
      refine reads_remaining fun fuel enough => ?_
      have many := length_separated (.sign .comma) (paramsWords style .byValue (x :: rest))
      rw [length_paramsWords] at many
      rw [List.length_map, List.length_append] at enough
      refine (reads_parameters (List.cons_ne_nil x rest) (by omega) normal).followed
        (fun _ => closed_of_ahead) ?_
      rintro _ rfl
      exact reads_accept rfl (reads_pure rfl)

theorem reads_resultType {kind : RoutineKind} {returns : Option String} {name : String}
    (stated : (returns.isSome == (kind == .function)) = true) :
    Reads (some n) (resultType kind name)
      (onLine n ((returns.map fun type => [.keyword .RETURNS, .type type]).getD [])) 0 follows
      (· = returns) := by
  unfold resultType
  cases kind with
  | procedure =>
    cases returns with
    | none => exact reads_pure rfl
    | some => cases stated
  | function =>
    cases returns with
    | none => cases stated
    | some type =>
      refine reads_discard (reads_word rfl fun _ _ => ?_)
      refine reads_typeName.last (fun _ known => known) ?_
      rintro _ rfl
      exact reads_pure rfl

end Parameters

section Targets

theorem reads_target {place : Target} {room : Nat} (normal : place.normal = true)
    (deep : place.depth ≤ room) :
    Reads line (target room) (onLine n (place.words style)) place.operators (Stops n 0) place.Same := by
  unfold target
  refine reads_previous fun before _ => ?_
  cases place with
  | «variable» p name =>
    refine reads_identifier rfl fun t same => reads_remaining fun fuel _ => ?_
    rw [show t.line = n from congrArg Mark.line same]
    refine (reads_indexGroups_stop fuel).finally (fun _ known => known) ?_
    rintro _ rfl
    refine reads_pure ?_
    rw [show t.lexeme = name from congrArg (·.word.lexeme) same]
    rfl
  | element p array indices =>
    simp only [Target.normal, Bool.and_eq_true, Bool.not_eq_true', List.isEmpty_eq_false_iff] at normal
    rw [Target.words, elementWords, exprsWords_eq]
    refine reads_identifier rfl fun t same => reads_remaining fun fuel enough => ?_
    rw [show t.line = n from congrArg Mark.line same]
    rw [List.length_map] at enough
    have many := Nat.le_trans (length_indices style _) enough
    rw [List.length_map] at many
    refine (reads_indices normal.1 (reads_items indices normal.2 deep) many).last (fun _ known => known)
      fun es known => ?_
    cases es with
    | nil => exact absurd (List.map_eq_nil_iff.mp known.symm) normal.1
    | cons e rest =>
      refine reads_pure ?_
      rw [show t.lexeme = array from congrArg (·.word.lexeme) same]
      exact congrArg (Target.element _ array) known
  | stray => cases normal

end Targets

end Parse

end Pseudocode
