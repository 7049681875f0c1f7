import Pseudocode.Proofs.ReadParts

/-! Blocks that were printed are read back, if each of their statements is. The first line of a statement
is told from the end of a block and from the labels of a CASE branch by its first two words, so a block
ends where it did when it was printed. -/
namespace Pseudocode

/-- The other statements are the same in some places. -/
def SameBlock (block other : List Stmt) : Prop :=
  other.map (Stmt.moved nowhere) = block.map (Stmt.moved nowhere)

theorem sameBlock_one {s other : Stmt} (same : other.moved nowhere = s.moved nowhere) :
    SameBlock [s] [other] := congrArg (fun s => [s]) same

namespace Parse

variable {α : Type} {n m cost fuel : Nat} {line : Option Nat} {marks : List Mark} {words : List Word}
  {lines : List (List Word)} {follows : List Token → Prop} {good : α → Prop} {tokens : List Token}
  {t : Token} {style : Style} {closers : List Keyword} {one : Parse (List Stmt)} {block : List Stmt}

/-- The line is the first of a statement. -/
inductive Starts : List Word → Prop
  | keyword (word : Keyword) (rest : List Word) :
    word.startsStatement = true → Starts (.keyword word :: rest)
  | name (name : String) (sign : Sign) (rest : List Word) :
    sign ∈ [.assign, .equal, .openBracket, .openParen] → Starts (.name name :: .sign sign :: rest)

/-- The statement is read back from its lines. -/
structure ReadsBack (style : Style) (one : Parse (List Stmt)) (s : Stmt) : Prop where
  starts : ∃ words lines, s.lines style = words :: lines ∧ Starts words
  reads : ∀ line n, Reads line one (fromLine n (s.lines style)) s.operators
    (Below (n + (s.lines style).length)) (SameBlock [s])

section Starts

theorem Starts.kind (starts : Starts words) (facing : Facing (fromLine n (words :: lines)) follows t) :
    t.kind = .identifier ∨ ∃ word, t.kind = .keyword word ∧ word.startsStatement = true := by
  cases starts with
  | keyword word rest known => exact .inr ⟨word, congrArg (·.word.kind) (facing_cons facing), known⟩
  | name => exact .inl (congrArg (·.word.kind) (facing_cons facing))

theorem Starts.opens (starts : Starts words) (ahead : Ahead (fromLine n (words :: lines)) follows tokens) :
    Opens tokens := by
  intro t first
  obtain named | ⟨word, kind, known⟩ := starts.kind ⟨tokens, ahead, .inl first⟩
  · exact .inl named
  · exact .inr ⟨word, kind, by rw [known, Bool.true_or]⟩

theorem closesBlock_of_starts {word : Keyword} (known : word.startsStatement = true) :
    word.closesBlock = false := by
  cases word <;> first | rfl | cases known

theorem Starts.inside (starts : Starts words) (facing : Facing (fromLine n (words :: lines)) follows t) :
    closer? t = none := by
  unfold closer?
  obtain named | ⟨word, kind, known⟩ := starts.kind facing
  · rw [named]
  · rw [kind]
    dsimp only
    rw [closesBlock_of_starts known, if_neg Bool.false_ne_true]

theorem Starts.nonempty (starts : Starts words) (ahead : Ahead (fromLine n (words :: lines)) follows tokens) :
    tokens.isEmpty = false := by
  cases starts with
  | _ =>
    obtain ⟨t, rest, rfl, -⟩ := ahead_cons.mp ahead
    rfl

theorem Starts.length (starts : Starts words) : 0 < words.length := by
  cases starts <;> exact Nat.succ_pos _

/-- A block opens with a statement, or with what follows it. -/
theorem opens_of_block (all : ∀ s ∈ block, ReadsBack style one s)
    (ahead : Ahead (fromLine m (blockLines style block)) follows tokens)
    (after : ∀ more, follows more → Opens more) : Opens tokens := by
  cases block with
  | nil => exact after _ (ahead_nil.mp ahead)
  | cons s rest =>
    obtain ⟨first, more, printed, starts⟩ := (all s (.head _)).starts
    rw [blockLines, printed] at ahead
    exact starts.opens ahead

/-- Behind a header stands a block and a word that ends it. -/
theorem opens_below {word : Keyword} (closing : word.closesBlock = true)
    (all : ∀ s ∈ block, ReadsBack style one s)
    (ahead : Ahead (fromLine m (blockLines style block ++ (.keyword word :: words) :: lines)) follows tokens) :
    Opens tokens := by
  rw [fromLine_append, ahead_append] at ahead
  exact opens_of_block all ahead fun more known =>
    (closes_of_ahead (List.mem_singleton.mpr rfl) closing known).opens

end Starts

section Loops

variable {loop : Nat → Parse (List Stmt)} {ends : Nat → List Token → Prop}

/-- A loop that reads a statement where one starts reads a whole block. -/
theorem reads_many (stop : ∀ {line fuel m}, Reads line (loop fuel) [] 0 (ends m) (· = []))
    (step : ∀ {line fuel n words lines cost follows good}, Starts words →
      Reads line (orSkip one [] >>= fun first => loop fuel >>= fun rest => pure (first ++ rest))
        (fromLine n (words :: lines)) cost follows good →
      Reads line (loop (fuel + 1)) (fromLine n (words :: lines)) cost follows good)
    (below : ∀ {m tokens}, ends m tokens → Below m tokens)
    (all : ∀ s ∈ block, ReadsBack style one s)
    (enough : (fromLine n (blockLines style block)).length ≤ fuel) :
    Reads line (loop fuel) (fromLine n (blockLines style block)) (blockOperators block)
      (ends (n + (blockLines style block).length)) (SameBlock block) := by
  induction block generalizing line n fuel with
  | nil =>
    refine Reads.weaken stop ?_
    rintro _ rfl
    rfl
  | cons s rest ih =>
    obtain ⟨starts, reads⟩ := all s (.head _)
    obtain ⟨words, lines, printed, starts⟩ := starts
    have place : n + (s.lines style ++ blockLines style rest).length =
        n + (s.lines style).length + (blockLines style rest).length := by
      rw [List.length_append, Nat.add_assoc]
    have many : 0 < (fromLine n (s.lines style)).length := by
      have := starts.length
      rw [printed, fromLine, List.length_append, onLine, List.length_map]
      omega
    rw [blockLines, fromLine_append, List.length_append] at enough
    obtain ⟨fuel, rfl⟩ : ∃ f, fuel = f + 1 := ⟨fuel - 1, by omega⟩
    rw [blockLines, place]
    have both : Reads line (orSkip one [] >>= fun first => loop fuel >>= fun rest => pure (first ++ rest))
        (fromLine n (s.lines style ++ blockLines style rest)) (s.operators + blockOperators rest)
        (ends (n + (s.lines style).length + (blockLines style rest).length)) (SameBlock (s :: rest)) := by
      rw [fromLine_append]
      refine ((reads line n).orSkip []).bind (fun _ ahead => below_of_ahead ahead fun _ => below)
        fun first same => ?_
      rw [bind_pure_comp]
      refine (ih (fun s member => all s (.tail _ member)) (by omega)).map _ fun others same' => ?_
      rw [SameBlock, List.map_append, same, same']
      rfl
    rw [printed] at both ⊢
    exact step starts both

end Loops

section Blocks

theorem closer_of_closes (closes : Closes closers m tokens) (first : tokens.head? = some t) :
    ∃ word ∈ closers, closer? t = some word := by
  obtain ⟨-, word, member, kind, closing⟩ := closes t first
  refine ⟨word, member, ?_⟩
  unfold closer?
  rw [kind]
  dsimp only
  rw [closing, if_pos rfl]

theorem atEnd_bind (next : Bool → Parse α) (s : Reader) :
    (atEnd >>= next) s = next s.rest.isEmpty s := rfl

theorem reads_statements (all : ∀ s ∈ block, ReadsBack style one s)
    (enough : (fromLine n (blockLines style block)).length ≤ fuel) :
    Reads line (statements one closers fuel) (fromLine n (blockLines style block)) (blockOperators block)
      (Closes closers (n + (blockLines style block).length)) (SameBlock block) := by
  refine reads_many (fun {_ fuel _} => ?_) (fun starts reads => ?_) Closes.below all enough
  · refine reads_nothing (fun s closes clear => ?_) rfl
    cases fuel with
    | zero => rfl
    | succ fuel =>
      unfold statements
      rw [current_bind, atEnd_bind]
      cases left : s.rest with
      | nil => rfl
      | cons t rest =>
        obtain ⟨word, member, found⟩ := closer_of_closes closes (congrArg List.head? left)
        rw [show s.current = t by rw [Reader.current, left]; rfl, found]
        dsimp only
        rw [if_pos (List.contains_iff_mem.mpr member)]
        rfl
  · unfold statements
    refine reads_current fun t facing => reads_atEnd fun tokens ahead => ?_
    rw [starts.nonempty ahead, if_neg Bool.false_ne_true, starts.inside facing]
    exact reads

theorem reads_block {inside : Nest → Parse (List Stmt)} {nest : Nest} (room : nest.room ≠ 0)
    (all : ∀ s ∈ block, ReadsBack style (inside (nest.deeper closers)) s) :
    Reads line (Parse.block inside nest closers) (fromLine n (blockLines style block))
      (blockOperators block) (Closes closers (n + (blockLines style block).length)) (SameBlock block) := by
  unfold Parse.block
  rw [if_neg room]
  refine reads_remaining fun fuel enough => ?_
  exact (reads_statements all enough).narrow fun _ closes => closes.more (List.subset_append_left _ _)

end Blocks

section Branches

/-- Whether a token and the next one are the first of a label. -/
def beginsLabel (kind next : TokenKind) : Bool :=
  match kind with
  | .sign .minus => next.isNumber
  | .identifier => next == .sign .colon || next == .keyword .TO || next == .sign .comma
  | kind => kind.isLiteral

theorem following_bind (next : Token → Parse α) (s : Reader) :
    (following >>= next) s = next s.advanced.current s := rfl

theorem startsLabel_apply (s : Reader) :
    startsLabel s = .ok (beginsLabel s.current.kind s.advanced.current.kind) s := by
  unfold startsLabel beginsLabel
  rw [current_bind, following_bind]
  cases s.current.kind with
  | sign sign => cases sign <;> rfl
  | _ => rfl

/-- A branch of a CASE statement ends in front of a label or where the statement goes on. -/
def BranchEnds (m : Nat) (tokens : List Token) : Prop :=
  Closes [.OTHERWISE, .ENDCASE] m tokens ∨
    Below m tokens ∧ ∃ t u rest, tokens = t :: u :: rest ∧ beginsLabel t.kind u.kind = true

theorem Starts.plain (starts : Starts words) {s : Reader}
    (stands : Stands line (fromLine n (words :: lines)) follows s) :
    beginsLabel s.current.kind s.advanced.current.kind = false := by
  cases starts with
  | keyword =>
    rw [show s.current.kind = _ from congrArg (·.word.kind) (facing_cons stands.facing)]
    rfl
  | name name sign rest known =>
    obtain ⟨t, others, first, same, ahead⟩ := ahead_cons.mp stands.ahead
    obtain ⟨u, others, rfl, same', -⟩ := ahead_cons.mp ahead
    have here : s.current = t := by rw [Reader.current, first]; rfl
    have next : s.advanced.current = u := by rw [Reader.current, Reader.advanced, first]; rfl
    rw [here, next, show t.kind = .identifier from congrArg (·.word.kind) same,
      show u.kind = .sign sign from congrArg (·.word.kind) same']
    cases sign with
    | colon | comma => simp at known
    | _ => rfl

theorem reads_branchBody (all : ∀ s ∈ block, ReadsBack style one s)
    (enough : (fromLine n (blockLines style block)).length ≤ fuel) :
    Reads line (branchBody one fuel) (fromLine n (blockLines style block)) (blockOperators block)
      (BranchEnds (n + (blockLines style block).length)) (SameBlock block) := by
  refine reads_many (fun {_ fuel _} => ?_) (fun starts reads => ?_) ?_ all enough
  · refine reads_nothing (fun s ends clear => ?_) rfl
    cases fuel with
    | zero => rfl
    | succ fuel =>
      unfold branchBody
      rw [atEnd_bind, current_bind, bind_of_ok (startsLabel_apply s)]
      obtain closes | ⟨-, t, u, rest, left, starts⟩ := ends
      · cases left : s.rest with
        | nil => rfl
        | cons t rest =>
          obtain ⟨word, -, found⟩ := closer_of_closes closes (congrArg List.head? left)
          rw [show s.current = t by rw [Reader.current, left]; rfl, found]
          rfl
      · rw [show s.current = t by rw [Reader.current, left]; rfl,
          show s.advanced.current = u by rw [Reader.current, Reader.advanced, left]; rfl, starts]
        simp only [Bool.or_true, if_true]
        rfl
  · unfold branchBody
    refine reads_atEnd fun tokens ahead => reads_current fun t facing => ?_
    refine reads_look (fun s => beginsLabel s.current.kind s.advanced.current.kind) startsLabel_apply
      fun s stands => ?_
    rw [starts.nonempty ahead, starts.inside facing, starts.plain stands]
    exact reads
  · rintro m tokens (closes | ⟨below, -⟩)
    · exact closes.below
    · exact below

/-- An operand that may be a label is read wherever it stands. -/
theorem reads_labelOperand {e : Expr} {room : Nat} (label : e.isLabel = true) (deep : e.depth ≤ room) :
    Reads line (operand n room false) (onLine n (e.words style)) e.operators (Stops n 0) e.Same := by
  cases e with
  | literal p value =>
    refine (reads_operand_literal value deep).weaken ?_
    rintro _ ⟨q, rfl⟩
    rfl
  | name p name =>
    obtain ⟨room, rfl⟩ : ∃ r, room = r + 1 := ⟨room - 1, by simp [Expr.depth] at deep; omega⟩
    refine (reads_operand_primary (reads_primary_name name) (by rintro ⟨⟩) (by rintro ⟨⟩)).weaken ?_
    rintro _ ⟨q, rfl⟩
    rfl
  | _ => cases label

/-- The first word of a label starts the line that the label is read on. -/
theorem label_start (style : Style) {e : Expr} (label : e.normalLabel = true) :
    ∃ word rest, e.words style = word :: rest ∧ startsOperand word.kind = true := by
  have operand {e : Expr} (label : e.isLabel = true) :
      ∃ word rest, e.words style = word :: rest ∧ startsOperand word.kind = true := by
    refine words_start e ?_
    cases e with
    | literal | name => rfl
    | _ => cases label
  cases e with
  | range p low high =>
    simp only [Expr.normalLabel, Bool.and_eq_true] at label
    obtain ⟨word, rest, printed, first⟩ := operand label.1
    exact ⟨word, rest ++ .keyword .TO :: high.words style, by rw [Expr.words, printed, List.cons_append], first⟩
  | _ => exact operand label

theorem reads_caseLabel {e : Expr} {room : Nat} (label : e.normalLabel = true) (deep : e.depth ≤ room) :
    Reads line (caseLabel room) (onLine n (e.words style)) e.operators
      (CommaOr n (Closed n .colon)) e.Same := by
  unfold caseLabel
  refine reads_current fun t facing => reads_anew ?_
  obtain ⟨word, rest, printed, -⟩ := label_start style label
  rw [show t.line = n by
    rw [printed] at facing
    exact congrArg Mark.line (facing_cons facing)]
  have alone {e : Expr} (label : e.isLabel = true) (deep : e.depth ≤ room) :
      Reads line (operand n room false >>= fun low => acceptWord .TO >>= fun range =>
        if range then do return .range low.position low (← operand n room false) else pure low)
        (onLine n (e.words style)) e.operators (CommaOr n (Closed n .colon)) e.Same := by
    refine ((reads_labelOperand label deep).narrow fun _ => commaOr_stops rfl).finally
      (fun _ known => known) fun low same => ?_
    refine reads_decline (fun t facing => ?_) (reads_pure same)
    obtain kind | kind := commaOr_kind facing <;> rw [kind] <;> nofun
  cases e with
  | range p low high =>
    simp only [Expr.normalLabel, Bool.and_eq_true] at label
    simp only [Expr.depth] at deep
    rw [Expr.words, onLine_append]
    refine (reads_labelOperand label.1 (show low.depth ≤ room by omega)).bind (fun _ => stops_cons rfl) fun a same => ?_
    refine reads_accept rfl ?_
    rw [if_pos rfl]
    refine ((reads_labelOperand label.2 (by omega)).narrow fun _ => commaOr_stops rfl).last
      (fun _ known => known) fun b same' => reads_pure ?_
    simp only [Expr.Same, Expr.moved] at same same' ⊢
    rw [same, same']
    rfl
  | literal => exact alone label deep
  | name => exact alone label deep
  | _ => cases label

theorem depth_of_mem {es : List Expr} {e : Expr} (member : e ∈ es) : e.depth ≤ exprsDepth es := by
  induction es with
  | nil => cases member
  | cons f rest ih =>
    rw [exprsDepth]
    obtain rfl | member := List.mem_cons.mp member
    · exact Nat.le_max_left _ _
    · exact Nat.le_trans (ih member) (Nat.le_max_right _ _)

theorem beginsLabel_literal {kind : TokenKind} (literal : kind.isLiteral = true) (next : TokenKind) :
    beginsLabel kind next = true := by
  cases kind <;> first | rfl | cases literal

/-- A label is known by its first word and the next one, which may stand behind it. -/
theorem label_two {e : Expr} (label : e.normalLabel = true) {sign : Sign} (after : sign = .comma ∨ sign = .colon)
    (rest : List Word) : ∃ word next more, e.words style ++ .sign sign :: rest = word :: next :: more ∧
      beginsLabel word.kind next.kind = true := by
  have alone {e : Expr} (label : e.isLabel = true) {next : Word} (rest : List Word)
      (named : beginsLabel .identifier next.kind = true) : ∃ word next' more,
        e.words style ++ next :: rest = word :: next' :: more ∧ beginsLabel word.kind next'.kind = true := by
    cases e with
    | literal p value =>
      cases negative : value.isNegative with
      | false =>
        obtain ⟨word, printed, -, literal⟩ := literal_words value negative
        exact ⟨word, next, rest, by rw [Expr.words, printed]; rfl, beginsLabel_literal literal _⟩
      | true =>
        cases value with
        | integer k =>
          have below : k < 0 := by simpa [Literal.isNegative] using negative
          refine ⟨.sign .minus, .integer (-k), next :: rest, ?_, rfl⟩
          rw [Expr.words, Literal.words, integerWords, if_pos below]
          rfl
        | real x =>
          refine ⟨.sign .minus, .real x.neg, next :: rest, ?_, rfl⟩
          rw [Expr.words, Literal.words, if_pos (show x.isNegative = true from negative)]
          rfl
        | _ => cases negative
    | name p name => exact ⟨.name name, next, rest, rfl, named⟩
    | _ => cases label
  have named : beginsLabel .identifier (.sign sign) = true := by obtain rfl | rfl := after <;> rfl
  cases e with
  | range p low high =>
    simp only [Expr.normalLabel, Bool.and_eq_true] at label
    rw [Expr.words, List.append_assoc, List.cons_append]
    exact alone label.1 _ rfl
  | literal p value => exact alone (e := .literal p value) label rest named
  | name p name => exact alone (e := .name p name) label rest named
  | _ => cases label

theorem labels_two (style : Style) {labels : List Expr} (present : labels ≠ []) (known : labels.all Expr.normalLabel = true) :
    ∃ word next more, separated [.sign .comma] (exprsWords style labels) ++ [Word.sign .colon] =
      word :: next :: more ∧ beginsLabel word.kind next.kind = true := by
  obtain ⟨e, rest, rfl⟩ := List.exists_cons_of_ne_nil present
  rw [List.all_cons, Bool.and_eq_true] at known
  rw [exprsWords, separated, List.append_assoc]
  cases rest with
  | nil => exact label_two known.1 (.inr rfl) []
  | cons f rest => exact label_two known.1 (.inl rfl) _

/-- The other branch is the same in some place. -/
def SameBranch (branch other : Branch Stmt) : Prop := other.moved nowhere = branch.moved nowhere

/-- The lines of one branch. -/
def branchLines (style : Style) (b : Branch Stmt) : List (List Word) :=
  (separated [.sign .comma] (exprsWords style b.labels) ++ [.sign .colon]) :: blockLines style b.body

/-- The branch is read back from its lines. -/
structure BranchBack (style : Style) (inside : Nest → Parse (List Stmt)) (nest : Nest) (b : Branch Stmt) :
    Prop where
  begins : ∃ word next more lines, branchLines style b = (word :: next :: more) :: lines ∧
    beginsLabel word.kind next.kind = true
  reads : ∀ line n, Reads line (caseBranch inside nest) (fromLine n (branchLines style b))
    (exprsOperators b.labels + blockOperators b.body) (BranchEnds (n + (branchLines style b).length))
    (SameBranch b)

section Forms

variable {inside : Nest → Parse (List Stmt)} {nest : Nest}

theorem branchBack {b : Branch Stmt} (present : b.labels ≠ [])
    (known : b.labels.all Expr.normalLabel = true) (deep : exprsDepth b.labels ≤ nest.room)
    (all : ∀ s ∈ b.body, ReadsBack style (inside nest) s) : BranchBack style inside nest b := by
  obtain ⟨word, next, more, printed, begins⟩ := labels_two style present known
  refine ⟨⟨word, next, more, blockLines style b.body, by rw [branchLines, printed], begins⟩, fun line n => ?_⟩
  obtain ⟨labels, body, place⟩ := b
  obtain ⟨e, rest, rfl⟩ := List.exists_cons_of_ne_nil present
  have each : ∀ f ∈ e :: rest, ∀ line, Reads line (caseLabel nest.room) (onLine n (f.words style)) f.operators
      (CommaOr n (Closed n .colon)) f.Same := fun f member line =>
    reads_caseLabel (List.all_eq_true.mp known f member) (Nat.le_trans (depth_of_mem member) deep)
  unfold caseBranch branchLines
  rw [List.length_cons, Nat.add_comm _ 1, ← Nat.add_assoc]
  refine reads_current fun t _ => ?_
  rw [exprsWords_eq, exprsOperators_eq, fromLine, onLine_append, List.append_assoc]
  refine (reads_commaSeparated (each e (.head _) line) ?_ (fun f member => each f (.tail _ member) _)
    fun t facing => ?_).bind (fun _ => closed_of_ahead) fun found same => ?_
  · obtain ⟨word, words, printed, -⟩ := label_start style (List.all_eq_true.mp known e (.head _))
    rw [printed]
    exact (lineAfter_cons _ _ _).trans (lineAfter_onLine n words)
  · rw [closed_kind facing]
    decide
  refine reads_discard (reads_sign rfl fun _ _ => reads_remaining fun fuel enough => ?_)
  refine (reads_branchBody all enough).finally (fun _ known => known) fun other same' => reads_pure ?_
  unfold SameBranch Branch.moved
  rw [same, same']
  rfl

theorem branchesLines_cons (b : Branch Stmt) (rest : List (Branch Stmt)) :
    branchesLines style (b :: rest) = branchLines style b ++ branchesLines style rest := by
  obtain ⟨labels, body, place⟩ := b
  rw [branchesLines, branchLines, List.cons_append]

theorem branchesOperators_cons (b : Branch Stmt) (rest : List (Branch Stmt)) :
    branchesOperators (b :: rest) =
      exprsOperators b.labels + blockOperators b.body + branchesOperators rest := by
  obtain ⟨labels, body, place⟩ := b
  rw [branchesOperators, Nat.add_assoc]

/-- What follows a branch shows that it ends. -/
theorem branch_ends {branches : List (Branch Stmt)} {otherwise : Option (List Stmt)}
    (all : ∀ b ∈ branches, BranchBack style inside nest b)
    (ahead : Ahead (fromLine m (branchesLines style branches ++
        otherwiseLines style (otherwiseWords style) otherwise))
      (Closes [.ENDCASE] (m + (branchesLines style branches ++
        otherwiseLines style (otherwiseWords style) otherwise).length)) tokens) :
    BranchEnds m tokens := by
  have below := below_of_ahead ahead fun _ => Closes.below
  cases branches with
  | nil =>
    refine .inl ?_
    cases otherwise with
    | none => exact (ahead_nil.mp ahead).more (by simp)
    | some block => exact closes_of_ahead (by simp) rfl ahead
  | cons b rest =>
    obtain ⟨word, next, more, lines, printed, begins⟩ := (all b (.head _)).begins
    rw [branchesLines_cons, printed] at ahead
    obtain ⟨t, others, rfl, same, ahead⟩ := ahead_cons.mp ahead
    obtain ⟨u, others, rfl, same', -⟩ := ahead_cons.mp ahead
    refine .inr ⟨below, t, u, others, rfl, ?_⟩
    rw [show t.kind = word.kind from congrArg (·.word.kind) same,
      show u.kind = next.kind from congrArg (·.word.kind) same', begins]

theorem reads_noBranch :
    Reads line (caseBranches inside nest fuel) [] 0 (Closes [.ENDCASE] m) (· = ([], none)) := by
  refine reads_nothing (fun s closes clear => ?_) rfl
  cases fuel with
  | zero => rfl
  | succ fuel =>
    unfold caseBranches
    rw [current_bind, atEnd_bind]
    cases left : s.rest with
    | nil => rfl
    | cons t rest =>
      obtain ⟨word, member, found⟩ := closer_of_closes closes (congrArg List.head? left)
      rw [show s.current = t by rw [Reader.current, left]; rfl, found, List.mem_singleton.mp member]
      rfl

/-- The part behind OTHERWISE, with or without a colon. -/
theorem reads_otherwise (room : nest.room ≠ 0)
    (all : ∀ s ∈ block, ReadsBack style (inside (nest.deeper [.ENDCASE])) s)
    (enough : (fromLine n (otherwiseWords style :: blockLines style block)).length ≤ fuel) :
    Reads line (caseBranches inside nest fuel)
      (fromLine n (otherwiseWords style :: blockLines style block)) (blockOperators block)
      (Closes [.ENDCASE] (n + (otherwiseWords style :: blockLines style block).length))
      (fun found => found.1 = [] ∧ ∃ other, found.2 = some other ∧ SameBlock block other) := by
  rw [List.length_cons, Nat.add_comm _ 1, ← Nat.add_assoc]
  obtain ⟨fuel, rfl⟩ : ∃ f, fuel = f + 1 := by
    cases fuel with
    | zero => cases enough
    | succ fuel => exact ⟨fuel, rfl⟩
  have body (line : Option Nat) : Reads line (Parse.block inside nest [.ENDCASE] >>= fun other =>
      pure (([] : List (Branch Stmt)), some other)) (fromLine (n + 1) (blockLines style block))
      (blockOperators block) (Closes [.ENDCASE] (n + 1 + (blockLines style block).length))
      (fun found => found.1 = [] ∧ ∃ other, found.2 = some other ∧ SameBlock block other) :=
    ((reads_block room all).narrow fun _ closes => closes).finally (fun _ known => known)
      fun other same => reads_pure ⟨rfl, other, rfl, same⟩
  unfold caseBranches
  refine reads_current fun t facing => reads_atEnd fun tokens ahead => ?_
  unfold otherwiseWords at *
  obtain ⟨u, rest, rfl, -⟩ := ahead_cons.mp ahead
  have found : closer? t = some .OTHERWISE := by
    rw [closer?, show t.kind = .keyword .OTHERWISE from congrArg (·.word.kind) (facing_cons facing)]
    rfl
  rw [found]
  refine reads_skip (reads_discard ?_)
  cases style.colon with
  | true => exact reads_accept rfl (body _)
  | false =>
    refine reads_decline (fun t facing => ?_) (body _)
    exact Opens.other facing (fun tokens ahead => opens_of_block all ahead fun _ => Closes.opens) nofun nofun nofun

/-- A label is next, where no word ends a block. -/
theorem label_inside {word next : Word} {marks : List Mark} (begins : beginsLabel word.kind next.kind = true)
    (facing : Facing (⟨word, n⟩ :: marks) follows t) : closer? t = none := by
  rw [closer?, show t.kind = word.kind from congrArg (·.word.kind) (facing_cons facing)]
  cases same : word.kind with
  | keyword =>
    rw [same] at begins
    cases begins
  | _ => rfl

theorem reads_caseBranches {branches : List (Branch Stmt)} {otherwise : Option (List Stmt)}
    (all : ∀ b ∈ branches, BranchBack style inside nest b)
    (room : otherwiseDepth otherwise ≤ nest.room)
    (others : ∀ block ∈ otherwise, ∀ s ∈ block, ReadsBack style (inside (nest.deeper [.ENDCASE])) s)
    (enough : (fromLine n (branchesLines style branches ++
      otherwiseLines style (otherwiseWords style) otherwise)).length ≤ fuel) :
    Reads line (caseBranches inside nest fuel)
      (fromLine n (branchesLines style branches ++ otherwiseLines style (otherwiseWords style) otherwise))
      (branchesOperators branches + otherwiseOperators otherwise)
      (Closes [.ENDCASE] (n + (branchesLines style branches ++
        otherwiseLines style (otherwiseWords style) otherwise).length))
      (fun found => found.1.map (Branch.moved nowhere) = branches.map (Branch.moved nowhere) ∧
        found.2.map (List.map (Stmt.moved nowhere)) = otherwise.map (List.map (Stmt.moved nowhere))) := by
  induction branches generalizing line n fuel with
  | nil =>
    cases otherwise with
    | none =>
      refine Reads.weaken reads_noBranch ?_
      rintro _ rfl
      exact ⟨rfl, rfl⟩
    | some block =>
      have positive : nest.room ≠ 0 := by
        rw [otherwiseDepth] at room
        omega
      refine (reads_otherwise positive (others block rfl) enough).mono (Nat.le_of_eq (Nat.zero_add _).symm)
        (fun _ closes => closes) ?_
      rintro ⟨_, _⟩ ⟨rfl, other, rfl, same⟩
      exact ⟨rfl, congrArg some same⟩
  | cons b rest ih =>
    obtain ⟨⟨word, next, more, lines, printed, begins⟩, reads⟩ := all b (.head _)
    have first : 0 < (fromLine n (branchLines style b)).length := by
      rw [printed]
      exact Nat.succ_pos _
    rw [branchesLines_cons, List.append_assoc, fromLine_append] at enough ⊢
    rw [List.length_append] at enough
    rw [List.length_append, branchesOperators_cons, Nat.add_assoc (_ + _), ← Nat.add_assoc n]
    obtain ⟨fuel, rfl⟩ : ∃ f, fuel = f + 1 := ⟨fuel - 1, by omega⟩
    have one : Reads line (orSkip (some <$> caseBranch inside nest) none) (fromLine n (branchLines style b))
        (exprsOperators b.labels + blockOperators b.body) (BranchEnds (n + (branchLines style b).length))
        (fun o => ∃ other, o = some other ∧ SameBranch b other) :=
      ((reads line n).map some fun other same => ⟨other, rfl, same⟩).orSkip none
    unfold caseBranches
    refine reads_current fun t facing => reads_atEnd fun tokens ahead => ?_
    rw [printed] at facing ahead
    obtain ⟨u, tokens, rfl, -⟩ := ahead_cons.mp ahead
    rw [label_inside begins facing]
    refine one.bind (fun _ ahead => branch_ends (fun b member => all b (.tail _ member)) ahead) ?_
    rintro _ ⟨own, rfl, same⟩
    refine (ih (fun b member => all b (.tail _ member)) (by omega)).finally (fun _ known => known) ?_
    rintro ⟨found, other⟩ ⟨same', same''⟩
    refine reads_pure ⟨?_, same''⟩
    show own.moved nowhere :: found.map (Branch.moved nowhere) = _
    rw [same, same']
    rfl

end Forms

end Branches

end Parse

/-- Tokens that are read as a whole program are read without an error. -/
theorem ofTokens_of_reads {marks : List Mark} {cost : Nat} {block : List Stmt} {tokens : List Token}
    {finish : Token} (reads : Parse.Reads none Parse.program marks cost (· = []) (SameBlock block))
    (few : cost ≤ SyntaxError.maxOperators) (printed : tokens.map Token.mark = marks)
    (ends : finish.kind = .endOfInput) :
    ∃ body, Reading.ofTokens tokens finish = ⟨⟨body⟩, []⟩ ∧ SameBlock block body := by
  have counted : 0 + cost ≤ SyntaxError.maxOperators := by omega
  obtain ⟨body, s, ran, same, -, clear, -⟩ := reads ⟨tokens, finish, none, 0, #[]⟩ tokens []
    (List.append_nil _).symm printed rfl ⟨ends, rfl⟩ rfl counted
  refine ⟨body, ?_, same⟩
  unfold Reading.ofTokens
  rw [EStateM.run, ran]
  dsimp only
  rw [clear.clean]

end Pseudocode
