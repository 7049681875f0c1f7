import Pseudocode.Proofs.TrackedExpressions
import Pseudocode.Proofs.TreeBounds

/-! Statements, read with stacks. A block is closed where it has been opened, and a CASE statement opens
its block even where no more may be opened; but then none of its labels can be read. -/
namespace Pseudocode.Tracking

open Parse (Forward closer?)
open Pseudocode.Embedding (Shrinks)

namespace Standing

/-- The place among the open blocks. -/
abbrev nest (here : Standing) : Nest := ⟨here.room, here.blocks.flatten⟩

/-- Inside one more block. -/
abbrev inside (here : Standing) (closers : List Keyword) : Standing :=
  { here with blocks := closers :: here.blocks }

end Standing

section Simple

variable {here : Standing} {within : Within} {s : Reader} {c : Cursor}

instance : Tracks here within (Parse.typeName context) (Tracking.typeName context) := by
  unfold Parse.typeName Tracking.typeName
  exact tracks_bind fun token => by cases token.kind <;> infer_instance

instance : Tracks here within Parse.boundLiteral Tracking.boundLiteral := by
  unfold Parse.boundLiteral Tracking.boundLiteral
  exact tracks_bind fun negative => tracks_bind fun token => by cases token.kind <;> infer_instance

instance : Tracks here within Parse.bound Tracking.bound := by
  unfold Parse.bound Tracking.bound
  infer_instance

instance : Tracks here within Parse.arrayBounds (Tracking.arrayBounds here.limit) := by
  unfold Parse.arrayBounds Tracking.arrayBounds
  infer_instance

instance : Tracks here within (Parse.declaration start) (Tracking.declaration here.limit start) := by
  unfold Parse.declaration Tracking.declaration
  infer_instance

instance : Tracks here none (Parse.constantDeclaration here.room start)
    (Tracking.constantDeclaration here.limit start) := by
  unfold Parse.constantDeclaration Tracking.constantDeclaration
  infer_instance

instance : Tracks here none (Parse.target here.room) (Tracking.target here.limit) := by
  unfold Parse.target Tracking.target
  refine tracks_bind fun before => tracks_bind fun name => tracks_begin (tracks_loop fun indices => ?_)
  cases indices <;> infer_instance

instance : Tracks here none (Parse.setStatement here.room start)
    (Tracking.setStatement here.limit start) := by
  unfold Parse.setStatement Tracking.setStatement
  infer_instance

instance : Tracks here none (Parse.assignmentOrCall here.room)
    (Tracking.assignmentOrCall here.limit) := by
  unfold Parse.assignmentOrCall Tracking.assignmentOrCall
  infer_instance

instance : Tracks here none (Parse.callStatement here.room start)
    (Tracking.callStatement here.limit start) := by
  unfold Parse.callStatement Tracking.callStatement
  infer_instance

instance : Tracks here none (Parse.returnStatement here.room start)
    (Tracking.returnStatement here.limit start) := by
  unfold Parse.returnStatement Tracking.returnStatement
  infer_instance

instance : Tracks here none (Parse.forStep here.room) (Tracking.forStep here.limit) := by
  unfold Parse.forStep Tracking.forStep
  infer_instance

instance : Tracks here none (Parse.forHeader here.room) (Tracking.forHeader here.limit) := by
  unfold Parse.forHeader Tracking.forHeader
  infer_instance

instance : Tracks here none (Parse.caseHeader here.room) (Tracking.caseHeader here.limit) := by
  unfold Parse.caseHeader Tracking.caseHeader
  infer_instance

instance : Tracks here none (Parse.caseLabel here.room) (Tracking.caseLabel here.limit) := by
  unfold Parse.caseLabel Tracking.caseLabel
  infer_instance

instance : Tracks here within Parse.startsLabel Tracking.startsLabel := by
  unfold Parse.startsLabel Tracking.startsLabel
  refine tracks_bind fun token => tracks_bind fun next => ?_
  cases token.kind with
  | sign sign => cases sign <;> infer_instance
  | _ => infer_instance

instance : Tracks here within (Parse.passMode mode) (Tracking.passMode mode) := by
  unfold Parse.passMode Tracking.passMode
  infer_instance

instance : Tracks here within (Parse.parameterType name) (Tracking.parameterType here.limit name) := by
  unfold Parse.parameterType Tracking.parameterType
  refine tracks_bind fun isArray => ?_
  cases isArray with
  | false => infer_instance
  | true => exact tracks_bind fun bounded => by cases bounded <;> infer_instance

instance : Tracks here within (Parse.resultType kind name) (Tracking.resultType kind name) := by
  unfold Parse.resultType Tracking.resultType
  cases kind <;> infer_instance

theorem moreValues_agrees (line : Nat) {rounds fuel : Nat} (mirrors : Mirrors here none s c)
    (enough : s.rest.length ≤ fuel) (fewer : s.rest.length < rounds) :
    Agrees here none (Parse.moreValues here.room line fuel s)
      (Tracking.moreValues here.limit line rounds c) := by
  induction rounds generalizing fuel s c with
  | zero => cases fewer
  | succ rounds ih =>
    unfold Tracking.moreValues
    rw [bind_of_ok mirrors.current]
    cases fuel with
    | zero =>
      rw [mirrors.exhausted enough, if_neg (by simp)]
      exact .ok mirrors
    | succ fuel =>
      unfold Parse.moreValues
      rw [Parse.current_bind]
      by_cases goesOn : s.current.kind = .sign .comma ∧ s.current.line = line
      · rw [if_pos goesOn, if_pos goesOn, Parse.skip_bind]
        have taken := mirrors.shorter (by simp [goesOn.1])
        obtain ⟨d, ran, mirrors⟩ := mirrors.advance
        rw [bind_of_ok (discard_of_ok ran)]
        refine (Tracks.agrees mirrors).bind fun value t d ran mirrors => ?_
        have onward := (Forward.of_ok ran).rest.length_le
        refine (ih mirrors (by omega) (by omega)).bind fun others t d _ mirrors => ?_
        exact .ok mirrors
      · rw [if_neg goesOn, if_neg goesOn]
        exact .ok mirrors

instance : Tracks here none (Parse.remaining >>= fun left => Parse.moreValues here.room line left)
    (Tracking.moreValues here.limit line here.limit) :=
  tracks_remaining fun mirrors => moreValues_agrees _ mirrors (Nat.le_refl _) mirrors.below

instance : Tracks here none (Parse.outputStatement here.room start)
    (Tracking.outputStatement here.limit start) := by
  unfold Parse.outputStatement Tracking.outputStatement
  infer_instance

/-- Each parameter takes a token, so a round more than there are tokens is never begun. -/
theorem parameters_agrees (mode : PassMode) {rounds fuel : Nat} (mirrors : Mirrors here within s c)
    (enough : s.rest.length < fuel) (fewer : s.rest.length < rounds) :
    Agrees here within (Parse.parameters mode fuel s)
      (Tracking.parameters here.limit mode rounds c) := by
  induction rounds generalizing fuel mode s c with
  | zero => cases fewer
  | succ rounds ih =>
    obtain ⟨fuel, rfl⟩ := Nat.exists_eq_succ_of_ne_zero (Nat.ne_zero_of_lt enough)
    unfold Parse.parameters Tracking.parameters
    refine (Tracks.agrees mirrors).bind fun mode t d ran mirrors => ?_
    have behindMode := (Forward.of_ok ran).rest.length_le
    refine (Tracks.agrees mirrors).bind fun name t d ran mirrors => ?_
    have behindName := (Forward.of_ok ran).rest.length_le
    refine (Tracks.agrees mirrors).bind fun _ t d ran mirrors => ?_
    have behindColon := (Forward.of_ok ran).rest.length_le
    refine (Tracks.agrees mirrors).bind fun type t d ran mirrors => ?_
    have behindType := (Forward.of_ok ran).rest.length_le
    refine (Tracks.agrees mirrors).bind fun more u e ran mirrorsU => ?_
    cases more with
    | false => exact .ok mirrorsU
    | true =>
      have taken := mirrors.accepted ran (by simp)
      refine (ih _ mirrorsU (by omega) (by omega)).bind fun others t d _ mirrors => ?_
      exact .ok mirrors

instance : Tracks here within (Parse.remaining >>= fun left => Parse.parameters mode (left + 1))
    (Tracking.parameters here.limit mode here.limit) :=
  tracks_remaining fun mirrors => parameters_agrees _ mirrors (Nat.lt_succ_self _) mirrors.below

instance : Tracks here within (Parse.parameterList routine)
    (Tracking.parameterList here.limit routine) := by
  unfold Parse.parameterList Tracking.parameterList
  refine tracks_bind fun opened => ?_
  cases opened with
  | false => infer_instance
  | true => exact tracks_bind fun empty => by cases empty <;> infer_instance

end Simple

section Blocks

variable {here : Standing} {s : Reader} {c : Cursor}

/-- A word closes some open block just if it is among all words that do. -/
theorem closes_open (blocks : List (List Keyword)) (word : Keyword) :
    blocks.any (·.contains word) = blocks.flatten.contains word := by
  rw [List.contains_eq_any_beq, List.any_flatten]
  simp only [List.contains_eq_any_beq]

theorem statements_agrees {one : Parse (List Stmt)} {one' : Tracking (List Stmt)} [Forward one]
    [Tracks here none one one'] (shrinks : Shrinks one) {rounds fuel : Nat}
    (mirrors : Mirrors here none s c) (enough : s.rest.length ≤ fuel) (fewer : s.rest.length < rounds) :
    Agrees here none (Parse.statements one here.blocks.flatten fuel s)
      (Tracking.statements here.limit one' rounds c) := by
  induction rounds generalizing fuel s c with
  | zero => cases fewer
  | succ rounds ih =>
    unfold Tracking.statements
    rw [bind_of_ok mirrors.current, bind_of_ok mirrors.ended]
    cases fuel with
    | zero =>
      rw [List.length_eq_zero_iff.mp (Nat.le_zero.mp enough)]
      exact .ok mirrors
    | succ fuel =>
      unfold Parse.statements
      rw [Parse.current_bind]
      show Agrees here none ((if s.rest.isEmpty then _ else _ : Parse (List Stmt)) s) _
      by_cases ended : s.rest.isEmpty
      · rw [if_pos ended, if_pos ended]
        exact .ok mirrors
      · rw [if_neg ended, if_neg ended]
        have positive : 0 < s.rest.length := List.length_pos_iff.mpr (by simpa using ended)
        cases closer? s.current with
        | none =>
          refine (Tracks.agrees mirrors).bind fun first t d ran mirrors => ?_
          have taken := (Parse.orSkip_shrinks shrinks [] s).of_ok ran
          refine (ih mirrors (by omega) (by omega)).bind fun others t d _ mirrors => ?_
          exact .ok mirrors
        | some word =>
          dsimp only
          rw [get_bind, mirrors.blocks, closes_open]
          split
          · exact .ok mirrors
          · refine (Tracks.agrees mirrors).bind fun _ t d ran mirrors => ?_
            have kept := (Forward.of_ok ran).rest.length_le
            refine (Tracks.agrees mirrors).bind fun _ t d ran mirrors => ?_
            have taken := (Embedding.advance_shrinks.discard _).of_ok ran
            exact ih mirrors (by omega) (by omega)

/-- A block that is opened is closed again. -/
theorem tracks_inBlock {m : Parse α} {n : Tracking α} {closers : List Keyword}
    (reads : Tracks (here.inside closers) none m n) : Tracks here none m (inBlock closers n) where
  agrees {s c} mirrors := by
    have opened : Mirrors (here.inside closers) none s { c with blocks := closers :: c.blocks } :=
      { mirrors with blocks := congrArg (closers :: ·) mirrors.blocks }
    show Agrees here none _ (ending closeBlock n { c with blocks := closers :: c.blocks })
    refine (reads.agrees opened).ending fun within t d mirrors => ?_
    refine ⟨{ d with blocks := here.blocks }, ?_, { mirrors with blocks := rfl }⟩
    unfold closeBlock
    rw [get_bind, mirrors.blocks]
    rfl

/-- The two readings of statements agree further in, wherever a block may still be opened. -/
class Nests (here : Standing) (one : Nest → Parse (List Stmt)) (one' : Tracking (List Stmt)) :
    Prop where
  alone : here.depth = 0
  placed : here.blocks ≠ []
  forward (nest : Nest) : Forward (one nest)
  shrinks (nest : Nest) : Shrinks (one nest)
  tracks (blocks : List (List Keyword)) : blocks ≠ [] → Standing.room { here with blocks } < here.room →
    Tracks { here with blocks } none (one (Standing.nest { here with blocks })) one'

section Nested

variable {statement : Nest → Parse (List Stmt)} {statement' : Tracking (List Stmt)}

theorem Nests.room_eq (nests : Nests here statement statement') :
    here.room = SyntaxError.maxNesting - here.blocks.length := by
  rw [Standing.room, nests.alone, Nat.add_zero]

theorem Nests.isTop_iff (nests : Nests here statement statement') :
    here.nest.isTop = true ↔ ¬here.blocks.length > 1 := by
  have room := nests.room_eq
  have positive := List.length_pos_iff.mpr nests.placed
  rw [Nest.isTop, beq_iff_eq]
  simp only [SyntaxError.maxNesting] at room ⊢
  omega

theorem Standing.nest_inside (here : Standing) (closers : List Keyword) :
    (here.inside closers).nest = here.nest.deeper closers := by
  have fewer : (here.inside closers).room = here.room - 1 := by
    simp only [Standing.room, List.length_cons]
    omega
  simp only [Standing.nest, Nest.deeper, fewer, List.flatten_cons]

variable [nests : Nests here statement statement']

instance : Nests (here.inside closers) statement statement' where
  alone := nests.alone
  placed := List.cons_ne_nil _ _
  forward := nests.forward
  shrinks := nests.shrinks
  tracks blocks placed fewer := nests.tracks blocks placed (Nat.lt_of_lt_of_le fewer (by
    simp only [Standing.room, List.length_cons]
    omega))

theorem tracks_block (closers : List Keyword) :
    Tracks here none (Parse.block statement here.nest closers)
      (Tracking.block here.limit statement' closers) where
  agrees {s c} mirrors := by
    have full : here.room = 0 ↔ c.blocks.length ≥ SyntaxError.maxNesting := by
      rw [nests.room_eq, mirrors.blocks]
      omega
    unfold Parse.block Tracking.block
    rw [get_bind]
    by_cases closed : here.room = 0
    · rw [if_pos closed, if_pos (full.mp closed)]
      exact Tracks.agrees mirrors
    · rw [if_neg closed, if_neg (full.not.mp closed)]
      have one := nests.tracks (closers :: here.blocks) (List.cons_ne_nil _ _) (by
        simp only [Standing.room, List.length_cons] at closed ⊢
        omega)
      have := nests.forward (here.nest.deeper closers)
      rw [Standing.nest_inside here closers] at one
      have reads : Tracks (here.inside closers) none
          (Parse.remaining >>= Parse.statements (statement (here.nest.deeper closers))
            (here.nest.deeper closers).closers)
          (Tracking.statements here.limit statement' here.limit) :=
        tracks_remaining fun mirrors =>
          statements_agrees (nests.shrinks _) mirrors (Nat.le_refl _) mirrors.below
      exact (tracks_inBlock reads).agrees mirrors

instance : Tracks here none (Parse.block statement here.nest closers)
    (Tracking.block here.limit statement' closers) := tracks_block closers

instance : Tracks here none (Parse.ifStatement statement here.nest start)
    (Tracking.ifStatement here.limit statement' start) := by
  unfold Parse.ifStatement Tracking.ifStatement
  infer_instance

instance : Tracks here none (Parse.whileStatement statement here.nest start)
    (Tracking.whileStatement here.limit statement' start) := by
  unfold Parse.whileStatement Tracking.whileStatement
  infer_instance

instance : Tracks here none (Parse.repeatStatement statement here.nest start)
    (Tracking.repeatStatement here.limit statement' start) := by
  unfold Parse.repeatStatement Tracking.repeatStatement
  infer_instance

/-- NEXT has been read when the name behind it is looked at. -/
theorem checkNextName_agrees (counter : Option String) (mirrors : Mirrors here none s c)
    (read : s.previous = some last) :
    Agrees here none (Parse.checkNextName counter s) (Tracking.checkNextName counter c) := by
  unfold Parse.checkNextName Tracking.checkNextName
  rw [Parse.current_bind, bind_of_ok mirrors.current]
  show Agrees here none
    ((if s.current.kind = .identifier ∧ s.current.line = (s.previous.getD s.current).line then _
      else _ : Parse Unit) s) _
  rw [previous_bind, mirrors.previous, read]
  dsimp only [Option.getD_some]
  by_cases named : s.current.kind = .identifier ∧ s.current.line = last.line
  · rw [if_pos named, if_pos named]
    refine (Tracks.agrees mirrors).bind fun _ t d _ mirrors => ?_
    cases counter with
    | none => exact .ok mirrors
    | some counter => exact Tracks.agrees mirrors
  · rw [if_neg named, if_neg named]
    exact .ok mirrors

theorem accepted_previous (ran : Parse.accept kind s = .ok true t) : t.previous = some s.current := by
  rw [Parse.accept_apply] at ran
  split at ran <;> cases ran
  rfl

instance : Tracks here none (Parse.forStatement statement here.nest start)
    (Tracking.forStatement here.limit statement' start) := by
  unfold Parse.forStatement Tracking.forStatement
  refine tracks_bind fun read => tracks_bind fun body => ⟨fun {s c} mirrors => ?_⟩
  refine (Tracks.agrees mirrors).bind fun accepted t d ran mirrors => ?_
  cases accepted with
  | false => exact (Tracks.agrees mirrors).bind fun _ _ _ _ mirrors => .ok mirrors
  | true =>
    exact (checkNextName_agrees _ mirrors (accepted_previous ran)).bind
      fun _ _ _ _ mirrors => .ok mirrors

theorem branchBody_agrees {one : Parse (List Stmt)} {one' : Tracking (List Stmt)} [Forward one]
    [Tracks here none one one'] (shrinks : Shrinks one) {rounds fuel : Nat}
    (mirrors : Mirrors here none s c) (enough : s.rest.length ≤ fuel) (fewer : s.rest.length < rounds) :
    Agrees here none (Parse.branchBody one fuel s) (Tracking.branchBody here.limit one' rounds c) := by
  induction rounds generalizing fuel s c with
  | zero => cases fewer
  | succ rounds ih =>
    obtain ⟨fuel, enough, same⟩ : ∃ fuel', s.rest.length ≤ fuel' + 1 ∧
        Parse.branchBody one fuel s = Parse.branchBody one (fuel' + 1) s := by
      cases fuel with
      | zero =>
        have left := List.length_eq_zero_iff.mp (Nat.le_zero.mp enough)
        exact ⟨0, Nat.le_succ_of_le enough, (Embedding.branchBody_done one 1 left).symm⟩
      | succ fuel => exact ⟨fuel, enough, rfl⟩
    rw [same]
    unfold Parse.branchBody Tracking.branchBody
    refine (Tracks.agrees mirrors).bind fun ended t d ran mirrors => ?_
    cases ran
    refine (Tracks.agrees mirrors).bind fun token t d ran mirrors => ?_
    cases ran
    refine (Tracks.agrees mirrors).bind fun starts t d ran mirrors => ?_
    rw [Embedding.startsLabel_apply] at ran
    cases ran
    split
    · exact .ok mirrors
    next goesOn =>
      have positive : 0 < s.rest.length := List.length_pos_iff.mpr fun left => goesOn (by simp [left])
      refine (Tracks.agrees mirrors).bind fun first t d ran mirrors => ?_
      have taken := (Parse.orSkip_shrinks shrinks [] s).of_ok ran
      refine (ih mirrors (by omega) (by omega)).bind fun others t d _ mirrors => ?_
      exact .ok mirrors

/-- The labels of a branch can be read only where there is room for an operand, and then there is room
for its statements. -/
instance : Tracks (here.inside closers) none
    (Parse.caseBranch statement (here.inside closers).nest)
    (Tracking.caseBranch here.limit statement') where
  agrees {s c} mirrors := by
    unfold Parse.caseBranch Tracking.caseBranch
    refine (Tracks.agrees mirrors).bind fun token t d _ mirrors => ?_
    refine (Tracks.agrees mirrors).bind fun labels u e ran mirrors => ?_
    have more := ((Parse.caseLabels_bounds _ t).of_ok ran).1
    have := nests.forward (here.inside closers).nest
    have := nests.tracks (closers :: here.blocks) (List.cons_ne_nil _ _) (by
      simp only [Standing.room, List.length_cons] at more ⊢
      omega)
    refine (Tracks.agrees mirrors).bind fun _ v f _ mirrors => ?_
    have body : Agrees (here.inside closers) none
        (Parse.branchBody (statement (here.inside closers).nest) v.rest.length v)
        (Tracking.branchBody here.limit statement' here.limit f) :=
      branchBody_agrees (nests.shrinks (here.inside closers).nest) mirrors (Nat.le_refl _) mirrors.below
    exact body.bind fun _ _ _ _ mirrors => .ok mirrors

theorem caseBranches_agrees {rounds fuel : Nat} (mirrors : Mirrors (here.inside closers) none s c)
    (enough : s.rest.length ≤ fuel) (fewer : s.rest.length < rounds) :
    Agrees (here.inside closers) none
      (Parse.caseBranches statement (here.inside closers).nest fuel s)
      (Tracking.caseBranches here.limit statement' rounds c) := by
  induction rounds generalizing fuel s c with
  | zero => cases fewer
  | succ rounds ih =>
    unfold Tracking.caseBranches
    rw [bind_of_ok mirrors.current, bind_of_ok mirrors.ended]
    cases fuel with
    | zero =>
      rw [List.length_eq_zero_iff.mp (Nat.le_zero.mp enough)]
      exact .ok mirrors
    | succ fuel =>
      unfold Parse.caseBranches
      rw [Parse.current_bind]
      show Agrees _ none
        ((if s.rest.isEmpty then _ else _ : Parse (List (Branch Stmt) × Option (List Stmt))) s) _
      by_cases ended : s.rest.isEmpty
      · rw [if_pos ended, if_pos ended]
        exact .ok mirrors
      · rw [if_neg ended, if_neg ended]
        have positive : 0 < s.rest.length := List.length_pos_iff.mpr (by simpa using ended)
        cases closer? s.current with
        | none =>
          have := nests.forward
          refine (Tracks.agrees mirrors).bind fun branch t d ran mirrors => ?_
          have taken := (Parse.orSkip_shrinks (Embedding.caseBranch_shrinks _).map none s).of_ok ran
          refine (ih mirrors (by omega) (by omega)).bind fun others t d _ mirrors => ?_
          exact .ok mirrors
        | some word =>
          cases word with
          | OTHERWISE =>
            have last : Tracks (here.inside closers) none
                (Parse.block statement (here.inside closers).nest [.ENDCASE])
                (Tracking.block here.limit statement' [.ENDCASE]) := tracks_block [.ENDCASE]
            refine (Tracks.agrees mirrors).bind fun _ t d _ mirrors => ?_
            exact Tracks.agrees mirrors
          | _ => exact .ok mirrors

instance : Tracks here none (Parse.caseStatement statement here.nest start)
    (Tracking.caseStatement here.limit statement' start) := by
  have branches : Tracks (here.inside [.ENDCASE, .OTHERWISE]) none
      (Parse.remaining >>= Parse.caseBranches statement (here.inside [.ENDCASE, .OTHERWISE]).nest)
      (Tracking.caseBranches here.limit statement' here.limit) :=
    tracks_remaining fun mirrors => caseBranches_agrees mirrors (Nat.le_refl _) mirrors.below
  rw [Standing.nest_inside] at branches
  have := tracks_inBlock branches
  unfold Parse.caseStatement Tracking.caseStatement
  refine tracks_bind fun selector => tracks_loop fun read => ?_
  infer_instance

/-- A routine is named by the word in front of its header. -/
theorem routineHeader_agrees (kind : RoutineKind) (mirrors : Mirrors here none s c)
    (read : s.previous = some word) :
    Agrees here none (Parse.routineHeader kind s) (Tracking.routineHeader here.limit kind c) := by
  have named : Tracks here none
      (do
        let name ← Parse.expectIdentifier word.lexeme
        let params ← Parse.parameterList name
        return (name.lexeme, params, ← Parse.resultType kind name.lexeme) : Parse _)
      (do
        let name ← Tracking.expectIdentifier word.lexeme
        let params ← Tracking.parameterList here.limit name
        return (name.lexeme, params, ← Tracking.resultType kind name.lexeme)) := inferInstance
  unfold Parse.routineHeader Tracking.routineHeader
  show Agrees here none
    ((Parse.expectIdentifier ((s.previous.map Token.lexeme).getD kind.keyword) >>= _) s) _
  rw [previous_bind, mirrors.previous, read]
  exact named.agrees mirrors

theorem routineDeclaration_agrees (start : Token) (kind : RoutineKind) (mirrors : Mirrors here none s c)
    (read : s.previous = some word) :
    Agrees here none (Parse.routineDeclaration statement here.nest start kind s)
      (Tracking.routineDeclaration here.limit statement' start kind c) := by
  unfold Parse.routineDeclaration Tracking.routineDeclaration
  refine (routineHeader_agrees kind mirrors read).header.bind fun header t d _ mirrors => ?_
  refine (Tracks.agrees mirrors).bind fun body t d _ mirrors => ?_
  refine (Tracks.agrees mirrors).bind fun _ t d _ mirrors => ?_
  rw [get_bind, mirrors.blocks]
  by_cases top : here.nest.isTop = true
  · rw [if_pos top, if_neg (nests.isTop_iff.mp top)]
    exact .ok mirrors
  · rw [if_neg top, if_pos (not_not.mp (nests.isTop_iff.not.mp top))]
    exact (Tracks.agrees mirrors).bind fun _ _ _ _ mirrors => .ok mirrors

end Nested

end Blocks

theorem statement_tracks (nesting : Nat) : ∀ (fuel : Nat) (here : Standing), here.depth = 0 →
    here.blocks ≠ [] → here.room < fuel → here.room < nesting →
    Tracks here none (Parse.statement fuel here.nest) (Tracking.statement here.limit nesting) := by
  induction nesting with
  | zero => exact fun _ _ _ _ _ fewer => absurd fewer (Nat.not_lt_zero _)
  | succ nesting ih =>
    intro fuel here alone placed enough fewer
    obtain ⟨fuel, rfl⟩ := Nat.exists_eq_succ_of_ne_zero (Nat.ne_zero_of_lt enough)
    have nests : Nests here (Parse.statement fuel) (Tracking.statement here.limit nesting) :=
      { alone, placed
        forward := inferInstance
        shrinks := Embedding.statement_shrinks fuel
        tracks := fun blocks opened deeper =>
          ih fuel { here with blocks } alone opened (by omega) (by omega) }
    have declares (start : Token) (kind : RoutineKind) : Tracks here none
        (do
          discard Parse.advance
          Parse.routineDeclaration (Parse.statement fuel) here.nest start kind)
        (do
          discard Tracking.advance
          Tracking.routineDeclaration here.limit (Tracking.statement here.limit nesting) start
            kind) := by
      refine ⟨fun {s c} mirrors => (Tracks.agrees mirrors).bind fun _ t d ran mirrors => ?_⟩
      cases ran
      exact routineDeclaration_agrees start kind mirrors rfl
    unfold Parse.statement Tracking.statement
    refine tracks_bind fun start => ?_
    cases start.kind with
    | keyword word =>
      cases word with
      | PROCEDURE => exact declares start .procedure
      | FUNCTION => exact declares start .function
      | _ => infer_instance
    | sign sign => cases sign <;> infer_instance
    | _ => infer_instance

end Pseudocode.Tracking
