import Pseudocode.Proofs.Confinement
import Pseudocode.Proofs.Scopes

/-! What a check is looking at at a moment. An inspection is a piece of code that is being checked, with
the code of the scopes around it and the state in which that began; `Piece.parts` lists the pieces of a
piece in the scope of the whole, each as what is checked before it. A FOR loop and a routine are
inspected in scopes of their own. What a check without errors inspects has no errors either. -/
namespace Pseudocode

/-- A piece of code that is checked as a whole. -/
inductive Piece where
  | expr (e : Expr)
  | exprs (es : List Expr)
  | arguments (callee : String) (number : Nat) (params : List Param) (es : List Expr)
  | call (asValue : Bool) (place : Position) (callee : String) (arguments : List Expr)
  | labels (selector : Inferred) (line : Nat) (es : List Expr) (seen : List (LabelKey × Nat))
  | stmt (s : Stmt)
  | block (reach : Check.Reach) (ss : List Stmt)
  | branches (selector : Inferred) (seen : List (LabelKey × Nat)) (bs : List (Branch Stmt))
  | whileLoop (place : Position) (condition : Option Expr) (body : List Stmt)
  | repeatLoop (place : Position) (body : List Stmt) (condition : Option Expr)
  | forLoop (body : List Stmt)

namespace Check

/-- The check ends in a state of this kind. -/
def Yields (good : CheckState → Prop) (m : Check α) (s : CheckState) : Prop := ∃ a t, m s = .ok a t ∧ good t

/-- The check ends, and nothing that was reported by then is an error. -/
abbrev Passes (m : Check α) (s : CheckState) : Prop := Yields CheckState.Clean m s

/-- The check ends, and `final` comes later in the same scope. -/
abbrev Arrives (m : Check α) (s final : CheckState) : Prop := Yields (·.Onward final) m s

/-- The check ends, and what was reported by then is among the reports of `final`. -/
abbrev Feeds (m : Check α) (s final : CheckState) : Prop := Yields (·.Kept final) m s

/-- What is checked of a FOR loop before its body, which opens a scope with the counter. -/
def openLoop (place : Position) (counter : Option String) (start stop step : Option Expr) : Check Unit := do
  match counter, start, stop with
  | some counter, some start, some stop =>
    let startType ← checkForBound .start start
    discard <| checkForBound .stop stop
    let stepType ← match step with
      | none => pure none
      | some step => checkForBound .step step
    let type := if startType = some .real ∨ stepType = some .real then .real else .integer
    enterScope
    discard <| declare place
      { name := counter, kind := .variable, type := some type, line := place.line, used := true }
  | _, _, _ =>
    incomplete place Keyword.FOR.text
    enterScope

/-- What is checked of a routine before its body, which opens a scope with the parameters. -/
def openRoutine (r : Routine Stmt) (registered : Option Symbol) : Check Unit := do
  let symbol := registered.getD
    { name := r.name.getD "?", kind := .ofRoutine r.kind, line := r.position.line, params := r.params }
  modify fun s => { s with routine := some symbol }
  enterScope
  r.params.forM (checkParam r.position)

/-- The check of a program, up to the body of the routine with a number. -/
def upToRoutine (limit : Int) (p : Program) (k : Nat) : Check Unit := do
  let registered ← p.routines.mapM register
  checkBlock limit .live p.body
  ((p.routines.zip registered).take k).forM fun entry => checkRoutine limit entry.1 entry.2
  ((p.routines.zip registered)[k]?).forM fun entry => openRoutine entry.1 entry.2

end Check

namespace Piece

open Check

variable (limit : Int)

/-- The check of a piece of code. -/
def check : Piece → Check Unit
  | .expr e => discard (infer e)
  | .exprs es => discard (inferAll es)
  | .arguments callee number params es => inferArguments callee number params es
  | .call asValue place callee es =>
    discard <| checkCall asValue place callee es.length (inferAll es)
      fun params => inferArguments callee 1 params es
  | .labels selector line es seen => discard (checkLabels selector line es seen)
  | .stmt s => checkStatement limit s
  | .block reach ss => checkBlock limit reach ss
  | .branches selector seen bs => checkBranches limit selector seen bs
  | .whileLoop place condition body => do
    checkCondition place .WHILE condition
    checkBlock limit .live body
  | .repeatLoop place body condition => do
    checkBlock limit .live body
    checkCondition place .UNTIL condition
  | .forLoop body => checkBlock limit .live body

/-- An expression that is looked at if it is there. -/
def present (e : Option Expr) : List Piece := e.toList.map .expr

/-- The parts of an expression. -/
def exprParts : Expr → List (Check Piece)
  | .element _ _ es => [pure (.exprs es)]
  | .binary _ _ left right => [pure (.expr left), do
      let _ ← infer left
      return .expr right]
  | .unary _ _ operand => [pure (.expr operand)]
  | .call place callee es => [pure (.call true place callee es)]
  | _ => []

/-- The arguments of a call, which are checked against the parameters of a routine. -/
def callParts (asValue : Bool) (place : Position) (callee : String) (es : List Expr) :
    List (Check Piece) := [do
  match ← lookup callee with
  | none => return .exprs es
  | some ⟨symbol, _⟩ =>
    if symbol.kind.isRoutine then
      noteCall callee place.line
      if asValue ∧ symbol.kind = .procedure then report place (.procedureAsValue callee)
      checkCount place symbol.kind callee symbol.params.length es.length
      return .arguments callee 1 symbol.params es
    else return .exprs es]

/-- The parts of a label of a CASE statement. -/
def labelParts : Expr → List (Check Piece)
  | .range _ low high => [pure (.expr low), do
      let _ ← infer low
      return .expr high]
  | label => [pure (.expr label)]

/-- The indices of an element that is stored into. -/
def targetParts : Target → List Piece
  | .element _ _ es => [.exprs es]
  | _ => []

/-- The parts of a statement in its scope, if it can be executed: a FOR loop needs all of its header, a CASE
statement its selector. -/
def stmtParts : Stmt → List (Check Piece)
  | .constant _ _ value => (present value).map pure
  | .assign _ target value => pure (.expr value) :: (targetParts target).map fun piece => do
      let _ ← infer value
      return piece
  | .ifThen place condition thenBranch elseBranch =>
    (present condition).map pure ++ (do
      checkCondition place .IF condition
      return .block .live thenBranch) :: elseBranch.toList.map fun ss => do
        checkCondition place .IF condition
        checkBlock limit .live thenBranch
        return .block .live ss
  | .whileDo place condition body => [pure (.whileLoop place condition body)]
  | .repeatUntil place body condition => [pure (.repeatLoop place body condition)]
  | .forLoop _ (some _) (some start) (some stop) step _ =>
    [pure (.expr start), do
      let _ ← checkForBound .start start
      return .expr stop] ++ (present step).map fun piece => do
        let _ ← checkForBound .start start
        discard <| checkForBound .stop stop
        return piece
  | .caseOf _ (some selector) bs otherwise =>
    [pure (.expr selector), do
      let v ← infer selector
      return .branches v [] bs] ++ otherwise.toList.map fun ss => do
        let v ← infer selector
        checkBranches limit v [] bs
        return .block .live ss
  | .giveBack _ value => (present value).map pure
  | .call _ place callee es => [pure (.call false place callee es)]
  | .output _ es => [pure (.exprs es)]
  | .input _ target => (targetParts target).map pure
  | _ => []

/-- The parts of a piece of code in the scope of the whole, each as what is checked before it. What comes
around in a loop is checked once. -/
def parts : Piece → List (Check Piece)
  | .expr e => exprParts e
  | .exprs (e :: es) => [pure (.expr e), do
      let _ ← infer e
      return .exprs es]
  | .arguments callee number [] (e :: es) => [pure (.expr e), do
      discard <| infer e
      return .arguments callee number [] es]
  | .arguments callee number (param :: params) (e :: es) =>
    [do
      checkReference callee number param e
      return .expr e, do
      checkReference callee number param e
      checkArgument callee param e.position (← infer e)
      return .arguments callee (number + 1) params es]
  | .call asValue place callee es => callParts asValue place callee es
  | .labels selector line (label :: rest) seen => labelParts label ++ [do
      match ← checkLabel selector label with
      | none => return .labels selector line rest seen
      | some key =>
        match seen.find? fun other => other.1.same key with
        | some first =>
          report ⟨if line = 0 then label.line else line, label.position.column⟩ (.duplicateLabel first.2)
          return .labels selector line rest seen
        | none => return .labels selector line rest (seen ++ [(key, line)])]
  | .stmt s => stmtParts limit s
  | .block reach (s :: rest) =>
    let next := if reach = .ended then .reported else reach
    [do
      if reach = .ended then reportUnreachable s
      return .stmt s, do
      if reach = .ended then reportUnreachable s
      checkStatement limit s
      return .block (if next = .live ∧ s.terminates then .ended else next) rest]
  | .branches selector seen (⟨es, body, line⟩ :: rest) =>
    [pure (.labels selector line es seen), do
      let _ ← checkLabels selector line es seen
      return .block .live body, do
      let seen ← checkLabels selector line es seen
      checkBlock limit .live body
      return .branches selector seen rest]
  | .whileLoop place condition body => (present condition).map pure ++ [do
      checkCondition place .WHILE condition
      return .block .live body, pure (.whileLoop place condition body)]
  | .repeatLoop place body condition => pure (.block .live body) :: (present condition).map (fun piece => do
      checkBlock limit .live body
      return piece) ++ [pure (.repeatLoop place body condition)]
  | .forLoop body => [pure (.block .live body), pure (.forLoop body)]
  | _ => []

/-- The statements of a piece that are executed in the scope of the whole. -/
def stmts : Piece → List Stmt
  | .stmt s => [s]
  | .block _ ss => ss
  | .branches _ _ bs => bs.flatMap Branch.body
  | .whileLoop _ _ body | .repeatLoop _ body _ | .forLoop body => body
  | _ => []

end Piece

/-- A piece of code being checked: the code of the scopes that it is in, innermost first, and the state in
which the check of it began. -/
structure Inspection where
  scopes : List (List Stmt)
  piece : Piece
  state : CheckState

namespace Inspection

/-- The main program is inspected, with all routines registered. -/
def Starts (p : Program) (c : Inspection) : Prop :=
  ∃ registered s, p.routines.mapM Check.register .initial = .ok registered s ∧
    c = ⟨[p.body], .block .live p.body, s⟩

end Inspection

/-- One of the statements can declare the name in the scope that they stand in. -/
def Declared (block : List Stmt) (name : String) : Prop := ∃ s ∈ block, s.Declares name

/-- One of the statements can declare the name as one of this type, in the scope that they stand in. -/
def DeclaredAs (block : List Stmt) (name : String) (type : Option DataType) : Prop :=
  ∃ s ∈ block, s.DeclaresAs name type

theorem DeclaredAs.declared {block : List Stmt} {name : String} {type : Option DataType}
    (declared : DeclaredAs block name type) : Declared block name := by
  obtain ⟨s, member, declares⟩ := declared
  exact ⟨s, member, declares.declares⟩

/-- What stands in the scope of a part stands in the scope of the whole. -/
structure Piece.Inside (sub outer : Piece) : Prop where
  declared : ∀ name, Declared sub.stmts name → Declared outer.stmts name
  wholes : Wholes outer.stmts → Wholes sub.stmts

/-- What is known of a state of a check was known before it in the same scope. -/
class CheckState.Early (good : CheckState → Prop) : Prop where
  back : ∀ {s t : CheckState}, s.Onward t → good t → good s

/-- What is known of a state of a check was known whenever less was reported. -/
class CheckState.Lasting (good : CheckState → Prop) : Prop where
  back : ∀ {s t : CheckState}, s.Kept t → good t → good s

namespace CheckState

instance : Lasting Clean := ⟨Kept.clean⟩

instance : Lasting (·.Kept final) := ⟨Kept.trans⟩

instance [Lasting good] : Early good := ⟨fun onward => Lasting.back onward.kept⟩

instance : Early (·.Onward final) := ⟨Onward.trans⟩

end CheckState

namespace Check

section Laws

variable {α β : Type} {m : Check α} {next : α → Check β} {s : CheckState} {good : CheckState → Prop}

theorem yields_bind : Yields good (m >>= next) s ↔ ∃ a t, m s = .ok a t ∧ Yields good (next a) t := by
  unfold Yields
  constructor
  · rintro ⟨b, u, ran, known⟩
    obtain ⟨a, t, first, rest⟩ := bind_eq_ok.mp ran
    exact ⟨a, t, first, b, u, rest, known⟩
  · rintro ⟨a, t, first, b, u, rest, known⟩
    exact ⟨b, u, bind_eq_ok.mpr ⟨a, t, first, rest⟩, known⟩

theorem yields_map {f : α → β} : Yields good (f <$> m) s ↔ Yields good m s := by
  rw [← bind_pure_comp, yields_bind]
  constructor
  · rintro ⟨a, t, ran, _, _, ⟨⟩, known⟩
    exact ⟨a, t, ran, known⟩
  · rintro ⟨a, t, ran, known⟩
    exact ⟨a, t, ran, f a, t, rfl, known⟩

theorem yields_discard : Yields good (discard m) s ↔ Yields good m s := yields_map

theorem Yields.first [CheckState.Early good] [∀ a, Scoped (next a)] (yields : Yields good (m >>= next) s) :
    Yields good m s := by
  obtain ⟨a, t, ran, b, u, further, known⟩ := yields_bind.mp yields
  exact ⟨a, t, ran, CheckState.Early.back ((Scoped.ends t).of_ok further) known⟩

/-- What comes after a check that stays in its scope. -/
theorem Yields.after [Scoped m] (yields : Yields good (m >>= next) s) :
    ∃ a t, m s = .ok a t ∧ s.Onward t ∧ Yields good (next a) t := by
  obtain ⟨a, t, ran, yields⟩ := yields_bind.mp yields
  exact ⟨a, t, ran, (Scoped.ends s).of_ok ran, yields⟩

theorem Yields.mono {weaker : CheckState → Prop} (yields : Yields good m s) (weakens : ∀ t, good t → weaker t) :
    Yields weaker m s := by
  obtain ⟨a, t, ran, known⟩ := yields
  exact ⟨a, t, ran, weakens t known⟩

theorem Yields.passes {final : CheckState} (feeds : Feeds m s final) (clean : final.Clean) : Passes m s :=
  feeds.mono fun _ kept => kept.clean clean

theorem Yields.feeds {final : CheckState} (arrives : Arrives m s final) : Feeds m s final :=
  arrives.mono fun _ onward => onward.kept

/-- A check that passes reports no error. -/
theorem Yields.not_error {place : Position} {finding : Finding} (passes : Passes (report place finding) s) :
    finding.severity ≠ .error := by
  obtain ⟨_, _, ⟨⟩, clean⟩ := passes
  exact clean ⟨place, finding⟩ (Array.mem_push_self)

/-- However the check ends, nothing that was reported before is taken back. -/
def Keeps (m : Check α) : Prop := ∀ s, Ends m s (fun _ t => s.Kept t) fun _ _ => True

/-- What is known in the end was known before. -/
theorem Yields.before [CheckState.Lasting good] (yields : Yields good (m >>= next) s)
    (rest : ∀ a, Keeps (next a)) : Yields good m s := by
  obtain ⟨a, t, ran, b, u, further, known⟩ := yields_bind.mp yields
  exact ⟨a, t, ran, CheckState.Lasting.back ((rest a t).of_ok further) known⟩

theorem leaveScope_keeps : Keeps leaveScope := by
  intro s
  cases left : s.symbols.exit with
  | error fault => exact (ends_congr (leaveScope_of_error left)).mpr (.refl s)
  | ok rest =>
    refine (ends_congr (leaveScope_of_ok left)).mpr ?_
    exact (Quiet.ends (m := reportUnused rest.1) _).of_safe fun _ _ same => same.kept

end Laws

end Check

/-- The check of the piece passes. -/
def Inspection.Passes (limit : Int) (c : Inspection) : Prop := Check.Passes (c.piece.check limit) c.state

namespace Piece

open Check

/-- If a check ends well, then so does what it inspects as a part: the part is come to, in the same scope, and
ends in a state that the whole goes on from. -/
structure Within (limit : Int) (outer : Piece) (whole : Check α) (part : Check Piece) : Prop where
  comes : ∀ {good : CheckState → Prop} [CheckState.Early good] {s : CheckState}, Yields good whole s →
    ∃ piece t, part s = .ok piece t ∧ s.Onward t ∧ Yields good (piece.check limit) t ∧ piece.Inside outer

section Laws

variable {limit : Int} {outer piece : Piece} {α β : Type} {m : Check α} {next : α → Check β}

theorem inside_of_none (none : piece.stmts = []) : piece.Inside outer where
  declared name declared := by
    obtain ⟨s, member, -⟩ := declared
    rw [none] at member
    cases member
  wholes _ s member := by
    rw [none] at member
    cases member

theorem inside_of_subset (subset : ∀ s ∈ piece.stmts, s ∈ outer.stmts) : piece.Inside outer where
  declared _ declared := by
    obtain ⟨s, member, declares⟩ := declared
    exact ⟨s, subset s member, declares⟩
  wholes wholes s member := wholes s (subset s member)

theorem within_map {part : Check Piece} {f : α → β} (within : Within limit outer m part) :
    Within limit outer (f <$> m) part := ⟨fun yields => within.comes (yields_map.mp yields)⟩

theorem within_discard {part : Check Piece} (within : Within limit outer m part) :
    Within limit outer (discard m) part := within_map within

theorem within_pure (inside : piece.Inside outer)
    (yields : ∀ good s, Yields good m s → Yields good (piece.check limit) s) :
    Within limit outer m (pure piece) :=
  ⟨fun {_ _ s} yielded => ⟨piece, s, rfl, .refl s, yields _ s yielded, inside⟩⟩

/-- The part is what the check begins with. -/
theorem within_first [∀ a, Scoped (next a)] (inside : piece.Inside outer)
    (yields : ∀ good s, Yields good m s → Yields good (piece.check limit) s) :
    Within limit outer (m >>= next) (pure piece) :=
  ⟨fun yielded => (within_pure inside yields).comes yielded.first⟩

/-- The part is an expression, which the check begins with. -/
theorem within_expr {e : Expr} {next : Inferred → Check β} (rest : ∀ a, Scoped (next a)) :
    Within limit outer (infer e >>= next) (pure (.expr e)) :=
  within_first (inside_of_none rfl) fun _ _ yielded => yields_discard.mpr yielded

theorem Within.after [Scoped m] {part : α → Check Piece}
    (rest : ∀ a, Within limit outer (next a) (part a)) : Within limit outer (m >>= next) (m >>= part) := by
  refine ⟨fun {_ _ s} yielded => ?_⟩
  obtain ⟨a, t, ran, first, yielded⟩ := yielded.after
  obtain ⟨piece, u, began, onward, yields, inside⟩ := (rest a).comes yielded
  exact ⟨piece, u, (bind_of_ok ran).trans began, first.trans onward, yields, inside⟩

theorem within_ite {c : Prop} [Decidable c] {n : Check α} {part part' : Check Piece}
    (holds : Within limit outer m part) (fails : Within limit outer n part') :
    Within limit outer (if c then m else n) (if c then part else part') := by
  split
  · exact holds
  · exact fails

/-- The part comes later in the check than its beginning. -/
theorem Within.later {part : Check Piece} (within : Within limit outer m part)
    (rest : ∀ a, Scoped (next a)) : Within limit outer (m >>= next) part :=
  ⟨fun yielded => within.comes yielded.first⟩

end Laws

section Expressions

variable {limit : Int} {outer : Piece}

theorem exprParts_within (e : Expr) : ∀ part ∈ exprParts e, Within limit outer (infer e) part := by
  cases e with
  | element place array es =>
    rintro part (_ | ⟨_, ⟨⟩⟩)
    rw [infer]
    exact within_first (inside_of_none rfl) fun _ _ passed => yields_discard.mpr passed
  | binary place op left right =>
    rw [infer]
    rintro part (_ | ⟨_, _ | ⟨_, ⟨⟩⟩⟩)
    · exact within_expr inferInstance
    · exact .after fun l => within_expr inferInstance
  | unary place op operand =>
    rw [infer]
    rintro part (_ | ⟨_, ⟨⟩⟩)
    exact within_expr inferInstance
  | call place callee es =>
    rw [infer]
    rintro part (_ | ⟨_, ⟨⟩⟩)
    exact within_first (inside_of_none rfl) fun _ _ passed => yields_discard.mpr passed
  | literal | name | range | stray => exact List.forall_mem_nil _

theorem callParts_within (asValue : Bool) (place : Position) (callee : String) (es : List Expr) :
    ∀ part ∈ callParts asValue place callee es, Within limit outer
      (checkCall asValue place callee es.length (inferAll es) fun params => inferArguments callee 1 params es)
      part := by
  rintro part (_ | ⟨_, ⟨⟩⟩)
  unfold checkCall
  refine .after fun found => ?_
  have plain : Piece.Inside (.exprs es) outer := inside_of_none rfl
  cases found with
  | none => cases Builtin.ofName? callee <;> exact within_first plain fun _ _ passed => passed
  | some found =>
    have matched : Within limit outer (do
        checkCount place found.symbol.kind callee found.symbol.params.length es.length
        inferArguments callee 1 found.symbol.params es
        return found.symbol.type) (do
        checkCount place found.symbol.kind callee found.symbol.params.length es.length
        return .arguments callee 1 found.symbol.params es) :=
      .after fun _ => within_first (inside_of_none rfl) fun _ _ passed => passed
    dsimp only
    split
    · exact .after fun _ => within_ite (.after fun _ => matched) matched
    · exact within_first plain fun _ _ passed => passed

theorem labelParts_within (selector : Inferred) (label : Expr) :
    ∀ part ∈ labelParts label, Within limit outer (checkLabel selector label) part := by
  unfold checkLabel
  cases label with
  | range place low high =>
    rintro part (_ | ⟨_, _ | ⟨_, ⟨⟩⟩⟩)
    · refine within_expr fun l => scoped_bind fun h => scoped_bind fun _ => scoped_bind fun _ => ?_
      split <;> infer_instance
    · refine .after fun l => within_expr fun h => scoped_bind fun _ => scoped_bind fun _ => ?_
      split <;> infer_instance
  | _ =>
    rintro part (_ | ⟨_, ⟨⟩⟩)
    refine within_expr fun value => scoped_bind fun _ => ?_
    split <;> infer_instance

end Expressions

section Statements

variable {limit : Int} {outer : Piece}

theorem checkCondition_within (place : Position) (keyword : Keyword) (condition : Option Expr) :
    ∀ piece ∈ present condition, Within limit outer (checkCondition place keyword condition) (pure piece) := by
  cases condition with
  | none => exact List.forall_mem_nil _
  | some e =>
    rintro piece (_ | ⟨_, ⟨⟩⟩)
    refine within_expr fun value => ?_
    split <;> infer_instance

theorem checkForBound_within (part : ForPart) (e : Expr) :
    Within limit outer (checkForBound part e) (pure (.expr e)) := by
  refine within_expr fun value => ?_
  dsimp only
  split <;> infer_instance

theorem checkTargetElement_within (place : Position) (array : String) (es : List Expr) :
    Within limit outer (checkTargetElement place array es) (pure (.exprs es)) :=
  within_first (inside_of_none rfl) fun _ _ passed => yields_discard.mpr passed

theorem checkConstant_within (place : Position) (name : String) (value : Option Expr) :
    ∀ piece ∈ present value, Within limit outer (checkConstant place name value) (pure piece) := by
  cases value with
  | none => exact List.forall_mem_nil _
  | some e =>
    rintro piece (_ | ⟨_, ⟨⟩⟩)
    exact within_expr inferInstance

theorem checkAssignment_within (place : Position) (target : Target) (value : Expr) :
    Within limit outer (checkAssignment place target value) (pure (.expr value)) ∧
      ∀ piece ∈ targetParts target, Within limit outer (checkAssignment place target value) (do
        let _ ← infer value
        return piece) := by
  constructor
  · refine within_expr fun inferred => ?_
    split
    · infer_instance
    · infer_instance
    · refine scoped_bind fun found => ?_
      split <;> infer_instance
  · cases target with
    | element there array es =>
      rintro piece (_ | ⟨_, ⟨⟩⟩)
      exact .after fun v => .later (checkTargetElement_within there array es) inferInstance
    | _ => exact List.forall_mem_nil _

theorem checkInput_within (place : Position) (target : Target) :
    ∀ piece ∈ targetParts target, Within limit outer (checkInput place target) (pure piece) := by
  cases target with
  | element there array es =>
    rintro piece (_ | ⟨_, ⟨⟩⟩)
    exact within_discard (checkTargetElement_within there array es)
  | _ => exact List.forall_mem_nil _

theorem checkReturn_within (place : Position) (value : Option Expr) :
    ∀ piece ∈ present value, Within limit outer (checkReturn place value) (pure piece) := by
  cases value with
  | none => exact List.forall_mem_nil _
  | some e =>
    rintro piece (_ | ⟨_, ⟨⟩⟩)
    have first : Within limit outer (some <$> infer e) (pure (.expr e)) :=
      within_map (within_pure (inside_of_none rfl) fun _ _ passed => yields_discard.mpr passed)
    refine first.later fun value => scoped_bind fun s => ?_
    split <;> infer_instance

/-- What a statement declares and what it has to have, its blocks have. -/
theorem inside_block {s : Stmt} {ss : List Stmt} {reach : Reach}
    (declares : ∀ stmt ∈ ss, ∀ name, stmt.Declares name → s.Declares name)
    (whole : s.whole = true → blockWhole ss = true) : Inside (.block reach ss) (.stmt s) where
  declared name declared := by
    obtain ⟨stmt, member, inner⟩ := declared
    exact ⟨s, .head _, declares stmt member name inner⟩
  wholes wholes := blockWhole_iff.mp (whole (wholes s (.head _)))

theorem ifParts_within (place : Position) (condition : Option Expr) (thenBranch : List Stmt)
    (elseBranch : Option (List Stmt)) :
    ∀ part ∈ stmtParts limit (.ifThen place condition thenBranch elseBranch),
      Within limit (.stmt (.ifThen place condition thenBranch elseBranch))
        (checkStatement limit (.ifThen place condition thenBranch elseBranch)) part := by
  rw [checkStatement]
  refine List.forall_mem_append.mpr ⟨List.forall_mem_map.mpr fun piece member => ?_,
    List.forall_mem_cons.mpr ⟨?_, List.forall_mem_map.mpr fun block taken => ?_⟩⟩
  · exact (checkCondition_within place .IF condition piece member).later inferInstance
  · refine .after fun _ => within_first (inside_block (fun stmt member name declares => ?_) fun whole => ?_)
      fun _ _ passed => passed
    · exact .thenBranch member declares
    · rw [Stmt.whole, Bool.and_eq_true] at whole
      exact whole.1
  · cases Option.mem_toList.mp taken
    refine .after fun _ => .after fun _ => within_pure
      (inside_block (fun stmt member name declares => ?_) fun whole => ?_) fun _ _ passed => ?_
    · exact .elseBranch rfl member declares
    · rw [Stmt.whole, Bool.and_eq_true] at whole
      exact whole.2
    · rw [checkOtherwise] at passed
      exact passed

theorem forParts_within (place : Position) (counter : Option String) (start stop step : Option Expr)
    (body : List Stmt) :
    ∀ part ∈ stmtParts limit (.forLoop place counter start stop step body),
      Within limit outer (checkStatement limit (.forLoop place counter start stop step body)) part := by
  have opened {rest : Unit → Check Unit} [Leaves (rest ())] : Scoped (enterScope >>= rest) := scoped_enter
  cases counter with
  | none => exact List.forall_mem_nil _
  | some counter => cases start with
    | none => exact List.forall_mem_nil _
    | some start => cases stop with
      | none => exact List.forall_mem_nil _
      | some stop =>
        rw [checkStatement]
        cases step with
        | none =>
          rintro part (_ | ⟨_, _ | ⟨_, ⟨⟩⟩⟩)
          · exact (checkForBound_within .start start).later inferInstance
          · refine .after fun _ => .later ?_ inferInstance
            exact within_discard (checkForBound_within .stop stop)
        | some step =>
          rintro part (_ | ⟨_, _ | ⟨_, _ | ⟨_, ⟨⟩⟩⟩⟩)
          · exact (checkForBound_within .start start).later inferInstance
          · refine .after fun _ => .later ?_ inferInstance
            exact within_discard (checkForBound_within .stop stop)
          · refine .after fun _ => .after fun _ => .later ?_ inferInstance
            exact checkForBound_within .step step

theorem caseParts_within (place : Position) (selector : Option Expr) (bs : List (Branch Stmt))
    (otherwise : Option (List Stmt)) :
    ∀ part ∈ stmtParts limit (.caseOf place selector bs otherwise),
      Within limit (.stmt (.caseOf place selector bs otherwise))
        (checkStatement limit (.caseOf place selector bs otherwise)) part := by
  cases selector with
  | none => exact List.forall_mem_nil _
  | some e =>
    rw [checkStatement]
    refine List.forall_mem_append.mpr ⟨?_, List.forall_mem_map.mpr fun block taken => ?_⟩
    · rintro part (_ | ⟨_, _ | ⟨_, ⟨⟩⟩⟩)
      · exact within_expr inferInstance
      · refine .after fun v => within_first ⟨fun name declared => ?_, fun wholes => ?_⟩ fun _ _ passed => passed
        · obtain ⟨stmt, member, declares⟩ := declared
          obtain ⟨b, taken, inner⟩ := List.mem_flatMap.mp member
          exact ⟨_, .head _, .branch taken inner declares⟩
        · have whole := wholes _ (.head _)
          rw [Stmt.whole, Bool.and_eq_true] at whole
          intro stmt member
          obtain ⟨b, taken, inner⟩ := List.mem_flatMap.mp member
          exact branchesWhole_iff.mp whole.1 b taken stmt inner
    · cases Option.mem_toList.mp taken
      refine .after fun v => .after fun _ => within_pure
        (inside_block (fun stmt member name declares => ?_) fun whole => ?_) fun _ _ passed => ?_
      · exact .otherwise rfl member declares
      · rw [Stmt.whole, Bool.and_eq_true] at whole
        exact whole.2
      · rw [checkOtherwise] at passed
        exact passed

theorem stmtParts_within (stmt : Stmt) :
    ∀ part ∈ stmtParts limit stmt, Within limit (.stmt stmt) (checkStatement limit stmt) part := by
  cases stmt with
  | declare | declareArray | routine | strayCall | stray => exact List.forall_mem_nil _
  | constant place name value =>
    rw [checkStatement]
    exact List.forall_mem_map.mpr fun piece member => checkConstant_within place name value piece member
  | assign place target value =>
    rw [checkStatement]
    exact List.forall_mem_cons.mpr ⟨(checkAssignment_within place target value).1,
      List.forall_mem_map.mpr (checkAssignment_within place target value).2⟩
  | ifThen place condition thenBranch elseBranch => exact ifParts_within place condition thenBranch elseBranch
  | whileDo place condition body =>
    rw [checkStatement]
    rintro part (_ | ⟨_, ⟨⟩⟩)
    refine within_pure ⟨fun name declared => ?_, fun wholes => ?_⟩ fun _ _ passed => passed
    · obtain ⟨stmt, member, declares⟩ := declared
      exact ⟨_, .head _, .whileDo member declares⟩
    · have whole := wholes _ (.head _)
      rw [Stmt.whole] at whole
      exact blockWhole_iff.mp whole
  | repeatUntil place body condition =>
    rw [checkStatement]
    rintro part (_ | ⟨_, ⟨⟩⟩)
    refine within_pure ⟨fun name declared => ?_, fun wholes => ?_⟩ fun _ _ passed => passed
    · obtain ⟨stmt, member, declares⟩ := declared
      exact ⟨_, .head _, .repeatUntil member declares⟩
    · have whole := wholes _ (.head _)
      rw [Stmt.whole] at whole
      exact blockWhole_iff.mp whole
  | forLoop place counter start stop step body => exact forParts_within place counter start stop step body
  | caseOf place selector bs otherwise => exact caseParts_within place selector bs otherwise
  | giveBack place value =>
    rw [checkStatement]
    exact List.forall_mem_map.mpr fun piece member => checkReturn_within place value piece member
  | call place callPlace callee es =>
    rw [checkStatement]
    rintro part (_ | ⟨_, ⟨⟩⟩)
    exact within_pure (inside_of_none rfl) fun _ _ passed => passed
  | output place es =>
    rw [checkStatement]
    rintro part (_ | ⟨_, ⟨⟩⟩)
    exact within_pure (inside_of_none rfl) fun _ _ passed => passed
  | input place target =>
    rw [checkStatement]
    exact List.forall_mem_map.mpr fun piece member => checkInput_within place target piece member

theorem labelsParts_within (selector : Inferred) (line : Nat) (label : Expr) (rest : List Expr)
    (seen : List (LabelKey × Nat)) :
    ∀ part ∈ parts limit (.labels selector line (label :: rest) seen),
      Within limit outer (checkLabels selector line (label :: rest) seen) part := by
  have others (seen : List (LabelKey × Nat)) :
      Within limit outer (checkLabels selector line rest seen) (pure (.labels selector line rest seen)) :=
    within_pure (inside_of_none rfl) fun _ _ passed => yields_discard.mpr passed
  rw [checkLabels]
  refine List.forall_mem_append.mpr ⟨fun part member => ?_, fun part member => ?_⟩
  · refine (labelParts_within selector label part member).later fun key => ?_
    split
    · infer_instance
    · split <;> infer_instance
  · cases List.mem_singleton.mp member
    refine .after fun key => ?_
    cases key with
    | none => exact others seen
    | some key =>
      dsimp only
      cases seen.find? fun other => other.1.same key with
      | some first => exact .after fun _ => others seen
      | none => exact others _

theorem exprsParts_within (e : Expr) (rest : List Expr) :
    ∀ part ∈ parts limit (.exprs (e :: rest)), Within limit outer (inferAll (e :: rest)) part := by
  rw [inferAll]
  rintro part (_ | ⟨_, _ | ⟨_, ⟨⟩⟩⟩)
  · exact within_expr inferInstance
  · exact .after fun _ => within_first (inside_of_none rfl) fun _ _ passed => yields_discard.mpr passed

theorem argumentsParts_within (callee : String) (number : Nat) (params : List Param) (e : Expr)
    (rest : List Expr) :
    ∀ part ∈ parts limit (.arguments callee number params (e :: rest)),
      Within limit outer (inferArguments callee number params (e :: rest)) part := by
  cases params with
  | nil =>
    rw [inferArguments]
    rintro part (_ | ⟨_, _ | ⟨_, ⟨⟩⟩⟩)
    · exact within_first (inside_of_none rfl) fun _ _ passed => passed
    · exact .after fun _ => within_pure (inside_of_none rfl) fun _ _ passed => passed
  | cons param params =>
    rw [inferArguments]
    rintro part (_ | ⟨_, _ | ⟨_, ⟨⟩⟩⟩)
    · exact .after fun _ => within_expr inferInstance
    · exact .after fun _ => .after fun _ => .after fun _ =>
        within_pure (inside_of_none rfl) fun _ _ passed => passed

theorem inside_tail (stmt : Stmt) (rest : List Stmt) (reach reach' : Reach) :
    Inside (.block reach rest) (.block reach' (stmt :: rest)) :=
  inside_of_subset fun _ member => .tail _ member

theorem blockParts_within (reach : Reach) (stmt : Stmt) (rest : List Stmt) :
    ∀ part ∈ parts limit (.block reach (stmt :: rest)),
      Within limit (.block reach (stmt :: rest)) (checkBlock limit reach (stmt :: rest)) part := by
  have head : Inside (.stmt stmt) (.block reach (stmt :: rest)) :=
    inside_of_subset fun s member => List.mem_singleton.mp member ▸ .head _
  rw [checkBlock]
  rintro part (_ | ⟨_, _ | ⟨_, ⟨⟩⟩⟩)
  · exact within_ite (.after fun _ => within_first head fun _ _ passed => passed)
      (within_first head fun _ _ passed => passed)
  · exact within_ite (.after fun _ => .after fun _ => within_pure (inside_tail ..) fun _ _ passed => passed)
      (.after fun _ => within_pure (inside_tail ..) fun _ _ passed => passed)

theorem branchesParts_within (selector : Inferred) (seen : List (LabelKey × Nat)) (b : Branch Stmt)
    (rest : List (Branch Stmt)) :
    ∀ part ∈ parts limit (.branches selector seen (b :: rest)),
      Within limit (.branches selector seen (b :: rest)) (checkBranches limit selector seen (b :: rest)) part := by
  obtain ⟨es, body, line⟩ := b
  rw [checkBranches]
  rintro part (_ | ⟨_, _ | ⟨_, _ | ⟨_, ⟨⟩⟩⟩⟩)
  · exact within_first (inside_of_none rfl) fun _ _ passed => yields_discard.mpr passed
  · refine .after fun _ => within_first (inside_of_subset fun s member => ?_) fun _ _ passed => passed
    exact List.mem_flatMap.mpr ⟨_, .head _, member⟩
  · refine .after fun _ => .after fun _ => within_pure (inside_of_subset fun s member => ?_) fun _ _ passed => passed
    obtain ⟨b, taken, inner⟩ := List.mem_flatMap.mp member
    exact List.mem_flatMap.mpr ⟨b, .tail _ taken, inner⟩

theorem whileParts_within (place : Position) (condition : Option Expr) (body : List Stmt) :
    ∀ part ∈ parts limit (.whileLoop place condition body),
      Within limit (.whileLoop place condition body) (check limit (.whileLoop place condition body)) part := by
  refine List.forall_mem_append.mpr ⟨List.forall_mem_map.mpr fun piece member => ?_, ?_⟩
  · exact (checkCondition_within place .WHILE condition piece member).later inferInstance
  · rintro part (_ | ⟨_, _ | ⟨_, ⟨⟩⟩⟩)
    · exact .after fun _ => within_pure ⟨fun _ => id, id⟩ fun _ _ passed => passed
    · exact within_pure ⟨fun _ => id, id⟩ fun _ _ passed => passed

theorem repeatParts_within (place : Position) (body : List Stmt) (condition : Option Expr) :
    ∀ part ∈ parts limit (.repeatLoop place body condition),
      Within limit (.repeatLoop place body condition) (check limit (.repeatLoop place body condition)) part := by
  refine List.forall_mem_append.mpr ⟨List.forall_mem_cons.mpr ⟨?_, List.forall_mem_map.mpr
    fun piece member => ?_⟩, ?_⟩
  · exact within_first ⟨fun _ => id, id⟩ fun _ _ passed => passed
  · exact .after fun _ => checkCondition_within place .UNTIL condition piece member
  · rintro part (_ | ⟨_, ⟨⟩⟩)
    exact within_pure ⟨fun _ => id, id⟩ fun _ _ passed => passed

/-- If the check of a piece ends well, then so does that of each of its parts. -/
theorem parts_within (piece : Piece) :
    ∀ part ∈ piece.parts limit, Within limit piece (piece.check limit) part := by
  cases piece with
  | expr e => exact fun part member => within_discard (exprParts_within e part member)
  | exprs es =>
    cases es with
    | nil => exact List.forall_mem_nil _
    | cons e rest => exact fun part member => within_discard (exprsParts_within e rest part member)
  | arguments callee number params es =>
    cases es with
    | nil => cases params <;> exact List.forall_mem_nil _
    | cons e rest => exact argumentsParts_within callee number params e rest
  | call asValue place callee es =>
    exact fun part member => within_discard (callParts_within asValue place callee es part member)
  | labels selector line es seen =>
    cases es with
    | nil => exact List.forall_mem_nil _
    | cons label rest =>
      exact fun part member => within_discard (labelsParts_within selector line label rest seen part member)
  | stmt stmt => exact stmtParts_within stmt
  | block reach ss =>
    cases ss with
    | nil => exact List.forall_mem_nil _
    | cons stmt rest => exact blockParts_within reach stmt rest
  | branches selector seen bs =>
    cases bs with
    | nil => exact List.forall_mem_nil _
    | cons b rest => exact branchesParts_within selector seen b rest
  | whileLoop place condition body => exact whileParts_within place condition body
  | repeatLoop place body condition => exact repeatParts_within place body condition
  | forLoop body =>
    rintro part (_ | ⟨_, _ | ⟨_, ⟨⟩⟩⟩)
    · exact within_pure ⟨fun _ => id, id⟩ fun _ _ passed => passed
    · exact within_pure ⟨fun _ => id, id⟩ fun _ _ passed => passed

end Statements

end Piece

end Pseudocode
