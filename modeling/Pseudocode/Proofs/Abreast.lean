import Pseudocode.Proofs.CallFrames
import Pseudocode.Proofs.Inspection

/-! A run and the check of its code, side by side. Each activity of a run carries out a piece of code that
has been inspected by the check, as long as no FOR loop has only parts of a header. What is done before a
part of an activity begins gives names in the innermost frame alone: those that the code declares, and
those that nothing has. -/
namespace Pseudocode

namespace Task

/-- The statements of a piece of code that are executed in the environment of the whole. -/
def stmts : Task → List Stmt
  | .stmt s => [s]
  | .block ss => ss
  | .branches _ _ bs => bs.flatMap Branch.body
  | .whileLoop _ _ body | .repeatLoop _ body _ | .forLoop _ _ _ _ body => body
  | _ => []

/-- The code that is carried out is the code that is checked. Whether arguments go with parameters is no
matter. -/
inductive CheckedAs : Task → Piece → Prop
  | expr (e : Expr) : CheckedAs (.expr e) (.expr e)
  | exprs (es : List Expr) : CheckedAs (.exprs es) (.exprs es)
  | given (es : List Expr) : CheckedAs (.exprs es) (.arguments callee number params es)
  | indices (es : List Expr) : CheckedAs (.indices line es) (.exprs es)
  | shown (es : List Expr) : CheckedAs (.shown line es) (.exprs es)
  | arguments (es : List Expr) :
      CheckedAs (.arguments line callee params es) (.arguments name number others es)
  | plain (es : List Expr) : CheckedAs (.arguments line callee params es) (.exprs es)
  | call (es : List Expr) : CheckedAs (.call asValue line callee es) (.call asValue place callee es)
  | labels (es : List Expr) : CheckedAs (.labels line value es) (.labels selector place es seen)
  | stmt (s : Stmt) : CheckedAs (.stmt s) (.stmt s)
  | block (ss : List Stmt) : CheckedAs (.block ss) (.block reach ss)
  | branches (bs : List (Branch Stmt)) : CheckedAs (.branches line value bs) (.branches selector seen bs)
  | whileLoop (body : List Stmt) :
      CheckedAs (.whileLoop line condition body) (.whileLoop place condition body)
  | repeatLoop (body : List Stmt) :
      CheckedAs (.repeatLoop line body condition) (.repeatLoop place body condition)
  | forLoop (body : List Stmt) : CheckedAs (.forLoop line counter last step body) (.forLoop body)

theorem CheckedAs.stmts {task : Task} {piece : Piece} (checked : task.CheckedAs piece) :
    piece.stmts = task.stmts := by
  cases checked <;> rfl

end Task

/-- The check of the piece comes to this code as one of the parts. -/
def Piece.Covers (limit : Int) (piece : Piece) (task : Task) : Prop :=
  ∃ part ∈ piece.parts limit, ∀ s, Ends part s (fun sub _ => task.CheckedAs sub) fun _ _ => True

theorem Piece.covers_pure {limit : Int} {piece sub : Piece} {task : Task} (member : pure sub ∈ piece.parts limit)
    (checked : task.CheckedAs sub) : piece.Covers limit task := ⟨_, member, fun _ => checked⟩

theorem Piece.covers_after {limit : Int} {piece : Piece} {task : Task} {m : Check α} {rest : α → Check Piece}
    (member : (m >>= rest) ∈ piece.parts limit)
    (checked : ∀ x s, Ends (rest x) s (fun sub _ => task.CheckedAs sub) fun _ _ => True) :
    piece.Covers limit task := ⟨_, member, fun _ => ends_bind_of_forall checked⟩

/-- The check of a call comes to its arguments. -/
theorem Piece.covers_arguments {limit : Int} {asValue : Bool} {place : Position} {callee : String}
    {es : List Expr} {task : Task}
    (plain : task.CheckedAs (.exprs es))
    (matched : ∀ params, task.CheckedAs (.arguments callee 1 params es)) :
    (Piece.call asValue place callee es).Covers limit task := by
  refine Piece.covers_after (.head _) fun found s => ?_
  cases found with
  | none => exact plain
  | some found =>
    dsimp only
    split
    · refine ends_bind_of_forall fun _ _ => ?_
      split
      · exact ends_bind_of_forall fun _ _ => ends_bind_of_forall fun _ _ => matched _
      · exact ends_bind_of_forall fun _ _ => matched _
    · exact plain

/-- The check of expressions comes to the first one and to those after it. -/
theorem Piece.covers_exprs {limit : Int} (e : Expr) (es : List Expr) :
    (Piece.exprs (e :: es)).Covers limit (.expr e) ∧
      ∀ {task : Task}, task.CheckedAs (.exprs es) → (Piece.exprs (e :: es)).Covers limit task :=
  ⟨covers_pure (.head _) (.expr e), fun checked => covers_after (.tail _ (.head _)) fun _ _ => checked⟩

theorem Piece.covers_given {limit : Int} (callee : String) (number : Nat) (params : List Param) (e : Expr)
    (es : List Expr) :
    (Piece.arguments callee number params (e :: es)).Covers limit (.expr e) ∧
      ∀ {task : Task}, (∀ number params, task.CheckedAs (.arguments callee number params es)) →
        (Piece.arguments callee number params (e :: es)).Covers limit task := by
  cases params with
  | nil =>
    exact ⟨covers_pure (.head _) (.expr e),
      fun checked => covers_after (.tail _ (.head _)) fun _ _ => checked _ _⟩
  | cons param params =>
    refine ⟨covers_after (.head _) fun _ _ => .expr e, fun checked => covers_after (.tail _ (.head _)) fun _ _ => ?_⟩
    exact ends_bind_of_forall fun _ _ => ends_bind_of_forall fun _ _ => checked _ _

/-- The check of a block comes to the first statement and to those after it. -/
theorem Piece.covers_block {limit : Int} (reach : Check.Reach) (stmt : Stmt) (rest : List Stmt) :
    (Piece.block reach (stmt :: rest)).Covers limit (.stmt stmt) ∧
      (Piece.block reach (stmt :: rest)).Covers limit (.block rest) := by
  constructor
  · refine ⟨_, .head _, fun s => ?_⟩
    dsimp only
    split
    · exact ends_bind_of_forall fun _ _ => .stmt stmt
    · exact .stmt stmt
  · refine ⟨_, .tail _ (.head _), fun s => ?_⟩
    dsimp only
    split
    · exact ends_bind_of_forall fun _ _ => ends_bind_of_forall fun _ _ => .block rest
    · exact ends_bind_of_forall fun _ _ => .block rest

namespace Activity

/-- The names that the code of an activity can give, with their types: those it declares, and without a type
those it cannot find. -/
def Gives (a : Activity) (name : String) (type : Option DataType) : Prop :=
  DeclaredAs a.task.stmts name type ∨ a.state.memory.find a.state.env name = none ∧ type = none

/-- A state that the activity can come to. -/
abbrev Goes (a : Activity) (s : RunState) : Prop := a.state.Local a.Gives (fun _ => False) s

/-- Where a part of an activity begins: in the place of the whole, as code that the check comes to there, in
the frame of a FOR loop, which has at most the counter, or in the frame of a call, which has at most
the parameters. -/
inductive Begins (ctx : RunContext) (limit : Int) (a : Activity) (t : RunState) : Entry → Prop
  | here {task : Task} : (∀ piece, a.task.CheckedAs piece → Wholes piece.stmts → piece.Covers limit task) →
      Begins ctx limit a t ⟨a.calls, a.state.env, task⟩
  | loop {place : Position} {counter : Option String} {start stop step : Option Expr} {body : List Stmt}
      {last stride : Number} {frame : FrameId} {id : BindingId} :
      a.task = .stmt (.forLoop place counter start stop step body) →
      start.isSome ∧ stop.isSome →
      a.state.memory.Opened t.memory frame (fun name _ => counter = some name) →
      Begins ctx limit a t ⟨a.calls, frame :: a.state.env, .forLoop place.line id last stride body⟩
  | call {asValue : Bool} {line : Nat} {callee : String} {arguments : List Expr} {r : Routine Stmt}
      {frame : FrameId} : a.task = .call asValue line callee arguments → ctx.routine? callee = some r →
      a.state.memory.Opened t.memory frame (fun name _ => name ∈ r.params.map Param.name) →
      Begins ctx limit a t ⟨r :: a.calls, frame :: Memory.globals, .block r.body⟩

end Activity

namespace Parts

open Run

variable {ctx : RunContext} {limit : Int} {a : Activity} {s t : RunState} {α β : Type}

/-- What is done in the course of the activity, wherever it stands. -/
def Does (a : Activity) (m : Run α) : Prop :=
  ∀ s, a.Goes s → Confines a.Gives (fun _ => False) s m (fun _ _ => True)

/-- The part begins where it must, whatever was done before. -/
def Follows (ctx : RunContext) (limit : Int) (a : Activity) (part : Run (Option Entry)) : Prop :=
  ∀ s, a.Goes s → Confines a.Gives (fun _ => False) s part
    (fun next t => ∀ entry ∈ next, a.Begins ctx limit t entry)

theorem follows_none : Follows ctx limit a (pure none) := fun _ _ => confines_pure nofun

theorem follows_here {whole task : Task} (same : a.task = whole)
    (covers : ∀ piece, whole.CheckedAs piece → Wholes piece.stmts → piece.Covers limit task) :
    Follows ctx limit a (here a.calls task) := by
  intro s goes
  refine confines_get (confines_pure ?_)
  rintro entry ⟨⟩
  rw [goes.env]
  exact .here (same ▸ covers)

theorem Does.follows {m : Run α} {part : α → Run (Option Entry)} (does : Does a m)
    (follows : ∀ x, Follows ctx limit a (part x)) : Follows ctx limit a (m >>= part) :=
  fun s goes => (does s goes).bind fun x t here _ => follows x t (goes.trans here)

theorem Does.bind {m : Run α} {next : α → Run β} (does : Does a m) (rest : ∀ x, Does a (next x)) :
    Does a (m >>= next) := fun s goes => (does s goes).bind fun x t here _ => rest x t (goes.trans here)

theorem Does.discard {m : Run α} (does : Does a m) : Does a (discard m) :=
  fun s goes => (does s goes).discard

theorem does_looks {m : Run α} (looks : Looks m) : Does a m :=
  fun s _ => (looks.confines s).weaken fun _ _ _ _ => trivial

theorem present_follow {whole : Task} (same : a.task = whole) (value : Option Expr)
    (covers : ∀ e ∈ value, ∀ piece, whole.CheckedAs piece → Wholes piece.stmts → piece.Covers limit (.expr e)) :
    Follows ctx limit a (present a.calls value) := by
  cases value with
  | none => exact follows_none
  | some e => exact follows_here same (covers e rfl)

theorem otherwise_follow {whole : Task} (same : a.task = whole) (block : Option (List Stmt))
    (covers : ∀ ss ∈ block, ∀ piece, whole.CheckedAs piece → Wholes piece.stmts →
      piece.Covers limit (.block ss)) : Follows ctx limit a (otherwise a.calls block) := by
  cases block with
  | none => exact follows_none
  | some block => exact follows_here same (covers block rfl)

theorem targetParts_follow {whole : Task} (same : a.task = whole) (line : Nat) (target : Target)
    (covers : ∀ place array es, target = .element place array es → ∀ piece, whole.CheckedAs piece →
      Wholes piece.stmts → piece.Covers limit (.indices line es)) :
    Follows ctx limit a (targetParts a.calls line target) := by
  cases target with
  | element place array es =>
    exact (does_looks (arrayNamed_looks line array)).discard.follows fun _ =>
      follows_here same (covers place array es rfl)
  | _ => exact follows_none

/-- The parts of a list of expressions, whatever is done with the first before the others. -/
theorem exprsParts_follow {whole rest : Task} {e : Expr} {second : Run (Option Entry)} (same : a.task = whole)
    (covers : ∀ piece, whole.CheckedAs piece → piece.Covers limit (.expr e) ∧ piece.Covers limit rest)
    (others : Follows ctx limit a (here a.calls rest) → Follows ctx limit a second) :
    ∀ part ∈ [here a.calls (.expr e), second], Follows ctx limit a part := by
  rintro part (_ | ⟨_, _ | ⟨_, ⟨⟩⟩⟩)
  · exact follows_here same fun piece checked _ => (covers piece checked).1
  · exact others (follows_here same fun piece checked _ => (covers piece checked).2)

section

variable (hides : a.state.Hides fun _ => False)

include hides

theorem does_eval (e : Expr) : Does a (eval ctx (enterAt ctx a.calls) e) :=
  fun _ goes => eval_confines (enter_confines _ _) e (goes.hides hides)

theorem does_evalPresent (e : Option Expr) : Does a (evalPresent ctx (enterAt ctx a.calls) e) :=
  fun _ goes => evalPresent_confines (enter_confines _ _) (goes.hides hides) e

theorem does_test (keyword : Keyword) (line : Nat) (condition : Option Expr) :
    Does a (test ctx a.calls keyword line condition) :=
  (does_evalPresent hides condition).bind fun v => does_looks (conditionValue_looks line keyword v)

theorem does_bound (line : Nat) (part : ForPart) (e : Option Expr) :
    Does a (do forBound line part (← evalPresent ctx (enterAt ctx a.calls) e)) :=
  (does_evalPresent hides e).bind fun v => does_looks (forBound_looks line part v)

/-- A loop goes on only if the part of the header is there. -/
theorem bound_follows (line : Nat) (part : ForPart) (e : Option Expr) {rest : Number → Run (Option Entry)}
    (follows : e.isSome → ∀ x, Follows ctx limit a (rest x)) :
    Follows ctx limit a ((do forBound line part (← evalPresent ctx (enterAt ctx a.calls) e)) >>= rest) := by
  cases e with
  | none => exact fun s _ => ends_bind.mpr (ends_bind.mpr (.refl s))
  | some e => exact (does_bound hides line part (some e)).follows (follows rfl)

/-- What is done with a value only if there is an expression. -/
theorem value_follows (e : Option Expr) {rest : Value → Run (Option Entry)}
    (follows : ∀ e', e = some e' → ∀ v, Follows ctx limit a (rest v)) :
    Follows ctx limit a (evalPresent ctx (enterAt ctx a.calls) e >>= rest) := by
  cases e with
  | none => exact fun s _ => ends_bind.mpr (.refl s)
  | some e => exact (does_evalPresent hides (some e)).follows (follows e rfl)

theorem does_execBlock {block : List Stmt}
    (declared : ∀ stmt ∈ block, ∀ name type, stmt.DeclaresAs name type → a.Gives name type) :
    Does a (execBlock ctx (enterAt ctx a.calls) (!a.calls.isEmpty) block) := fun _ goes =>
  execBlock_confines (enter_confines _ _) _ block (goes.hides hides)
    (goes.admits hides fun _ missing => .inr ⟨missing, rfl⟩) declared

theorem exprParts_follow {e : Expr} (same : a.task = .expr e) :
    ∀ part ∈ exprParts ctx a.calls e, Follows ctx limit a part := by
  cases e with
  | element place array es =>
    rintro part (_ | ⟨_, ⟨⟩⟩)
    refine (does_looks (arrayNamed_looks place.line array)).discard.follows fun _ => follows_here same ?_
    rintro _ ⟨⟩ _
    exact Piece.covers_pure (.head _) (.indices es)
  | binary place op left right =>
    have covered : Follows ctx limit a (here a.calls (.expr right)) := by
      refine follows_here same ?_
      rintro _ ⟨⟩ _
      exact Piece.covers_after (.tail _ (.head _)) fun _ _ => .expr right
    rintro part (_ | ⟨_, _ | ⟨_, ⟨⟩⟩⟩)
    · refine follows_here same ?_
      rintro _ ⟨⟩ _
      exact Piece.covers_pure (.head _) (.expr left)
    · refine (does_eval hides left).follows fun l => ?_
      split
      · refine (does_looks (truth_looks place.line op.text l)).follows fun b => ?_
        split
        · exact follows_none
        · exact covered
      · exact covered
  | unary place op operand =>
    rintro part (_ | ⟨_, ⟨⟩⟩)
    refine follows_here same ?_
    rintro _ ⟨⟩ _
    exact Piece.covers_pure (.head _) (.expr operand)
  | call place callee es =>
    rintro part (_ | ⟨_, ⟨⟩⟩)
    refine follows_here same ?_
    rintro _ ⟨⟩ _
    exact Piece.covers_pure (.head _) (.call es)
  | literal | name | range | stray => exact List.forall_mem_nil _

theorem callParts_follow {asValue : Bool} {line : Nat} {callee : String} {es : List Expr}
    (same : a.task = .call asValue line callee es) :
    ∀ part ∈ callParts ctx a.calls asValue line callee es, Follows ctx limit a part := by
  unfold callParts
  split
  · split
    · rintro part (_ | ⟨_, ⟨⟩⟩)
      refine follows_here same ?_
      rintro _ ⟨⟩ _
      exact Piece.covers_arguments (.exprs es) fun _ => .given es
    · exact List.forall_mem_nil _
  next r found =>
    split
    · exact List.forall_mem_nil _
    · rintro part (_ | ⟨_, _ | ⟨_, ⟨⟩⟩⟩)
      · refine follows_here same ?_
        rintro _ ⟨⟩ _
        exact Piece.covers_arguments (.plain es) fun _ => .arguments es
      · have binds : Does a (bindArguments ctx (enterAt ctx a.calls) line callee r.params es) := fun _ goes =>
          (bindArguments_confines (enter_confines _ _) line callee r.params es (goes.hides hides)).weaken
            fun _ _ _ _ => trivial
        refine binds.follows fun bindings => ?_
        split
        · intro s goes
          have inside := fun f member => (goes.hides hides).inside f (.tail _ member)
          refine (openFrame_confines inside r.params bindings).bind fun frame t here opened => confines_pure ?_
          rintro entry ⟨⟩
          refine .call same found ⟨Nat.le_trans goes.memory.frames opened.fresh, opened.inside, ?_⟩
          intro name i named
          obtain ⟨param, paired, rfl⟩ := opened.named name i named
          exact List.mem_map_of_mem (List.of_mem_zip paired).1
        · exact follows_none

theorem forParts_follow {place : Position} {counter : Option String} {start stop step : Option Expr}
    {body : List Stmt} (same : a.task = .stmt (.forLoop place counter start stop step body)) :
    ∀ part ∈ stmtParts ctx a.calls (.forLoop place counter start stop step body),
      Follows ctx limit a part := by
  have looped (last stride first : Number) (header : start.isSome ∧ stop.isSome) : Follows ctx limit a (do
      let opened ← openCounter place.line counter first stride
      return some ⟨a.calls, opened.1 :: (← get).env, .forLoop place.line opened.2 last stride body⟩) := by
    intro s goes
    refine (openCounter_confines (goes.hides hides) place.line counter first stride).bind
      fun opened t here known => confines_get (confines_pure ?_)
    rintro entry ⟨⟩
    rw [here.env, goes.env]
    refine .loop same header ⟨Nat.le_trans goes.memory.frames known.2.fresh, known.2.inside, ?_⟩
    exact fun name i named => (known.2.named name i named).1
  -- A loop with parts of a header and not all of it is not checked.
  have complete {e : Expr} (given : start = some e ∨ stop = some e ∨ step = some e)
      (wholes : Wholes [.forLoop place counter start stop step body]) :
      ∃ c first last, counter = some c ∧ start = some first ∧ stop = some last := by
    have whole := wholes _ (.head _)
    cases counter <;> cases start <;> cases stop <;> cases step <;> simp_all [Stmt.whole]
  rintro part (_ | ⟨_, _ | ⟨_, _ | ⟨_, _ | ⟨_, ⟨⟩⟩⟩⟩⟩)
  · refine present_follow same start fun e given => ?_
    rintro _ ⟨⟩ wholes
    obtain ⟨c, first, last, rfl, rfl, rfl⟩ := complete (.inl given) wholes
    cases given
    exact Piece.covers_pure (.head _) (.expr e)
  · refine (does_bound hides place.line .start start).discard.follows fun _ => ?_
    refine present_follow same stop fun e given => ?_
    rintro _ ⟨⟩ wholes
    obtain ⟨c, first, last, rfl, rfl, rfl⟩ := complete (.inr (.inl given)) wholes
    cases given
    exact Piece.covers_after (.tail _ (.head _)) fun _ _ => .expr e
  · refine (does_bound hides place.line .start start).discard.follows fun _ => ?_
    refine (does_bound hides place.line .stop stop).discard.follows fun _ => ?_
    refine present_follow same step fun e given => ?_
    rintro _ ⟨⟩ wholes
    obtain ⟨c, first, last, rfl, rfl, rfl⟩ := complete (.inr (.inr given)) wholes
    cases given
    exact Piece.covers_after (.tail _ (.tail _ (.head _))) fun _ _ => ends_bind_of_forall fun _ _ => .expr e
  · refine bound_follows hides place.line .start start fun started first => ?_
    refine bound_follows hides place.line .stop stop fun stopped last => ?_
    cases step with
    | none => exact looped last (.integer 1) first ⟨started, stopped⟩
    | some e =>
      exact bound_follows hides place.line .step (some e) fun _ stride => looped last stride first ⟨started, stopped⟩

theorem ifParts_follow {place : Position} {condition : Option Expr} {thenBranch : List Stmt}
    {elseBranch : Option (List Stmt)} (same : a.task = .stmt (.ifThen place condition thenBranch elseBranch)) :
    ∀ part ∈ stmtParts ctx a.calls (.ifThen place condition thenBranch elseBranch),
      Follows ctx limit a part := by
  rintro part (_ | ⟨_, _ | ⟨_, ⟨⟩⟩⟩)
  · refine present_follow same condition fun e given => ?_
    rintro _ ⟨⟩ _
    cases given
    exact Piece.covers_pure (.head _) (.expr e)
  · refine (does_test hides .IF place.line condition).follows fun holds => ?_
    split
    · refine follows_here same ?_
      rintro _ ⟨⟩ _
      exact Piece.covers_after (List.mem_append_right _ (.head _)) fun _ _ => .block thenBranch
    · refine otherwise_follow same elseBranch fun block taken => ?_
      rintro _ ⟨⟩ _
      cases taken
      refine Piece.covers_after (List.mem_append_right _ (.tail _ (.head _))) fun _ _ => ?_
      exact ends_bind_of_forall fun _ _ => .block block

theorem caseParts_follow {place : Position} {selector : Option Expr} {bs : List (Branch Stmt)}
    {alternative : Option (List Stmt)} (same : a.task = .stmt (.caseOf place selector bs alternative)) :
    ∀ part ∈ stmtParts ctx a.calls (.caseOf place selector bs alternative), Follows ctx limit a part := by
  rintro part (_ | ⟨_, _ | ⟨_, _ | ⟨_, ⟨⟩⟩⟩⟩)
  · refine present_follow same selector fun e given => ?_
    rintro _ ⟨⟩ _
    cases given
    exact Piece.covers_pure (.head _) (.expr e)
  · refine value_follows hides selector fun e given v => follows_here same ?_
    rintro _ ⟨⟩ _
    cases given
    exact Piece.covers_after (.tail _ (.head _)) fun _ _ => .branches bs
  · refine value_follows hides selector fun e given v => ?_
    have branches : Does a (execBranches ctx (enterAt ctx a.calls) (!a.calls.isEmpty) place.line v bs) :=
      fun _ goes => execBranches_confines (enter_confines _ _) _ place.line v bs (goes.hides hides)
        (goes.admits hides fun _ missing => .inr ⟨missing, rfl⟩) fun b taken stmt member name type declares =>
          .inl ⟨_, by rw [same]; exact .head _, .branch taken member declares⟩
    refine branches.follows fun taken => ?_
    split
    · exact follows_none
    · refine otherwise_follow same alternative fun block taken => ?_
      rintro _ ⟨⟩ _
      cases given
      cases taken
      refine Piece.covers_after (List.mem_append_right _ (.head _)) fun _ _ => ?_
      exact ends_bind_of_forall fun _ _ => .block block

theorem stmtParts_follow {stmt : Stmt} (same : a.task = .stmt stmt) :
    ∀ part ∈ stmtParts ctx a.calls stmt, Follows ctx limit a part := by
  cases stmt with
  | declare | declareArray | routine | strayCall | stray => exact List.forall_mem_nil _
  | constant place name value =>
    rintro part (_ | ⟨_, ⟨⟩⟩)
    refine present_follow same value fun e given => ?_
    rintro _ ⟨⟩ _
    cases given
    exact Piece.covers_pure (.head _) (.expr e)
  | assign place target value =>
    rintro part (_ | ⟨_, _ | ⟨_, ⟨⟩⟩⟩)
    · refine follows_here same ?_
      rintro _ ⟨⟩ _
      exact Piece.covers_pure (.head _) (.expr value)
    · refine (does_eval hides value).discard.follows fun _ => targetParts_follow same place.line target ?_
      rintro there array es rfl _ ⟨⟩ _
      exact Piece.covers_after (.tail _ (.head _)) fun _ _ => .indices es
  | ifThen place condition thenBranch elseBranch => exact ifParts_follow hides same
  | whileDo place condition body =>
    rintro part (_ | ⟨_, ⟨⟩⟩)
    refine follows_here same ?_
    rintro _ ⟨⟩ _
    exact Piece.covers_pure (.head _) (.whileLoop body)
  | repeatUntil place body condition =>
    rintro part (_ | ⟨_, ⟨⟩⟩)
    refine follows_here same ?_
    rintro _ ⟨⟩ _
    exact Piece.covers_pure (.head _) (.repeatLoop body)
  | forLoop place counter start stop step body => exact forParts_follow hides same
  | caseOf place selector bs alternative => exact caseParts_follow hides same
  | giveBack place value =>
    dsimp only [stmtParts]
    split
    · exact List.forall_mem_nil _
    · rintro part (_ | ⟨_, ⟨⟩⟩)
      refine present_follow same value fun e given => ?_
      rintro _ ⟨⟩ _
      cases given
      exact Piece.covers_pure (.head _) (.expr e)
  | call place callPlace callee es =>
    rintro part (_ | ⟨_, ⟨⟩⟩)
    refine follows_here same ?_
    rintro _ ⟨⟩ _
    exact Piece.covers_pure (.head _) (.call es)
  | output place es =>
    rintro part (_ | ⟨_, ⟨⟩⟩)
    refine follows_here same ?_
    rintro _ ⟨⟩ _
    exact Piece.covers_pure (.head _) (.shown es)
  | input place target =>
    rintro part (_ | ⟨_, ⟨⟩⟩)
    have reads : Does a (readInput ctx place.line target) := fun _ _ => readInput_confines ctx place.line target
    refine reads.discard.follows fun _ => targetParts_follow same place.line target ?_
    rintro there array es rfl _ ⟨⟩ _
    exact Piece.covers_pure (.head _) (.indices es)

theorem labelParts_follow {line : Nat} {value : Value} {label : Expr} {rest : List Expr}
    (same : a.task = .labels line value (label :: rest)) :
    ∀ part ∈ labelParts ctx a.calls label, Follows ctx limit a part := by
  cases label with
  | range place low high =>
    rintro part (_ | ⟨_, _ | ⟨_, ⟨⟩⟩⟩)
    · refine follows_here same ?_
      rintro _ ⟨⟩ _
      exact Piece.covers_pure (.head _) (.expr low)
    · refine (does_eval hides low).discard.follows fun _ => follows_here same ?_
      rintro _ ⟨⟩ _
      exact Piece.covers_after (.tail _ (.head _)) fun _ _ => .expr high
  | _ =>
    rintro part (_ | ⟨_, ⟨⟩⟩)
    refine follows_here same ?_
    rintro _ ⟨⟩ _
    exact Piece.covers_pure (.head _) (.expr _)

/-- After its labels, the check of a branch comes to the labels that are left. -/
theorem labelsParts_follow {line : Nat} {value : Value} {label : Expr} {rest : List Expr}
    (same : a.task = .labels line value (label :: rest)) :
    ∀ part ∈ all ctx a.calls (.labels line value (label :: rest)), Follows ctx limit a part := by
  refine List.forall_mem_append.mpr ⟨labelParts_follow hides same, fun part member => ?_⟩
  cases List.mem_singleton.mp member
  have tests : Does a (labelMatches ctx (enterAt ctx a.calls) line value label) :=
    fun _ goes => labelMatches_confines (enter_confines _ _) line value label (goes.hides hides)
  refine tests.follows fun taken => ?_
  split
  · exact follows_none
  · refine follows_here same ?_
    rintro _ ⟨⟩ _
    refine Piece.covers_after (List.mem_append_right _ (.head _)) fun key s => ?_
    cases key with
    | none => exact .labels rest
    | some key =>
      dsimp only
      split
      · exact ends_bind_of_forall fun _ _ => .labels rest
      · exact .labels rest

theorem argumentsParts_follow {line : Nat} {callee : String} {param : Param} {params : List Param} {e : Expr}
    {es : List Expr} (same : a.task = .arguments line callee (param :: params) (e :: es)) :
    ∀ part ∈ all ctx a.calls (.arguments line callee (param :: params) (e :: es)), Follows ctx limit a part := by
  have covers (piece : Piece) (checked : (Task.arguments line callee (param :: params) (e :: es)).CheckedAs piece) :
      piece.Covers limit (.expr e) ∧ piece.Covers limit (.arguments line callee params es) := by
    cases checked with
    | arguments => exact (Piece.covers_given ..).imp_right fun rest => rest fun _ _ => .arguments es
    | plain => exact (Piece.covers_exprs ..).imp_right fun rest => rest (.plain es)
  have binds : Does a (bindArgument line callee param e (eval ctx (enterAt ctx a.calls) e)) := fun _ goes =>
    (bindArgument_confines (goes.hides hides) line callee param e
      (eval_confines (enter_confines _ _) e (goes.hides hides))).weaken fun _ _ _ _ => trivial
  rintro part (_ | ⟨_, _ | ⟨_, ⟨⟩⟩⟩)
  · split
    · exact follows_none
    · exact follows_here same fun piece checked _ => (covers piece checked).1
  · exact binds.discard.follows fun _ => follows_here same fun piece checked _ => (covers piece checked).2

theorem blockParts_follow {stmt : Stmt} {rest : List Stmt} (same : a.task = .block (stmt :: rest)) :
    ∀ part ∈ all ctx a.calls (.block (stmt :: rest)), Follows ctx limit a part := by
  rintro part (_ | ⟨_, _ | ⟨_, ⟨⟩⟩⟩)
  · refine follows_here same ?_
    rintro _ ⟨⟩ _
    exact (Piece.covers_block ..).1
  · have does : Does a (exec ctx (enterAt ctx a.calls) (!a.calls.isEmpty) stmt) := fun _ goes =>
      exec_confines (enter_confines _ _) _ stmt (goes.hides hides)
        (goes.admits hides fun _ missing => .inr ⟨missing, rfl⟩)
        fun name type declares => .inl ⟨stmt, by rw [same]; exact .head _, declares⟩
    refine does.follows fun c => ?_
    split
    · exact follows_none
    · refine follows_here same ?_
      rintro _ ⟨⟩ _
      exact (Piece.covers_block ..).2

theorem branchesParts_follow {line : Nat} {value : Value} {b : Branch Stmt} {rest : List (Branch Stmt)}
    (same : a.task = .branches line value (b :: rest)) :
    ∀ part ∈ all ctx a.calls (.branches line value (b :: rest)), Follows ctx limit a part := by
  obtain ⟨labels, body, branchLine⟩ := b
  rintro part (_ | ⟨_, _ | ⟨_, ⟨⟩⟩⟩)
  · refine follows_here same ?_
    rintro _ ⟨⟩ _
    exact Piece.covers_pure (.head _) (.labels labels)
  · have tests (line : Nat) : Does a (anyLabelMatches ctx (enterAt ctx a.calls) line value labels) :=
      fun _ goes => anyLabelMatches_confines (enter_confines _ _) line value labels (goes.hides hides)
    refine (tests _).follows fun taken => ?_
    split
    · refine follows_here same ?_
      rintro _ ⟨⟩ _
      exact Piece.covers_after (.tail _ (.head _)) fun _ _ => .block body
    · refine follows_here same ?_
      rintro _ ⟨⟩ _
      exact Piece.covers_after (.tail _ (.tail _ (.head _))) fun _ _ => ends_bind_of_forall fun _ _ => .branches rest

/-- What follows a round of a loop, unless the body gives back a value. -/
theorem round_follows {body : List Stmt} (given : a.task.stmts = body) (line : Nat)
    {next : Run (Option Entry)} (follows : Follows ctx limit a next) : Follows ctx limit a (do
      match ← execBlock ctx (enterAt ctx a.calls) (!a.calls.isEmpty) body with
      | .returned .. => return none
      | .normal =>
        tick ctx line
        next) := by
  have does : Does a (execBlock ctx (enterAt ctx a.calls) (!a.calls.isEmpty) body) :=
    does_execBlock hides fun stmt member name type declares => .inl ⟨stmt, given ▸ member, declares⟩
  have counts : Does a (tick ctx line) := fun _ _ => tick_confines ctx line
  refine does.follows fun c => ?_
  cases c with
  | returned => exact follows_none
  | normal => exact counts.follows fun _ => follows

theorem whileParts_follow {line : Nat} {condition : Option Expr} {body : List Stmt}
    (same : a.task = .whileLoop line condition body) :
    ∀ part ∈ all ctx a.calls (.whileLoop line condition body), Follows ctx limit a part := by
  have tests : Does a (test ctx a.calls .WHILE line condition) := does_test hides .WHILE line condition
  rintro part (_ | ⟨_, _ | ⟨_, _ | ⟨_, ⟨⟩⟩⟩⟩)
  · refine present_follow same condition fun e given => ?_
    rintro _ ⟨⟩ _
    cases given
    exact Piece.covers_pure (.head _) (.expr e)
  · refine tests.follows fun holds => ?_
    split
    · refine follows_here same ?_
      rintro _ ⟨⟩ _
      exact Piece.covers_after (List.mem_append_right _ (.head _)) fun _ _ => .block body
    · exact follows_none
  · refine tests.follows fun holds => ?_
    split
    · refine round_follows hides (by rw [same]; rfl) line (follows_here same ?_)
      rintro _ ⟨⟩ _
      exact Piece.covers_pure (List.mem_append_right _ (.tail _ (.head _))) (.whileLoop body)
    · exact follows_none

theorem repeatParts_follow {line : Nat} {body : List Stmt} {condition : Option Expr}
    (same : a.task = .repeatLoop line body condition) :
    ∀ part ∈ all ctx a.calls (.repeatLoop line body condition), Follows ctx limit a part := by
  have stmts : a.task.stmts = body := by rw [same]; rfl
  rintro part (_ | ⟨_, _ | ⟨_, _ | ⟨_, ⟨⟩⟩⟩⟩)
  · refine follows_here same ?_
    rintro _ ⟨⟩ _
    exact Piece.covers_pure (.head _) (.block body)
  · refine round_follows hides stmts line (present_follow same condition fun e given => ?_)
    rintro _ ⟨⟩ _
    cases given
    exact Piece.covers_after (.tail _ (.head _)) fun _ _ => .expr e
  · refine round_follows hides stmts line ((does_test hides .UNTIL line condition).follows fun holds => ?_)
    split
    · exact follows_none
    · refine follows_here same ?_
      rintro _ ⟨⟩ _
      exact Piece.covers_pure (List.mem_append_right _ (.head _)) (.repeatLoop body)

theorem countedParts_follow {line : Nat} {counter : BindingId} {last step : Number} {body : List Stmt}
    (same : a.task = .forLoop line counter last step body) :
    ∀ part ∈ all ctx a.calls (.forLoop line counter last step body), Follows ctx limit a part := by
  have counts : Does a (do return (← counterValue counter).number?.any (pastEnd · last step)) :=
    (does_looks (counterValue_looks counter)).bind fun _ _ _ => confines_pure trivial
  have advances : Does a (advance line counter step) :=
    fun _ goes => advance_confines (goes.hides hides) line id step
  rintro part (_ | ⟨_, _ | ⟨_, ⟨⟩⟩⟩)
  · refine counts.follows fun ended => ?_
    split
    · exact follows_none
    · refine follows_here same ?_
      rintro _ ⟨⟩ _
      exact Piece.covers_pure (.head _) (.block body)
  · refine counts.follows fun ended => ?_
    split
    · exact follows_none
    · refine round_follows hides (by rw [same]; rfl) line (advances.follows fun _ => follows_here same ?_)
      rintro _ ⟨⟩ _
      exact Piece.covers_pure (.tail _ (.head _)) (.forLoop body)

/-- Whatever is done before a part of an activity begins, it begins where it must. -/
theorem all_follow : ∀ part ∈ all ctx a.calls a.task, Follows ctx limit a part := by
  cases same : a.task with
  | expr e => exact exprParts_follow hides same
  | exprs es =>
    cases es with
    | nil => exact List.forall_mem_nil _
    | cons e rest =>
      refine exprsParts_follow same (fun piece checked => ?_) fun others =>
        (does_eval hides e).discard.follows fun _ => others
      cases checked with
      | exprs => exact (Piece.covers_exprs ..).imp_right fun others => others (.exprs rest)
      | given => exact (Piece.covers_given ..).imp_right fun others => others fun _ _ => .given rest
  | indices line es =>
    cases es with
    | nil => exact List.forall_mem_nil _
    | cons e rest =>
      refine exprsParts_follow same (fun piece checked => ?_) fun others => (does_eval hides e).follows fun v =>
        (does_looks (indexValue_looks line v)).discard.follows fun _ => others
      cases checked with
      | indices => exact (Piece.covers_exprs ..).imp_right fun others => others (.indices rest)
  | arguments line callee params es =>
    cases params with
    | nil => exact List.forall_mem_nil _
    | cons param params =>
      cases es with
      | nil => exact List.forall_mem_nil _
      | cons e rest => exact argumentsParts_follow hides same
  | call asValue line callee es => exact callParts_follow hides same
  | shown line es =>
    cases es with
    | nil => exact List.forall_mem_nil _
    | cons e rest =>
      refine exprsParts_follow same (fun piece checked => ?_) fun others => (does_eval hides e).follows fun v =>
        (does_looks (shown_looks ctx line v)).discard.follows fun _ => others
      cases checked with
      | shown => exact (Piece.covers_exprs ..).imp_right fun others => others (.shown rest)
  | labels line value es =>
    cases es with
    | nil => exact List.forall_mem_nil _
    | cons label rest => exact labelsParts_follow hides same
  | stmt stmt =>
    intro part member
    obtain ⟨rest, inStmt, rfl⟩ := List.mem_map.mp member
    rw [seqRight_eq_bind]
    have begun : Does a (begins ctx stmt) := fun _ _ => begins_confines ctx stmt
    exact begun.follows fun _ => stmtParts_follow hides same rest inStmt
  | block ss =>
    cases ss with
    | nil => exact List.forall_mem_nil _
    | cons stmt rest => exact blockParts_follow hides same
  | branches line value bs =>
    cases bs with
    | nil => exact List.forall_mem_nil _
    | cons b rest => exact branchesParts_follow hides same
  | whileLoop line condition body => exact whileParts_follow hides same
  | repeatLoop line body condition => exact repeatParts_follow hides same
  | forLoop line counter last step body => exact countedParts_follow hides same

end

end Parts

namespace Activity

variable {ctx : RunContext} {a b : Activity}

theorem Inside.hides (inside : a.Inside) : a.state.Hides fun _ => False :=
  ⟨inside, fun _ _ _ _ _ => id, nofun⟩

/-- Where a part of an activity begins, and what was done to the memory before. -/
theorem Leads.begins (leads : Leads ctx a b) (inside : a.Inside) (limit : Int) :
    ∃ entry t, b = ⟨entry.calls, entry.task, { t with env := entry.env }⟩ ∧ a.Goes t ∧
      a.Begins ctx limit t entry := by
  obtain ⟨part, member, entry, t, began, same⟩ := leads
  have follows : Parts.Follows ctx limit a part := Parts.all_follow inside.hides part member
  obtain ⟨goes, begins⟩ := (follows a.state (.refl _)).of_ok began
  exact ⟨entry, t, same, goes, begins entry rfl⟩

/-- An activity of a run with what the check of the program inspects on the same way: the code in the
place of the whole, the body of a FOR loop in a scope of its own, or the body of a routine that is called,
which is inspected once for all calls. -/
inductive Viewed (p : Program) (settings : Settings) (host : Host) : Activity → Inspection → Prop
  | start {c : Inspection} : c.Starts p → Viewed p settings host (.start p settings) c
  | here {a b : Activity} {c : Inspection} {part : Check Piece} {piece : Piece} {s : CheckState} :
      Viewed p settings host a c → Leads (p.context settings host) a b → b.state.env = a.state.env →
      part ∈ c.piece.parts settings.limits.maxArrayElements → part c.state = .ok piece s →
      b.task.CheckedAs piece → Viewed p settings host b ⟨c.scopes, piece, s⟩
  | loop {a b : Activity} {c : Inspection} {place : Position} {counter : Option String}
      {start stop step : Option Expr} {body : List Stmt} {frame : FrameId} {s : CheckState} :
      Viewed p settings host a c → Leads (p.context settings host) a b →
      a.task = .stmt (.forLoop place counter start stop step body) →
      b.state.env = frame :: a.state.env →
      Check.openLoop place counter start stop step c.state = .ok () s →
      Viewed p settings host b ⟨body :: c.scopes, .forLoop body, s⟩
  | call {a b : Activity} {c : Inspection} {asValue : Bool} {line : Nat} {callee : String}
      {arguments : List Expr} {k : Nat} {r : Routine Stmt} {s : CheckState} :
      Viewed p settings host a c → Leads (p.context settings host) a b →
      a.task = .call asValue line callee arguments → b.calls = r :: a.calls →
      p.routines[k]? = some r → Check.upToRoutine settings.limits.maxArrayElements p k .initial = .ok () s →
      Viewed p settings host b ⟨[r.body, p.body], .block .live r.body, s⟩

end Activity

end Pseudocode
