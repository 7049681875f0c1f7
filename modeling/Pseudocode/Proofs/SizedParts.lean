import Pseudocode.Proofs.SizedRun

/-! Where the parts of a piece of code begin. Whatever begins as a part of code within the admissible
sizes begins within them, because what comes before it is done by parts that began earlier. With what
holds of a piece whose parts all stay within the admissible sizes, this gives by induction on the
activities of a run that each of them begins and stays within these sizes. -/
namespace Pseudocode

namespace Run

open Parts

variable {good : Activity → Prop} {s t : RunState} {α : Type} {m : Run α} {next : α → Run (Option Entry)}

/-- A part that begins after something that only looks at the state begins there. -/
theorem Looks.yields (looks : Looks m) (rest : ∀ x, m s = .ok x s → Yields good s (next x)) :
    Yields good s (m >>= next) := by
  refine yields_bind.mpr fun x t ran => ?_
  cases (looks.ends s).of_ok ran
  exact rest x ran

/-- A part that begins after something that stays within the admissible sizes begins within them. -/
theorem Stays.yields {result : α → RunState → Prop} (sized : s.Sized) (stays : Stays s m result)
    (rest : ∀ x t, m s = .ok x t → t.Sized → result x t → Yields good t (next x)) :
    Yields good s (m >>= next) := by
  refine yields_bind.mpr fun x t ran => ?_
  obtain ⟨keeps, known⟩ := stays x t ran
  exact rest x t ran (keeps.sizedIn sized) known

end Run

namespace Parts

open Run

variable {ctx : RunContext} {calls : List (Routine Stmt)} {good : Activity → Prop} {s t : RunState} {α : Type}
  {part : Run (Option Entry)} {task : Task} {line : Nat}

/-- What begins as the part stays within the admissible sizes if it begins within them. -/
abbrev Holds (ctx : RunContext) (s : RunState) (part : Run (Option Entry)) : Prop :=
  Yields (fun a => a.Sized → a.Stays ctx) s part

theorem Yields.stays (holds : Holds ctx s part) (begins : Yields Activity.Sized s part) :
    Yields (Activity.Stays ctx) s part :=
  fun entry t began => holds entry t began (begins entry t began)

theorem here_sized (finds : task.Finds s) (code : task.Grounded .sizes) :
    Yields Activity.Sized s (here calls task) := yields_here.mpr ⟨code, finds⟩

theorem Holds.here (holds : Holds ctx s (here calls task)) (finds : task.Finds s)
    (code : task.Grounded .sizes) :
    task.Stays ctx calls s := yields_here.mp holds ⟨code, finds⟩

theorem yields_past {m : Run α} {next : PUnit → Run (Option Entry)} :
    Yields good s (discard m >>= next) ↔ Yields good s (m >>= fun _ => next ⟨⟩) := by
  rw [show discard m = m >>= fun _ => pure ⟨⟩ from (bind_pure_comp _ m).symm, bind_assoc]
  simp only [pure_bind]

theorem present_sized {value : Option Expr} (sized : s.Sized) (code : ∀ e ∈ value, e.Grounded .sizes) :
    Yields Activity.Sized s (present calls value) := by
  cases value with
  | none => exact yields_none
  | some e => exact here_sized sized (code e rfl)

theorem otherwise_sized {block : Option (List Stmt)} (sized : s.Sized)
    (code : ∀ ss ∈ block, ∀ s ∈ ss, s.Grounded .sizes) : Yields Activity.Sized s (otherwise calls block) := by
  cases block with
  | none => exact yields_none
  | some block => exact here_sized sized (code block rfl)

theorem targetParts_sized {target : Target} (sized : s.Sized) (code : target.Grounded .sizes) :
    Yields Activity.Sized s (targetParts calls line target) := by
  cases code with
  | «variable» => exact yields_none
  | element place inner =>
    refine yields_past.mpr ((arrayNamed_looks line _).yields fun _ _ => here_sized sized inner)
  | stray => exact yields_none

theorem Holds.present {value : Option Expr} (holds : Holds ctx s (present calls value)) (sized : s.Sized)
    (code : ∀ e ∈ value, e.Grounded .sizes) :
    Run.Stays s (evalPresent ctx (enterAt ctx calls) value) fun v _ => v.Sized :=
  evalPresent_stays (holds.stays (present_sized sized code))

section Expressions

theorem exprParts_sized {e : Expr} (sized : s.Sized) (code : e.Grounded .sizes)
    (holds : ∀ part ∈ exprParts ctx calls e, Holds ctx s part) :
    ∀ part ∈ exprParts ctx calls e, Yields Activity.Sized s part := by
  cases code with
  | literal | name | range | stray => nofun
  | @element place indices array _ inner =>
    rintro part (_ | ⟨_, ⟨⟩⟩)
    exact yields_past.mpr ((arrayNamed_looks place.line array).yields fun _ _ => here_sized sized inner)
  | @binary place left right op _ first second =>
    rintro part (_ | ⟨_, _ | ⟨_, ⟨⟩⟩⟩)
    · exact here_sized sized first
    · refine Stays.yields sized ((holds _ (.head _)).here sized first) fun l t _ sizedT _ => ?_
      split
      · refine (truth_looks place.line op.text l).yields fun b _ => ?_
        split
        · exact yields_none
        · exact here_sized sizedT second
      · exact here_sized sizedT second
  | unary _ inner =>
    rintro part (_ | ⟨_, ⟨⟩⟩)
    exact here_sized sized inner
  | call _ callee inner =>
    rintro part (_ | ⟨_, ⟨⟩⟩)
    exact here_sized sized ⟨callee, inner⟩

theorem argumentParts_sized {callee : String} {params : List Param} {es : List Expr} (sized : s.Sized)
    (code : ∀ e ∈ es, e.Grounded .sizes)
    (holds : ∀ part ∈ all ctx calls (.arguments line callee params es), Holds ctx s part) :
    ∀ part ∈ all ctx calls (.arguments line callee params es), Yields Activity.Sized s part := by
  cases params with
  | nil => nofun
  | cons param params =>
    cases es with
    | nil => nofun
    | cons e rest =>
      have begins : Yields Activity.Sized s
          (if param.mode = .byReference then return none else here calls (.expr e)) := by
        split
        · exact yields_none
        · exact here_sized sized (code e (.head _))
      have bound : Run.Stays s (bindArgument line callee param e (eval ctx (enterAt ctx calls) e)) fun i t =>
          t.memory.SizedAt i := argument_stays callee sized ((holds _ (.head _)).stays begins)
      rintro part (_ | ⟨_, _ | ⟨_, ⟨⟩⟩⟩)
      · exact begins
      · refine yields_past.mpr (bound.yields sized fun i t _ sizedT _ => ?_)
        exact here_sized sizedT fun e member => code e (.tail _ member)

theorem callParts_sized {asValue : Bool} {callee : String} {es : List Expr} (sized : s.Sized)
    (routines : ∀ r ∈ ctx.routines, BlockGrounded .sizes r.body) (code : ∀ e ∈ es, e.Grounded .sizes)
    (holds : ∀ part ∈ callParts ctx calls asValue line callee es, Holds ctx s part) :
    ∀ part ∈ callParts ctx calls asValue line callee es, Yields Activity.Sized s part := by
  unfold callParts at holds ⊢
  cases found : ctx.routine? callee with
  | none =>
    simp only [found] at holds ⊢
    split
    · rintro part (_ | ⟨_, ⟨⟩⟩)
      exact here_sized sized code
    · nofun
  | some r =>
    simp only [found] at holds ⊢
    split
    · nofun
    next fits =>
      rw [if_neg fits] at holds
      rintro part (_ | ⟨_, _ | ⟨_, ⟨⟩⟩⟩)
      · exact here_sized sized code
      · refine Stays.yields sized ((holds _ (.head _)).here sized code) fun bindings t _ sizedT known => ?_
        split
        · refine yields_bind.mpr fun frame u opened => yields_some.mpr ⟨routines r (routine_mem found), ?_⟩
          exact (openFrame_sized sizedT r.params known opened).2
        · exact yields_none

theorem labelParts_sized {label : Expr} (sized : s.Sized) (code : label.Grounded .sizes)
    (holds : ∀ part ∈ labelParts ctx calls label, Holds ctx s part) :
    ∀ part ∈ labelParts ctx calls label, Yields Activity.Sized s part := by
  cases label with
  | range place low high =>
    obtain ⟨first, second⟩ : low.Grounded .sizes ∧ high.Grounded .sizes := by
      cases code with
      | range _ first second => exact ⟨first, second⟩
    rintro part (_ | ⟨_, _ | ⟨_, ⟨⟩⟩⟩)
    · exact here_sized sized first
    · refine yields_past.mpr (Stays.yields sized ((holds _ (.head _)).here sized first)
        fun _ t _ sizedT _ => ?_)
      exact here_sized sizedT second
  | _ =>
    rintro part (_ | ⟨_, ⟨⟩⟩)
    exact here_sized sized code

end Expressions

section Statements

theorem bound_stays (kind : ForPart) (line : Nat) {e : Option Expr} (sized : s.Sized)
    (code : ∀ e' ∈ e, e'.Grounded .sizes) (holds : Holds ctx s (present calls e)) :
    Run.Stays s (do forBound line kind (← evalPresent ctx (enterAt ctx calls) e)) fun n _ => n.Sized :=
  Stays.bind sized (holds.present sized code) fun _ _ _ _ _ known => forBound_stays kind known

/-- The parts of a FOR statement: what its header is made of, one after the other, and its loop. -/
theorem forParts_sized {place : Position} {counter : Option String} {start stop step : Option Expr}
    {body : List Stmt} (sized : s.Sized) (startCode : ∀ e ∈ start, e.Grounded .sizes)
    (stopCode : ∀ e ∈ stop, e.Grounded .sizes) (stepCode : ∀ e ∈ step, e.Grounded .sizes)
    (bodyCode : BlockGrounded .sizes body)
    (holds : ∀ part ∈ stmtParts ctx calls (.forLoop place counter start stop step body), Holds ctx s part) :
    ∀ part ∈ stmtParts ctx calls (.forLoop place counter start stop step body),
      Yields Activity.Sized s part := by
  have stopHolds := holds _ (.tail _ (.head _))
  have stepHolds := holds _ (.tail _ (.tail _ (.head _)))
  have starts := bound_stays .start place.line sized startCode (holds _ (.head _))
  have looped (first last stride : Number) {t : RunState} (sizedT : t.Sized) (known : first.Sized)
      (bound : last.Sized) : Yields Activity.Sized t (do
        let opened ← openCounter place.line counter first stride
        return some ⟨calls, opened.1 :: (← get).env, .forLoop place.line opened.2 last stride body⟩) := by
    refine yields_bind.mpr fun opened u made => ?_
    obtain ⟨-, -, -, finds, b, held, whole⟩ := openCounter_sized sizedT known made
    exact yields_some.mpr ⟨bodyCode, finds, bound, b, held, fun _ => whole⟩
  rintro part (_ | ⟨_, _ | ⟨_, _ | ⟨_, _ | ⟨_, ⟨⟩⟩⟩⟩⟩)
  · exact present_sized sized startCode
  · exact yields_past.mpr (starts.yields sized fun _ t _ sizedT _ => present_sized sizedT stopCode)
  · refine yields_past.mpr (starts.yields sized fun _ t started sizedT _ => yields_past.mpr ?_)
    have stops := bound_stays .stop place.line sizedT stopCode (stopHolds.past started)
    exact stops.yields sizedT fun _ u _ sizedU _ => present_sized sizedU stepCode
  · refine starts.yields sized fun first t started sizedT known => ?_
    have stops := bound_stays .stop place.line sizedT stopCode (stopHolds.past started)
    refine stops.yields sizedT fun last u stopped sizedU bound => ?_
    cases step with
    | none => exact looped first last (.integer 1) sizedU known bound
    | some e =>
      have steps := bound_stays .step place.line sizedU stepCode ((stepHolds.past started).past stopped)
      exact steps.yields sizedU fun stride w _ sizedW _ => looped first last stride sizedW known bound

theorem stmtParts_sized {stmt : Stmt} (sized : s.Sized) (code : stmt.Grounded .sizes)
    (holds : ∀ part ∈ stmtParts ctx calls stmt, Holds ctx s part) :
    ∀ part ∈ stmtParts ctx calls stmt, Yields Activity.Sized s part := by
  cases code with
  | declare | declareArray | routine | strayCall | stray => exact List.forall_mem_nil _
  | constant _ inner =>
    rintro part (_ | ⟨_, ⟨⟩⟩)
    exact present_sized sized inner
  | @assign place target value _ targetCode valueCode =>
    rintro part (_ | ⟨_, _ | ⟨_, ⟨⟩⟩⟩)
    · exact here_sized sized valueCode
    · refine yields_past.mpr (Stays.yields sized ((holds _ (.head _)).here sized valueCode)
        fun v t _ sizedT _ => ?_)
      exact targetParts_sized sizedT targetCode
  | @ifThen place condition thenBranch elseBranch _ inner thenCode elseCode =>
    rintro part (_ | ⟨_, _ | ⟨_, ⟨⟩⟩⟩)
    · exact present_sized sized inner
    · have tested : Run.Stays s (test ctx calls .IF place.line condition) fun _ _ => True :=
        test_stays sized ((holds _ (.head _)).stays (present_sized sized inner))
      refine tested.yields sized fun b t _ sizedT _ => ?_
      split
      · exact here_sized sizedT thenCode
      · exact otherwise_sized sizedT elseCode
  | whileDo _ inner bodyCode =>
    rintro part (_ | ⟨_, ⟨⟩⟩)
    exact here_sized sized ⟨inner, bodyCode⟩
  | repeatUntil _ bodyCode inner =>
    rintro part (_ | ⟨_, ⟨⟩⟩)
    exact here_sized sized ⟨inner, bodyCode⟩
  | forLoop _ startCode stopCode stepCode bodyCode =>
    exact forParts_sized sized startCode stopCode stepCode bodyCode holds
  | @caseOf place selector branches alternative _ inner lines labels bodies elseCode =>
    have branchCode : ∀ b ∈ branches, b.Grounded .sizes :=
      fun b member => ⟨lines b member, labels b member, bodies b member⟩
    have selected := (holds _ (.head _)).present sized inner
    rintro part (_ | ⟨_, _ | ⟨_, _ | ⟨_, ⟨⟩⟩⟩⟩)
    · exact present_sized sized inner
    · exact selected.yields sized fun v t _ sizedT _ => here_sized sizedT branchCode
    · refine selected.yields sized fun v t ran sizedT _ => ?_
      have taken := Holds.here ((holds _ (.tail _ (.head _))).after ran) sizedT branchCode
      refine Stays.yields sizedT taken fun answer u _ sizedU _ => ?_
      cases answer with
      | some c => exact yields_none
      | none => exact otherwise_sized sizedU elseCode
  | giveBack _ inner =>
    dsimp only [stmtParts]
    split
    · exact List.forall_mem_nil _
    · rintro part (_ | ⟨_, ⟨⟩⟩)
      exact present_sized sized inner
  | call _ _ callee inner =>
    rintro part (_ | ⟨_, ⟨⟩⟩)
    exact here_sized sized ⟨callee, inner⟩
  | output _ inner =>
    rintro part (_ | ⟨_, ⟨⟩⟩)
    exact here_sized sized inner
  | @input place target _ inner =>
    rintro part (_ | ⟨_, ⟨⟩⟩)
    refine yields_past.mpr (Stays.yields sized (readInput_stays sized target) fun v t _ sizedT _ => ?_)
    exact targetParts_sized sizedT inner

end Statements

section Rounds

variable {condition : Option Expr} {body : List Stmt}

theorem whileParts_sized (sized : s.Sized) (inner : ∀ e ∈ condition, e.Grounded .sizes)
    (code : BlockGrounded .sizes body)
    (holds : ∀ part ∈ all ctx calls (.whileLoop line condition body), Holds ctx s part) :
    ∀ part ∈ all ctx calls (.whileLoop line condition body), Yields Activity.Sized s part := by
  have tested : Run.Stays s (test ctx calls .WHILE line condition) fun _ _ => True :=
    test_stays sized ((holds _ (.head _)).stays (present_sized sized inner))
  have bodyHolds := holds _ (.tail _ (.head _))
  rintro part (_ | ⟨_, _ | ⟨_, _ | ⟨_, ⟨⟩⟩⟩⟩)
  · exact present_sized sized inner
  · refine tested.yields sized fun b t _ sizedT _ => ?_
    split
    · exact here_sized sizedT code
    · exact yields_none
  · refine tested.yields sized fun b t ran sizedT _ => ?_
    have bodyHolds := bodyHolds.after ran
    split
    next holds =>
      rw [if_pos holds] at bodyHolds
      refine Stays.yields sizedT (Holds.here bodyHolds sizedT code) fun c u _ sizedU _ => ?_
      cases c with
      | returned v line => exact yields_none
      | normal => exact tick_stays.yields sizedU fun _ w _ sizedW _ => here_sized sizedW ⟨inner, code⟩
    next => exact yields_none

theorem repeatParts_sized (sized : s.Sized) (inner : ∀ e ∈ condition, e.Grounded .sizes)
    (code : BlockGrounded .sizes body)
    (holds : ∀ part ∈ all ctx calls (.repeatLoop line body condition), Holds ctx s part) :
    ∀ part ∈ all ctx calls (.repeatLoop line body condition), Yields Activity.Sized s part := by
  have executed := (holds _ (.head _)).here sized code
  have testHolds := holds _ (.tail _ (.head _))
  rintro part (_ | ⟨_, _ | ⟨_, _ | ⟨_, ⟨⟩⟩⟩⟩)
  · exact here_sized sized code
  · refine Stays.yields sized executed fun c t _ sizedT _ => ?_
    cases c with
    | returned v line => exact yields_none
    | normal => exact tick_stays.yields sizedT fun _ u _ sizedU _ => present_sized sizedU inner
  · refine Stays.yields sized executed fun c t ran sizedT _ => ?_
    have testHolds := testHolds.after ran
    cases c with
    | returned v line => exact yields_none
    | normal =>
      refine tick_stays.yields sizedT fun _ u counted sizedU _ => ?_
      have tested : Run.Stays u (test ctx calls .UNTIL line condition) fun _ _ => True :=
        test_stays sizedU (Yields.stays (testHolds.after counted) (present_sized sizedU inner))
      refine tested.yields sizedU fun b w _ sizedW _ => ?_
      split
      · exact yields_none
      · exact here_sized sizedW ⟨inner, code⟩

theorem countedParts_sized {counter : BindingId} {last step : Number}
    (finds : (Task.forLoop line counter last step body).Finds s)
    (finite : ∀ x, last = .real x → x.isFinite = true) (code : BlockGrounded .sizes body)
    (holds : ∀ part ∈ all ctx calls (.forLoop line counter last step body), Holds ctx s part) :
    ∀ part ∈ all ctx calls (.forLoop line counter last step body), Yields Activity.Sized s part := by
  obtain ⟨sized, bound, known⟩ := finds
  have bodyHolds := (holds _ (.head _)).after rfl
  rintro part (_ | ⟨_, _ | ⟨_, ⟨⟩⟩⟩)
  · refine yields_bind.mpr fun ended t looked => ?_
    cases looked
    split
    · exact yields_none
    next going => exact here_sized (sized.whole (counter_going known going)) code
  · refine yields_bind.mpr fun ended t looked => ?_
    cases looked
    split
    · exact yields_none
    next going =>
      have still : s.memory.SizedAt counter := counter_going known going
      rw [if_neg going] at bodyHolds
      refine yields_bind.mpr fun c t executed => ?_
      obtain ⟨kept, -⟩ := Holds.here bodyHolds (sized.whole still) code c t executed
      cases c with
      | returned v line => exact yields_none
      | normal =>
        refine yields_bind.mpr fun _ u counted => yields_bind.mpr fun _ w advanced => ?_
        have before : s.KeepsSizes none u := kept.andThen (tick_stays _ u counted).1
        obtain ⟨moved, next⟩ := advance_sized (before.memory.sizedAt still) bound finite advanced
        exact here_sized ⟨moved.sizedIn (before.but.sizedIn sized), bound, next⟩ code

end Rounds

/-- Whatever begins as a part of a piece of code begins within the admissible sizes. -/
theorem all_sized (routines : ∀ r ∈ ctx.routines, BlockGrounded .sizes r.body) (finds : task.Finds s)
    (code : task.Grounded .sizes)
    (finite : ∀ line counter last step body, task = .forLoop line counter last step body →
      ∀ x, last = .real x → x.isFinite = true)
    (holds : ∀ part ∈ all ctx calls task, Holds ctx s part) :
    ∀ part ∈ all ctx calls task, Yields Activity.Sized s part := by
  cases task with
  | expr e => exact exprParts_sized finds code holds
  | exprs es =>
    cases es with
    | nil => nofun
    | cons e rest =>
      have first := code e (.head _)
      rintro part (_ | ⟨_, _ | ⟨_, ⟨⟩⟩⟩)
      · exact here_sized finds first
      · refine yields_past.mpr (Stays.yields finds ((holds _ (.head _)).here finds first)
          fun _ t _ sizedT _ => ?_)
        exact here_sized sizedT fun e member => code e (.tail _ member)
  | indices line es =>
    cases es with
    | nil => nofun
    | cons e rest =>
      have first := code e (.head _)
      rintro part (_ | ⟨_, _ | ⟨_, ⟨⟩⟩⟩)
      · exact here_sized finds first
      · refine Stays.yields finds ((holds _ (.head _)).here finds first) fun v t _ sizedT _ => ?_
        refine yields_past.mpr ((indexValue_looks line v).yields fun _ _ => ?_)
        exact here_sized sizedT fun e member => code e (.tail _ member)
  | arguments line callee params es => exact argumentParts_sized finds code holds
  | call asValue line callee es => exact callParts_sized finds routines code.2 holds
  | shown line es =>
    cases es with
    | nil => nofun
    | cons e rest =>
      have first := code e (.head _)
      rintro part (_ | ⟨_, _ | ⟨_, ⟨⟩⟩⟩)
      · exact here_sized finds first
      · refine Stays.yields finds ((holds _ (.head _)).here finds first) fun v t _ sizedT _ => ?_
        refine yields_past.mpr ((shown_looks ctx line v).yields fun _ _ => ?_)
        exact here_sized sizedT fun e member => code e (.tail _ member)
  | labels line selector es =>
    cases es with
    | nil => nofun
    | cons label rest =>
      have first := labelParts_sized finds (code label (.head _)) fun part member =>
        holds part (List.mem_append_left _ member)
      intro part member
      rcases List.mem_append.mp member with inLabel | last
      · exact first part inLabel
      · cases List.mem_singleton.mp last
        have matched :
            Run.Stays s (labelMatches ctx (enterAt ctx calls) line selector label) fun _ _ => True :=
          labelMatches_stays selector finds fun part member =>
            Yields.stays (holds part (List.mem_append_left _ member)) (first part member)
        refine matched.yields finds fun b t _ sizedT _ => ?_
        split
        · exact yields_none
        · exact here_sized sizedT fun e member => code e (.tail _ member)
  | stmt stmt =>
    intro part member
    obtain ⟨rest, inStmt, rfl⟩ := List.mem_map.mp member
    rw [seqRight_eq_bind]
    refine (begins_stays stmt).yields finds fun _ t begun sizedT _ => ?_
    refine stmtParts_sized sizedT code (fun part inside => ?_) rest inStmt
    have whole := holds _ (List.mem_map_of_mem inside)
    rw [seqRight_eq_bind] at whole
    exact whole.after begun
  | block ss =>
    cases ss with
    | nil => nofun
    | cons stmt rest =>
      have first := code stmt (.head _)
      rintro part (_ | ⟨_, _ | ⟨_, ⟨⟩⟩⟩)
      · exact here_sized finds first
      · refine Stays.yields finds ((holds _ (.head _)).here finds first) fun c t _ sizedT _ => ?_
        cases c with
        | returned v line => exact yields_none
        | normal => exact here_sized sizedT fun s member => code s (.tail _ member)
  | branches line selector bs =>
    cases bs with
    | nil => nofun
    | cons b rest =>
      obtain ⟨labels, body, branchLine⟩ := b
      have first := code _ (.head _)
      rintro part (_ | ⟨_, _ | ⟨_, ⟨⟩⟩⟩)
      · exact here_sized finds first.labels
      · refine Stays.yields finds ((holds _ (.head _)).here finds first.labels) fun taken t _ sizedT _ => ?_
        split
        · exact here_sized sizedT first.body
        · exact here_sized sizedT fun b member => code b (.tail _ member)
  | whileLoop line condition body => exact whileParts_sized finds code.1 code.2 holds
  | repeatLoop line body condition => exact repeatParts_sized finds code.1 code.2 holds
  | forLoop line counter last step body => exact countedParts_sized finds (finite _ _ _ _ _ rfl) code holds

end Parts

end Pseudocode
