import Pseudocode.Proofs.Confinement
import Pseudocode.Proofs.Parts

/-! The frames of calls. What a call can change of the bindings that were there before it are the globals
and what it is handed by reference, and it comes back to the environment and the number of active calls
that it was made with. -/
namespace Pseudocode

/-- The code is a row of arguments, bound to parameters one by one. -/
def Task.isArguments : Task → Bool
  | .arguments .. => true
  | _ => false

namespace Parts

open Run

/-- Arguments come after the call that they are given in, with the parameters of the routine, or after an
argument and its parameter. -/
inductive Handed (ctx : RunContext) : Task → Task → Prop
  | call {asValue : Bool} {line : Nat} {callee : String} {es : List Expr} {r : Routine Stmt} :
      ctx.routine? callee = some r → Handed ctx (.call asValue line callee es) (.arguments line callee r.params es)
  | next {line : Nat} {callee : String} {param : Param} {params : List Param} {e : Expr} {es : List Expr} :
      Handed ctx (.arguments line callee (param :: params) (e :: es)) (.arguments line callee params es)
  | other {task part : Task} : part.isArguments = false → Handed ctx task part

/-- Where a part of an activity begins: in the place of the whole, in the frame of a call, or in the frame
of a FOR loop. -/
inductive Stands (ctx : RunContext) (calls : List (Routine Stmt)) (task : Task) (t : RunState) :
    Entry → Prop
  | here {part : Task} : Handed ctx task part → Stands ctx calls task t ⟨calls, t.env, part⟩
  | call {asValue : Bool} {line : Nat} {callee : String} {arguments : List Expr} {r : Routine Stmt}
      {bindings : List BindingId} {frame : FrameId} {s : RunState} :
      task = .call asValue line callee arguments → ctx.routine? callee = some r →
      openFrame r.params bindings s = .ok frame t →
      Stands ctx calls task t ⟨r :: calls, frame :: Memory.globals, .block r.body⟩
  | loop {place : Position} {counter : Option String} {start stop step : Option Expr}
      {body : List Stmt} {first last stride : Number} {frame : FrameId} {id : BindingId} {s : RunState} :
      task = .stmt (.forLoop place counter start stop step body) →
      openCounter place.line counter first stride s = .ok (frame, id) t →
      Stands ctx calls task t ⟨calls, frame :: t.env, .forLoop place.line id last stride body⟩

variable {ctx : RunContext} {calls : List (Routine Stmt)} {task : Task} {α : Type}

/-- A part that stands where it must, in whatever state it is begun. -/
def Placed (ctx : RunContext) (calls : List (Routine Stmt)) (task : Task)
    (part : Run (Option Entry)) : Prop :=
  ∀ s, Ends part s (fun next t => ∀ entry ∈ next, Stands ctx calls task t entry) (fun _ _ => True)

theorem placed_none : Placed ctx calls task (pure none) := fun _ => nofun

theorem placed_handed {part : Task} (handed : Handed ctx task part) : Placed ctx calls task (here calls part) := by
  rintro _ entry ⟨⟩
  exact .here handed

theorem placed_here {part : Task} (other : part.isArguments = false) : Placed ctx calls task (here calls part) :=
  placed_handed (.other other)

theorem Placed.after {part : α → Run (Option Entry)} (placed : ∀ a, Placed ctx calls task (part a))
    (m : Run α) : Placed ctx calls task (m >>= part) :=
  fun _ => ends_bind_of_forall fun a t => placed a t

theorem placed_present (value : Option Expr) : Placed ctx calls task (present calls value) := by
  cases value with
  | none => exact placed_none
  | some e => exact placed_here rfl

theorem placed_otherwise (block : Option (List Stmt)) :
    Placed ctx calls task (otherwise calls block) := by
  cases block with
  | none => exact placed_none
  | some block => exact placed_here rfl

theorem placed_targetParts (line : Nat) (target : Target) :
    Placed ctx calls task (targetParts calls line target) := by
  cases target with
  | element place name es => exact .after (fun _ => placed_here rfl) _
  | _ => exact placed_none

theorem exprParts_placed (e : Expr) :
    ∀ part ∈ exprParts ctx calls e, Placed ctx calls task part := by
  cases e with
  | element place array es =>
    rintro part (_ | ⟨_, ⟨⟩⟩)
    exact .after (fun _ => placed_here rfl) _
  | binary place op left right =>
    rintro part (_ | ⟨_, _ | ⟨_, ⟨⟩⟩⟩)
    · exact placed_here rfl
    · refine .after (fun l => ?_) _
      split
      · refine .after (fun b => ?_) _
        split
        · exact placed_none
        · exact placed_here rfl
      · exact placed_here rfl
  | unary | call =>
    rintro part (_ | ⟨_, ⟨⟩⟩)
    exact placed_here rfl
  | literal | name | range | stray => exact List.forall_mem_nil _

theorem callParts_placed (asValue : Bool) (line : Nat) (callee : String) (arguments : List Expr) :
    ∀ part ∈ callParts ctx calls asValue line callee arguments,
      Placed ctx calls (.call asValue line callee arguments) part := by
  unfold callParts
  split
  · split
    · rintro part (_ | ⟨_, ⟨⟩⟩)
      exact placed_here rfl
    · exact List.forall_mem_nil _
  next r found =>
    split
    · exact List.forall_mem_nil _
    · rintro part (_ | ⟨_, _ | ⟨_, ⟨⟩⟩⟩)
      · exact placed_handed (.call found)
      · refine .after (fun bindings => ?_) _
        split
        · refine fun s => ends_bind.mpr (ends_iff.mpr ⟨fun frame t opened => ?_, fun _ _ _ => trivial⟩)
          rintro entry ⟨⟩
          exact .call rfl found opened
        · exact placed_none

theorem forParts_placed (place : Position) (counter : Option String) (start stop step : Option Expr)
    (body : List Stmt) :
    ∀ part ∈ stmtParts ctx calls (.forLoop place counter start stop step body),
      Placed ctx calls (.stmt (.forLoop place counter start stop step body)) part := by
  have looped (last stride first : Number) :
      Placed ctx calls (.stmt (.forLoop place counter start stop step body)) (do
        let opened ← openCounter place.line counter first stride
        return some ⟨calls, opened.1 :: (← get).env, .forLoop place.line opened.2 last stride body⟩) := by
    refine fun s => ends_bind.mpr (ends_iff.mpr ⟨fun opened t ran => ?_, fun _ _ _ => trivial⟩)
    rintro entry ⟨⟩
    exact .loop rfl ran
  rintro part (_ | ⟨_, _ | ⟨_, _ | ⟨_, _ | ⟨_, ⟨⟩⟩⟩⟩⟩)
  · exact placed_present _
  · exact .after (fun _ => placed_present _) _
  · exact .after (fun _ => .after (fun _ => placed_present _) _) _
  · refine .after (fun first => .after (fun last => ?_) _) _
    cases step with
    | none => exact looped last (.integer 1) first
    | some e => exact .after (fun stride => looped last stride first) _

theorem stmtParts_placed (stmt : Stmt) :
    ∀ part ∈ stmtParts ctx calls stmt, Placed ctx calls (.stmt stmt) part := by
  cases stmt with
  | declare | declareArray | routine | strayCall | stray => exact List.forall_mem_nil _
  | constant place name value =>
    rintro part (_ | ⟨_, ⟨⟩⟩)
    exact placed_present _
  | assign place target value =>
    rintro part (_ | ⟨_, _ | ⟨_, ⟨⟩⟩⟩)
    · exact placed_here rfl
    · exact .after (fun _ => placed_targetParts _ _) _
  | ifThen place condition thenBranch elseBranch =>
    rintro part (_ | ⟨_, _ | ⟨_, ⟨⟩⟩⟩)
    · exact placed_present _
    · refine .after (fun holds => ?_) _
      split
      · exact placed_here rfl
      · exact placed_otherwise _
  | whileDo | repeatUntil | call | output =>
    rintro part (_ | ⟨_, ⟨⟩⟩)
    exact placed_here rfl
  | forLoop place counter start stop step body => exact forParts_placed place counter start stop step body
  | caseOf place selector branches otherwise =>
    rintro part (_ | ⟨_, _ | ⟨_, _ | ⟨_, ⟨⟩⟩⟩⟩)
    · exact placed_present _
    · exact .after (fun _ => placed_here rfl) _
    · refine .after (fun v => .after (fun taken => ?_) _) _
      split
      · exact placed_none
      · exact placed_otherwise _
  | giveBack place value =>
    dsimp only [stmtParts]
    split
    · exact List.forall_mem_nil _
    · rintro part (_ | ⟨_, ⟨⟩⟩)
      exact placed_present _
  | input place target =>
    rintro part (_ | ⟨_, ⟨⟩⟩)
    exact .after (fun _ => placed_targetParts _ _) _

theorem labelParts_placed (label : Expr) :
    ∀ part ∈ labelParts ctx calls label, Placed ctx calls task part := by
  unfold labelParts
  split
  · rintro part (_ | ⟨_, _ | ⟨_, ⟨⟩⟩⟩)
    · exact placed_here rfl
    · exact .after (fun _ => placed_here rfl) _
  · rintro part (_ | ⟨_, ⟨⟩⟩)
    exact placed_here rfl

/-- What follows the body of a loop, unless that gives back a value. -/
theorem Placed.round {part : Run (Option Entry)} (placed : Placed ctx calls task part)
    (body : Run Completion) :
    Placed ctx calls task (do
      match ← body with
      | .returned .. => return none
      | .normal => part) := by
  refine .after (fun c => ?_) _
  cases c with
  | returned => exact placed_none
  | normal => exact placed

theorem all_placed : ∀ part ∈ all ctx calls task, Placed ctx calls task part := by
  cases task with
  | expr e => exact exprParts_placed e
  | exprs es | indices line es | shown line es =>
    cases es with
    | nil => exact List.forall_mem_nil _
    | cons e rest =>
      rintro part (_ | ⟨_, _ | ⟨_, ⟨⟩⟩⟩)
      · exact placed_here rfl
      · first
        | exact .after (fun _ => placed_here rfl) _
        | exact .after (fun _ => .after (fun _ => placed_here rfl) _) _
  | arguments line callee params es =>
    cases params with
    | nil => exact List.forall_mem_nil _
    | cons param params =>
      cases es with
      | nil => exact List.forall_mem_nil _
      | cons e rest =>
        rintro part (_ | ⟨_, _ | ⟨_, ⟨⟩⟩⟩)
        · split
          · exact placed_none
          · exact placed_here rfl
        · exact .after (fun _ => placed_handed .next) _
  | call asValue line callee arguments => exact callParts_placed asValue line callee arguments
  | labels line selector es =>
    cases es with
    | nil => exact List.forall_mem_nil _
    | cons label rest =>
      intro part member
      rcases List.mem_append.mp member with inLabel | last
      · exact labelParts_placed label part inLabel
      · cases List.mem_singleton.mp last
        refine .after (fun taken => ?_) _
        split
        · exact placed_none
        · exact placed_here rfl
  | stmt stmt =>
    intro part member
    obtain ⟨rest, inStmt, rfl⟩ := List.mem_map.mp member
    rw [seqRight_eq_bind]
    exact .after (fun _ => stmtParts_placed stmt rest inStmt) _
  | block ss =>
    cases ss with
    | nil => exact List.forall_mem_nil _
    | cons stmt rest =>
      rintro part (_ | ⟨_, _ | ⟨_, ⟨⟩⟩⟩)
      · exact placed_here rfl
      · exact Placed.round (placed_here rfl) _
  | branches line selector bs =>
    cases bs with
    | nil => exact List.forall_mem_nil _
    | cons b rest =>
      rintro part (_ | ⟨_, _ | ⟨_, ⟨⟩⟩⟩)
      · exact placed_here rfl
      · refine .after (fun taken => ?_) _
        split
        · exact placed_here rfl
        · exact placed_here rfl
  | whileLoop line condition body =>
    rintro part (_ | ⟨_, _ | ⟨_, _ | ⟨_, ⟨⟩⟩⟩⟩)
    · exact placed_present _
    · refine .after (fun holds => ?_) _
      split
      · exact placed_here rfl
      · exact placed_none
    · refine .after (fun holds => ?_) _
      split
      · exact Placed.round (.after (fun _ => placed_here rfl) _) _
      · exact placed_none
  | repeatLoop line body condition =>
    rintro part (_ | ⟨_, _ | ⟨_, _ | ⟨_, ⟨⟩⟩⟩⟩)
    · exact placed_here rfl
    · exact Placed.round (.after (fun _ => placed_present _) _) _
    · refine Placed.round (.after (fun _ => .after (fun holds => ?_) _) _) _
      split
      · exact placed_none
      · exact placed_here rfl
  | forLoop line counter last step body =>
    rintro part (_ | ⟨_, _ | ⟨_, ⟨⟩⟩⟩)
    · refine .after (fun ended => ?_) _
      split
      · exact placed_none
      · exact placed_here rfl
    · refine .after (fun ended => ?_) _
      split
      · exact placed_none
      · exact Placed.round (.after (fun _ => .after (fun _ => placed_here rfl) _) _) _

end Parts

namespace Activity

variable {ctx : RunContext} {a b : Activity}

/-- A part of an activity has the active calls of the whole, unless it is the body of a routine that the
activity calls; then that call is active too. -/
theorem Leads.calls (leads : Leads ctx a b) :
    b.calls = a.calls ∨ ∃ asValue line callee arguments r,
      a.task = .call asValue line callee arguments ∧ ctx.routine? callee = some r ∧
        b.task = .block r.body ∧ b.calls = r :: a.calls := by
  obtain ⟨part, member, entry, t, began, rfl⟩ := leads
  cases (Parts.all_placed part member a.state).of_ok began entry rfl with
  | here => exact .inl rfl
  | call task found opened => exact .inr ⟨_, _, _, _, _, task, found, rfl, rfl⟩
  | loop task opened => exact .inl rfl

/-- Arguments are gone through after the call that they are given in, or after the argument before. -/
theorem Leads.handed (leads : Leads ctx a b) : Parts.Handed ctx a.task b.task := by
  obtain ⟨part, member, entry, t, began, rfl⟩ := leads
  cases (Parts.all_placed part member a.state).of_ok began entry rfl with
  | here handed => exact handed
  | call | loop => exact .other rfl

/-- The body of a routine begins once the arguments are bound. -/
theorem Leads.called {asValue : Bool} {line : Nat} {callee : String} {arguments : List Expr} {r : Routine Stmt}
    (leads : Leads ctx a b) (task : a.task = .call asValue line callee arguments) (calls : b.calls = r :: a.calls) :
    ctx.routine? callee = some r ∧ ∃ bindings s frame t,
      Run.bindArguments ctx (Parts.enterAt ctx a.calls) line callee r.params arguments a.state = .ok bindings s ∧
        Run.openFrame r.params bindings s = .ok frame t ∧
        b = ⟨r :: a.calls, .block r.body, { t with env := frame :: Memory.globals }⟩ := by
  obtain ⟨part, member, entry, t, began, rfl⟩ := leads
  rw [task] at member
  have member : part ∈ Parts.callParts ctx a.calls asValue line callee arguments := member
  unfold Parts.callParts at member
  have away {part : Task} : Parts.here a.calls part a.state ≠ .ok (some entry) t := by
    rintro ⟨⟩
    exact List.cons_ne_self _ _ calls.symm
  split at member
  · split at member
    · cases List.mem_singleton.mp member
      exact (away began).elim
    · cases member
  next r' found =>
    split at member
    · cases member
    · rcases List.mem_cons.mp member with rfl | member
      · exact (away began).elim
      · cases List.mem_singleton.mp member
        obtain ⟨bindings, s, bound, began⟩ := bind_eq_ok.mp began
        split at began
        · obtain ⟨frame, u, opened, ⟨⟩⟩ := bind_eq_ok.mp began
          cases calls
          exact ⟨found, bindings, s, frame, _, bound, opened, rfl⟩
        · cases began

/-- The part of an activity with a number, if it begins. -/
def part? (ctx : RunContext) (a : Activity) (k : Nat) : Option Activity :=
  match ((Parts.all ctx a.calls a.task)[k]?).map fun part : Run (Option Entry) => part a.state with
  | some (.ok (some entry) t) => some ⟨entry.calls, entry.task, { t with env := entry.env }⟩
  | _ => none

/-- The part of a part, and so on. -/
def follow (ctx : RunContext) : Activity → List Nat → Option Activity
  | a, [] => some a
  | a, k :: rest => (a.part? ctx k).bind (·.follow ctx rest)

theorem Leads.of_part {k : Nat} (began : a.part? ctx k = some b) : Leads ctx a b := by
  unfold part? at began
  split at began
  next entry t ran =>
    obtain ⟨part, held, ran⟩ := Option.map_eq_some_iff.mp ran
    exact ⟨part, List.mem_of_getElem? held, entry, t, ran, (Option.some.inj began).symm⟩
  next => cases began

theorem Reaches.of_follow {path : List Nat} (followed : a.follow ctx path = some b) :
    Reaches ctx a b := by
  induction path generalizing a with
  | nil => exact Option.some.inj followed ▸ .refl
  | cons k rest ih =>
    obtain ⟨c, began, further⟩ := Option.bind_eq_some_iff.mp followed
    exact .head (.of_part began) (ih further)

/-- The frames that an activity looks names up in exist, and so does the global one. -/
def Inside (a : Activity) : Prop := ∀ frame ∈ 0 :: a.state.env, frame < a.state.memory.frames.size

theorem start_inside (p : Program) (settings : Settings) : (start p settings).Inside := by
  rintro f (_ | ⟨_, _ | ⟨_, ⟨⟩⟩⟩) <;> exact Nat.one_pos

theorem Leads.inside {P : Policy} (routines : ∀ r ∈ ctx.routines, ∀ stmt ∈ r.body, stmt.Obeys P)
    (leads : Leads ctx a b) (sound : a.Sound P ctx) (inside : a.Inside) : b.Inside := by
  have ready := (leads.sound routines sound).ready
  have later := leads.later routines sound
  obtain ⟨part, member, entry, t, began, rfl⟩ := leads
  have env := ((Parts.all_conduct routines sound.ready sound.obeys part member).of_ok began).2.1
  have still {f : FrameId} (there : f ∈ 0 :: a.state.env) : f < t.memory.frames.size :=
    Nat.lt_of_lt_of_le (inside f there) later.memory.grows.frames
  obtain ⟨frame, outer, opened, new⟩ := ready.opens
  intro f there
  cases (Parts.all_placed part member a.state).of_ok began entry rfl with
  | here => exact still (env ▸ there)
  | call =>
    cases opened
    rcases List.mem_cons.mp there with rfl | there
    · exact still (.head _)
    · rcases List.mem_cons.mp there with rfl | there
      · exact new
      · exact still (List.mem_singleton.mp there ▸ .head _)
  | loop =>
    cases opened
    rcases List.mem_cons.mp there with rfl | there
    · exact still (.head _)
    · rcases List.mem_cons.mp there with rfl | there
      · exact new
      · exact still (.tail _ (env ▸ there))

theorem Reaches.inside {P : Policy} (routines : ∀ r ∈ ctx.routines, ∀ stmt ∈ r.body, stmt.Obeys P)
    (reaches : Reaches ctx a b) (sound : a.Sound P ctx) (inside : a.Inside) : b.Inside := by
  induction reaches with
  | refl => exact inside
  | tail reached leads ih => exact leads.inside routines (Reaches.sound routines reached sound) ih

end Activity

/-- A binding that the body of a routine can find when it begins: it has a name in the global frame, or it
was handed over by reference. -/
inductive RunState.Offers (s : RunState) (params : List Param) (bindings : List BindingId) (i : BindingId) :
    Prop
  | shared (name : String) : s.memory.findIn 0 name = some i → Offers s params bindings i
  | handed (param : Param) : (param, i) ∈ params.zip bindings → param.mode = .byReference →
      Offers s params bindings i

/-- From before a call to after it: the environment is as it was, and so is every binding that there was,
with its value, its type and whether it is a constant, unless the call was offered it. -/
structure RunState.Framed (before s after : RunState) (params : List Param) (bindings : List BindingId) :
    Prop where
  env : after.env = before.env
  bindings : ∀ i < before.memory.bindings.size, ¬s.Offers params bindings i →
    after.memory.binding? i = s.memory.binding? i

/-- Calls are framed. Whatever a program has done when it comes to the call of a routine: however the body
of the routine ends once its arguments are bound, with a value, without one or with a failure, it
has left alone all bindings from before the call that are not global and were not passed by reference, and the
caller has its environment back. Nothing else than the body of a routine is carried out with more active
calls than what it is a part of. -/
theorem calls_framed (p : Program) (settings : Settings) (host : Host) {a : Activity}
    (reaches : Activity.Reaches (p.context settings host) (.start p settings) a) {asValue : Bool}
    {line : Nat} {callee : String} {arguments : List Expr} {r : Routine Stmt} {bindings : List BindingId}
    {s : RunState} (task : a.task = .call asValue line callee arguments)
    (found : (p.context settings host).routine? callee = some r)
    (bound : Run.bindArguments (p.context settings host) (Parts.enterAt (p.context settings host) a.calls)
      line callee r.params arguments a.state = .ok bindings s) :
    Ends (Parts.enterAt (p.context settings host) a.calls line r bindings) s
      (fun _ t => a.state.Framed s t r.params bindings) (fun _ t => a.state.Framed s t r.params bindings) ∧
    ∀ b, Activity.Leads (p.context settings host) a b → b.calls = a.calls ∨
      b.task = .block r.body ∧ b.calls = r :: a.calls := by
  have start := Activity.start_sound p.obeys_free settings host
  have inside : a.Inside := Activity.Reaches.inside p.obeys_free.routines reaches start
    (Activity.start_inside p settings)
  have enters : Run.EnterConfines (Parts.enterAt (p.context settings host) a.calls) :=
    Run.enter_confines _ _
  -- Binding the arguments makes new bindings for those that are passed by value.
  have nothing : a.state.Hides fun _ => False := ⟨inside, fun _ _ _ _ _ => id, nofun⟩
  have binds : Run.Confines (fun _ _ => False) (fun _ => False) a.state
      (Run.bindArguments (p.context settings host) (Parts.enterAt (p.context settings host) a.calls)
        line callee r.params arguments) _ :=
    Run.bindArguments_confines enters line callee r.params arguments nothing
  obtain ⟨here, known⟩ := binds.of_ok bound
  let kept (i : BindingId) : Prop := i < a.state.memory.bindings.size ∧ ¬s.Offers r.params bindings i
  have hides : s.memory.Hides kept Memory.globals := by
    refine ⟨fun f member => ?_, fun f member name i found keeps => ?_, fun i keeps => ?_⟩
    · have global : f = 0 := by simpa [Memory.globals] using member
      exact Nat.lt_of_lt_of_le (inside f (global ▸ .head _)) here.memory.frames
    · have global : f = 0 := by simpa [Memory.globals] using member
      exact keeps.2 (.shared name (global ▸ found))
    · exact Nat.lt_of_lt_of_le keeps.1 here.memory.bindings
  have frames : ∀ f ∈ s.env, f < s.memory.frames.size := fun f member =>
    Nat.lt_of_lt_of_le (inside f (.tail _ (here.env ▸ member))) here.memory.frames
  have free : ∀ i ∈ bindings, ¬kept i := by
    intro i member keeps
    obtain ⟨-, param, paired, new⟩ := known i member
    cases mode : param.mode with
    | byReference => exact keeps.2 (.handed param paired mode)
    | byValue => exact Nat.not_lt_of_le (new mode) keeps.1
  have framed {t : RunState} (local_ : s.Local (fun _ _ => True) kept t) :
      a.state.Framed s t r.params bindings :=
    ⟨local_.env.trans here.env, fun i old unoffered => local_.memory.values i ⟨old, unoffered⟩⟩
  refine ⟨(enters line r bindings hides frames free _).mono (fun _ t ended => framed ended.1)
    fun _ t failed => framed failed, fun b leads => leads.calls.imp_right ?_⟩
  rintro ⟨_, _, _, _, r', same, found', body, calls⟩
  cases task.symm.trans same
  cases found.symm.trans found'
  exact ⟨body, calls⟩

/-- A procedure that stores into the variable that it is handed. -/
def filling : Routine Stmt where
  position := ⟨1, 1⟩
  kind := .procedure
  name := some "p"
  params := [⟨"x", "INTEGER", .byReference, none⟩]
  returns := none
  body := [.assign ⟨2, 2⟩ (.variable ⟨2, 2⟩ "x") (.literal ⟨2, 7⟩ (.integer 2))]

/-- A program that has one of two local variables filled. -/
def filledLocal : Program where
  body :=
    [.routine filling,
    .routine ⟨⟨4, 1⟩, .procedure, some "q", [], none,
      [.declare ⟨5, 2⟩ "a" "INTEGER", .declare ⟨6, 2⟩ "b" "INTEGER",
      .call ⟨7, 2⟩ ⟨7, 7⟩ "p" [.name ⟨7, 9⟩ "a"]]⟩,
    .call ⟨9, 1⟩ ⟨9, 6⟩ "q" []]

/-- The bindings before and after the call on line 7, if the activity is that. -/
def Activity.observeFilling (ctx : RunContext) (a : Activity) :
    Option (Completion × Array Binding × Array Binding) :=
  match a.task with
  | .call _ 7 "p" arguments => observed (do
      let bindings ← Run.bindArguments ctx (Parts.enterAt ctx a.calls) 7 "p" filling.params arguments
      let before := (← get).memory.bindings
      let c ← Parts.enterAt ctx a.calls 7 filling bindings
      return (c, before)) a.state fun (c, before) t => (c, before, t.memory.bindings)
  | _ => none

theorem filledLocal_framed : ∃ a asValue arguments bindings s t,
    Activity.Reaches (filledLocal.context {} {}) (.start filledLocal {}) a ∧
    a.task = .call asValue 7 "p" arguments ∧
    Run.bindArguments (filledLocal.context {} {}) (Parts.enterAt (filledLocal.context {} {}) a.calls) 7
      "p" filling.params arguments a.state = .ok bindings s ∧
    Parts.enterAt (filledLocal.context {} {}) a.calls 7 filling bindings s = .ok .normal t ∧
    a.state.Framed s t filling.params bindings ∧
    s.memory.bindings = #[⟨.integer 0, some .integer, false⟩, ⟨.integer 0, some .integer, false⟩] ∧
    t.memory.bindings = #[⟨.integer 2, some .integer, false⟩, ⟨.integer 0, some .integer, false⟩] := by
  have seen : ((Activity.start filledLocal {}).follow (filledLocal.context {} {})
      [1, 1, 0, 0, 1, 1, 1, 0, 0]).bind (·.observeFilling (filledLocal.context {} {})) =
      some (.normal, #[⟨.integer 0, some .integer, false⟩, ⟨.integer 0, some .integer, false⟩],
        #[⟨.integer 2, some .integer, false⟩, ⟨.integer 0, some .integer, false⟩]) := by decide +kernel
  obtain ⟨a, followed, seen⟩ := Option.bind_eq_some_iff.mp seen
  unfold Activity.observeFilling at seen
  split at seen
  next asValue arguments task =>
    obtain ⟨⟨c, before⟩, t, ran, view⟩ := ok_of_observed _ seen
    obtain ⟨bindings, s, bound, ran⟩ := bind_eq_ok.mp ran
    obtain ⟨_, _, ⟨⟩, ran⟩ := bind_eq_ok.mp ran
    obtain ⟨c', u, entered, ⟨⟩⟩ := bind_eq_ok.mp ran
    simp only [Prod.mk.injEq] at view
    obtain ⟨rfl, held, after⟩ := view
    have reaches := Activity.Reaches.of_follow followed
    exact ⟨a, asValue, arguments, bindings, s, t, reaches, task, bound, entered,
      (calls_framed filledLocal {} {} reaches task rfl bound).1.of_ok entered, held, after⟩
  next => cases seen

end Pseudocode
