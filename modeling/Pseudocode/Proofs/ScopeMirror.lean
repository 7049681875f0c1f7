import Pseudocode.Proofs.Abreast
import Pseudocode.Proofs.ReviewedCode
import Pseudocode.Proofs.ScopeNames

/-! Scopes of a check and frames of a run. In a program that is checked without errors, the environment of
every activity has a frame for each scope of what the check inspects there. A frame can have names that its
scope has not: those that the code of the scope declares at another place, and those that were given when
no frame had them. -/
namespace Pseudocode

namespace Memory

variable {m n : Memory} {env outer : Environment} {names : List (List String)} {bodies : List (List Stmt)}
  {name : String} {frame : FrameId} {given : String → Option DataType → Prop} {kept : BindingId → Prop}

/-- The position of the innermost frame that has the name. -/
def depth? (m : Memory) (env : Environment) (name : String) : Option Nat :=
  env.findIdx? fun frame => (m.findIn frame name).isSome

theorem depth?_cons (m : Memory) (frame : FrameId) (outer : Environment) (name : String) :
    m.depth? (frame :: outer) name =
      if (m.findIn frame name).isSome then some 0 else (m.depth? outer name).map (· + 1) := by
  rw [depth?, List.findIdx?_cons]
  rfl

/-- A name is looked up in the innermost frame that has it. -/
theorem find_eq (m : Memory) (env : Environment) (name : String) :
    m.find env name = (m.depth? env name).bind fun k => (env[k]?).bind (m.findIn · name) := by
  induction env with
  | nil => rfl
  | cons frame outer ih =>
    rw [find, depth?_cons]
    cases here : m.findIn frame name with
    | some i => simp [here]
    | none => cases further : m.depth? outer name <;> simp [ih, further]

/-- The frames have no names but those of the scopes: such as the code of the scope declares, such as the
check knows there at this place, and such as no frame around has. -/
inductive Mirrors (m : Memory) : Environment → List (List String) → List (List Stmt) → Prop
  | nil : Mirrors m [] [] []
  | cons {frame : FrameId} {outer : Environment} {here : List String} {names : List (List String)}
      {body : List Stmt} {bodies : List (List Stmt)} : frame ∉ outer →
      (∀ name, m.findIn frame name ≠ none →
        Declared body name ∨ name ∈ here ∨ m.find outer name = none) →
      Mirrors m outer names bodies → Mirrors m (frame :: outer) (here :: names) (body :: bodies)

theorem Mirrors.length (mirrors : m.Mirrors env names bodies) :
    env.length = bodies.length ∧ names.length = bodies.length := by
  induction mirrors with
  | nil => exact ⟨rfl, rfl⟩
  | cons apart named rest ih => exact ⟨congrArg (· + 1) ih.1, congrArg (· + 1) ih.2⟩

theorem Mirrors.still (mirrors : m.Mirrors env names bodies)
    (same : ∀ frame ∈ env, ∀ name, n.findIn frame name = m.findIn frame name) :
    n.Mirrors env names bodies := by
  induction mirrors with
  | nil => exact .nil
  | cons apart named rest ih =>
    have outer := fun f member => same f (.tail _ member)
    refine .cons apart (fun name there => ?_) (ih outer)
    rw [same _ (.head _)] at there
    rw [find_congr outer]
    exact named name there

/-- What is done where the code of the innermost scope stands gives names that the code declares, and names
that no frame has. -/
theorem Mirrors.later (mirrors : m.Mirrors env names bodies) (here : m.Local given kept env n)
    (inside : ∀ frame ∈ env, frame < m.frames.size)
    (gives : ∀ name type, given name type →
      (∀ body ∈ bodies.head?, Declared body name) ∨ m.find env name = none) :
    n.Mirrors env names bodies := by
  cases mirrors with
  | nil => exact .nil
  | cons apart named rest =>
    rename_i frame outer _ _ body _
    have same (f : FrameId) (member : f ∈ outer) (name : String) : n.findIn f name = m.findIn f name := by
      refine here.outer f (inside f (.tail _ member)) ?_ name
      rintro ⟨⟩
      exact apart member
    refine .cons apart (fun name there => ?_) (rest.still same)
    rw [find_congr same]
    rcases here.named frame rfl name with old | ⟨i, -, new, -⟩
    · exact named name (old ▸ there)
    · rcases gives name _ new with declared | missing
      · exact .inl (declared body rfl)
      · exact .inr (.inr (find_eq_none.mpr fun f member => find_eq_none.mp missing f (.tail _ member)))

/-- A check that goes on in a scope may know more names in it. -/
theorem Mirrors.grow {here added : List String} (mirrors : m.Mirrors env (here :: names) bodies) :
    m.Mirrors env ((here ++ added) :: names) bodies := by
  cases mirrors with
  | cons apart named rest =>
    exact .cons apart (fun name there => (named name there).imp_right
      fun known => known.imp_left (List.mem_append_left _)) rest

/-- If the check finds a name in a scope whose frame has it, then the run finds it in that frame, or else in
a frame further in whose scope has code that declares the name. -/
theorem Mirrors.found (mirrors : m.Mirrors env names bodies) {k : Nat}
    (known : names.findIdx? (name ∈ ·) = some k) (at_ : env[k]? = some frame)
    (there : m.findIn frame name ≠ none) :
    ∃ j, m.depth? env name = some j ∧ (j = k ∨ j < k ∧ ∃ body, bodies[j]? = some body ∧ Declared body name) := by
  induction mirrors generalizing k with
  | nil => cases at_
  | cons apart named rest ih =>
    rename_i f outer here _ body _
    rw [depth?_cons]
    rw [List.findIdx?_cons] at known
    cases first : m.findIn f name with
    | some i =>
      refine ⟨0, rfl, ?_⟩
      cases k with
      | zero => exact .inl rfl
      | succ k =>
        refine .inr ⟨Nat.succ_pos k, body, rfl, ?_⟩
        rcases named name (by simp [first]) with declared | known' | missing
        · exact declared
        · simp [known'] at known
        · exact (there (find_eq_none.mp missing frame (List.mem_of_getElem? at_))).elim
    | none =>
      cases k with
      | zero =>
        cases at_
        exact (there first).elim
      | succ k =>
        split at known
        · cases known
        · obtain ⟨k', further, same⟩ := Option.map_eq_some_iff.mp known
          cases same
          obtain ⟨j, found, place⟩ := ih further at_
          refine ⟨j + 1, by simp [found], place.imp (congrArg (· + 1)) fun inner => ?_⟩
          exact ⟨Nat.succ_lt_succ inner.1, inner.2⟩

end Memory

namespace Activity

variable {p : Program} {settings : Settings} {host : Host} {a b : Activity} {c : Inspection}

/-- What is known of an activity and what the check inspects there, in a program that passes. -/
structure Mirrored (p : Program) (limit : Int) (a : Activity) (c : Inspection) : Prop where
  passes : c.Passes limit
  checked : a.task.CheckedAs c.piece
  inside : a.Inside
  mirrors : a.state.memory.Mirrors a.state.env c.state.symbols.names c.scopes
  declared : ∀ body ∈ c.scopes.head?, ∀ name, Declared c.piece.stmts name → Declared body name
  outermost : a.state.env.getLast? = some 0
  wholes : p.Whole → Wholes c.piece.stmts

theorem Viewed.reaches (viewed : Viewed p settings host a c) :
    Reaches (p.context settings host) (.start p settings) a := by
  induction viewed with
  | start => exact .refl
  | here _ leads _ _ _ _ ih | loop _ leads _ _ _ ih | call _ leads _ _ _ _ ih => exact ih.tail leads

theorem Viewed.inside (viewed : Viewed p settings host a c) : a.Inside :=
  viewed.reaches.inside p.obeys_free.routines (start_sound p.obeys_free settings host) (start_inside p settings)

section Steps

variable {limit : Int} {t : RunState} {entry : Entry}

/-- What is done before a part begins keeps the environment like the scopes. -/
theorem Mirrored.goes (mirrored : Mirrored p limit a c) (goes : a.Goes t) :
    t.memory.Mirrors a.state.env c.state.symbols.names c.scopes := by
  refine mirrored.mirrors.later goes.memory (fun f member => mirrored.inside f (.tail _ member))
    fun name type given => ?_
  refine given.imp (fun declared body head => mirrored.declared body head name ?_) And.left
  rw [mirrored.checked.stmts]
  exact declared.declared

/-- A frame that was just made is none of those that there were. -/
theorem Inside.apart {env : Environment} {frame : FrameId} {names : String → BindingId → Prop} {n : Memory}
    (inside : a.Inside) (opened : a.state.memory.Opened n frame names)
    (old : ∀ f ∈ env, f ∈ 0 :: a.state.env) : frame ∉ env := by
  intro member
  exact Nat.not_lt_of_le opened.fresh (inside frame (old frame member))

theorem mirrored_start (passes : Check.Passes (Check.checkProgram limit p) .initial) (starts : c.Starts p) :
    Mirrored p limit (.start p settings) c := by
  obtain ⟨registered, s, ran, rfl⟩ := starts
  obtain ⟨_, _, ran', body⟩ := passes.main
  cases ran.symm.trans ran'
  refine ⟨body, .block p.body, start_inside p settings, ?_, ?_, rfl, id⟩
  · rw [Check.registered_names ran]
    exact .cons (List.not_mem_nil) (fun _ _ => .inr (.inr rfl)) .nil
  · rintro _ ⟨⟩ name
    exact id

/-- The part in the place of the whole. -/
theorem Mirrored.here {ctx : RunContext} {part : Check Piece} {piece : Piece} {s : CheckState}
    (mirrored : Mirrored p limit a c) (leads : Leads ctx a b) (inside : b.Inside)
    (env : b.state.env = a.state.env) (member : part ∈ c.piece.parts limit)
    (ran : part c.state = .ok piece s) (checked : b.task.CheckedAs piece) :
    Mirrored p limit b ⟨c.scopes, piece, s⟩ := by
  obtain ⟨_, _, ran', onward, passes, within⟩ := (Piece.parts_within c.piece part member).comes mirrored.passes
  cases ran.symm.trans ran'
  obtain ⟨entry, t, rfl, goes, -⟩ := leads.begins mirrored.inside limit
  obtain ⟨added, names⟩ := onward.symbols.names
  refine ⟨passes, checked, inside, ?_, fun body head name declared => ?_, ?_, fun whole => ?_⟩
  · have mirrors := mirrored.goes goes
    rw [SymbolTable.names_eq] at mirrors
    rw [env, names]
    exact mirrors.grow
  · exact mirrored.declared body head name (within.declared name declared)
  · rw [env]
    exact mirrored.outermost
  · exact within.wholes (mirrored.wholes whole)

/-- The check of a FOR loop that passes comes to its body. -/
theorem Mirrored.opens {place : Position} {counter : Option String} {start stop step : Option Expr}
    {body : List Stmt} (mirrored : Mirrored p limit a c)
    (task : a.task = .stmt (.forLoop place counter start stop step body)) :
    c.piece = .stmt (.forLoop place counter start stop step body) ∧
      ∃ s, Check.openLoop place counter start stop step c.state = .ok () s ∧
        Check.Passes (Check.checkBlock limit .live body) s := by
  have passes := mirrored.passes
  have checked := mirrored.checked
  rw [task] at checked
  unfold Inspection.Passes at passes
  cases same : c.piece with
  | stmt stmt =>
    rw [same] at checked passes
    cases checked
    rw [Piece.check, Check.checkStatement_forLoop] at passes
    obtain ⟨_, s, opened, passes⟩ := Check.yields_bind.mp passes
    exact ⟨rfl, s, opened, passes.before fun _ => Check.leaveScope_keeps⟩
  | _ =>
    rw [same] at checked
    cases checked

/-- The body of a FOR loop, in a frame and a scope of its own. -/
theorem Mirrored.loop {ctx : RunContext} {place : Position} {counter : Option String}
    {start stop step : Option Expr} {body : List Stmt} {frame : FrameId} {s : CheckState}
    (mirrored : Mirrored p limit a c) (leads : Leads ctx a b) (inside : b.Inside)
    (task : a.task = .stmt (.forLoop place counter start stop step body))
    (env : b.state.env = frame :: a.state.env)
    (ran : Check.openLoop place counter start stop step c.state = .ok () s) :
    Mirrored p limit b ⟨body :: c.scopes, .forLoop body, s⟩ := by
  obtain ⟨piece, _, ran', passes⟩ := mirrored.opens task
  cases ran.symm.trans ran'
  obtain ⟨entry, t, rfl, goes, begins⟩ := leads.begins mirrored.inside limit
  cases begins with
  | here => exact (List.cons_ne_self _ _ env.symm).elim
  | call task' => cases task.symm.trans task'
  | loop task' header opened =>
    cases task.symm.trans task'
    obtain ⟨here, added, names, known⟩ :=
      ((Check.openLoop_opens place counter start stop step c.state).of_ok ran).names
    have mirrors := mirrored.goes goes
    rw [SymbolTable.names_eq] at mirrors
    refine ⟨passes, .forLoop body, inside, ?_, ?_, ?_, fun whole => ?_⟩
    · rw [names]
      refine .cons (mirrored.inside.apart opened fun f => .tail _) (fun name there => ?_) mirrors.grow
      obtain ⟨i, named⟩ := Option.ne_none_iff_exists'.mp there
      refine .inr (.inl (known name ?_))
      rw [if_pos header, opened.named name i named]
      exact .head _
    · rintro _ ⟨⟩ name
      exact id
    · exact List.getLast?_cons.trans (by rw [mirrored.outermost]; rfl)
    · have whole := mirrored.wholes whole
      rw [piece] at whole
      have whole := whole _ (.head _)
      rw [Stmt.whole, Bool.and_eq_true] at whole
      exact blockWhole_iff.mp whole.2

/-- The body of a routine, in a frame of its own on top of the global one and a scope of its own on top of
the global one. -/
theorem Mirrored.call {ctx : RunContext} {k : Nat} {r : Routine Stmt} {s : CheckState}
    (program : Check.Passes (Check.checkProgram limit p) .initial)
    (mirrored : Mirrored p limit a c) (leads : Leads ctx a b) (inside : b.Inside)
    (calls : b.calls = r :: a.calls) (found : p.routines[k]? = some r) (ran : Check.upToRoutine limit p k .initial = .ok () s) :
    Mirrored p limit b ⟨[r.body, p.body], .block .live r.body, s⟩ := by
  obtain ⟨_, ran', passes, here, globals, names, known⟩ := program.routine found
  cases ran.symm.trans ran'
  obtain ⟨entry, t, rfl, goes, begins⟩ := leads.begins mirrored.inside limit
  cases begins with
  | here => exact (List.cons_ne_self _ _ calls.symm).elim
  | loop => exact (List.cons_ne_self _ _ calls.symm).elim
  | call _ _ opened =>
    cases calls
    refine ⟨passes, .block r.body, inside, ?_, ?_, rfl, fun whole => whole.routines r (List.mem_of_getElem? found)⟩
    · rw [names]
      refine .cons (mirrored.inside.apart opened ?_) (fun name there => ?_) ?_
      · rintro f (_ | ⟨_, ⟨⟩⟩)
        exact .head _
      · obtain ⟨i, named⟩ := Option.ne_none_iff_exists'.mp there
        exact .inr (.inl (known name (opened.named name i named)))
      · exact .cons List.not_mem_nil (fun _ _ => .inr (.inr rfl)) .nil
    · rintro _ ⟨⟩ name
      exact id

end Steps

theorem Viewed.mirrored (viewed : Viewed p settings host a c)
    (passes : Check.Passes (Check.checkProgram settings.limits.maxArrayElements p) .initial) :
    Mirrored p settings.limits.maxArrayElements a c := by
  induction viewed with
  | start starts => exact mirrored_start passes starts
  | here viewed leads env member ran checked ih =>
    exact ih.here leads (Viewed.here viewed leads env member ran checked).inside env member ran checked
  | loop viewed leads task env ran ih =>
    exact ih.loop leads (Viewed.loop viewed leads task env ran).inside task env ran
  | call viewed leads task calls found ran ih =>
    exact ih.call passes leads (Viewed.call viewed leads task calls found ran).inside calls found ran

/-- Each activity of a run of a program that passes is viewed, as long as no FOR loop has only parts of a
header. -/
theorem Reaches.viewed (reaches : Reaches (p.context settings host) (.start p settings) a)
    (passes : Check.Passes (Check.checkProgram settings.limits.maxArrayElements p) .initial)
    (whole : p.Whole) : ∃ c, Viewed p settings host a c := by
  induction reaches with
  | refl =>
    obtain ⟨registered, s, ran, -⟩ := passes.main
    exact ⟨_, .start ⟨registered, s, ran, rfl⟩⟩
  | tail reached leads ih =>
    obtain ⟨c, viewed⟩ := ih
    have mirrored := viewed.mirrored passes
    obtain ⟨entry, t, same, goes, begins⟩ :=
      leads.begins mirrored.inside settings.limits.maxArrayElements
    cases begins with
    | here covers =>
      obtain ⟨part, member, checks⟩ := covers c.piece mirrored.checked (mirrored.wholes whole)
      obtain ⟨piece, s, ran, -⟩ := (Piece.parts_within c.piece part member).comes mirrored.passes
      subst same
      exact ⟨_, .here viewed leads rfl member ran ((checks _).of_ok ran)⟩
    | loop task header opened =>
      obtain ⟨-, s, ran, -⟩ := mirrored.opens task
      subst same
      exact ⟨_, .loop viewed leads task rfl ran⟩
    | call task found opened =>
      have member := List.mem_reverse.mp (List.mem_of_find?_eq_some found)
      rw [p.context_routines settings host] at member
      obtain ⟨k, inside, found⟩ := List.getElem_of_mem member
      have found := List.getElem?_eq_some_iff.mpr ⟨inside, found⟩
      obtain ⟨s, ran, -⟩ := passes.routine found
      subst same
      exact ⟨_, .call viewed leads task rfl found ran⟩

end Activity

/-- The name that an expression looks up itself: that of a variable or of an array. -/
def Expr.occurrence? : Expr → Option String
  | .name _ word | .element _ word _ => some word
  | _ => none

namespace Check

/-- The check of an expression looks a name up in this table: a name that is read at once, the name of an
array after its indices. -/
inductive LooksUp (s : CheckState) : Expr → String → SymbolTable → Prop
  | name {place : Position} {name : String} : LooksUp s (.name place name) name s.symbols
  | element {place : Position} {array : String} {es : List Expr} {inferred : List Inferred} {t : CheckState} :
      inferAll es s = .ok inferred t → LooksUp s (.element place array es) array t.symbols

variable {s : CheckState}

theorem LooksUp.grown {e : Expr} {name : String} {t : SymbolTable} (looks : LooksUp s e name t) :
    s.symbols.Extends t := by
  cases looks with
  | name => exact .refl _
  | element ran =>
    have := inferAll_scoped
    exact ((Scoped.ends s).of_ok ran).symbols

theorem lookup_none {t : SymbolTable} {name : String} (unknown : t.depth? name = none) : t.lookup name = none := by
  rw [SymbolTable.lookup_eq, unknown]
  rfl

/-- In a check that passes, a name that is looked up is found. -/
theorem Yields.known {e : Expr} {name : String} (passes : Passes (infer e) s) (occurs : e.occurrence? = some name) :
    ∃ t k, LooksUp s e name t ∧ t.depth? name = some k := by
  cases e with
  | name place word =>
    cases occurs
    refine ⟨s.symbols, ?_⟩
    suffices s.symbols.depth? name ≠ none by
      obtain ⟨k, known⟩ := Option.ne_none_iff_exists'.mp this
      exact ⟨k, .name, known⟩
    intro unknown
    rw [infer] at passes
    obtain ⟨_, _, ⟨⟩, passes⟩ := yields_bind.mp passes
    rw [lookup_none unknown] at passes
    exact passes.first.not_error rfl
  | element place array es =>
    cases occurs
    rw [infer] at passes
    obtain ⟨inferred, t, ran, passes⟩ := yields_bind.mp passes
    refine ⟨t.symbols, ?_⟩
    suffices t.symbols.depth? name ≠ none by
      obtain ⟨k, known⟩ := Option.ne_none_iff_exists'.mp this
      exact ⟨k, .element ran, known⟩
    intro unknown
    have passes := passes.first
    obtain ⟨_, _, ⟨⟩, passes⟩ := yields_bind.mp passes
    rw [lookup_none unknown] at passes
    exact passes.first.not_error rfl
  | _ => cases occurs

end Check

/-- The frame at this position of the environment has the name. -/
def Activity.HasAt (a : Activity) (k : Nat) (name : String) : Prop :=
  ∃ frame, a.state.env[k]? = some frame ∧ a.state.memory.findIn frame name ≠ none

/-- The code of the scope at this position declares the name somewhere. -/
def Inspection.DeclaresAt (c : Inspection) (k : Nat) (name : String) : Prop :=
  ∃ body, c.scopes[k]? = some body ∧ Declared body name

/-- A review without errors is that of a program that passes. -/
theorem Review.passes {p : Program} {limit : Int} {review : Review}
    (reviewed : Review.ofProgram limit p = .ok review) (valid : review.errors = []) :
    Check.Passes (Check.checkProgram limit p) .initial := by
  obtain ⟨final, ran, clean, -⟩ := Review.final reviewed valid
  exact ⟨(), final, ran, clean⟩

/-- Scopes are mirrored, in a program that was checked without errors. Whatever a run has come to is inspected
by the check, with a scope for each frame of the environment, the global ones outermost. A name that is
evaluated there is found by the check in one of the scopes. If the frame of that scope has the name at the
moment, then the run finds it there too, or else in a frame further in whose scope has code that declares
the name. -/
theorem scopes_mirrored (p : Program) (settings : Settings) (host : Host) (review : Review)
    (reviewed : Review.ofProgram settings.limits.maxArrayElements p = .ok review) (valid : review.errors = []) :
    (p.Whole → ∀ a, Activity.Reaches (p.context settings host) (.start p settings) a →
      ∃ c, Activity.Viewed p settings host a c) ∧
    ∀ a c, Activity.Viewed p settings host a c →
      a.task.CheckedAs c.piece ∧ a.state.env.length = c.scopes.length ∧ a.state.env.getLast? = some 0 ∧
      ∀ e name, c.piece = .expr e → e.occurrence? = some name →
        ∃ t k, Check.LooksUp c.state e name t ∧ t.names.length = c.scopes.length ∧ t.depth? name = some k ∧
          (a.HasAt k name → ∃ j, a.state.memory.depth? a.state.env name = some j ∧
            (j = k ∨ j < k ∧ c.DeclaresAt j name)) := by
  have passes := Review.passes reviewed valid
  refine ⟨fun whole a reaches => reaches.viewed passes whole, fun a c viewed => ?_⟩
  have mirrored := viewed.mirrored passes
  refine ⟨mirrored.checked, mirrored.mirrors.length.1, mirrored.outermost, fun e name piece occurs => ?_⟩
  have checks := mirrored.passes
  rw [Inspection.Passes, piece] at checks
  obtain ⟨t, k, looks, known⟩ := (Check.yields_discard.mp checks).known occurs
  -- The indices of an array are checked in the same scopes.
  obtain ⟨added, names⟩ := looks.grown.names
  have mirrors : a.state.memory.Mirrors a.state.env t.names c.scopes := by
    have mirrors := mirrored.mirrors
    rw [SymbolTable.names_eq] at mirrors
    rw [names]
    exact mirrors.grow
  refine ⟨t, k, looks, mirrors.length.2, known, ?_⟩
  rintro ⟨frame, there, has⟩
  exact mirrors.found known there has

/-- A loop that shows a global variable plus one, and then does more, two times. -/
def shownBody (more : List Stmt) : List Stmt :=
  .output ⟨3, 2⟩ [.binary ⟨3, 11⟩ .plus (.name ⟨3, 9⟩ "x") (.literal ⟨3, 13⟩ (.integer 1))] :: more

def shownTwice (more : List Stmt) : Program where
  body :=
    [.declare ⟨1, 1⟩ "x" "INTEGER",
    .forLoop ⟨2, 1⟩ (some "i") (some (.literal ⟨2, 10⟩ (.integer 1)))
      (some (.literal ⟨2, 15⟩ (.integer 2))) none (shownBody more)]

/-- The run in the loop, with these bindings and these names in the frame of the loop. -/
def RunState.inLoop (bindings : Array Binding) (names : Frame) (outputs : Array Output) (steps line : Nat) :
    RunState :=
  { RunState.initial {} with memory := ⟨#[], bindings, #[[("x", 0)], names]⟩, env := [1, 0], outputs, steps, line }

/-- The check in the loop: the global variable, and the counter in a scope of its own. -/
def CheckState.inLoop : CheckState :=
  { CheckState.initial with
    symbols := ⟨[[{ name := "i", kind := .variable, type := some .integer, line := 2, used := true }]],
      [{ name := "x", kind := .variable, type := some .integer, line := 1 }]⟩ }

namespace Activity

/-- The loop in this state. -/
def shownRound (more : List Stmt) (s : RunState) : Activity :=
  ⟨[], .forLoop 2 1 (.integer 2) (.integer 1) (shownBody more), s⟩

theorem shownTwice_viewed (more : List Stmt) : Viewed (shownTwice more) {} {}
    (shownRound more (.inLoop #[⟨.integer 0, some .integer, false⟩, ⟨.integer 1, some .integer, false⟩]
      [("i", 1)] #[] 2 2))
    ⟨[shownBody more, (shownTwice more).body], .forLoop (shownBody more), .inLoop⟩ := by
  have start : Viewed (shownTwice more) {} {} (.start (shownTwice more) {})
      ⟨[(shownTwice more).body], .block .live (shownTwice more).body, .initial⟩ := .start ⟨_, _, rfl, rfl⟩
  have rest := start.here ⟨_, .tail _ (.head _), _, _, rfl, rfl⟩ rfl (.tail _ (.head _)) rfl (.block _)
  have loop := rest.here ⟨_, .head _, _, _, rfl, rfl⟩ rfl (.head _) rfl (.stmt _)
  exact loop.loop ⟨_, .tail _ (.tail _ (.tail _ (.head _))), _, _, rfl, rfl⟩ rfl rfl rfl

variable {ctx : RunContext} {a : Activity} {line : Nat} {counter : BindingId} {last step : Number}
  {body : List Stmt} {v : Value}

/-- A FOR loop that has not ended comes to its body. -/
theorem Leads.round (task : a.task = .forLoop line counter last step body)
    (value : Run.counterValue counter a.state = .ok v a.state)
    (more : v.number?.any (Run.pastEnd · last step) = false) : Leads ctx a ⟨a.calls, .block body, a.state⟩ := by
  refine ⟨_, by rw [task]; exact .head _, ⟨a.calls, a.state.env, .block body⟩, a.state, ?_, rfl⟩
  rw [bind_assoc]
  refine (bind_of_ok value).trans ?_
  rw [pure_bind, more]
  rfl

/-- A FOR loop that has not ended comes to its next round after the body. -/
theorem Leads.nextRound {s t : RunState} (task : a.task = .forLoop line counter last step body)
    (value : Run.counterValue counter a.state = .ok v a.state)
    (more : v.number?.any (Run.pastEnd · last step) = false)
    (ran : Run.execBlock ctx (Parts.enterAt ctx a.calls) (!a.calls.isEmpty) body a.state = .ok .normal s)
    (advanced : (Run.tick ctx line >>= fun _ => Run.advance line counter step) s = .ok () t) :
    Leads ctx a ⟨a.calls, .forLoop line counter last step body, t⟩ := by
  refine ⟨_, by rw [task]; exact .tail _ (.head _), ⟨a.calls, t.env, _⟩, t, ?_, rfl⟩
  rw [bind_assoc]
  refine (bind_of_ok value).trans ?_
  rw [pure_bind, more, if_neg Bool.false_ne_true]
  refine (bind_of_ok ran).trans ?_
  dsimp only
  rw [← bind_assoc]
  exact (bind_of_ok advanced).trans rfl

/-- In each round of the loop the variable is evaluated, as it is checked. -/
theorem Viewed.shown {p : Program} {scopes : List (List Stmt)} {more : List Stmt} {s t : RunState}
    {u : CheckState} (viewed : Viewed p {} {} (shownRound more s) ⟨scopes, .forLoop (shownBody more), u⟩)
    (value : Run.counterValue 1 s = .ok v s) (goes : v.number?.any (Run.pastEnd · (.integer 2) (.integer 1)) = false)
    (begun : Run.begins (p.context {} {}) (.output ⟨3, 2⟩ []) s = .ok () t) (env : t.env = s.env) :
    Viewed p {} {} ⟨[], .expr (.name ⟨3, 9⟩ "x"), t⟩ ⟨scopes, .expr (.name ⟨3, 9⟩ "x"), u⟩ := by
  have body := viewed.here (.round rfl value goes) rfl (.head _) rfl (.block _)
  have output := body.here ⟨_, .head _, _, _, rfl, rfl⟩ rfl (.head _) rfl (.stmt _)
  have shown := output.here ⟨_, .head _, _, t, (bind_of_ok begun).trans rfl, rfl⟩ env (.head _) rfl (.shown _)
  have sum := shown.here ⟨_, .head _, _, _, rfl, rfl⟩ rfl (.head _) rfl (.expr _)
  exact sum.here ⟨_, .head _, _, _, rfl, rfl⟩ rfl (.head _) rfl (.expr _)

end Activity

/-- While nothing else is done in the loop, the variable is found in the global frame, as the check finds it
in the global scope. -/
theorem shownTwice_mirrored : ∃ a c, Activity.Viewed (shownTwice []) {} {} a c ∧
    a.task = .expr (.name ⟨3, 9⟩ "x") ∧ c.state.symbols.depth? "x" = some 1 ∧
    a.state.memory.depth? a.state.env "x" = some 1 := by
  obtain ⟨review, reviewed, valid⟩ : ∃ review,
      Review.ofProgram ({} : Settings).limits.maxArrayElements (shownTwice []) = .ok review ∧
        review.errors = [] := Review.exists_of_errors (by decide +kernel)
  have viewed := (Activity.shownTwice_viewed []).shown rfl (by decide +kernel) rfl rfl
  obtain ⟨-, -, -, occurs⟩ := (scopes_mirrored (shownTwice []) {} {} review reviewed valid).2 _ _ viewed
  obtain ⟨t, k, looks, -, known, finds⟩ := occurs _ "x" rfl rfl
  cases looks
  have global : CheckState.inLoop.symbols.depth? "x" = some 1 := by decide +kernel
  cases known.symm.trans global
  obtain ⟨j, found, rfl | ⟨inner, body, scope, stmt, member, declares⟩⟩ := finds ⟨0, rfl, by decide +kernel⟩
  · exact ⟨_, _, viewed, rfl, global, found⟩
  · cases Nat.lt_one_iff.mp inner
    cases scope
    cases List.mem_singleton.mp member
    cases declares

/-- A loop declares the variable after it has shown it. -/
def shownThenDeclared : Program := shownTwice [.declare ⟨4, 2⟩ "x" "STRING"]

/-- All rounds of a loop have one frame, so in the second round the variable that is found is the one that the
loop declared in the first, of another type. The check finds the global one there. -/
theorem shownThenDeclared_apart :
    (∃ review, Review.ofProgram ({} : Settings).limits.maxArrayElements shownThenDeclared = .ok review ∧
      review.errors = []) ∧
    (∃ a c, Activity.Viewed shownThenDeclared {} {} a c ∧ a.task = .expr (.name ⟨3, 9⟩ "x") ∧
      c.piece = .expr (.name ⟨3, 9⟩ "x") ∧ c.state.symbols.depth? "x" = some 1 ∧
      a.state.memory.depth? a.state.env "x" = some 0) ∧
    shownThenDeclared.run {} {} = .ok ⟨[.ofOutput ⟨"1", 3⟩, {
      kind := .error, line := some 3, code := some .typeMismatch
      text := "Line 3: Runtime Error - Operator '+' cannot be applied to STRING and INTEGER" }], false, 6⟩ := by
  refine ⟨Review.exists_of_errors (by decide +kernel), ?_, by decide +kernel⟩
  have first := Activity.shownTwice_viewed [.declare ⟨4, 2⟩ "x" "STRING"]
  have second := first.here (b := .shownRound [.declare ⟨4, 2⟩ "x" "STRING"] (.inLoop #[⟨.integer 0, some .integer, false⟩, ⟨.integer 2, some .integer, false⟩,
      ⟨.string "", some .string, false⟩] [("i", 1), ("x", 2)] #[⟨"1", 3⟩] 5 4))
      (.nextRound (s := .inLoop #[⟨.integer 0, some .integer, false⟩, ⟨.integer 1, some .integer, false⟩,
      ⟨.string "", some .string, false⟩] [("i", 1), ("x", 2)] #[⟨"1", 3⟩] 4 4) rfl rfl (by decide +kernel) rfl rfl) rfl (.tail _ (.head _)) rfl (.forLoop _)
  exact ⟨_, _, second.shown rfl (by decide +kernel) rfl rfl, rfl, rfl, by decide +kernel, by decide +kernel⟩

end Pseudocode
