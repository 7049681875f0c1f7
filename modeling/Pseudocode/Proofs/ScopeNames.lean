import Pseudocode.Proofs.Inspection
import Pseudocode.Proofs.RoutineChecks

/-! The names in the scopes of a check, innermost first. A check of code adds names to the innermost scope;
the check of a FOR loop opens a scope with its counter, that of a routine one with its parameters, on
top of the global scope as the main program leaves it. -/
namespace Pseudocode

namespace SymbolTable

variable {t u : SymbolTable}

/-- The names in each scope, innermost first. -/
def names (t : SymbolTable) : List (List String) := (t.inner ++ [t.globals]).map (·.map Symbol.name)

/-- The names in the innermost scope. -/
def here (t : SymbolTable) : List String := t.current.map Symbol.name

theorem map_name_plain (scope : List Symbol) :
    (scope.map Symbol.plain).map Symbol.name = scope.map Symbol.name := by
  rw [List.map_map]
  rfl

theorem names_plain (t : SymbolTable) : t.plain.names = t.names := by
  simp [names, plain, Symbol.plain]

theorem here_plain (t : SymbolTable) : t.plain.here = t.here := by
  rw [here, plain_current, map_name_plain, here]

theorem names_eq (t : SymbolTable) : t.names = t.here :: t.names.tail := by
  obtain ⟨inner, globals⟩ := t
  cases inner <;> rfl

theorem names_setCurrent (t : SymbolTable) (scope : List Symbol) :
    (t.setCurrent scope).names = scope.map Symbol.name :: t.names.tail := by
  obtain ⟨inner, globals⟩ := t
  cases inner <;> rfl

theorem names_enter (t : SymbolTable) : t.enter.names = [] :: t.names := rfl

/-- The scopes around the innermost one stay as they are. -/
theorem Extends.names (grown : t.Extends u) : ∃ added, u.names = (t.here ++ added) :: t.names.tail := by
  obtain ⟨added, same⟩ := grown
  refine ⟨added.map Symbol.name, ?_⟩
  rw [← names_plain u, same, names_setCurrent, names_plain, List.map_append, ← here_plain t, SymbolTable.here]

theorem Extends.here_mem (grown : t.Extends u) {name : String} (known : name ∈ t.here) : name ∈ u.here := by
  obtain ⟨added, names⟩ := grown.names
  rw [names_eq u] at names
  rw [(List.cons.inj names).1]
  exact List.mem_append_left _ known

/-- The position of the innermost scope that has the name. -/
def depth? (t : SymbolTable) (name : String) : Option Nat := t.names.findIdx? (name ∈ ·)

theorem findIn_isSome {scope : List Symbol} {name : String} :
    (findIn scope name).isSome ↔ name ∈ scope.map Symbol.name := by
  simp [findIn, List.find?_isSome]

theorem depth?_globals (globals : List Symbol) (name : String) :
    depth? ⟨[], globals⟩ name = if (findIn globals name).isSome then some 0 else none := by
  simp only [depth?, names, List.nil_append, List.map_cons, List.map_nil, List.findIdx?_cons, List.findIdx?_nil,
    findIn_isSome, decide_eq_true_eq, Option.map_none]

theorem depth?_cons (scope : List Symbol) (outer : List (List Symbol)) (globals : List Symbol) (name : String) :
    depth? ⟨scope :: outer, globals⟩ name =
      if (findIn scope name).isSome then some 0 else (depth? ⟨outer, globals⟩ name).map (· + 1) := by
  simp only [depth?, names, List.cons_append, List.map_cons, List.findIdx?_cons, findIn_isSome,
    decide_eq_true_eq]

/-- A name is looked up in the innermost scope that has it; the outermost one is the global scope. -/
theorem lookup_eq (t : SymbolTable) (name : String) :
    t.lookup name = (t.depth? name).bind fun k =>
      (((t.inner ++ [t.globals])[k]?).bind (findIn · name)).map (⟨·, k == t.level⟩) := by
  obtain ⟨inner, globals⟩ := t
  induction inner with
  | nil =>
    rw [depth?_globals]
    cases found : findIn globals name <;> simp [lookup, level, found]
  | cons scope outer ih =>
    rw [depth?_cons]
    cases found : findIn scope name with
    | none =>
      have same : lookup ⟨scope :: outer, globals⟩ name = lookup ⟨outer, globals⟩ name := by
        simp [lookup, found]
      rw [same, ih]
      cases depth? ⟨outer, globals⟩ name <;> simp [level]
    | some symbol => simp [lookup, level, found]

end SymbolTable

namespace Check

section Openers

variable {s : CheckState}

/-- However a declaration ends, the name stands in the innermost scope. -/
theorem declare_here (place : Position) (symbol : Symbol) (s : CheckState) :
    Ends (declare place symbol) s (fun _ t => s.Onward t ∧ symbol.name ∈ t.symbols.here) fun _ _ => True := by
  have current (t : SymbolTable) (scope : List Symbol) : (t.setCurrent scope).here = scope.map Symbol.name := by
    rw [SymbolTable.here, SymbolTable.current_setCurrent]
  have stands : Ends (declare place symbol) s (fun _ t => symbol.name ∈ t.symbols.here) fun _ _ => True := by
    unfold declare
    refine ends_bind_of_forall fun _ t => ?_
    rw [ends_bind, ends_get]
    split
    next free =>
      show symbol.name ∈ (t.symbols.setCurrent (t.symbols.current ++ [symbol])).here
      rw [current]
      simp
    next existing taken =>
      obtain ⟨member, same⟩ := SymbolTable.findIn_some taken
      exact List.mem_map.mpr ⟨existing, member, same⟩
  have onward : Ends (declare place symbol) s (fun _ t => s.Onward t) fun _ _ => True := Scoped.ends s
  exact (onward.and stands).mono (fun _ _ both => both) fun _ _ _ => trivial

/-- However it ends well, the check is in the scope that it began in, which has these names. -/
def Introduces (names : List String) (m : Check α) : Prop :=
  ∀ s, Ends m s (fun _ t => s.Onward t ∧ ∀ name ∈ names, name ∈ t.symbols.here) fun _ _ => True

theorem introduces_declare (place : Position) (symbol : Symbol) :
    Introduces [symbol.name] (discard (declare place symbol)) := by
  refine fun s => ends_discard.mpr ((declare_here place symbol s).mono (fun _ _ both => ⟨both.1, ?_⟩)
    fun _ _ _ => trivial)
  simpa using both.2

theorem Introduces.after {names : List String} {m : Check α} {next : α → Check β} [Scoped m]
    (rest : ∀ a, Introduces names (next a)) : Introduces names (m >>= next) := by
  refine fun s => ends_bind.mpr ((Scoped.ends (m := m) s).mono (fun a t before => ?_) fun _ _ _ => trivial)
  exact (rest a t).mono (fun _ _ both => ⟨before.trans both.1, both.2⟩) fun _ _ _ => trivial

theorem introduces_forM {f : α → Check PUnit} {name : α → String} (all : List α)
    (each : ∀ a, Introduces [name a] (f a)) : Introduces (all.map name) (all.forM f) := by
  induction all with
  | nil => exact fun s => ⟨.refl s, nofun⟩
  | cons a rest ih =>
    refine fun s => ends_bind.mpr ((each a s).mono (fun _ t before => ?_) fun _ _ _ => trivial)
    refine (ih t).mono (fun _ u after => ⟨before.1.trans after.1, ?_⟩) fun _ _ _ => trivial
    exact List.forall_mem_cons.mpr ⟨after.1.symbols.here_mem (before.2 _ (.head _)), after.2⟩

/-- From a state of a check to one in a scope that was opened with some names. -/
def Opened (names : List String) (s t : CheckState) : Prop :=
  ∃ u, s.Onward u ∧ u.symbols.enter.Extends t.symbols ∧ ∀ name ∈ names, name ∈ t.symbols.here

theorem Opened.names {names : List String} {t : CheckState} (opened : Opened names s t) :
    ∃ here added, t.symbols.names = here :: (s.symbols.here ++ added) :: s.symbols.names.tail ∧
      ∀ name ∈ names, name ∈ here := by
  obtain ⟨u, onward, entered, known⟩ := opened
  obtain ⟨added, same⟩ := onward.symbols.names
  obtain ⟨more, names⟩ := entered.names
  refine ⟨t.symbols.here, added, ?_, known⟩
  rw [SymbolTable.names_eq, names, SymbolTable.names_enter, List.tail_cons, List.tail_cons, same]

/-- However it ends well, the check has opened a scope with these names. -/
def Opens (names : List String) (m : Check Unit) : Prop :=
  ∀ s, Ends m s (fun _ t => Opened names s t) fun _ _ => True

theorem opens_bind {names : List String} {m : Check α} {next : α → Check Unit} [Scoped m]
    (rest : ∀ a, Opens names (next a)) : Opens names (m >>= next) := by
  refine fun s => ends_bind.mpr ((Scoped.ends (m := m) s).mono (fun a t before => ?_) fun _ _ _ => trivial)
  refine (rest a t).mono (fun _ v opened => ?_) fun _ _ _ => trivial
  obtain ⟨u, onward, opened⟩ := opened
  exact ⟨u, before.trans onward, opened⟩

theorem opens_enter : Opens [] enterScope := fun s => ⟨s, .refl s, .refl _, nofun⟩

/-- Names are declared in a scope that was just entered. -/
theorem opens_enter_bind {names : List String} {next : Unit → Check Unit} (inside : Introduces names (next ())) :
    Opens names (enterScope >>= next) :=
  fun s => (inside { s with symbols := s.symbols.enter }).mono
    (fun _ _ both => ⟨s, .refl s, both.1.symbols, both.2⟩) fun _ _ _ => trivial

/-- The scope of a FOR loop has the counter, if the loop has all of its header. -/
theorem openLoop_opens (place : Position) (counter : Option String) (start stop step : Option Expr) :
    Opens (if start.isSome ∧ stop.isSome then counter.toList else [])
      (openLoop place counter start stop step) := by
  have bare : Opens [] (do
      incomplete place Keyword.FOR.text
      enterScope) := opens_bind fun _ => opens_enter
  unfold openLoop
  cases counter with
  | none => simpa using bare
  | some counter => cases start with
    | none => exact bare
    | some start => cases stop with
      | none => exact bare
      | some stop =>
        refine opens_bind fun _ => opens_bind fun _ => ?_
        cases step <;>
        · refine opens_bind fun _ => opens_enter_bind ?_
          exact introduces_declare place _

/-- The scope of a routine has its parameters. -/
theorem openRoutine_opens (r : Routine Stmt) (registered : Option Symbol) :
    Opens (r.params.map Param.name) (openRoutine r registered) := by
  have (symbol : Symbol) : Scoped (modify fun s : CheckState => { s with routine := some symbol }) :=
    scoped_modify fun _ => ⟨rfl, rfl⟩
  refine opens_bind fun _ => opens_enter_bind (introduces_forM r.params fun p => ?_)
  exact .after fun _ => .after fun _ => introduces_declare _ _

end Openers

section Programs

variable {limit : Int} {s : CheckState}

theorem checkStatement_forLoop (limit : Int) (place : Position) (counter : Option String)
    (start stop step : Option Expr) (body : List Stmt) :
    checkStatement limit (.forLoop place counter start stop step body) = (do
      openLoop place counter start stop step
      checkBlock limit .live body
      leaveScope) := by
  rw [checkStatement.eq_def]
  unfold openLoop
  cases counter with
  | none => simp only [bind_assoc]
  | some counter => cases start with
    | none => simp only [bind_assoc]
    | some start => cases stop with
      | none => simp only [bind_assoc]
      | some stop => cases step <;> simp only [bind_assoc]

theorem keeps_of_scoped [Scoped m] : Keeps m :=
  fun s => (Scoped.ends s).mono (fun _ _ onward => onward.kept) fun _ _ _ => trivial

theorem Keeps.bind {m : Check α} {next : α → Check β} (first : Keeps m) (rest : ∀ a, Keeps (next a)) :
    Keeps (m >>= next) := by
  refine fun s => ends_bind.mpr ((first s).mono (fun a t before => ?_) fun _ _ _ => trivial)
  exact (rest a t).mono (fun _ _ after => before.trans after) fun _ _ _ => trivial

theorem keeps_forM {f : α → Check PUnit} (each : ∀ a, Keeps (f a)) (all : List α) : Keeps (all.forM f) := by
  induction all with
  | nil => exact fun s => .refl s
  | cons a rest ih => exact (each a).bind fun _ => ih

theorem checkRoutine_eq (limit : Int) (r : Routine Stmt) (registered : Option Symbol) :
    ∃ rest : Check Unit, Keeps rest ∧ checkRoutine limit r registered = (do
      openRoutine r registered
      checkBlock limit .live r.body
      rest) := by
  have closes : Keeps (leaveScope >>= fun _ => modify fun s => { s with routine := none } : Check PUnit) :=
    leaveScope_keeps.bind fun _ s => .refl s
  let symbol := registered.getD
    { name := r.name.getD "?", kind := .ofRoutine r.kind, line := r.position.line, params := r.params }
  refine ⟨do
    if symbol.kind = .function ∧ !blockTerminates r.body then
      report r.position (.missingReturn symbol.name)
    leaveScope
    modify fun s => { s with routine := none }, ?_, ?_⟩
  · split
    · exact keeps_of_scoped.bind fun _ => closes
    · exact closes
  · unfold checkRoutine openRoutine
    simp only [bind_assoc]
    rfl

theorem checkRoutine_keeps (limit : Int) (r : Routine Stmt) (registered : Option Symbol) :
    Keeps (checkRoutine limit r registered) :=
  fun s => (checkRoutine_ends limit r registered s).mono (fun _ _ back => back.2.2) fun _ _ _ => trivial

instance : Scoped (register r) := by
  unfold register
  split
  · infer_instance
  · split <;> infer_instance

theorem scoped_mapM {f : α → Check β} [∀ a, Scoped (f a)] (all : List α) : Scoped (all.mapM f) := by
  induction all with
  | nil => exact inferInstanceAs (Scoped (pure [] : Check (List β)))
  | cons a rest ih =>
    rw [List.mapM_cons]
    infer_instance

/-- Once the routines are registered there is the global scope alone. -/
theorem registered_names {p : Program} {registered : List (Option Symbol)}
    (ran : p.routines.mapM register .initial = .ok registered s) : s.symbols.names = [s.symbols.here] := by
  have := scoped_mapM (f := register) p.routines
  obtain ⟨added, names⟩ := ((Scoped.ends (m := p.routines.mapM register) .initial).of_ok ran).symbols.names
  rw [SymbolTable.names_eq, names]
  rfl

/-- In a check of a program that ends well, the check of the main program ends well. -/
theorem Yields.main {p : Program} {good : CheckState → Prop} [CheckState.Lasting good]
    (yields : Yields good (checkProgram limit p) .initial) :
    ∃ registered s, p.routines.mapM register .initial = .ok registered s ∧
      Yields good (checkBlock limit .live p.body) s := by
  obtain ⟨registered, s, ran, yields⟩ := yields_bind.mp yields
  refine ⟨registered, s, ran, yields.before fun _ => Keeps.bind (keeps_forM ?_ _) fun _ => keeps_of_scoped⟩
  exact fun (entry : Routine Stmt × Option Symbol) => checkRoutine_keeps limit entry.1 entry.2

/-- The check of routines leaves no symbol behind. -/
theorem checkRoutines_plain (all : List (Routine Stmt × Option Symbol)) (s : CheckState) :
    Ends (all.forM fun entry => checkRoutine limit entry.1 entry.2) s
      (fun _ t => t.symbols.plain = s.symbols.plain) fun _ _ => True := by
  induction all generalizing s with
  | nil => exact rfl
  | cons entry rest ih =>
    refine ends_bind.mpr ((checkRoutine_ends limit entry.1 entry.2 s).mono (fun _ t back => ?_) fun _ _ _ => trivial)
    exact (ih t).mono (fun _ u same => same.trans back.2.1) fun _ _ _ => trivial

/-- In a check of a program that ends well, so does that of the body of each routine; it is checked in a scope
of its own that has the parameters. -/
theorem Yields.routine {p : Program} {good : CheckState → Prop} [CheckState.Lasting good]
    (yields : Yields good (checkProgram limit p) .initial) {k : Nat} {r : Routine Stmt}
    (found : p.routines[k]? = some r) :
    ∃ s, upToRoutine limit p k .initial = .ok () s ∧ Yields good (checkBlock limit .live r.body) s ∧
      ∃ here globals, s.symbols.names = [here, globals] ∧ ∀ name ∈ r.params.map Param.name, name ∈ here := by
  let checkEntry (entry : Routine Stmt × Option Symbol) : Check Unit := checkRoutine limit entry.1 entry.2
  have keeps (all : List (Routine Stmt × Option Symbol)) : Keeps (all.forM checkEntry) :=
    keeps_forM (fun entry => checkRoutine_keeps limit entry.1 entry.2) all
  obtain ⟨registered, s, ran, yields⟩ := yields_bind.mp yields
  obtain ⟨_, t, checked, yields⟩ := yields_bind.mp yields
  have count := ((mapM_registers p.routines .initial).of_ok ran).1
  obtain ⟨inside, rfl⟩ := List.getElem?_eq_some_iff.mp found
  have apart (all others : List (Routine Stmt × Option Symbol)) :
      (all ++ others).forM checkEntry = all.forM checkEntry >>= fun _ => others.forM checkEntry :=
    List.forM_append
  -- The routines before it have been checked, which leaves no names behind.
  have split : p.routines.zip registered = (p.routines.zip registered).take k ++
      (p.routines[k], registered[k]) :: (p.routines.zip registered).drop (k + 1) := by
    rw [← List.getElem_zip (h := by simpa [count] using inside), List.getElem_cons_drop, List.take_append_drop]
  have yields : Yields good ((p.routines.zip registered).forM checkEntry) t :=
    yields.before fun _ => keeps_of_scoped
  rw [split, apart] at yields
  obtain ⟨_, u, before, yields⟩ := yields_bind.mp yields
  have yields : Yields good (checkRoutine limit p.routines[k] registered[k]) u := yields.before fun _ => keeps _
  obtain ⟨rest, restKeeps, same⟩ := checkRoutine_eq limit p.routines[k] registered[k]
  rw [same] at yields
  obtain ⟨_, v, opened, yields⟩ := yields_bind.mp yields
  refine ⟨v, ?_, yields.before fun _ => restKeeps, ?_⟩
  · refine (bind_of_ok ran).trans ((bind_of_ok checked).trans ((bind_of_ok before).trans ?_))
    rw [List.getElem?_eq_getElem (by simpa [count] using inside), List.getElem_zip]
    exact opened
  · obtain ⟨added, grown⟩ := ((Scoped.ends (m := checkBlock limit .live p.body) s).of_ok checked).symbols.names
    have alone : u.symbols.names.tail = [] := by
      rw [← SymbolTable.names_plain u.symbols, (checkRoutines_plain _ t).of_ok before, SymbolTable.names_plain,
        grown, registered_names ran]
      rfl
    obtain ⟨here, more, names, known⟩ := ((openRoutine_opens _ _ u).of_ok opened).names
    rw [alone] at names
    exact ⟨here, _, names, known⟩

end Programs

end Check

end Pseudocode
