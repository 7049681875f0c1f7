import Pseudocode.Proofs.ScopeNames

/-! The symbols in the scopes of a check. A scope grows at its end until it is left, so what is found in it at
a moment is found in it when it is left. Without errors every declaration in its code is found there
then, and it was the first of its name. -/
namespace Pseudocode

namespace SymbolTable

variable {t u : SymbolTable} {scope whole : List Symbol} {ends : List (List Symbol)} {name : String}
  {symbol : Symbol}

/-- The symbols in each scope, innermost first, without the marks. -/
def scopes (t : SymbolTable) : List (List Symbol) := t.plain.inner ++ [t.plain.globals]

theorem scopes_eq (t : SymbolTable) : t.scopes = t.plain.current :: t.scopes.tail := by
  obtain ⟨inner, globals⟩ := t
  cases inner <;> rfl

theorem scopes_enter (t : SymbolTable) : t.enter.scopes = [] :: t.scopes := rfl

theorem scopes_setCurrent (t : SymbolTable) (scope : List Symbol) :
    (t.setCurrent scope).scopes = scope.map Symbol.plain :: t.scopes.tail := by
  obtain ⟨inner, globals⟩ := t
  cases inner <;> rfl

theorem scopes_plain (t : SymbolTable) : t.plain.scopes = t.scopes := by
  simp [scopes, plain, Symbol.plain]

/-- The scopes around the innermost one stay as they are. -/
theorem Extends.scopes (grown : t.Extends u) :
    ∃ added, u.scopes = (t.plain.current ++ added) :: t.scopes.tail := by
  obtain ⟨added, same⟩ := grown
  refine ⟨added.map Symbol.plain, ?_⟩
  rw [← scopes_plain u, same, scopes_setCurrent, scopes_plain, List.map_append, plain_current, List.map_map]
  rfl

theorem Extends.current (grown : t.Extends u) : t.plain.current <+: u.plain.current := by
  obtain ⟨added, same⟩ := grown.scopes
  rw [scopes_eq] at same
  exact ⟨added, (List.cons.inj same).1.symm⟩

/-- Each scope of the table is the beginning of the one in its place. -/
def Starts (t : SymbolTable) (ends : List (List Symbol)) : Prop :=
  ∀ (k : Nat) (scope : List Symbol), t.scopes[k]? = some scope →
    ∃ whole, ends[k]? = some whole ∧ scope <+: whole

theorem Starts.before (starts : u.Starts ends) (grown : t.Extends u) : t.Starts ends := by
  obtain ⟨added, same⟩ := grown.scopes
  intro k scope at_
  rw [scopes_eq] at at_
  cases k with
  | zero =>
    cases at_
    obtain ⟨whole, there, first⟩ := starts 0 _ (by rw [same]; rfl)
    exact ⟨whole, there, (List.prefix_append _ added).trans first⟩
  | succ k => exact starts (k + 1) scope (by rw [same]; exact at_)

/-- A scope that was entered on top of others, as it is now. -/
theorem Starts.enter (starts : t.Starts ends) (inside : t.enter.Extends u) :
    u.Starts (u.plain.current :: ends) := by
  obtain ⟨added, same⟩ := inside.scopes
  intro k scope at_
  cases k with
  | zero =>
    rw [scopes_eq] at at_
    exact ⟨_, rfl, Option.some.inj at_ ▸ List.prefix_rfl⟩
  | succ k =>
    rw [same] at at_
    exact starts k scope at_

theorem findIn_prefix (found : findIn scope name = some symbol) (first : scope <+: whole) :
    findIn whole name = some symbol := by
  obtain ⟨rest, rfl⟩ := first
  rw [findIn, List.find?_append, ← findIn, found]
  rfl

/-- What is looked up is found in the scope that has the name, now and at the end. -/
theorem Starts.found {found : Found} {k : Nat} (starts : t.Starts ends) (known : t.lookup name = some found)
    (at_ : t.depth? name = some k) :
    ∃ whole, ends[k]? = some whole ∧ findIn whole name = some found.symbol.plain := by
  rw [lookup_eq, at_] at known
  obtain ⟨symbol, inside, rfl⟩ := Option.map_eq_some_iff.mp known
  obtain ⟨scope, there, inside⟩ := Option.bind_eq_some_iff.mp inside
  have listed : t.scopes = (t.inner ++ [t.globals]).map (·.map Symbol.plain) := by simp [scopes, plain]
  obtain ⟨whole, final, first⟩ := starts k (scope.map Symbol.plain) (by rw [listed, List.getElem?_map, there]; rfl)
  exact ⟨whole, final, findIn_prefix (by rw [findIn_plain, inside]; rfl) first⟩

end SymbolTable

/-- No name is that of the type of NULL. -/
theorem DataType.ofName?_ne_null (word : String) : DataType.ofName? word ≠ some .null := by
  intro named
  have member := List.mem_of_find?_eq_some named
  contradiction

namespace Check

open SymbolTable (findIn)

variable {s t u : CheckState} {name : String} {type : Option DataType} {limit : Int}

/-- Between the two states the name has been declared in the scope: it was not known there before, and in the
end it is known there as one of the type, which is not that of NULL, or as a constant. -/
structure Settles (name : String) (type : Option DataType) (s u : CheckState) : Prop where
  new : name ∉ s.symbols.here
  known : ∃ symbol, findIn u.symbols.plain.current name = some symbol ∧
    (symbol.kind = .constant ∨ symbol.type = type ∧ type ≠ some .null)

/-- A check that stays in its scope leads on from where it began. -/
theorem Yields.onward {m : Check α} [Scoped m] (arrives : Arrives m s u) : s.Onward u := by
  obtain ⟨a, t, ran, onward⟩ := arrives
  exact ((Scoped.ends s).of_ok ran).trans onward

theorem Settles.before (settles : Settles name type t u) (onward : s.Onward t) : Settles name type s u :=
  ⟨fun known => settles.new (onward.symbols.here_mem known), settles.known⟩

section Declarations

variable (clean : u.Clean)

include clean

/-- Without errors the name of a symbol that is declared was free. -/
theorem declare_settles {place : Position} {symbol : Symbol}
    (arrives : Arrives (discard (declare place symbol)) s u) :
    symbol.name ∉ s.symbols.here ∧
      findIn u.symbols.plain.current symbol.name = some symbol.plain := by
  have arrives := yields_discard.mp arrives
  unfold declare at arrives
  obtain ⟨_, t, ran, arrives⟩ := yields_bind.mp arrives
  have same : t.symbols = s.symbols := ((checkName_only place symbol s).of_ok ran).1
  obtain ⟨_, _, ⟨⟩, arrives⟩ := yields_bind.mp arrives
  split at arrives
  next free =>
    obtain ⟨_, _, ⟨⟩, arrives⟩ := yields_bind.mp arrives
    obtain ⟨_, _, ⟨⟩, onward⟩ := arrives
    have free : findIn t.symbols.current symbol.name = none := free
    refine ⟨fun known => ?_, ?_⟩
    · rw [← same, SymbolTable.here, ← SymbolTable.findIn_isSome, free] at known
      cases known
    · have grown := SymbolTable.Extends.current onward.symbols
      rw [SymbolTable.plain_setCurrent, SymbolTable.current_setCurrent, List.map_append] at grown
      refine SymbolTable.findIn_prefix ?_ grown
      have free : findIn (t.symbols.current.map Symbol.plain) symbol.name = none := by
        rw [SymbolTable.findIn_plain, free]
        rfl
      rw [findIn, List.find?_append, ← findIn, free]
      simp [Symbol.plain]
  next existing taken =>
    have passes := (arrives.first).feeds.passes clean
    refine (passes.not_error ?_).elim
    split <;> rfl

theorem namedType_eq {place : Position} {word : String} (ran : namedType place word s = .ok type t)
    (onward : t.Onward u) : ∃ known, DataType.ofName? word = some known ∧ type = some known := by
  have arrives : Arrives (namedType place word) s u := ⟨type, t, ran, onward⟩
  unfold namedType at arrives ran
  split at ran
  next unsupported =>
    rw [if_pos unsupported] at arrives
    exact (arrives.first.feeds.passes clean).not_error rfl |>.elim
  next supported =>
    rw [if_neg supported] at arrives
    cases named : DataType.ofName? word with
    | some known =>
      rw [named] at ran
      cases ran
      exact ⟨known, rfl, rfl⟩
    | none =>
      rw [named] at arrives
      exact (arrives.first.feeds.passes clean).not_error rfl |>.elim

theorem checkDeclaration_settles {place : Position} {typeName : String}
    (arrives : Arrives (checkDeclaration place name typeName) s u) :
    Settles name (DataType.ofName? typeName) s u := by
  obtain ⟨type, t, ran, onward, arrives⟩ := arrives.after
  obtain ⟨known, named, rfl⟩ := namedType_eq clean ran arrives.onward
  have declared := declare_settles clean arrives
  exact Settles.before ⟨declared.1, _, declared.2, .inr ⟨named.symm, DataType.ofName?_ne_null typeName⟩⟩ onward

theorem checkArrayDeclaration_settles {place : Position} {bounds : List Bound} {elementType : String}
    (arrives : Arrives (checkArrayDeclaration limit place name bounds elementType) s u) :
    Settles name (some .array) s u := by
  obtain ⟨_, t, -, onward, arrives⟩ := arrives.after
  have rest {t : CheckState} (arrives : Arrives (do
      let elementType ← namedType place elementType
      discard <| declare place
        { name, kind := .array, type := some .array, line := place.line, elementType,
          bounds := some bounds }) t u) : Settles name (some .array) t u := by
    obtain ⟨type, t, -, onward, arrives⟩ := arrives.after
    have declared := declare_settles clean arrives
    exact Settles.before ⟨declared.1, _, declared.2, .inr ⟨rfl, nofun⟩⟩ onward
  refine Settles.before ?_ onward
  dsimp only at arrives
  split at arrives
  · obtain ⟨_, t, -, onward, arrives⟩ := arrives.after
    exact (rest arrives).before onward
  · exact rest arrives

theorem checkConstant_settles {place : Position} {value : Option Expr}
    (arrives : Arrives (checkConstant place name value) s u) : Settles name type s u := by
  have rest {inferred : Inferred} {t : CheckState} (arrives : Arrives (discard <| declare place
      { name, kind := .constant, type := inferred.type, line := place.line,
        constantValue := inferred.literal }) t u) : Settles name type t u := by
    have declared := declare_settles clean arrives
    exact ⟨declared.1, _, declared.2, .inl rfl⟩
  cases value with
  | none => exact rest arrives
  | some e =>
    obtain ⟨inferred, t, -, onward, arrives⟩ := arrives.after
    exact (rest arrives).before onward

/-- The parameter is known in the scope, with its type, which is a known one. -/
def ParamKnown (param : Param) (u : CheckState) : Prop :=
  ∃ symbol type, findIn u.symbols.plain.current param.name = some symbol ∧ symbol.kind = .parameter ∧
    DataType.ofName? param.typeName = some type ∧ symbol.type = some type

theorem checkParams_known {place : Position} {params : List Param}
    (arrives : Arrives (params.forM (checkParam place)) s u) : ∀ param ∈ params, ParamKnown param u := by
  induction params generalizing s with
  | nil => exact List.forall_mem_nil _
  | cons param rest ih =>
    have first : Arrives (checkParam place param) s u := arrives.first
    obtain ⟨_, t, -, -, others⟩ := arrives.after
    refine List.forall_mem_cons.mpr ⟨?_, ih others⟩
    obtain ⟨type, t, ran, -, first⟩ := first.after
    obtain ⟨known, named, rfl⟩ := namedType_eq clean ran first.onward
    obtain ⟨_, t, -, -, declares⟩ := first.after
    exact ⟨_, known, (declare_settles clean declares).2, rfl, named, rfl⟩

end Declarations

section Code

variable {stmt : Stmt} {block : List Stmt}

/-- The statements before it stay in the scope. -/
theorem checkBlock_settles {reach : Reach} (member : stmt ∈ block)
    (each : ∀ {t}, Arrives (checkStatement limit stmt) t u → Settles name type t u)
    (arrives : Arrives (checkBlock limit reach block) s u) : Settles name type s u := by
  induction block generalizing reach s with
  | nil => cases member
  | cons first rest ih =>
    have found {reach : Reach} {t : CheckState} (arrives : Arrives (do
        checkStatement limit first
        checkBlock limit reach rest) t u) : Settles name type t u := by
      rcases List.mem_cons.mp member with rfl | member
      · exact each arrives.first
      · obtain ⟨_, t, -, onward, arrives⟩ := arrives.after
        exact (ih member arrives).before onward
    rw [checkBlock] at arrives
    dsimp only at arrives
    split at arrives
    · obtain ⟨_, t, -, onward, arrives⟩ := arrives.after
      exact (found arrives).before onward
    · exact found arrives

theorem checkBranches_settles {b : Branch Stmt} {branches : List (Branch Stmt)} {selector : Inferred}
    {seen : List (LabelKey × Nat)} (taken : b ∈ branches) (member : stmt ∈ b.body)
    (each : ∀ {t}, Arrives (checkStatement limit stmt) t u → Settles name type t u)
    (arrives : Arrives (checkBranches limit selector seen branches) s u) : Settles name type s u := by
  induction branches generalizing seen s with
  | nil => cases taken
  | cons first rest ih =>
    obtain ⟨labels, body, line⟩ := first
    rw [checkBranches] at arrives
    obtain ⟨seen, t, -, onward, arrives⟩ := arrives.after
    refine Settles.before ?_ onward
    rcases List.mem_cons.mp taken with rfl | taken
    · exact checkBlock_settles member each arrives.first
    · obtain ⟨_, w, -, onward, arrives⟩ := arrives.after
      exact (ih taken arrives).before onward

/-- After the selector of a CASE statement come its branches. -/
theorem checkStatement_caseOf {place : Position} {selector : Option Expr} {branches : List (Branch Stmt)}
    {otherwise : Option (List Stmt)} {good : CheckState → Prop}
    (yields : Yields good (checkStatement limit (.caseOf place selector branches otherwise)) s) :
    ∃ inferred t, s.Onward t ∧ Yields good (do
      checkBranches limit inferred [] branches
      checkOtherwise limit otherwise) t := by
  rw [checkStatement.eq_def] at yields
  cases selector with
  | none =>
    obtain ⟨_, t, -, onward, yields⟩ := yields.after
    exact ⟨_, t, onward, yields⟩
  | some e =>
    obtain ⟨inferred, t, -, onward, yields⟩ := yields.after
    exact ⟨inferred, t, onward, yields⟩

/-- Without errors, whatever the code of a scope declares has been declared there once it is checked. -/
theorem checkStatement_settles (clean : u.Clean) (declares : stmt.DeclaresAs name type)
    (arrives : Arrives (checkStatement limit stmt) s u) : Settles name type s u := by
  induction declares generalizing s with
  | declare =>
    rw [checkStatement] at arrives
    exact checkDeclaration_settles clean arrives
  | declareArray =>
    rw [checkStatement] at arrives
    exact checkArrayDeclaration_settles clean arrives
  | constant =>
    rw [checkStatement] at arrives
    exact checkConstant_settles clean arrives
  | thenBranch member _ ih =>
    rw [checkStatement] at arrives
    obtain ⟨_, t, -, onward, arrives⟩ := arrives.after
    exact (checkBlock_settles member ih arrives.first).before onward
  | elseBranch taken member _ ih =>
    rw [checkStatement, taken] at arrives
    obtain ⟨_, t, -, onward, arrives⟩ := arrives.after
    obtain ⟨_, w, -, further, arrives⟩ := arrives.after
    rw [checkOtherwise] at arrives
    exact (checkBlock_settles member ih arrives).before (onward.trans further)
  | whileDo member _ ih =>
    rw [checkStatement] at arrives
    obtain ⟨_, t, -, onward, arrives⟩ := arrives.after
    exact (checkBlock_settles member ih arrives).before onward
  | repeatUntil member _ ih =>
    rw [checkStatement] at arrives
    exact checkBlock_settles member ih arrives.first
  | branch taken member _ ih =>
    obtain ⟨selector, t, onward, arrives⟩ := checkStatement_caseOf arrives
    exact (checkBranches_settles taken member ih arrives.first).before onward
  | otherwise taken member _ ih =>
    obtain ⟨selector, t, onward, arrives⟩ := checkStatement_caseOf arrives
    obtain ⟨_, w, -, further, arrives⟩ := arrives.after
    rw [taken, checkOtherwise] at arrives
    exact (checkBlock_settles member ih arrives).before (onward.trans further)

theorem Yields.settles {piece : Piece} (arrives : Arrives (piece.check limit) s u) (clean : u.Clean)
    (declared : DeclaredAs piece.stmts name type) : Settles name type s u := by
  obtain ⟨stmt, member, declares⟩ := declared
  have each {t : CheckState} : Arrives (checkStatement limit stmt) t u → Settles name type t u :=
    checkStatement_settles clean declares
  cases piece with
  | stmt s =>
    cases List.mem_singleton.mp member
    exact each arrives
  | block reach ss => exact checkBlock_settles member each arrives
  | branches selector seen bs =>
    obtain ⟨b, taken, inside⟩ := List.mem_flatMap.mp member
    exact checkBranches_settles taken inside each arrives
  | whileLoop place condition body =>
    obtain ⟨_, t, -, onward, arrives⟩ := arrives.after
    exact (checkBlock_settles member each arrives).before onward
  | repeatLoop place body condition => exact checkBlock_settles member each arrives.first
  | forLoop body => exact checkBlock_settles member each arrives
  | _ => cases member

end Code

section Openers

variable {body : List Stmt} (clean : u.Clean) (arrives : Arrives (checkBlock limit .live body) t u)

include clean arrives

/-- A name that is known when the check of a block begins is not declared by the block. -/
theorem not_declared (known : name ∈ t.symbols.here) : ¬Declared body name := by
  rintro ⟨stmt, member, declares⟩
  obtain ⟨type, declares⟩ := declares.typed
  have whole : Arrives ((Piece.block .live body).check limit) t u := arrives
  exact (whole.settles clean ⟨stmt, member, declares⟩).new known

/-- The counter of a FOR loop is a variable in the scope of the loop. -/
theorem openLoop_counter {place : Position} {counter : String} {start stop : Expr} {step : Option Expr}
    (opened : openLoop place (some counter) (some start) (some stop) step s = .ok () t) :
    (∃ symbol, findIn u.symbols.plain.current counter = some symbol ∧ symbol.kind = .variable) ∧
      ¬Declared body counter := by
  have known := ((openLoop_opens place _ _ _ step s).of_ok opened).choose_spec.2.2 counter (.head _)
  refine ⟨?_, not_declared clean arrives known⟩
  have counted {type : Option DataType} {e : CheckState} (declares : Arrives (discard <| declare place
      { name := counter, kind := .variable, type, line := place.line, used := true }) e u) :
      ∃ symbol, findIn u.symbols.plain.current counter = some symbol ∧ symbol.kind = .variable :=
    ⟨_, (declare_settles clean declares).2, rfl⟩
  have whole : Arrives (openLoop place (some counter) (some start) (some stop) step) s u :=
    ⟨_, t, opened, arrives.onward⟩
  unfold openLoop at whole
  obtain ⟨_, _, -, -, whole⟩ := whole.after
  obtain ⟨_, _, -, -, whole⟩ := whole.after
  cases step with
  | none =>
    obtain ⟨_, _, ⟨⟩, whole⟩ := yields_bind.mp whole
    exact counted whole
  | some step =>
    obtain ⟨_, _, -, -, whole⟩ := whole.after
    obtain ⟨_, _, ⟨⟩, whole⟩ := yields_bind.mp whole
    exact counted whole

/-- The parameters of a routine are known in its scope with their types, which are known ones. -/
theorem openRoutine_params {r : Routine Stmt} {registered : Option Symbol}
    (opened : openRoutine r registered s = .ok () t) : ∀ param ∈ r.params, ParamKnown param u := by
  have whole : Arrives (openRoutine r registered) s u := ⟨_, t, opened, arrives.onward⟩
  obtain ⟨_, _, ⟨⟩, whole⟩ := yields_bind.mp whole
  obtain ⟨_, _, ⟨⟩, whole⟩ := yields_bind.mp whole
  exact checkParams_known clean whole

end Openers

section Scopes

/-- The check of a FOR loop leaves the scope of its body for the one around it. -/
theorem checkStatement_loop {place : Position} {counter : Option String} {start stop step : Option Expr}
    {body : List Stmt} (opened : openLoop place counter start stop step s = .ok () t)
    (arrives : Arrives (checkStatement limit (.forLoop place counter start stop step body)) s u) :
    ∃ v w, s.Onward v ∧ v.symbols.enter.Extends t.symbols ∧ v.symbols.Extends u.symbols ∧
      checkBlock limit .live body t = .ok () w ∧ w.Kept u := by
  rw [checkStatement_forLoop] at arrives
  obtain ⟨_, _, ran, arrives⟩ := yields_bind.mp arrives
  cases ran.symm.trans opened
  obtain ⟨_, w, ran, arrives⟩ := yields_bind.mp arrives
  obtain ⟨_, x, left, back⟩ := arrives
  obtain ⟨v, onward, entered, -⟩ := (openLoop_opens place counter start stop step s).of_ok opened
  have inside : v.symbols.enter.Extends w.symbols := entered.trans ((Scoped.ends t).of_ok ran).symbols
  obtain ⟨same, kept⟩ := (Leaves.ends v.symbols w inside).of_ok left
  exact ⟨v, w, onward, entered, (SymbolTable.Extends.of_plain same).trans back.symbols, ran, kept.trans back.kept⟩

theorem openRoutine_enters {r : Routine Stmt} {registered : Option Symbol}
    (opened : openRoutine r registered s = .ok () t) : s.symbols.enter.Extends t.symbols := by
  obtain ⟨_, _, ⟨⟩, opened⟩ := bind_eq_ok.mp opened
  obtain ⟨_, _, ⟨⟩, declared⟩ := bind_eq_ok.mp opened
  exact ((Scoped.ends _).of_ok declared).symbols

/-- The main program is checked with the routines registered. -/
def checkMain (limit : Int) (p : Program) : Check Unit := do
  discard <| p.routines.mapM register
  checkBlock limit .live p.body

/-- A routine is checked in a scope on top of the global one as the main program leaves it. -/
theorem upToRoutine_opens {p : Program} {k : Nat} {r : Routine Stmt} (found : p.routines[k]? = some r)
    (main : checkMain limit p .initial = .ok () u) (ran : upToRoutine limit p k .initial = .ok () s) :
    ∃ t symbol, t.symbols.plain = u.symbols.plain ∧ openRoutine r symbol t = .ok () s := by
  obtain ⟨registered, v, first, ran⟩ := bind_eq_ok.mp ran
  obtain ⟨_, w, checked, ran⟩ := bind_eq_ok.mp ran
  obtain ⟨_, t, before, opened⟩ := bind_eq_ok.mp ran
  obtain ⟨_, _, same, main⟩ := bind_eq_ok.mp main
  obtain ⟨_, _, same, ⟨⟩⟩ := bind_eq_ok.mp same
  cases first.symm.trans same
  cases checked.symm.trans main
  have count := ((mapM_registers p.routines .initial).of_ok first).1
  obtain ⟨inside, rfl⟩ := List.getElem?_eq_some_iff.mp found
  rw [List.getElem?_eq_getElem (by simpa [count] using inside), List.getElem_zip] at opened
  exact ⟨t, _, (checkRoutines_plain _ u).of_ok before, opened⟩

end Scopes

end Check

end Pseudocode
