import Pseudocode.Proofs.ScopeSymbols

/-! Arguments in a check. The symbols of a scope agree with the routines of a run as long as the scope is open,
so the arguments of a call are checked against the parameters of the routine that a run calls. A BYREF
argument that is checked without errors is a name that is found, of the type of the parameter or of one
whose values could be stored there. -/
namespace Pseudocode

namespace SymbolTable

variable {ctx : RunContext} {t u w : SymbolTable} {symbol : Symbol}

theorem Extends.has (grown : t.Extends u) (has : t.Has symbol) :
    ∃ later, u.Has later ∧ later.plain = symbol.plain := by
  obtain ⟨added, same⟩ := grown
  refine has_of_plain ?_
  rw [same]
  have has := has_plain has
  generalize t.plain = t at has
  obtain ⟨inner, globals⟩ := t
  cases inner with
  | nil =>
    obtain outer | ⟨_, ⟨⟩, _⟩ := has
    exact .inl (List.mem_append_left _ outer)
  | cons scope outer =>
    obtain global | ⟨_, _ | ⟨_, member⟩, inside⟩ := has
    · exact .inl global
    · exact .inr ⟨_, .head _, List.mem_append_left _ inside⟩
    · exact .inr ⟨_, .tail _ member, inside⟩

theorem Extends.globals (grown : t.Extends u) (member : symbol ∈ t.globals) :
    ∃ later ∈ u.globals, later.plain = symbol.plain := by
  obtain ⟨added, same⟩ := grown
  have member : symbol.plain ∈ (t.plain.setCurrent (t.plain.current ++ added)).globals := by
    have member : symbol.plain ∈ t.plain.globals := List.mem_map_of_mem member
    generalize t.plain = t at member
    obtain ⟨inner, globals⟩ := t
    cases inner with
    | nil => exact List.mem_append_left _ member
    | cons => exact member
  rw [← same] at member
  exact List.mem_map.mp member

/-- A table agrees with the routines if it does at an earlier and at a later moment of a scope. -/
theorem Agrees.between (before : t.Agrees ctx) (first : t.Extends u) (rest : u.Extends w) (after : w.Agrees ctx) :
    u.Agrees ctx where
  registered found := by
    obtain ⟨symbol, member, named⟩ := before.registered found
    obtain ⟨later, inside, same⟩ := first.globals member
    exact ⟨later, inside, (Symbol.declared_alike same).1.trans named⟩
  routines has routine := by
    obtain ⟨later, there, same⟩ := rest.has has
    obtain ⟨names, kinds, lists⟩ := Symbol.declared_alike same.symm
    obtain ⟨r, known, params, kind⟩ := after.routines there (kinds ▸ routine)
    exact ⟨r, names ▸ known, params.trans lists.symm, kind.trans kinds.symm⟩

end SymbolTable

namespace Check

variable {ctx : RunContext} {limit : Int} {s t u : CheckState}

section Openers

theorem openLoop_clears (agrees : s.symbols.Agrees ctx) (place : Position) (counter : Option String)
    (start stop step : Option Expr) :
    Clears ctx s (openLoop place counter start stop step) (fun _ => True) := by
  unfold openLoop
  have bound (part : ForPart) (e : Expr) {s : CheckState} (agrees : s.symbols.Agrees ctx) :
      Clears ctx s (checkForBound part e) (fun _ => True) :=
    (checkForBound_clears False 0 agrees part e).weaken fun _ _ => trivial
  have bare : Clears ctx s (do
      incomplete place Keyword.FOR.text
      enterScope) (fun _ => True) := by
    unfold incomplete
    exact (clears_warning agrees _ _).bind fun _ t agrees => (enterScope_clears agrees).anyway fun _ _ => trivial
  have counted {counter : String} {type : DataType} {s : CheckState} (agrees : s.symbols.Agrees ctx) :
      Clears ctx s (do
        enterScope
        discard <| declare place
          { name := counter, kind := .variable, type := some type, line := place.line, used := true })
        (fun _ => True) :=
    (enterScope_clears agrees).bind fun _ t agrees =>
      (declare_clears agrees place rfl).discard.weaken fun _ _ _ => trivial
  split
  next counter start stop =>
    refine (bound .start start agrees).bind fun _ t agrees => ?_
    refine (bound .stop stop agrees).discard.bind fun _ u agrees => ?_
    cases step with
    | none => exact (counted agrees).anyway fun _ _ _ => trivial
    | some step =>
      refine (bound .step step agrees).bind fun _ w agrees => ?_
      exact (counted agrees).anyway fun _ _ _ _ => trivial
  next => exact bare

theorem openRoutine_clears (agrees : s.symbols.Agrees ctx) (r : Routine Stmt) (registered : Option Symbol) :
    Clears ctx s (openRoutine r registered) (fun _ => True) := by
  unfold openRoutine
  refine (clears_modify agrees rfl).bind fun _ t agrees => ?_
  refine (enterScope_clears agrees).bind fun _ u agrees => ?_
  exact (clears_each r.params agrees fun param v agrees => checkParam_clears agrees r.position param).anyway
    fun _ _ _ => trivial

instance (piece : Piece) : Scoped (piece.check limit) := by
  cases piece <;> unfold Piece.check <;> infer_instance

theorem block_agrees (agrees : s.symbols.Agrees ctx) {reach : Reach} {body : List Stmt}
    (ran : checkBlock limit reach body s = .ok () t) : t.symbols.Agrees ctx :=
  ((checkBlock_clears False limit body reach agrees False.elim).of_ok ran).1

end Openers

/-- Without errors the name that is read is found. Unless it is that of a constant, nothing but its type is
known of the value. -/
theorem inferName_found {place : Position} {name : String} {value : Inferred}
    (ran : inferName place name s = .ok value t) (clean : t.Clean) :
    ∃ found, s.symbols.lookup name = some found ∧
      (found.symbol.kind ≠ .constant → value.type = found.symbol.type ∧ value.literal = none) := by
  unfold inferName at ran
  obtain ⟨_, _, ⟨⟩, ran⟩ := bind_eq_ok.mp ran
  cases known : s.symbols.lookup name with
  | none =>
    rw [known] at ran
    obtain ⟨_, _, reported, ⟨⟩⟩ := bind_eq_ok.mp ran
    exact (Yields.not_error ⟨_, _, reported, clean⟩ rfl).elim
  | some found =>
    rw [known] at ran
    obtain ⟨_, u, -, ran⟩ := bind_eq_ok.mp ran
    by_cases routine : found.symbol.kind.isRoutine
    · rw [if_pos routine] at ran
      obtain ⟨_, _, reported, ⟨⟩⟩ := bind_eq_ok.mp ran
      exact (Yields.not_error ⟨_, _, reported, clean⟩ rfl).elim
    · rw [if_neg routine] at ran
      refine ⟨found, rfl, fun notConstant => ?_⟩
      cases kind : found.symbol.kind with
      | constant => exact (notConstant kind).elim
      | _ =>
        rw [kind] at ran
        dsimp only at ran
        split at ran
        · next array =>
          cases ran
          exact ⟨array.symm, rfl⟩
        · cases ran
          exact ⟨rfl, rfl⟩

/-- Without errors a value of a type goes for a parameter of another type if the values of the one always fit
the other; if some do, the check has a warning. -/
theorem checkArgument_fits {callee : String} {param : Param} {place : Position} {value : Inferred}
    {expected given : DataType} (arrives : Arrives (checkArgument callee param place value) s u) (clean : u.Clean)
    (declared : DataType.ofName? param.typeName = some expected) (type : value.type = some given)
    (unknown : value.literal = none) (known : given ≠ .null) (other : given ≠ expected) :
    given.widensTo expected ∨ given.narrowsTo expected ∧ ∃ r ∈ u.reports, r.finding.severity = .warning := by
  have passes := arrives.feeds.passes clean
  unfold checkArgument at arrives passes
  dsimp only at arrives passes
  rw [declared] at arrives passes
  by_cases array : expected = .array
  · subst array
    rw [if_pos rfl, type] at passes
    cases given with
    | array => exact (other rfl).elim
    | null => exact (known rfl).elim
    | _ => exact (passes.not_error rfl).elim
  · rw [if_neg (by simpa using array)] at arrives passes
    by_cases whole : given = .array
    · rw [if_pos (whole ▸ type)] at passes
      exact (passes.not_error rfl).elim
    · rw [if_neg (by simpa [type] using whole)] at arrives passes
      refine Classical.or_iff_not_imp_left.mpr fun narrow => ?_
      have fit : value.fit (some expected) =
          if given.narrowsTo expected then .sometimes given expected else .never given expected := by
        simp [Inferred.fit, type, unknown, known, other, narrow]
      unfold checkAssignable at arrives passes
      rw [fit] at arrives passes
      by_cases narrows : given.narrowsTo expected
      · rw [if_pos narrows] at arrives
        obtain ⟨_, t, ⟨⟩, onward⟩ := arrives
        exact ⟨narrows, _, onward.kept _ Array.mem_push_self, rfl⟩
      · rw [if_neg narrows] at passes
        exact (passes.not_error rfl).elim

end Check

/-- What comes of the check of a piece: it comes to an end in this state, in the scope that it began in, without
errors. Each scope ends up with these symbols, and all the while the table agrees with the
routines. -/
structure Inspection.Finishes (ctx : RunContext) (limit : Int) (final : CheckState) (c : Inspection) (u : CheckState)
    (ends : List (List Symbol)) : Prop where
  arrives : Check.Arrives (c.piece.check limit) c.state u
  kept : u.Kept final
  starts : u.symbols.Starts ends
  agrees : c.state.symbols.Agrees ctx
  agreesThen : u.symbols.Agrees ctx

namespace Inspection

open Check

variable {ctx : RunContext} {limit : Int} {final u s : CheckState} {c : Inspection} {ends : List (List Symbol)}

theorem Finishes.here {part : Check Piece} {piece : Piece} (finishes : c.Finishes ctx limit final u ends)
    (member : part ∈ c.piece.parts limit) (ran : part c.state = .ok piece s) :
    (Inspection.mk c.scopes piece s).Finishes ctx limit final u ends := by
  obtain ⟨_, _, ran', onward, arrives, -⟩ := (Piece.parts_within c.piece part member).comes finishes.arrives
  cases ran.symm.trans ran'
  exact ⟨arrives, finishes.kept, finishes.starts,
    finishes.agrees.between onward.symbols arrives.onward.symbols finishes.agreesThen, finishes.agreesThen⟩

/-- Without errors what the code of a piece declares is found in the innermost scope in the end. -/
theorem Finishes.declared {name : String} {type : Option DataType} (finishes : c.Finishes ctx limit final u ends)
    (clean : final.Clean) (declared : DeclaredAs c.piece.stmts name type) :
    ∃ scope symbol, ends[0]? = some scope ∧ SymbolTable.findIn scope name = some symbol ∧
      (symbol.kind = .constant ∨ symbol.type = type ∧ type ≠ some .null) := by
  obtain ⟨-, symbol, found, known⟩ := finishes.arrives.settles (finishes.kept.clean clean) declared
  obtain ⟨scope, there, first⟩ := finishes.starts 0 _ (by rw [SymbolTable.scopes_eq]; rfl)
  exact ⟨scope, symbol, there, SymbolTable.findIn_prefix found first, known⟩

/-- The body of a FOR loop ends in a scope of its own. -/
theorem Finishes.loop {place : Position} {counter : Option String} {start stop step : Option Expr}
    {body : List Stmt} (finishes : c.Finishes ctx limit final u ends)
    (piece : c.piece = .stmt (.forLoop place counter start stop step body))
    (opened : openLoop place counter start stop step c.state = .ok () s) :
    ∃ w, (Inspection.mk (body :: c.scopes) (.forLoop body) s).Finishes ctx limit final w
      (w.symbols.plain.current :: ends) := by
  have arrives := finishes.arrives
  rw [piece] at arrives
  obtain ⟨v, w, -, entered, left, ran, kept⟩ := checkStatement_loop opened arrives
  have agrees := ((openLoop_clears finishes.agrees place counter start stop step).of_ok opened).1
  have inside : v.symbols.enter.Extends w.symbols := entered.trans ((Scoped.ends s).of_ok ran).symbols
  exact ⟨w, ⟨(), w, ran, .refl w⟩, kept.trans finishes.kept, (finishes.starts.before left).enter inside,
    agrees, block_agrees agrees ran⟩

/-- Without errors the arguments of a call are checked against the parameters of the routine that is called. -/
theorem Finishes.call {asValue : Bool} {place : Position} {callee : String} {es : List Expr} {r : Routine Stmt}
    {part : Check Piece} {piece : Piece} (finishes : c.Finishes ctx limit final u ends) (clean : final.Clean)
    (same : c.piece = .call asValue place callee es) (found : ctx.routine? callee = some r)
    (member : part ∈ c.piece.parts limit) (ran : part c.state = .ok piece s) :
    piece = .arguments callee 1 r.params es := by
  have passes : Check.Passes (c.piece.check limit) c.state := finishes.arrives.feeds.passes (finishes.kept.clean clean)
  rw [same] at passes member
  cases List.mem_singleton.mp member
  obtain ⟨_, _, ⟨⟩, ran⟩ := bind_eq_ok.mp ran
  obtain ⟨_, _, ⟨⟩, passes⟩ := yields_bind.mp (yields_discard.mp passes)
  cases known : c.state.symbols.lookup callee with
  | none =>
    obtain ⟨symbol, global, named⟩ := finishes.agrees.registered found
    exact (SymbolTable.lookup_none known symbol global named).elim
  | some result =>
    obtain ⟨symbol, isGlobal⟩ := result
    rw [known] at ran passes
    dsimp only at ran passes
    split at ran
    next routine =>
      obtain ⟨has, named⟩ := SymbolTable.lookup_some known
      obtain ⟨r', declared, params, -⟩ := finishes.agrees.routines has routine
      rw [named] at declared
      cases found.symm.trans declared
      obtain ⟨_, _, -, ran⟩ := bind_eq_ok.mp ran
      rw [params]
      split at ran
      · obtain ⟨_, _, -, ran⟩ := bind_eq_ok.mp ran
        obtain ⟨_, _, -, ⟨⟩⟩ := bind_eq_ok.mp ran
        rfl
      · obtain ⟨_, _, -, ⟨⟩⟩ := bind_eq_ok.mp ran
        rfl
    next other =>
      rw [if_neg other] at passes
      obtain ⟨_, _, -, -, passes⟩ := passes.after
      exact (passes.first.not_error rfl).elim

/-- Without errors a BYREF argument is a name that is found. If it is not that of a constant and is of another
type than the parameter, the parameter could store all values of that type, or some, with a warning. -/
theorem Finishes.reference {callee : String} {number : Nat} {param : Param} {params : List Param} {e : Expr}
    {es : List Expr} (finishes : c.Finishes ctx limit final u ends) (clean : final.Clean)
    (same : c.piece = .arguments callee number (param :: params) (e :: es)) (mode : param.mode = .byReference) :
    ∃ place name found, e = .name place name ∧ c.state.symbols.lookup name = some found ∧
      (found.symbol.kind ≠ .constant → ∀ expected given, DataType.ofName? param.typeName = some expected →
        found.symbol.type = some given → given ≠ .null → given ≠ expected →
        given.widensTo expected ∨
          given.narrowsTo expected ∧ ∃ r ∈ final.reports, r.finding.severity = .warning) := by
  have cleanThen := finishes.kept.clean clean
  have arrives := finishes.arrives
  rw [same, Piece.check, inferArguments] at arrives
  have named := arrives.first.feeds.passes cleanThen
  unfold checkReference at named
  rw [mode] at named
  cases e with
  | name place name =>
    obtain ⟨_, t, read, arrives⟩ := yields_bind.mp arrives
    unfold checkReference at read
    rw [mode] at read
    cases read
    obtain ⟨value, t, ran, -, arrives⟩ := arrives.after
    have fits : Arrives (checkArgument callee param place value) t u := arrives.first
    obtain ⟨found, known, plain⟩ := inferName_found ran (arrives.onward.kept.clean cleanThen)
    refine ⟨place, name, found, rfl, known, fun notConstant expected given declared type real other => ?_⟩
    obtain ⟨sameType, unknown⟩ := plain notConstant
    refine (checkArgument_fits fits cleanThen declared (sameType.trans type) unknown real other).imp_right ?_
    rintro ⟨narrows, r, member, warning⟩
    exact ⟨narrows, r, finishes.kept r member, warning⟩
  | _ =>
    dsimp only at named
    split at named
    · obtain ⟨_, _, ⟨⟩, _⟩ := named
    · exact (named.not_error rfl).elim

variable {p : Program} (same : ctx.routines = p.routines) (clean : final.Clean)
  (ran : checkProgram limit p .initial = .ok () final)

include same clean ran in
/-- The global scope ends up with the same symbols wherever a check is: the main program ends in it, and the body
of a routine in a scope of its own on top of it, where the parameters are known. -/
theorem finishes_program : ∃ global,
    (∀ c : Inspection, c.Starts p → ∃ u, c.Finishes ctx limit final u [global]) ∧
    ∀ (k : Nat) (r : Routine Stmt) (s : CheckState), p.routines[k]? = some r →
      upToRoutine limit p k .initial = .ok () s → ∃ u,
        (Inspection.mk [r.body, p.body] (.block .live r.body) s).Finishes ctx limit final u
          [u.symbols.plain.current, global] ∧ ∀ param ∈ r.params, ParamKnown param u := by
  have yields : Feeds (checkProgram limit p) .initial final := ⟨(), final, ran, .refl final⟩
  obtain ⟨registered, s, first, _, m, checked, kept⟩ := yields.main
  have grown := (Scoped.ends s).of_ok checked
  obtain ⟨later, here, all⟩ := ((mapM_registers p.routines .initial).of_ok first).2 [] registered_initial
  obtain ⟨-, rfl, -⟩ := all (grown.kept.clean (kept.clean clean))
  have agrees : s.symbols.Agrees ctx := Registered.agrees (same ▸ here)
  have agreesThen : m.symbols.Agrees ctx := block_agrees agrees checked
  have starts : m.symbols.Starts [m.symbols.plain.current] := by
    obtain ⟨added, scopes⟩ := grown.symbols.scopes
    have alone : m.symbols.scopes = [m.symbols.plain.current] := by
      rw [SymbolTable.scopes_eq, scopes]
      simp [SymbolTable.scopes, SymbolTable.plain, here.alone]
    exact fun k scope there => ⟨scope, alone ▸ there, List.prefix_rfl⟩
  refine ⟨m.symbols.plain.current, ?_, fun k r v found opened => ?_⟩
  · rintro _ ⟨registered', s', first', rfl⟩
    cases first.symm.trans first'
    exact ⟨m, ⟨(), m, checked, .refl m⟩, kept, starts, agrees, agreesThen⟩
  · have main : checkMain limit p .initial = .ok () m :=
      bind_eq_ok.mpr ⟨(), s, bind_eq_ok.mpr ⟨registered, s, first, rfl⟩, checked⟩
    obtain ⟨_, opened', ⟨_, w, body, kept⟩, -⟩ := yields.routine found
    cases opened.symm.trans opened'
    obtain ⟨t, symbol, plain, opens⟩ := upToRoutine_opens found main opened
    have agrees := ((openRoutine_clears (agreesThen.of_plain plain) r symbol).of_ok opens).1
    have inside := (openRoutine_enters opens).trans ((Scoped.ends v).of_ok body).symbols
    have starts : t.symbols.Starts [m.symbols.plain.current] := starts.before (.of_plain plain.symm)
    exact ⟨w, ⟨⟨(), w, body, .refl w⟩, kept, starts.enter inside, agrees, block_agrees agrees body⟩,
      openRoutine_params (kept.clean clean) ⟨(), w, body, .refl w⟩ opens⟩

end Inspection

end Pseudocode
