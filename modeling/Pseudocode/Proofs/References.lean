import Pseudocode.Execution
import Pseudocode.Proofs.TypedScopes

/-! BYREF arguments in a check and in a run. A check takes a BYREF argument for a value that is stored in the
parameter; a run wants a variable of the very type of the parameter. In a program that is checked without
errors they differ on no more than that. -/
namespace Pseudocode

namespace Activity

variable {p : Program} {settings : Settings} {host : Host} {a : Activity} {c : Inspection} {final : CheckState}

/-- Arguments are inspected against the parameters that they are bound to. -/
theorem Viewed.arguments {line : Nat} {callee : String} {params : List Param} {es : List Expr}
    (viewed : Viewed p settings host a c) (clean : final.Clean)
    (ran : Check.checkProgram settings.limits.maxArrayElements p .initial = .ok () final)
    (task : a.task = .arguments line callee params es) : ∃ number, c.piece = .arguments callee number params es := by
  have passes : Check.Passes (Check.checkProgram settings.limits.maxArrayElements p) .initial :=
    ⟨(), final, ran, clean⟩
  induction viewed generalizing params es with
  | start => cases task
  | @here a b c part piece s viewed leads env member began checked ih =>
    have handed := leads.handed
    rw [task] at handed checked
    generalize same : a.task = whole at handed
    cases handed with
    | call found =>
      obtain ⟨global, u, ends, foreseen⟩ := viewed.foreseen clean ran
      have whole := (viewed.mirrored passes).checked
      rw [same] at whole
      cases call : c.piece with
      | call asValue place callee es =>
        rw [call] at whole
        cases whole
        exact ⟨1, foreseen.finishes.call clean call found member began⟩
      | _ =>
        rw [call] at whole
        cases whole
    | next =>
      obtain ⟨number, whole⟩ := ih same
      rw [whole] at member
      rcases List.mem_cons.mp member with rfl | member
      · obtain ⟨_, _, -, ⟨⟩⟩ := bind_eq_ok.mp began
        cases checked
      · cases List.mem_singleton.mp member
        obtain ⟨_, _, -, began⟩ := bind_eq_ok.mp began
        obtain ⟨_, _, -, began⟩ := bind_eq_ok.mp began
        obtain ⟨_, _, -, ⟨⟩⟩ := bind_eq_ok.mp began
        exact ⟨number + 1, rfl⟩
    | other apart => cases apart
  | loop viewed leads whole =>
    have handed := leads.handed
    rw [task, whole] at handed
    cases handed with
    | other apart => cases apart
  | call viewed leads _ calls =>
    rcases leads.calls with same | ⟨_, _, _, _, _, -, -, body, -⟩
    · exact (List.cons_ne_self _ _ (calls.symm.trans same)).elim
    · cases task.symm.trans body

end Activity

/-- The name in the scope at this position is that of a variable, an array or a parameter that is declared there. -/
def Inspection.Declares (c : Inspection) (k : Nat) (name : String) (kind : SymbolKind) : Prop :=
  kind ≠ .constant ∧ (kind = .variable → c.DeclaresAt k name)

/-- The check knows the type of what is found in the frame of the scope where it finds the name. -/
theorem Activity.Foreseen.found {p : Program} {settings : Settings} {host : Host} {a : Activity} {c : Inspection}
    {final u : CheckState} {global : List Symbol} {ends : List (List Symbol)} {name : String} {k : Nat}
    {found : Found} {i : BindingId} {type : DataType}
    (foreseen : Foreseen p settings host final global a c u ends) (known : c.state.symbols.lookup name = some found)
    (at_ : c.state.symbols.depth? name = some k) (declares : c.Declares k name found.symbol.kind)
    (there : a.state.memory.find a.state.env name = some i)
    (here : ∀ j ∈ a.state.memory.depth? a.state.env name, j = k)
    (declared : a.state.memory.declared? i = some type) : found.symbol.type = some type ∧ type ≠ .null := by
  rw [Memory.find_eq] at there
  obtain ⟨j, depth, there⟩ := Option.bind_eq_some_iff.mp there
  obtain ⟨frame, frameAt, named⟩ := Option.bind_eq_some_iff.mp there
  cases here j depth
  obtain ⟨scope, scopeAt, inside⟩ :=
    (foreseen.finishes.starts.before foreseen.finishes.arrives.onward.symbols).found known at_
  obtain ⟨body, bodyAt, types⟩ := foreseen.types.at frameAt scopeAt
  obtain ⟨symbol, inside', kind⟩ := types name i type named declared
  cases inside.symm.trans inside'
  rcases kind with constant | same | ⟨isVariable, apart⟩
  · exact (declares.1 constant).elim
  · exact same
  · obtain ⟨body', bodyAt', declared⟩ := declares.2 isVariable
    cases bodyAt.symm.trans bodyAt'
    exact (apart declared).elim

/-- A check and a run agree on BYREF arguments, in a program that was checked without errors. Whenever a run binds
a BYREF argument, the check has looked at it against the same parameter; it is a name that the check finds in
one of the scopes. Let that be a variable, an array or a parameter that is declared in the scope, and let the
run find the name in the frame of that scope, if anywhere. Then the parameter shares the binding, unless the
name is not declared yet, or it is declared with another type than the parameter. The check lets that pass only if
the type of the parameter takes all values of the other, or, with a warning, some. -/
theorem references_agree (p : Program) (settings : Settings) (host : Host) (review : Review)
    (reviewed : Review.ofProgram settings.limits.maxArrayElements p = .ok review) (valid : review.errors = [])
    {a : Activity} (reaches : Activity.Reaches (p.context settings host) (.start p settings) a) {line : Nat}
    {callee : String} {param : Param} {params : List Param} {e : Expr} {es : List Expr}
    (task : a.task = .arguments line callee (param :: params) (e :: es)) (mode : param.mode = .byReference) :
    (p.Whole → ∃ c, Activity.Viewed p settings host a c) ∧ ∀ c, Activity.Viewed p settings host a c →
      ∃ number place name k found, c.piece = .arguments callee number (param :: params) (e :: es) ∧
        e = .name place name ∧ c.state.symbols.depth? name = some k ∧
        c.state.symbols.lookup name = some found ∧
        (c.Declares k name found.symbol.kind → (∀ j ∈ a.state.memory.depth? a.state.env name, j = k) →
          ∀ value, Ends (Run.bindArgument line callee param e value) a.state
            (fun i t => t = a.state ∧ a.state.memory.find a.state.env name = some i)
            fun stop _ =>
              a.state.memory.find a.state.env name = none ∧ stop = .fault line (.undeclared name) ∨
              ∃ expected given, stop = .fault line (.referenceType param.name expected name given) ∧
                DataType.ofName? param.typeName = some expected ∧ found.symbol.type = some given ∧
                (given.widensTo expected ∨ given.narrowsTo expected ∧ review.warnings ≠ [])) := by
  obtain ⟨final, ran, clean, warned⟩ := Review.final reviewed valid
  refine ⟨reaches.viewed ⟨(), final, ran, clean⟩, fun c viewed => ?_⟩
  obtain ⟨number, piece⟩ := viewed.arguments clean ran task
  obtain ⟨global, u, ends, foreseen⟩ := viewed.foreseen clean ran
  obtain ⟨place, name, found, rfl, known, fits⟩ := foreseen.finishes.reference clean piece mode
  obtain ⟨k, at_, -⟩ := Option.bind_eq_some_iff.mp ((SymbolTable.lookup_eq ..).symm.trans known)
  refine ⟨number, place, name, k, found, piece, rfl, at_, known, fun declares here value => ?_⟩
  unfold Run.bindArgument
  rw [mode]
  cases there : a.state.memory.find a.state.env name with
  | none =>
    have looked : Run.findBinding name a.state = .ok none a.state := congrArg (EStateM.Result.ok · a.state) there
    exact (ends_congr (bind_of_ok looked)).mpr (.inl ⟨rfl, rfl⟩)
  | some i =>
    refine (ends_congr (Run.bindReference_found callee param there)).mpr ?_
    split
    next expected given wanted declared =>
      obtain ⟨type, real⟩ := foreseen.found known at_ declares there here declared
      split
      next => exact ⟨rfl, rfl⟩
      next other =>
        refine .inr ⟨expected, given, rfl, wanted, type, ?_⟩
        exact (fits declares.1 expected given wanted type real other).imp_right fun narrows => narrows.imp_right warned
    next => exact ⟨rfl, rfl⟩

/-- A procedure that hands on, to the one that stores into it, what it is handed. -/
def handing : Routine Stmt where
  position := ⟨4, 1⟩
  kind := .procedure
  name := some "q"
  params := [⟨"y", "INTEGER", .byReference, none⟩]
  returns := none
  body := [.call ⟨5, 2⟩ ⟨5, 7⟩ "p" [.name ⟨5, 9⟩ "y"]]

/-- A program that has a variable filled, which is handed on under another name. -/
def handedOn : Program where
  body :=
    [.routine filling, .routine handing, .declare ⟨7, 1⟩ "a" "INTEGER",
    .call ⟨8, 1⟩ ⟨8, 6⟩ "q" [.name ⟨8, 8⟩ "a"]]

/-- The check in the procedure that hands on: its parameter, and the global symbols with the variable. -/
def CheckState.inHanding : CheckState :=
  let callee : Symbol := { name := "q", kind := .procedure, line := 4, params := handing.params, used := true }
  { CheckState.initial with
    symbols := ⟨[[{ name := "y", kind := .parameter, type := some .integer, line := 4, used := true }]],
      [{ name := "p", kind := .procedure, line := 1, params := filling.params, used := true }, callee,
      { name := "a", kind := .variable, type := some .integer, line := 7, used := true }]⟩
    routine := some callee
    firstCalls := [("q", 8)] }

/-- The run with one binding, in an environment of these frames. -/
def RunState.withOne (frames : Array Frame) (env : Environment) (steps line : Nat) : RunState :=
  { RunState.initial {} with
    memory := ⟨#[], #[⟨.integer 0, some .integer, false⟩], frames⟩, env, steps, line }

theorem handedOn_viewed : Activity.Viewed handedOn {} {}
    ⟨[handing], .block handing.body, .withOne #[[("a", 0)], [("y", 0)]] [1, 0] 4 8⟩
    ⟨[handing.body, handedOn.body], .block .live handing.body, .inHanding⟩ := by
  have start : Activity.Viewed handedOn {} {} (.start handedOn {}) _ := .start ⟨_, _, rfl, rfl⟩
  have first := start.here ⟨_, .tail _ (.head _), _, _, rfl, rfl⟩ rfl (.tail _ (.head _)) rfl (.block _)
  have second := first.here ⟨_, .tail _ (.head _), _, _, rfl, rfl⟩ rfl (.tail _ (.head _)) rfl (.block _)
  have third := second.here ⟨_, .tail _ (.head _), _, _, rfl, rfl⟩ rfl (.tail _ (.head _)) rfl (.block _)
  have stmt := third.here ⟨_, .head _, _, _, rfl, rfl⟩ rfl (.head _) rfl (.stmt _)
  have call := stmt.here (b := ⟨[], .call false 8 "q" [.name ⟨8, 8⟩ "a"], .withOne #[[("a", 0)]] [0] 4 8⟩)
    ⟨_, .head _, _, _, rfl, rfl⟩ rfl (.head _) rfl (.call _)
  exact call.call (k := 1) (r := handing) ⟨_, .tail _ (.head _), _, _, rfl, rfl⟩ rfl rfl rfl rfl

/-- A variable that is handed on twice is the one binding under each of the names. -/
theorem handedOn_agrees : ∃ a,
    Activity.Reaches (handedOn.context {} {}) (.start handedOn {}) a ∧
    a.task = .arguments 5 "p" filling.params [.name ⟨5, 9⟩ "y"] ∧
    ∀ value, Run.bindArgument 5 "p" ⟨"x", "INTEGER", .byReference, none⟩ (.name ⟨5, 9⟩ "y") value a.state =
      .ok 0 a.state := by
  obtain ⟨review, reviewed, valid⟩ : ∃ review,
      Review.ofProgram ({} : Settings).limits.maxArrayElements handedOn = .ok review ∧
        review.errors = [] := Review.exists_of_errors (by decide +kernel)
  have stmt := handedOn_viewed.here ⟨_, .head _, _, _, rfl, rfl⟩ rfl (.head _) rfl (.stmt _)
  have call := stmt.here ⟨_, .head _, _, _, rfl, rfl⟩ rfl (.head _) rfl (.call _)
  have viewed := call.here (b := ⟨[handing], .arguments 5 "p" filling.params [.name ⟨5, 9⟩ "y"],
    .withOne #[[("a", 0)], [("y", 0)]] [1, 0] 5 5⟩) ⟨_, .head _, _, _, rfl, rfl⟩ rfl (.head _) rfl (.arguments _)
  refine ⟨_, viewed.reaches, rfl, fun value => ?_⟩
  obtain ⟨number, place, name, k, found, -, ⟨⟩, at_, known, binds⟩ :=
    (references_agree handedOn {} {} review reviewed valid viewed.reaches rfl rfl).2 _ viewed
  -- The check finds the parameter, and the run finds the binding in the frame of the call.
  cases at_.symm.trans (show _ = some 0 by decide +kernel)
  have kind : found.symbol.kind = .parameter ∧ found.symbol.type = some .integer := by
    have seen : (some found).map (fun found => (found.symbol.kind, found.symbol.type)) =
        some (.parameter, some .integer) := by
      rw [← known]
      decide +kernel
    simpa using seen
  have ends := binds ⟨by rw [kind.1]; nofun, by rw [kind.1]; nofun⟩ (by decide +kernel) value
  cases ran : Run.bindArgument 5 "p" ⟨"x", "INTEGER", .byReference, none⟩ (.name ⟨5, 9⟩ "y") value _ with
  | ok i t =>
    obtain ⟨rfl, shared⟩ := ends.of_ok ran
    cases shared.symm.trans (show _ = some 0 by decide +kernel)
    rfl
  | error stop t =>
    rcases ends.of_error ran with ⟨missing, -⟩ | ⟨expected, given, -, wanted, type, apart⟩
    · cases missing.symm.trans (show _ = some 0 by decide +kernel)
    · cases wanted.symm.trans (show _ = some .integer by decide +kernel)
      cases type.symm.trans kind.2
      rcases apart with ⟨⟨⟩⟩ | ⟨⟨⟨⟩⟩, -⟩

/-- A program that passes an INTEGER variable by reference for a REAL parameter. -/
def lentSource : String :=
  "PROCEDURE Show(BYREF r : REAL)\n OUTPUT r > 1\nENDPROCEDURE\nDECLARE x : INTEGER\nx <- 2\nCALL Show(x)"

/-- Without a warning from the check, the run refuses to bind the variable. -/
theorem lentSource_refused :
    (Analysis.ofText ({} : Settings).limits lentSource).errors = [] ∧
    (Analysis.ofText ({} : Settings).limits lentSource).warnings = [] ∧
    execute lentSource {} {} = .ok ⟨[{
      kind := .error, line := some 6, code := some .typeMismatch
      text := "Line 6: Runtime Error - Type mismatch: BYREF parameter 'r' is REAL but 'x' is INTEGER" }],
      false, 4⟩ := by
  decide +kernel

end Pseudocode
