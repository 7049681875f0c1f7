import Pseudocode.Proofs.ArgumentChecks
import Pseudocode.Proofs.ParameterTypes
import Pseudocode.Proofs.ScopeMirror

/-! Types of symbols and of bindings. In a run of a program that is checked without errors, whatever is found in a
frame of the environment has the type that the check knows in the scope of the frame, unless that knows
a constant or the counter of a FOR loop, or the binding has no type. The check is asked at the end of
the scope, when everything that is declared there is known. -/
namespace Pseudocode

namespace Memory

variable {m n : Memory} {env : Environment} {ends : List (List Symbol)} {bodies : List (List Stmt)}
  {frame : FrameId} {scope : List Symbol} {body : List Stmt} {given : String → Option DataType → Prop}
  {kept : BindingId → Prop}

/-- The scope knows the types of what has a name in the frame. It need not know that of the counter of a loop,
which the body does not declare. -/
def TypedAs (m : Memory) (frame : FrameId) (scope : List Symbol) (body : List Stmt) : Prop :=
  ∀ name i type, m.findIn frame name = some i → m.declared? i = some type →
    ∃ symbol, SymbolTable.findIn scope name = some symbol ∧ (symbol.kind = .constant ∨
      symbol.type = some type ∧ type ≠ .null ∨ symbol.kind = .variable ∧ ¬Declared body name)

/-- Each scope knows the types in its frame. -/
inductive Types (m : Memory) : Environment → List (List Symbol) → List (List Stmt) → Prop
  | nil : Types m [] [] []
  | cons {frame : FrameId} {outer : Environment} {scope : List Symbol} {ends : List (List Symbol)}
      {body : List Stmt} {bodies : List (List Stmt)} : m.TypedAs frame scope body →
      Types m outer ends bodies → Types m (frame :: outer) (scope :: ends) (body :: bodies)

theorem TypedAs.still (typed : m.TypedAs frame scope body)
    (same : ∀ name, n.findIn frame name = m.findIn frame name)
    (types : ∀ name i, m.findIn frame name = some i → n.declared? i = m.declared? i) :
    n.TypedAs frame scope body := by
  intro name i type found declared
  rw [same] at found
  rw [types name i found] at declared
  exact typed name i type found declared

theorem Types.still (typed : m.Types env ends bodies)
    (same : ∀ f ∈ env, ∀ name, n.findIn f name = m.findIn f name)
    (types : ∀ f name i, m.findIn f name = some i → n.declared? i = m.declared? i) : n.Types env ends bodies := by
  induction typed with
  | nil => exact .nil
  | cons here rest ih =>
    exact .cons (here.still (same _ (.head _)) (types _)) (ih fun f member => same f (.tail _ member))

/-- What is done where the code of the innermost scope stands gives names whose types the scope knows. -/
theorem Types.later (typed : m.Types env ends bodies) (apart : env.Nodup) (here : m.Local given kept env n)
    (inside : ∀ f ∈ env, f < m.frames.size) (names : ∀ f name i, m.findIn f name = some i → i < m.bindings.size)
    (gives : ∀ name type, given name (some type) → ∃ scope symbol, ends[0]? = some scope ∧
      SymbolTable.findIn scope name = some symbol ∧
      (symbol.kind = .constant ∨ symbol.type = some type ∧ type ≠ .null)) :
    n.Types env ends bodies := by
  have types (f : FrameId) (name : String) (i : BindingId) (found : m.findIn f name = some i) :
      n.declared? i = m.declared? i := here.types i (names f name i found)
  cases typed with
  | nil => exact .nil
  | @cons frame outer scope ends body bodies first rest =>
    refine .cons (fun name i type found declared => ?_) (rest.still (fun f member name => ?_) types)
    · rcases here.named frame rfl name with same | ⟨j, -, new, found', -⟩
      · rw [same] at found
        rw [types frame name i found] at declared
        exact first name i type found declared
      · cases found.symm.trans found'
        rw [declared] at new
        obtain ⟨_, symbol, ⟨⟩, known, kind⟩ := gives name type new
        exact ⟨symbol, known, kind.imp_right .inl⟩
    · refine here.outer f (inside f (.tail _ member)) ?_ name
      rintro ⟨⟩
      exact (List.nodup_cons.mp apart).1 member

/-- The type of what is found in the frame at a position. -/
theorem Types.at (typed : m.Types env ends bodies) {k : Nat} (frameAt : env[k]? = some frame)
    (scopeAt : ends[k]? = some scope) : ∃ body, bodies[k]? = some body ∧ m.TypedAs frame scope body := by
  induction typed generalizing k with
  | nil => cases frameAt
  | cons here rest ih =>
    cases k with
    | zero =>
      cases frameAt
      cases scopeAt
      exact ⟨_, rfl, here⟩
    | succ k => exact ih frameAt scopeAt

theorem Types.last (typed : m.Types env ends bodies) (frameAt : env.getLast? = some frame)
    (scopeAt : ends.getLast? = some scope) (bodyAt : bodies.getLast? = some body) : m.TypedAs frame scope body := by
  induction typed with
  | nil => cases frameAt
  | cons here rest ih =>
    cases rest with
    | nil =>
      cases frameAt
      cases scopeAt
      cases bodyAt
      exact here
    | cons second rest => exact ih frameAt scopeAt bodyAt

theorem Mirrors.nodup {names : List (List String)} (mirrors : m.Mirrors env names bodies) : env.Nodup := by
  induction mirrors with
  | nil => exact .nil
  | cons apart named rest ih => exact List.nodup_cons.mpr ⟨apart, ih⟩

end Memory

namespace Activity

variable {p : Program} {settings : Settings} {host : Host} {a b : Activity} {c : Inspection} {final u : CheckState}
  {global : List Symbol} {ends : List (List Symbol)}

/-- The scopes of what the check inspects, as they are in the end, know the types in the frames of the
activity; the outermost one is the global scope. -/
structure Foreseen (p : Program) (settings : Settings) (host : Host) (final : CheckState) (global : List Symbol)
    (a : Activity) (c : Inspection) (u : CheckState) (ends : List (List Symbol)) : Prop where
  finishes : c.Finishes (p.context settings host) settings.limits.maxArrayElements final u ends
  types : a.state.memory.Types a.state.env ends c.scopes
  outermost : ends.getLast? = some global ∧ c.scopes.getLast? = some p.body

theorem Viewed.sound (viewed : Viewed p settings host a c) : a.Sound .free (p.context settings host) :=
  Reaches.sound p.obeys_free.routines viewed.reaches (start_sound p.obeys_free settings host)

section Steps

variable (clean : final.Clean) (viewed : Viewed p settings host a c)
  (mirrored : Mirrored p settings.limits.maxArrayElements a c)

include clean viewed mirrored

/-- What is done before a part begins gives no name of another type. -/
theorem Foreseen.goes {t : RunState} (foreseen : Foreseen p settings host final global a c u ends) (goes : a.Goes t) :
    t.memory.Types a.state.env ends c.scopes := by
  refine foreseen.types.later mirrored.mirrors.nodup goes.memory (fun f member => mirrored.inside f (.tail _ member))
    (fun _ _ _ found => viewed.sound.ready.memory.names found) fun name type given => ?_
  rcases given with declared | ⟨-, ⟨⟩⟩
  rw [← mirrored.checked.stmts] at declared
  obtain ⟨scope, symbol, there, found, kind⟩ := foreseen.finishes.declared clean declared
  exact ⟨scope, symbol, there, found, kind.imp_right fun known => ⟨known.1, fun null => known.2 (null ▸ rfl)⟩⟩

theorem Foreseen.here {part : Check Piece} {piece : Piece} {s : CheckState}
    (foreseen : Foreseen p settings host final global a c u ends) (leads : Leads (p.context settings host) a b)
    (env : b.state.env = a.state.env) (member : part ∈ c.piece.parts settings.limits.maxArrayElements)
    (ran : part c.state = .ok piece s) : Foreseen p settings host final global b ⟨c.scopes, piece, s⟩ u ends := by
  refine ⟨foreseen.finishes.here member ran, ?_, foreseen.outermost⟩
  obtain ⟨entry, t, rfl, goes, -⟩ := leads.begins mirrored.inside settings.limits.maxArrayElements
  have types := foreseen.goes clean viewed mirrored goes
  rw [env]
  exact types

/-- The counter of a FOR loop is known in its scope, but not with a type. -/
theorem Foreseen.loop {place : Position} {counter : Option String} {start stop step : Option Expr} {body : List Stmt}
    {frame : FrameId} {s : CheckState} (foreseen : Foreseen p settings host final global a c u ends)
    (leads : Leads (p.context settings host) a b)
    (task : a.task = .stmt (.forLoop place counter start stop step body))
    (env : b.state.env = frame :: a.state.env)
    (ran : Check.openLoop place counter start stop step c.state = .ok () s) :
    ∃ w ends, Foreseen p settings host final global b ⟨body :: c.scopes, .forLoop body, s⟩ w ends := by
  obtain ⟨w, finishes⟩ := foreseen.finishes.loop (mirrored.opens task).1 ran
  refine ⟨w, _, finishes, ?_, ?_⟩
  · obtain ⟨entry, t, rfl, goes, begins⟩ := leads.begins mirrored.inside settings.limits.maxArrayElements
    have types := foreseen.goes clean viewed mirrored goes
    cases begins with
    | here => exact (List.cons_ne_self _ _ env.symm).elim
    | call task' => cases task.symm.trans task'
    | loop task' header opened =>
      cases task.symm.trans task'
      refine .cons (fun name i type found _ => ?_) types
      obtain ⟨first, rfl⟩ := Option.isSome_iff_exists.mp header.1
      obtain ⟨last, rfl⟩ := Option.isSome_iff_exists.mp header.2
      cases opened.named name i found
      obtain ⟨⟨symbol, known, kind⟩, free⟩ :=
        Check.openLoop_counter (finishes.kept.clean clean) finishes.arrives ran
      exact ⟨symbol, known, .inr (.inr ⟨kind, free⟩)⟩
  · obtain ⟨last, lastBody⟩ := foreseen.outermost
    exact ⟨List.getLast?_cons.trans (by rw [last]; rfl), List.getLast?_cons.trans (by rw [lastBody]; rfl)⟩

/-- The parameters of a routine are known in its scope with their types. -/
theorem Foreseen.call {asValue : Bool} {line : Nat} {callee : String} {arguments : List Expr} {r : Routine Stmt}
    {s w : CheckState} (foreseen : Foreseen p settings host final global a c u ends)
    (leads : Leads (p.context settings host) a b) (task : a.task = .call asValue line callee arguments)
    (calls : b.calls = r :: a.calls)
    (finishes : (Inspection.mk [r.body, p.body] (.block .live r.body) s).Finishes (p.context settings host)
      settings.limits.maxArrayElements final w [w.symbols.plain.current, global])
    (params : ∀ param ∈ r.params, Check.ParamKnown param w) :
    Foreseen p settings host final global b ⟨[r.body, p.body], .block .live r.body, s⟩ w
      [w.symbols.plain.current, global] := by
  refine ⟨finishes, ?_, rfl, rfl⟩
  obtain ⟨-, frame, env, named⟩ := leads.called_typed p.obeys_free.routines viewed.sound mirrored.inside task calls
  obtain ⟨entry, t, rfl, goes, -⟩ := leads.begins mirrored.inside settings.limits.maxArrayElements
  have types := foreseen.goes clean viewed mirrored goes
  rw [env]
  refine .cons (fun name i type found declared => ?_)
    (.cons (types.last mirrored.outermost foreseen.outermost.1 foreseen.outermost.2) .nil)
  obtain ⟨param, member, rfl, takes⟩ := named name i found
  obtain ⟨symbol, known, inScope, -, expected, same⟩ := params param member
  cases takes known expected type declared
  exact ⟨symbol, inScope, .inr (.inl ⟨same, fun null => DataType.ofName?_ne_null _ (null ▸ expected)⟩)⟩

end Steps

theorem Viewed.foreseen (viewed : Viewed p settings host a c) (clean : final.Clean)
    (ran : Check.checkProgram settings.limits.maxArrayElements p .initial = .ok () final) :
    ∃ global u ends, Foreseen p settings host final global a c u ends := by
  have passes : Check.Passes (Check.checkProgram settings.limits.maxArrayElements p) .initial :=
    ⟨(), final, ran, clean⟩
  obtain ⟨global, main, routine⟩ := Inspection.finishes_program (p.context_routines settings host) clean ran
  refine ⟨global, ?_⟩
  induction viewed with
  | start starts =>
    obtain ⟨u, finishes⟩ := main _ starts
    obtain ⟨registered, s, -, rfl⟩ := starts
    have nothing : Memory.initial.TypedAs 0 global p.body := by
      rintro name i type ⟨⟩
    exact ⟨u, _, finishes, .cons nothing .nil, rfl, rfl⟩
  | here viewed leads env member ran checked ih =>
    obtain ⟨u, ends, foreseen⟩ := ih
    exact ⟨u, ends, foreseen.here clean viewed (viewed.mirrored passes) leads env member ran⟩
  | loop viewed leads task env ran ih =>
    obtain ⟨u, ends, foreseen⟩ := ih
    exact foreseen.loop clean viewed (viewed.mirrored passes) leads task env ran
  | @call _ _ _ _ _ _ _ k r s viewed leads task calls found ran ih =>
    obtain ⟨u, ends, foreseen⟩ := ih
    obtain ⟨w, finishes, params⟩ := routine k r s found ran
    exact ⟨w, _, foreseen.call clean viewed (viewed.mirrored passes) leads task calls finishes params⟩

end Activity

end Pseudocode
