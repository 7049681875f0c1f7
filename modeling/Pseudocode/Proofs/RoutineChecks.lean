import Mathlib.Algebra.BigOperators.Group.Multiset.Basic
import Pseudocode.Proofs.Scopes

/-! Where routines are declared is no matter to a check. All of them are registered before anything else
is checked, each with a symbol that depends on nothing but the routine; their bodies are checked at the
end, each in the scope that the main program leaves. So the errors of a program are those of its routines
and of its other statements, whatever the order of the routines and their places. -/
namespace Pseudocode

/-- The blocks have the same statements in the same order, but for routines declared among them. -/
inductive SameStatements : List Stmt → List Stmt → Prop
  | nil : SameStatements [] []
  | left (r : Routine Stmt) (rest : SameStatements body body') : SameStatements (.routine r :: body) body'
  | right (r : Routine Stmt) (rest : SameStatements body body') : SameStatements body (.routine r :: body')
  | both (s : Stmt) (rest : SameStatements body body') : SameStatements (s :: body) (s :: body')

theorem Stmt.routine_of_routine? {s : Stmt} (found : s.routine?.isNone = false) : ∃ r, s = .routine r := by
  cases s with
  | routine r => exact ⟨r, rfl⟩
  | _ => cases found

theorem SameStatements.of_filter {body body' : List Stmt}
    (same : body.filter (·.routine?.isNone) = body'.filter (·.routine?.isNone)) :
    SameStatements body body' := by
  induction body generalizing body' with
  | nil =>
    induction body' with
    | nil => exact .nil
    | cons s rest ih =>
      cases plain : s.routine?.isNone with
      | true => simp [plain] at same
      | false =>
        obtain ⟨r, rfl⟩ := Stmt.routine_of_routine? plain
        exact .right r (ih (by simpa [plain] using same))
  | cons s rest ih =>
    cases plain : s.routine?.isNone with
    | false =>
      obtain ⟨r, rfl⟩ := Stmt.routine_of_routine? plain
      exact .left r (ih (by simpa [plain] using same))
    | true =>
      induction body' with
      | nil => simp [plain] at same
      | cons s' rest' ih' =>
        cases plain' : s'.routine?.isNone with
        | false =>
          obtain ⟨r, rfl⟩ := Stmt.routine_of_routine? plain'
          exact .right r (ih' (by simpa [plain'] using same))
        | true =>
          simp only [List.filter_cons, plain, plain', if_true, List.cons.injEq] at same
          obtain ⟨rfl, others⟩ := same
          exact .both s (ih others)

/-- In which order different keys stand is no matter to what is found under one of them. -/
theorem find?_perm {α κ : Type} [BEq κ] [LawfulBEq κ] {all all' : List α} (key : α → κ) (perm : all.Perm all')
    (distinct : (all.map key).Nodup) (k : κ) : all.find? (key · == k) = all'.find? (key · == k) := by
  induction perm with
  | nil => rfl
  | cons a _ ih => rw [List.find?_cons, List.find?_cons, ih (List.nodup_cons.mp distinct).2]
  | swap a b rest =>
    simp only [List.map_cons, List.nodup_cons, List.mem_cons, not_or] at distinct
    simp only [List.find?_cons]
    by_cases first : key a = k
    · have other : (key b == k) = false :=
        beq_eq_false_iff_ne.mpr fun second => distinct.1.1 (second.trans first.symm)
      rw [other]
    · rw [beq_eq_false_iff_ne.mpr first]
  | trans first _ ih ih' => rw [ih distinct, ih' ((first.map key).nodup_iff.mp distinct)]

/-- The type with the given name, if there is one. -/
def DataType.supported? (name : String) : Option DataType :=
  if unsupportedTypeNames.contains name then none else DataType.ofName? name

/-- The symbol of a routine. -/
def Routine.symbol? (r : Routine Stmt) : Option Symbol :=
  r.name.map fun name =>
    { name, kind := .ofRoutine r.kind, line := r.position.line, params := r.params, used := true,
      type := match r.kind with
        | .function => r.returns.bind DataType.supported?
        | .procedure => none }

theorem Routine.name_of_symbol? {r : Routine Stmt} {symbol : Symbol} (found : symbol ∈ r.symbol?) :
    r.name = some symbol.name := by
  obtain ⟨name, named, rfl⟩ := Option.map_eq_some_iff.mp found
  exact named

namespace Check

/-- The check gives this answer and reports these errors wherever it is made, and does nothing else. -/
def Answers (m : Check α) (a : α) (new : Multiset Report) : Prop :=
  ∀ s, Ends m s (fun b t => b = a ∧ t.symbols = s.symbols ∧ t.routine = s.routine ∧ t.errors = s.errors + new)
    fun _ _ => False

section Registering

theorem report_answers (place : Position) (finding : Finding) :
    ∃ new, Answers (report place finding) () new := by
  refine ⟨↑(([⟨place, finding⟩] : List Report).filter (·.finding.severity = .error)), fun s => ?_⟩
  refine ⟨rfl, rfl, rfl, ?_⟩
  simp only [CheckState.errors, Array.toList_push, List.filter_append, Multiset.coe_add]

theorem answers_pure (a : α) : Answers (pure a) a 0 :=
  fun _ => ⟨rfl, rfl, rfl, (Multiset.add_zero _).symm⟩

theorem Answers.and_then {m : Check α} {next : α → Check β} (first : Answers m a new)
    (rest : next a = pure b) : Answers (m >>= next) b new := by
  refine fun s => ends_bind.mpr ((first s).mono (fun a' t known => ?_) fun _ _ never => never)
  obtain ⟨rfl, same⟩ := known
  rw [rest]
  exact ⟨rfl, same⟩

theorem optionalType_answers (place : Position) (name : Option String) :
    ∃ new, Answers (optionalType place name) (name.bind DataType.supported?) new := by
  unfold optionalType
  cases name with
  | none => exact ⟨0, answers_pure _⟩
  | some name =>
    simp only [Option.bind_some]
    unfold namedType DataType.supported?
    split
    · obtain ⟨new, reports⟩ := report_answers place (.unsupportedType name)
      exact ⟨new, reports.and_then rfl⟩
    · cases DataType.ofName? name with
      | some type => exact ⟨0, answers_pure _⟩
      | none =>
        obtain ⟨new, reports⟩ := report_answers place (.unknownType name)
        exact ⟨new, reports.and_then rfl⟩

/-- The check gives this answer, with further global symbols and errors. -/
def AddsGlobals (m : Check α) (s : CheckState) (a : α) (symbols : List Symbol) (new : Multiset Report) : Prop :=
  Ends m s (fun b t => b = a ∧ t.symbols = ⟨[], s.symbols.globals ++ symbols⟩ ∧ t.routine = s.routine ∧
    t.errors = s.errors + new) fun _ _ => False

theorem declare_free {s : CheckState} (inner : s.symbols.inner = []) {symbol : Symbol}
    (free : SymbolTable.findIn s.symbols.globals symbol.name = none) (routine : symbol.kind = .ofRoutine kind)
    (place : Position) : AddsGlobals (declare place symbol) s true [symbol] 0 := by
  have silent : checkName place symbol = pure () := by
    unfold checkName
    rw [routine]
    cases kind <;> simp [SymbolKind.ofRoutine]
  have new : s.symbols.lookupLocal symbol.name = none := by
    unfold SymbolTable.lookupLocal SymbolTable.current
    rw [inner]
    exact free
  unfold AddsGlobals declare
  rw [silent, ends_bind, ends_pure, ends_bind, ends_get, new]
  refine ⟨rfl, ?_, rfl, (Multiset.add_zero _).symm⟩
  obtain ⟨⟨_, globals⟩, _⟩ := s
  cases inner
  rfl

/-- A routine whose name is free is registered with its symbol. -/
theorem register_free (r : Routine Stmt) : ∃ new : Multiset Report, ∀ s, s.symbols.inner = [] →
    (∀ name ∈ r.name, SymbolTable.findIn s.symbols.globals name = none) →
      AddsGlobals (register r) s r.symbol? r.symbol?.toList new := by
  cases named : r.name with
  | none =>
    refine ⟨0, fun s inner _ => ?_⟩
    obtain ⟨⟨_, globals⟩, _⟩ := s
    cases inner
    unfold AddsGlobals register Routine.symbol?
    rw [named]
    exact ⟨rfl, by simp, rfl, (Multiset.add_zero _).symm⟩
  | some name =>
    let symbol (kind : RoutineKind) (type : Option DataType) : Symbol :=
      { name, kind := .ofRoutine kind, type, line := r.position.line, params := r.params, used := true }
    have typed {m : Check (Option DataType)} {type : Option DataType} {new : Multiset Report}
        (answers : Answers m type new) (kind : RoutineKind) (s : CheckState) (inner : s.symbols.inner = [])
        (free : ∀ other ∈ some name, SymbolTable.findIn s.symbols.globals other = none) :
        AddsGlobals (do
          let type ← m
          return if ← declare r.position (symbol kind type) then some (symbol kind type) else none) s
          (some (symbol kind type)) [symbol kind type] new := by
      unfold AddsGlobals
      rw [ends_bind]
      refine (answers s).mono (fun type' t known => ?_) fun _ _ never => never
      obtain ⟨rfl, symbols, routine, errors⟩ := known
      rw [ends_bind]
      have unnamed : SymbolTable.findIn t.symbols.globals (symbol kind type').name = none :=
        symbols ▸ free name rfl
      have declared := declare_free (symbols ▸ inner) unnamed rfl r.position
      refine declared.mono (fun added u ended => ?_) fun _ _ never => never
      obtain ⟨rfl, grown, same, more⟩ := ended
      refine ⟨rfl, symbols ▸ grown, same.trans routine, ?_⟩
      rw [more, errors, Multiset.add_zero]
    unfold register Routine.symbol?
    rw [named]
    dsimp only
    cases r.kind with
    | function =>
      obtain ⟨new, answers⟩ := optionalType_answers r.position r.returns
      exact ⟨new, typed answers .function⟩
    | procedure =>
      exact ⟨0, typed (answers_pure none) .procedure⟩

/-- All routines are registered, each with its symbol. -/
theorem mapM_register {new : Routine Stmt → Multiset Report}
    (each : ∀ (r : Routine Stmt) (s : CheckState), s.symbols.inner = [] →
      (∀ name ∈ r.name, SymbolTable.findIn s.symbols.globals name = none) →
        AddsGlobals (register r) s r.symbol? r.symbol?.toList (new r))
    (rs : List (Routine Stmt)) (distinct : (rs.map (·.name)).Nodup) (s : CheckState)
    (inner : s.symbols.inner = [])
    (free : ∀ r ∈ rs, ∀ name ∈ r.name, SymbolTable.findIn s.symbols.globals name = none) :
    AddsGlobals (rs.mapM register) s (rs.map Routine.symbol?) (rs.filterMap Routine.symbol?)
      (rs.map new).sum := by
  induction rs generalizing s with
  | nil =>
    obtain ⟨⟨_, globals⟩, _⟩ := s
    cases inner
    exact ⟨rfl, by simp, rfl, (Multiset.add_zero _).symm⟩
  | cons r rest ih =>
    obtain ⟨alone, distinct⟩ := List.nodup_cons.mp distinct
    unfold AddsGlobals
    rw [List.mapM_cons, ends_bind]
    refine (each r s inner (free r (.head _))).mono (fun symbol t first => ?_) fun _ _ never => never
    obtain ⟨rfl, symbols, routine, errors⟩ := first
    rw [ends_bind]
    have others := ih distinct t (symbols ▸ rfl) fun q member name named => by
      rw [symbols]
      refine List.find?_append.trans (Option.or_eq_none_iff.mpr ⟨free q (.tail _ member) name named, ?_⟩)
      refine List.find?_eq_none.mpr fun symbol own => ?_
      intro same
      have called : r.name = some symbol.name := Routine.name_of_symbol? (Option.mem_toList.mp own)
      rw [beq_iff_eq.mp same] at called
      exact alone (List.mem_map.mpr ⟨q, member, (Option.mem_def.mp named).trans called.symm⟩)
    refine others.mono (fun found u ended => ?_) fun _ _ never => never
    obtain ⟨rfl, grown, same, more⟩ := ended
    refine ⟨rfl, ?_, same.trans routine, ?_⟩
    · rw [grown, symbols, List.append_assoc]
      cases here : r.symbol? <;> simp [here]
    · rw [more, errors, List.map_cons, List.sum_cons, Multiset.add_assoc]

end Registering

section Statements

variable {α β : Type} {m : Check α} {n : Check β} {related : α → β → Prop}

theorem Quiet.returns (m : Check PUnit) [Quiet m] (s : CheckState) : ∃ t, m s = .ok ⟨⟩ t ∧ s.Unmoved t := by
  cases ran : m s with
  | ok a t => exact ⟨t, rfl, (Quiet.ends s).of_ok ran⟩
  | error fault t => exact ((Quiet.ends s).of_error ran).elim

/-- What is quiet may be done first. -/
theorem Concurs.skip_left {first : Check PUnit} [Quiet first] (concurs : Concurs related m n) :
    Concurs related (first >>= fun _ => m) n := by
  intro before before' s t alike
  obtain ⟨s', ran, same⟩ := Quiet.returns first s
  exact (ends_congr (bind_of_ok ran)).mpr (concurs _ _ s' t (same.alike (.refl t) alike))

theorem Concurs.skip_right {first : Check PUnit} [Quiet first] (concurs : Concurs related m n) :
    Concurs related m (first >>= fun _ => n) := by
  intro before before' s t alike
  obtain ⟨t', ran, same⟩ := Quiet.returns first t
  exact (concurs _ _ s t' (CheckState.Unmoved.alike (.refl s) same alike)).mono
    (fun _ _ inner => (ends_congr (bind_of_ok ran)).mpr inner)
    fun _ _ inner => (ends_congr (bind_of_ok ran)).mpr inner

theorem Concurs.warned_left {c : Prop} [Decidable c] {first : Check PUnit} [Quiet first]
    (concurs : Concurs related m n) : Concurs related (if c then first >>= fun _ => m else m) n := by
  split
  · exact concurs.skip_left
  · exact concurs

theorem Concurs.warned_right {c : Prop} [Decidable c] {first : Check PUnit} [Quiet first]
    (concurs : Concurs related m n) : Concurs related m (if c then first >>= fun _ => n else n) := by
  split
  · exact concurs.skip_right
  · exact concurs

instance : Quiet (checkStatement limit (.routine r)) := by
  have : Quiet (incomplete r.position r.kind.keyword) := by
    unfold incomplete
    exact quiet_report rfl
  unfold checkStatement
  split <;> infer_instance

/-- That a statement cannot be reached is no error, if it is there. -/
theorem reportUnreachable_quiet {stmt : Stmt} (present : stmt.isMissing = false) :
    Quiet (reportUnreachable stmt) := by
  unfold reportUnreachable
  rw [present, if_neg Bool.false_ne_true]
  exact quiet_report rfl

/-- A statement that is not there ends the check. -/
theorem checkBlock_missing {stmt : Stmt} (missing : stmt.isMissing = true) (limit : Int) (reach : Reach)
    (rest : List Stmt) (s : CheckState) :
    Ends (checkBlock limit reach (stmt :: rest)) s (fun _ _ => False) fun _ _ => True := by
  cases stmt with
  | stray place node =>
    unfold checkBlock
    split
    · unfold reportUnreachable
      rw [if_pos missing]
      trivial
    · unfold checkStatement
      trivial
  | _ => cases missing

/-- Routines declared among the statements of a block add no errors to it, wherever they stand. -/
theorem checkBlock_concurs (limit : Int) {body body' : List Stmt} (same : SameStatements body body')
    (reach reach' : Reach) : Concurs Eq (checkBlock limit reach body) (checkBlock limit reach' body') := by
  induction same generalizing reach reach' with
  | nil => exact concurs_pure rfl
  | left r _ ih =>
    have : Quiet (reportUnreachable (.routine r)) := reportUnreachable_quiet rfl
    rw [checkBlock]
    exact Concurs.warned_left (ih _ _).skip_left
  | right r _ ih =>
    have : Quiet (reportUnreachable (.routine r)) := reportUnreachable_quiet rfl
    rw [checkBlock.eq_def limit reach']
    exact Concurs.warned_right (ih _ _).skip_right
  | both stmt _ ih =>
    cases missing : stmt.isMissing with
    | true =>
      intro before before' s t _
      exact (checkBlock_missing missing limit reach _ s).mono (fun _ _ never => never.elim)
        fun _ _ _ => checkBlock_missing missing limit reach' _ t
    | false =>
      have := reportUnreachable_quiet missing
      have := checkStatement_steady limit stmt
      rw [checkBlock, checkBlock]
      exact Concurs.warned_left (Concurs.warned_right (Steady.bind fun _ => ih _ _))

end Statements

section Bodies

/-- Two checks that leave the symbols alone and report the same errors, if neither of them fails; what is
being checked before is no matter. -/
def AddsAlike (m n : Check PUnit) : Prop :=
  ∀ s t : CheckState, s.symbols.Alike t.symbols →
    (∃ s' t' new, m s = .ok ⟨⟩ s' ∧ n t = .ok ⟨⟩ t' ∧ s'.symbols.plain = s.symbols.plain ∧
      t'.symbols.plain = t.symbols.plain ∧ s'.errors = s.errors + new ∧ t'.errors = t.errors + new) ∨
    ∃ e f s' t', m s = .error e s' ∧ n t = .error f t'

variable {m m' n n' w : Check PUnit} {s t s' : CheckState}

/-- One of the two is enough to know that the other ends well. -/
theorem AddsAlike.of_ok (alike : AddsAlike m n) (same : s.symbols.Alike t.symbols) (ran : m s = .ok ⟨⟩ s') :
    ∃ t' new, n t = .ok ⟨⟩ t' ∧ s'.symbols.plain = s.symbols.plain ∧ t'.symbols.plain = t.symbols.plain ∧
      s'.errors = s.errors + new ∧ t'.errors = t.errors + new := by
  obtain ⟨s'', t', new, left, right, rest⟩ | ⟨e, f, s'', t', left, -⟩ := alike s t same
  · cases ran.symm.trans left
    exact ⟨t', new, right, rest⟩
  · cases ran.symm.trans left

theorem AddsAlike.of_error (alike : AddsAlike m n) (same : s.symbols.Alike t.symbols)
    (failed : m s = .error e s') : ∃ f t', n t = .error f t' := by
  obtain ⟨s'', t', new, left, -⟩ | ⟨e, f, s'', t', -, right⟩ := alike s t same
  · cases failed.symm.trans left
  · exact ⟨f, t', right⟩

theorem AddsAlike.trans (first : AddsAlike m n) (second : AddsAlike n w) : AddsAlike m w := by
  intro s t alike
  obtain ⟨s', u, new, left, middle, scope, -, grown, between⟩ | ⟨e, f, s', u, left, middle⟩ := first s s (.refl _)
  · obtain ⟨t', more, right, -, scope', further, grown'⟩ := second.of_ok alike middle
    have equal : new = more := (Multiset.add_right_inj).mp (between.symm.trans further)
    exact .inl ⟨s', t', new, left, right, scope, scope', grown, equal ▸ grown'⟩
  · obtain ⟨g, t', right⟩ := second.of_error alike middle
    exact .inr ⟨e, g, s', t', left, right⟩

theorem AddsAlike.and_then (first : AddsAlike m n) (second : AddsAlike m' n') :
    AddsAlike (m >>= fun _ => m') (n >>= fun _ => n') := by
  intro s t alike
  obtain ⟨s', t', new, left, right, scope, scope', grown, grown'⟩ | ⟨e, f, s', t', left, right⟩ := first s t alike
  · rw [bind_of_ok left, bind_of_ok right]
    have between : s'.symbols.Alike t'.symbols :=
      (SymbolTable.Alike.of_plain scope).trans (alike.trans (.of_plain scope'.symm))
    obtain ⟨u, v, more, last, last', inner, inner', further, further'⟩ | failed := second s' t' between
    · refine .inl ⟨u, v, new + more, last, last', inner.trans scope, inner'.trans scope', ?_, ?_⟩
      · rw [further, grown, Multiset.add_assoc]
      · rw [further', grown', Multiset.add_assoc]
    · exact .inr failed
  · exact .inr ⟨e, f, s', t', bind_of_error left, bind_of_error right⟩

/-- Two checks one after the other, in either order. -/
theorem AddsAlike.swap (first : AddsAlike m m) (second : AddsAlike n n) :
    AddsAlike (m >>= fun _ => n) (n >>= fun _ => m) := by
  intro s t alike
  cases left : m s with
  | error e s' =>
    rw [bind_of_error left]
    cases right : n t with
    | error f t' => exact .inr ⟨e, f, s', t', rfl, bind_of_error right⟩
    | ok _ t' =>
      obtain ⟨_, _, _, scope, _⟩ := second.of_ok (.refl _) right
      obtain ⟨f, u, last⟩ := first.of_error (alike.trans (.of_plain scope.symm)) left
      exact .inr ⟨e, f, s', u, rfl, by rw [bind_of_ok right, last]⟩
  | ok _ s' =>
    rw [bind_of_ok left]
    obtain ⟨_, _, _, scope, _⟩ := first.of_ok (.refl _) left
    have between : s'.symbols.Alike t.symbols := (SymbolTable.Alike.of_plain scope).trans alike
    obtain ⟨u, t', more, last, right, inner, outer, further, grown⟩ | ⟨e, f, u, t', last, right⟩ :=
      second s' t between
    · obtain ⟨v, new, final, -, inner', grown', further'⟩ :=
        first.of_ok (alike.trans (.of_plain outer.symm)) left
      refine .inl ⟨u, v, new + more, last, by rw [bind_of_ok right, final], inner.trans scope,
        inner'.trans outer, ?_, ?_⟩
      · rw [further, grown', Multiset.add_assoc]
      · rw [further', grown, Multiset.add_assoc, Multiset.add_comm more]
    · exact .inr ⟨e, f, u, t', last, bind_of_error right⟩

theorem AddsAlike.nothing : AddsAlike (pure ⟨⟩) (pure ⟨⟩) := fun s t _ =>
  .inl ⟨s, t, 0, rfl, rfl, rfl, rfl, (Multiset.add_zero _).symm, (Multiset.add_zero _).symm⟩

section Order

variable {α : Type} {f : α → Check PUnit} (each : ∀ a, AddsAlike (f a) (f a))

include each

theorem forM_addsAlike (all : List α) : AddsAlike (all.forM f) (all.forM f) := by
  induction all with
  | nil => exact .nothing
  | cons a _ ih => exact (each a).and_then ih

/-- The checks may be made in any order. -/
theorem forM_perm {all all' : List α} (perm : all.Perm all') : AddsAlike (all.forM f) (all'.forM f) := by
  induction perm with
  | nil => exact .nothing
  | cons a _ ih => exact (each a).and_then ih
  | swap a b rest =>
    have swapped := ((each b).swap (each a)).and_then (forM_addsAlike each rest)
    simp only [bind_assoc] at swapped
    exact swapped
  | trans _ _ ih ih' => exact ih.trans ih'

end Order

theorem checkRoutine_addsAlike (limit : Int) (r : Routine Stmt) (registered : Option Symbol) :
    AddsAlike (checkRoutine limit r registered) (checkRoutine limit r registered) := by
  intro s t alike
  -- The check begins by saying which routine is checked, whatever was checked before.
  have steady := (checkRoutine_steady limit r registered).concurs s.errors t.errors s { t with routine := s.routine }
    ⟨alike, rfl, 0, (Multiset.add_zero _).symm, (Multiset.add_zero _).symm⟩
  have forgets : checkRoutine limit r registered { t with routine := s.routine } =
      checkRoutine limit r registered t := rfl
  have left := checkRoutine_ends limit r registered s
  have right := checkRoutine_ends limit r registered t
  unfold Ends at steady left right
  rw [forgets] at steady
  cases ran : checkRoutine limit r registered s <;> cases ran' : checkRoutine limit r registered t <;>
    simp only [ran, ran'] at steady left right
  · obtain ⟨new, grown, grown'⟩ := steady.2.errors
    exact .inl ⟨_, _, new, rfl, rfl, left.2.1, right.2.1, grown, grown'⟩
  · exact .inr ⟨_, _, _, _, rfl, rfl⟩

end Bodies

section Programs

theorem quiet_get {next : CheckState → Check PUnit} (each : ∀ s, Quiet (next s)) : Quiet (get >>= next) :=
  ⟨fun s => (each s).ends s⟩

instance : Quiet reportLateGlobals := by
  unfold reportLateGlobals
  refine quiet_get fun s => quiet_forM fun entry => ?_
  dsimp only
  split
  · infer_instance
  next callLine _ =>
    refine quiet_forM fun (name, read) => ?_
    have : Quiet (report read.position (.lateGlobal name read.declaredLine entry.1 callLine)) :=
      quiet_report rfl
    dsimp only
    split <;> infer_instance

/-- The symbols of the same routines make up the same scope, in whatever order. -/
theorem registered_alike {rs rs' : List (Routine Stmt)} (perm : rs.Perm rs')
    (distinct : (rs.map (·.name)).Nodup) :
    SymbolTable.Alike ⟨[], rs.filterMap Routine.symbol?⟩ ⟨[], rs'.filterMap Routine.symbol?⟩ := by
  have names : (((rs.filterMap Routine.symbol?).map Symbol.name).map some).Sublist (rs.map (·.name)) := by
    clear perm distinct
    induction rs with
    | nil => exact .slnil
    | cons r rest ih =>
      cases here : r.symbol? with
      | none => simpa [here] using ih.cons _
      | some symbol =>
        have named := Routine.name_of_symbol? (Option.mem_def.mpr here)
        simpa [here, named] using ih
  have apart : ((rs.filterMap Routine.symbol?).map Symbol.name).Nodup := (distinct.sublist names).of_map _
  refine ⟨rfl, fun name => ?_⟩
  simp only [SymbolTable.plain, SymbolTable.findIn_plain]
  exact congrArg _ (find?_perm Symbol.name (perm.filterMap _) apart name)

/-- The two checks come to an end with the same errors, or neither does. -/
def EndAlike (m n : Check PUnit) (s t : CheckState) : Prop :=
  (∃ s' t', m s = .ok ⟨⟩ s' ∧ n t = .ok ⟨⟩ t' ∧ s'.errors = t'.errors) ∨
    ∃ e f s' t', m s = .error e s' ∧ n t = .error f t'

/-- What is left to check when the routines are registered. -/
theorem checkRest_places (limit : Int) {body body' : List Stmt} (same : SameStatements body body')
    {pairs pairs' : List (Routine Stmt × Option Symbol)} (perm : pairs.Perm pairs') {s t : CheckState}
    (alike : s.Alike 0 0 t) {rest : Check PUnit} (quiet : Quiet rest) :
    EndAlike
      (do
        checkBlock limit .live body
        pairs.forM fun (r, symbol) => checkRoutine limit r symbol
        rest)
      (do
        checkBlock limit .live body'
        pairs'.forM fun (r, symbol) => checkRoutine limit r symbol
        rest) s t := by
  have bodies : AddsAlike (pairs.forM fun (r, symbol) => checkRoutine limit r symbol)
      (pairs'.forM fun (r, symbol) => checkRoutine limit r symbol) :=
    forM_perm (fun pair => checkRoutine_addsAlike limit pair.1 pair.2) perm
  have blocks := checkBlock_concurs limit same .live .live 0 0 s t alike
  unfold Ends at blocks
  cases ran : checkBlock limit .live body s <;> cases ran' : checkBlock limit .live body' t <;>
    simp only [ran, ran'] at blocks
  case ok.ok s₁ _ t₁ =>
    obtain ⟨-, after⟩ := blocks
    obtain ⟨s₂, t₂, new, left, right, -, -, grown, grown'⟩ | ⟨e, f, s₂, t₂, left, right⟩ :=
      bodies s₁ t₁ after.symbols
    · obtain ⟨s₃, last, unmoved⟩ := Quiet.returns rest s₂
      obtain ⟨t₃, last', unmoved'⟩ := Quiet.returns rest t₂
      refine .inl ⟨s₃, t₃, ?_, ?_, ?_⟩
      · rw [bind_of_ok ran, bind_of_ok left, last]
      · rw [bind_of_ok ran', bind_of_ok right, last']
      · obtain ⟨all, before, before'⟩ := after.errors
        rw [unmoved.errors, unmoved'.errors, grown, grown', before, before']
    · exact .inr ⟨e, f, s₂, t₂, by rw [bind_of_ok ran, bind_of_error left],
        by rw [bind_of_ok ran', bind_of_error right]⟩
  case error.error e s₁ f t₁ => exact .inr ⟨e, f, s₁, t₁, bind_of_error ran, bind_of_error ran'⟩

/-- The checks of two programs with the same statements and routines report the same errors. -/
theorem checkProgram_places (limit : Int) {p p' : Program}
    (statements : p.body.filter (·.routine?.isNone) = p'.body.filter (·.routine?.isNone))
    (routines : p.routines.Perm p'.routines) (distinct : (p.routines.map (·.name)).Nodup) :
    EndAlike (checkProgram limit p) (checkProgram limit p') .initial .initial := by
  choose new known using register_free
  have registered (q : Program) (distinct : (q.routines.map (·.name)).Nodup) :
      ∃ s, q.routines.mapM register .initial = .ok (q.routines.map Routine.symbol?) s ∧
        s.symbols = ⟨[], q.routines.filterMap Routine.symbol?⟩ ∧ s.routine = none ∧
        s.errors = (q.routines.map new).sum := by
    have adds := mapM_register known q.routines distinct .initial rfl fun _ _ _ _ => rfl
    cases ran : q.routines.mapM register .initial with
    | error fault s => exact (adds.of_error ran).elim
    | ok found s =>
      obtain ⟨rfl, symbols, routine, errors⟩ := adds.of_ok ran
      exact ⟨s, rfl, symbols, routine, errors.trans (Multiset.zero_add _)⟩
  obtain ⟨s, ran, symbols, routine, errors⟩ := registered p distinct
  obtain ⟨t, ran', symbols', routine', errors'⟩ :=
    registered p' ((routines.map _).nodup_iff.mp distinct)
  have alike : s.Alike 0 0 t := by
    refine ⟨?_, routine.trans routine'.symm, s.errors, (Multiset.zero_add _).symm, ?_⟩
    · rw [symbols, symbols']
      exact registered_alike routines distinct
    · rw [errors, errors', Multiset.zero_add]
      exact ((routines.map new).sum_eq).symm
  have paired (rs : List (Routine Stmt)) :
      rs.zip (rs.map Routine.symbol?) = rs.map fun r => (r, r.symbol?) := by
    induction rs with
    | nil => rfl
    | cons r rest ih => rw [List.map_cons, List.map_cons, List.zip_cons_cons, ih]
  have quiet : Quiet (do
      reportLateGlobals
      reportUnused (← get).symbols.globals) :=
    have : Quiet (do reportUnused (← get).symbols.globals) := quiet_get fun _ => inferInstance
    inferInstance
  unfold EndAlike checkProgram
  rw [bind_of_ok ran, bind_of_ok ran', paired, paired]
  exact checkRest_places limit (.of_filter statements) (routines.map _) alike quiet

end Programs

end Check

end Pseudocode
