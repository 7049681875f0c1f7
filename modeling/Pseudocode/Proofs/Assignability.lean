import Pseudocode.Check.Statement
import Pseudocode.Proofs.Reported
import Pseudocode.Proofs.Store

/-! What the check of an assignment foresees. For a value whose type is known, the check says nothing if no value
of the type is refused, a type mismatch if every one is, and a possible mismatch if some are and some are not; a
literal it judges by its own value. The same rules decide at RETURN and for BYVAL parameters. -/
namespace Pseudocode

theorem DataType.narrowsTo_iff {source target : DataType} : source.narrowsTo target = true ↔
    (source = .real ∧ target = .integer) ∨ (source = .string ∧ target = .char) := by
  cases source <;> cases target <;> simp [narrowsTo]

theorem DataType.widensTo_iff {source target : DataType} : source.widensTo target = true ↔
    (source = .integer ∧ target = .real) ∨ (source = .char ∧ target = .string) := by
  cases source <;> cases target <;> simp [widensTo]

/-- The value cannot be converted to the type, and not for its size. -/
def Value.Misfits (v : Value) (target : DataType) : Prop :=
  ∃ fault, v.coerce (some target) = .error fault ∧ fault.isMismatch = true

/-- The store of the value is refused for its type. -/
def Memory.Refuses (m : Memory) (b : Binding) (v : Value) : Prop :=
  ∃ fault, m.accept b v = .error fault ∧ fault.isMismatch = true

namespace Value

variable {v : Value} {target : DataType}

/-- A value of a type of which none fits. -/
theorem coerce_of_apart (known : v.type ≠ .null) (other : v.type ≠ target) (wide : v.type.widensTo target = false)
    (narrow : v.type.narrowsTo target = false) : v.coerce (some target) = .error (.mismatch v.type target) := by
  cases v with
  | null => exact absurd rfl known
  | boolean b => cases target <;> simp_all [coerce, type]
  | integer n => cases target <;> simp_all [coerce, type, DataType.widensTo]
  | real x => cases target <;> simp_all [coerce, type, DataType.narrowsTo]
  | string s => cases target <;> simp_all [coerce, type, DataType.narrowsTo]
  | char s => cases target <;> simp_all [coerce, type, DataType.widensTo]
  | array id => cases target <;> simp_all [coerce, type]

/-- Some reals and some strings do not fit where the others do. -/
theorem isMismatch_of_narrow {fault : StoreFault} (narrow : v.type.narrowsTo target = true)
    (failed : v.coerce (some target) = .error fault) : fault.isMismatch = true := by
  rcases DataType.narrowsTo_iff.mp narrow with ⟨source, rfl⟩ | ⟨source, rfl⟩
  · cases v with
    | real x =>
      simp only [coerce, type, reduceCtorEq, if_false] at failed
      split at failed
      · cases failed
      · cases failed
        rfl
    | _ => cases source
  · cases v with
    | string s =>
      simp only [coerce, type, reduceCtorEq, if_false] at failed
      split at failed
      · cases failed
      · cases failed
        rfl
    | _ => cases source

/-- An integer stored as a real can be too large, but it is of the right type. -/
theorem not_misfits_of_widens (wide : v.type.widensTo target = true) : ¬v.Misfits target := by
  rintro ⟨fault, failed, mismatch⟩
  rcases DataType.widensTo_iff.mp wide with ⟨source, rfl⟩ | ⟨source, rfl⟩
  · cases v with
    | integer n =>
      rw [coerce_integer] at failed
      cases converted : (Number.integer n).toReal with
      | ok x =>
        rw [converted] at failed
        cases failed
      | error cause =>
        rw [converted] at failed
        cases failed
        cases mismatch
    | _ => cases source
  · cases v with
    | char s => cases failed
    | _ => cases source

/-- What does not fit is of another type, not one whose values all fit, and cannot be converted. -/
theorem misfits_iff (known : v.type ≠ .null) : v.Misfits target ↔
    v.type ≠ target ∧ v.type.widensTo target = false ∧ ¬∃ w, v.coerce (some target) = .ok w := by
  constructor
  · intro misfits
    have wide := mt not_misfits_of_widens (not_not_intro misfits)
    obtain ⟨fault, failed, -⟩ := misfits
    refine ⟨?_, (Bool.not_eq_true _).mp wide, ?_⟩
    · rintro rfl
      rw [coerce_same] at failed
      cases failed
    · rintro ⟨w, kept⟩
      cases kept.symm.trans failed
  · rintro ⟨other, wide, refused⟩
    cases narrow : v.type.narrowsTo target with
    | false => exact ⟨_, coerce_of_apart known other wide narrow, rfl⟩
    | true =>
      cases coerced : v.coerce (some target) with
      | ok w => exact absurd ⟨w, coerced⟩ refused
      | error fault => exact ⟨fault, coerced, isMismatch_of_narrow narrow coerced⟩

end Value

/-- But for types of arrays, what a binding of a type accepts is what can be converted to the type. -/
theorem Memory.accept_eq_coerce {m : Memory} {b : Binding} {v : Value} {target : DataType}
    (writable : b.isConstant = false) (declared : b.declared = some target) (apart : target ≠ .array) :
    m.accept b v = v.coerce (some target) := by
  unfold accept
  rw [writable, declared, if_neg Bool.false_ne_true]
  have other : ¬(some target = some DataType.array ∧ v ≠ .null) := fun both => apart (Option.some.inj both.1)
  cases v with
  | array id =>
    cases target with
    | array => exact absurd rfl apart
    | _ => rfl
  | _ => exact if_neg other

/-- But for arrays stored over arrays, a store is refused for the type of the value just if that does not fit. -/
theorem Memory.refuses_iff {m : Memory} {b : Binding} {v : Value} {target : DataType} (writable : b.isConstant = false)
    (declared : b.declared = some target) (known : v.type ≠ .null) (scalar : ¬(v.type = .array ∧ target = .array)) :
    m.Refuses b v ↔ v.Misfits target := by
  unfold Refuses Value.Misfits
  by_cases array : target = .array
  · subst array
    have other : v.type ≠ .array := fun same => scalar ⟨same, rfl⟩
    have refused : m.accept b v = .error .scalarToArray := by
      unfold accept
      rw [writable, declared, if_neg Bool.false_ne_true]
      cases v with
      | null => exact absurd rfl known
      | array id => exact absurd rfl other
      | _ => rfl
    have narrow : v.type.narrowsTo .array = false := by cases v <;> rfl
    have wide : v.type.widensTo .array = false := by cases v <;> rfl
    rw [refused, Value.coerce_of_apart known other wide narrow]
    exact ⟨fun _ => ⟨_, rfl, rfl⟩, fun _ => ⟨_, rfl, rfl⟩⟩
  · rw [accept_eq_coerce writable declared array]

/-- What is known of a value is its type, and of a literal also the value. -/
structure Inferred.IsOf (source : Inferred) (type : DataType) : Prop where
  typed : source.type = some type
  literal : ∀ l, source.literal = some l → (Value.ofLiteral l).type = type

/-- What a check reports of a value tells which values of its type a store refuses. -/
structure Foresees (source : Inferred) (type : DataType) (reports : List Report) (refuses : Value → Prop) : Prop where
  silent : source.literal = none → reports = [] → ∀ v, v.type = type → ¬refuses v
  mismatch : source.literal = none → (∃ r ∈ reports, r.finding.code = .typeMismatch) → ∀ v, v.type = type → refuses v
  possible : source.literal = none → (∃ r ∈ reports, r.finding.code = .possibleTypeMismatch) →
    (∃ v, v.type = type ∧ refuses v) ∧ ∃ v, v.type = type ∧ ¬refuses v
  literal : ∀ l, source.literal = some l →
    ((∃ r ∈ reports, r.finding.severity = .error) ↔ refuses (Value.ofLiteral l))

/-- What is reported of a value that fits so. -/
def Fit.reports (position : Position) (what : String) : Fit → List Report
  | .always => []
  | .sometimes source target => [⟨position, .possibleMismatch source target what⟩]
  | .never source target => [⟨position, .notAssignable source target what⟩]

section Forecasts

variable {source : Inferred} {type target : DataType} {refuses : Value → Prop} {r : Report}

theorem foresees_nothing (never : ∀ v, v.type = type → ¬refuses v) (isOf : source.IsOf type) :
    Foresees source type [] refuses where
  silent _ _ := never
  mismatch _ := by simp
  possible _ := by simp
  literal l given := by simp [never _ (isOf.literal l given)]

theorem foresees_mismatch (always : ∀ v, v.type = type → refuses v) (isOf : source.IsOf type)
    (code : r.finding.code = .typeMismatch) (severity : r.finding.severity = .error) :
    Foresees source type [r] refuses where
  silent _ := by simp
  mismatch _ _ := always
  possible _ := by simp [code]
  literal l given := by simp [severity, always _ (isOf.literal l given)]

theorem foresees_possible (some : ∃ v, v.type = type ∧ refuses v) (others : ∃ v, v.type = type ∧ ¬refuses v)
    (unknown : source.literal = none) (code : r.finding.code = .possibleTypeMismatch) :
    Foresees source type [r] refuses where
  silent _ := by simp
  mismatch _ := by simp [code]
  possible _ _ := ⟨some, others⟩
  literal l given := by simp [unknown] at given

/-- A literal is judged by its own value. -/
theorem foresees_literal {l : Literal} {reports : List Report} (given : source.literal = some l)
    (judged : (∃ r ∈ reports, r.finding.severity = .error) ↔ refuses (Value.ofLiteral l)) :
    Foresees source type reports refuses where
  silent unknown := by simp [given] at unknown
  mismatch unknown := by simp [given] at unknown
  possible unknown := by simp [given] at unknown
  literal other same := by
    cases given.symm.trans same
    exact judged

theorem exists_misfits_of_narrow (narrow : type.narrowsTo target = true) :
    (∃ v : Value, v.type = type ∧ v.Misfits target) ∧ ∃ v : Value, v.type = type ∧ ¬v.Misfits target := by
  rcases DataType.narrowsTo_iff.mp narrow with ⟨rfl, rfl⟩ | ⟨rfl, rfl⟩
  · refine ⟨⟨.real .nan, rfl, _, rfl, rfl⟩, .real (.zero false), rfl, ?_⟩
    have kept : (Value.real (.zero false)).coerce (some .integer) = .ok (.integer 0) := by
      simp [Value.coerce, Value.type, Binary64.isIntegral, Binary64.truncate, Binary64.units, Binary64.zero,
        Binary64.signed]
    rintro ⟨fault, failed, -⟩
    cases kept.symm.trans failed
  · refine ⟨⟨.string "", rfl, _, rfl, rfl⟩, .string "a", rfl, ?_⟩
    rintro ⟨fault, failed, -⟩
    cases failed

/-- What is reported of a fit foresees a store that refuses what does not fit. -/
theorem foresees_fit (isOf : source.IsOf type) (known : type ≠ .null)
    (decides : ∀ v : Value, v.type = type → (refuses v ↔ v.Misfits target)) (position : Position) (what : String) :
    Foresees source type ((source.fit (some target)).reports position what) refuses := by
  have literals (l : Literal) (given : source.literal = some l) :=
    decides (.ofLiteral l) (isOf.literal l given)
  by_cases fits : type = target ∨ type.widensTo target = true
  · have never (v : Value) (same : v.type = type) : ¬refuses v := by
      subst same
      rw [decides v rfl, Value.misfits_iff known]
      rintro ⟨other, wide, -⟩
      exact fits.elim other fun widens => Bool.false_ne_true (wide.symm.trans widens)
    have always : source.fit (some target) = .always := by
      unfold Inferred.fit
      rw [isOf.typed]
      exact if_pos (.inr fits)
    rw [always]
    exact foresees_nothing never isOf
  · obtain ⟨other, wide⟩ := not_or.mp fits
    have wide := (Bool.not_eq_true _).mp wide
    cases given : source.literal with
    | none =>
      have unknown : source.fit (some target) =
          if type.narrowsTo target then .sometimes type target else .never type target := by
        simp [Inferred.fit, isOf.typed, known, other, wide, given]
      rw [unknown]
      split
      next narrow =>
        obtain ⟨⟨v, same, misfits⟩, w, alike, fitting⟩ := exists_misfits_of_narrow narrow
        exact foresees_possible ⟨v, same, (decides v same).mpr misfits⟩
          ⟨w, alike, mt (decides w alike).mp fitting⟩ given rfl
      next narrow =>
        refine foresees_mismatch (fun v same => (decides v same).mpr ?_) isOf rfl rfl
        subst same
        exact ⟨_, Value.coerce_of_apart known other wide ((Bool.not_eq_true _).mp narrow), rfl⟩
    | some l =>
      have same := isOf.literal l given
      refine foresees_literal given ?_
      rw [decides _ same, Value.misfits_iff (same ▸ known), same]
      cases coerced : (Value.ofLiteral l).coerce (some target) with
      | ok w => simp [Inferred.fit, isOf.typed, known, other, wide, given, coerced, Fit.reports]
      | error fault =>
        simp [Inferred.fit, isOf.typed, known, other, wide, given, coerced, Fit.reports, Finding.severity]

end Forecasts

namespace Check

variable {source : Inferred} {type target : DataType}

/-- But for arrays stored over arrays, a check of an assignment goes by the fit alone. -/
theorem checkAssignable_issues (isOf : source.IsOf type) (scalar : ¬(type = .array ∧ target = .array))
    (position : Position) (what : String) (holder : Option Symbol) :
    Issues (checkAssignable position (some target) source what holder)
      ((source.fit (some target)).reports position what) := by
  unfold checkAssignable
  cases fit : source.fit (some target) with
  | sometimes => exact issues_report _ _
  | never => exact issues_report _ _
  | always =>
    dsimp only
    split
    case h_2 => exact issues_pure
    case h_1 array _ =>
      have same : type = .array := Option.some.inj (isOf.typed.symm.trans array)
      subst same
      have unknown : source.literal = none := by
        cases given : source.literal with
        | none => rfl
        | some l => cases l <;> cases isOf.literal _ given
      have other : DataType.array ≠ target := fun same => scalar ⟨rfl, same.symm⟩
      simp [Inferred.fit, isOf.typed, unknown, other, DataType.widensTo, DataType.narrowsTo] at fit

/-- What is reported of an argument for a scalar parameter: an array is refused in words of its own. -/
def argumentReports (callee : String) (param : Param) (position : Position) (source : Inferred) (target : DataType) :
    List Report :=
  let what := s!"parameter '{param.name}' of '{callee}'"
  if source.type = some .array then [⟨position, .arrayArgument what⟩]
  else (source.fit (some target)).reports position what

theorem checkArgument_issues {callee : String} {param : Param} (isOf : source.IsOf type)
    (declared : DataType.ofName? param.typeName = some target) (scalar : target ≠ .array) (position : Position) :
    Issues (checkArgument callee param position source) (argumentReports callee param position source target) := by
  have other : ¬some target = some DataType.array := mt Option.some.inj scalar
  unfold checkArgument argumentReports
  simp only [declared, other, if_false, Option.isSome_some, if_true]
  split
  · exact issues_report _ _
  · exact checkAssignable_issues isOf (fun both => scalar both.2) position _ none

/-- The value of a RETURN is checked as if it were assigned to the result of the function. -/
theorem checkReturn_issues {e : Expr} {s t : CheckState} {f : Symbol} (isOf : source.IsOf type)
    (scalar : ¬(type = .array ∧ target = .array)) (inferred : infer e s = .ok source t) (inside : t.routine = some f)
    (function : f.kind = .function) (declared : f.type = some target) (position : Position) :
    checkReturn position (some e) s =
      .ok ⟨⟩ (t.reporting ((source.fit (some target)).reports position s!"return value of '{f.name}'")) := by
  rw [← checkAssignable_issues isOf scalar position s!"return value of '{f.name}'" none t]
  have started : (some <$> infer e) s = .ok (some source) t := by
    show EStateM.map some (infer e) s = _
    rw [EStateM.map, inferred]
  have routine : (get : Check CheckState) t = .ok t t := rfl
  unfold checkReturn
  dsimp only
  rw [bind_of_ok started, bind_of_ok routine]
  simp [inside, function, declared]

end Check

namespace Run

variable {α : Type} {m : Run α} {s : RunState} {line : Nat} {report : StoreFault → RunFault} {b : Binding} {v : Value}

/-- The computation stops, with nothing changed, to report that a value is of the wrong type. -/
def RefusedFor (m : Run α) (s : RunState) (line : Nat) (report : StoreFault → RunFault) : Prop :=
  ∃ fault, m s = .error (.fault line (report fault)) s ∧ fault.isMismatch = true

/-- Where a failed store is reported, it is the store that is reported. -/
theorem told_of_storeFailed {fault : StoreFault} {place : Nat} {told : RunFault} {t : RunState}
    (stopped : (storeFailed line report fault : Run α) s = .error (.fault place told) t) : told = report fault := by
  cases fault with
  | overflow => cases stopped
  | endless => cases stopped
  | _ =>
    cases stopped
    rfl

/-- What goes on only with a value that is accepted stops for its type just if a store refuses it for that. -/
theorem refusedFor_iff (next : Value → Run α) (injective : ∀ x y, report x = report y → x = y)
    (stores : m s = (match s.memory.accept b v with
      | .ok kept => next kept
      | .error fault => storeFailed line report fault : Run α) s)
    (returns : ∀ kept, ∃ a t, next kept s = .ok a t) : RefusedFor m s line report ↔ s.memory.Refuses b v := by
  unfold RefusedFor
  rw [stores]
  constructor
  · rintro ⟨fault, stopped, mismatch⟩
    cases accepted : s.memory.accept b v with
    | ok kept =>
      rw [accepted] at stopped
      obtain ⟨a, t, returned⟩ := returns kept
      cases returned.symm.trans stopped
    | error cause =>
      rw [accepted] at stopped
      refine ⟨cause, accepted, ?_⟩
      rw [← injective _ _ (told_of_storeFailed stopped)]
      exact mismatch
  · rintro ⟨fault, accepted, mismatch⟩
    rw [accepted]
    refine ⟨fault, ?_, mismatch⟩
    cases fault with
    | overflow => cases mismatch
    | endless => cases mismatch
    | _ => rfl

/-- A RETURN stores the value as the result of the function. -/
theorem resultOf_refused_iff {r : Routine Stmt} {target : DataType} (function : r.kind = .function)
    (declared : r.returns.bind DataType.ofName? = some target) (name : String) (returnLine : Nat) :
    RefusedFor (resultOf line r name (.returned v returnLine)) s returnLine .store ↔
      s.memory.Refuses ⟨.null, some target, false⟩ v := by
  have injective (x y : StoreFault) (same : RunFault.store x = .store y) : x = y := RunFault.store.inj same
  apply refusedFor_iff pure injective
  · unfold resultOf
    rw [function]
    simp only [declared]
    rfl
  · intro kept
    exact ⟨kept, s, rfl⟩

/-- A scalar argument passed by value is stored in a binding of its own. -/
theorem bindArgument_refused_iff {callee : String} {param : Param} {target : DataType} (argument : Expr)
    (byValue : param.mode = .byValue) (declared : DataType.ofName? param.typeName = some target)
    (scalar : target ≠ .array) :
    RefusedFor (bindArgument line callee param argument (pure v)) s line (.argumentStore · param.name callee) ↔
      s.memory.Refuses ⟨.null, some target, false⟩ v := by
  have injective (x y : StoreFault)
      (same : RunFault.argumentStore x param.name callee = .argumentStore y param.name callee) : x = y :=
    (RunFault.argumentStore.inj same).1
  have bound : bindArgument line callee param argument (pure v) s =
      storeFresh line (some target) v (.argumentStore · param.name callee) s := by
    unfold bindArgument
    rw [byValue]
    show bindValue line callee param v s = _
    unfold bindValue
    rw [declared]
    cases target with
    | array => exact absurd rfl scalar
    | _ => rfl
  apply refusedFor_iff (fun kept => withMemory (·.addBinding ⟨kept, some target, false⟩)) injective
  · rw [bound]
    rfl
  · intro kept
    exact ⟨_, _, rfl⟩

end Run

section Stores

variable {source : Inferred} {type target : DataType}

theorem foresees_refusals (isOf : source.IsOf type) (known : type ≠ .null)
    (scalar : ¬(type = .array ∧ target = .array)) {m : Memory} {b : Binding} (writable : b.isConstant = false)
    (declared : b.declared = some target) (position : Position) (what : String) :
    Foresees source type ((source.fit (some target)).reports position what) (m.Refuses b) := by
  refine foresees_fit isOf known ?_ position what
  rintro v rfl
  exact Memory.refuses_iff writable declared known scalar

/-- No array fits a scalar parameter; any other argument is judged as if it were assigned. -/
theorem foresees_argument (isOf : source.IsOf type) (known : type ≠ .null) (scalar : target ≠ .array) {m : Memory}
    {b : Binding} (writable : b.isConstant = false) (declared : b.declared = some target) (callee : String)
    (param : Param) (position : Position) :
    Foresees source type (Check.argumentReports callee param position source target) (m.Refuses b) := by
  have apart : ¬(type = .array ∧ target = .array) := fun both => scalar both.2
  unfold Check.argumentReports
  dsimp only
  split
  next array =>
    have same : type = .array := Option.some.inj (isOf.typed.symm.trans array)
    subst same
    refine foresees_mismatch ?_ isOf rfl rfl
    rintro v array
    rw [Memory.refuses_iff writable declared (array ▸ known) (array ▸ apart)]
    exact ⟨_, Value.coerce_of_apart (array ▸ known) (array ▸ scalar.symm) (array ▸ rfl) (array ▸ rfl), rfl⟩
  next => exact foresees_refusals isOf known apart writable declared _ _

/-- What the checks of an assignment, of a RETURN and of an argument passed by value report of a scalar foresees
which stores are refused. -/
theorem scalar_stores_foreseen (isOf : source.IsOf type) (known : type ≠ .null)
    (scalar : ¬(type = .array ∧ target = .array)) :
    (∀ position what holder, ∃ reports,
      Check.Issues (Check.checkAssignable position (some target) source what holder) reports ∧
      ∀ (m : Memory) (b : Binding), b.isConstant = false → b.declared = some target →
        Foresees source type reports (m.Refuses b)) ∧
    (∀ position e s t (f : Symbol), Check.infer e s = .ok source t → t.routine = some f → f.kind = .function →
      f.type = some target → ∃ reports, Check.checkReturn position (some e) s = .ok ⟨⟩ (t.reporting reports) ∧
        ∀ line r name returnLine u, r.kind = .function → r.returns.bind DataType.ofName? = some target →
          Foresees source type reports fun v =>
            Run.RefusedFor (Run.resultOf line r name (.returned v returnLine)) u returnLine .store) ∧
    (∀ callee (param : Param) position, DataType.ofName? param.typeName = some target → target ≠ .array →
      ∃ reports, Check.Issues (Check.checkArgument callee param position source) reports ∧
        ∀ line argument u, param.mode = .byValue → Foresees source type reports fun v =>
          Run.RefusedFor (Run.bindArgument line callee param argument (pure v)) u line
            (.argumentStore · param.name callee)) := by
  refine ⟨?assignment, ?giveBack, ?argument⟩
  case assignment =>
    intro position what holder
    refine ⟨_, Check.checkAssignable_issues isOf scalar position what holder, ?_⟩
    intro m b writable declared
    exact foresees_refusals isOf known scalar writable declared position what
  case giveBack =>
    intro position e s t f inferred inside function declared
    refine ⟨_, Check.checkReturn_issues isOf scalar inferred inside function declared position, ?_⟩
    intro line r name returnLine u function declared
    simp only [Run.resultOf_refused_iff function declared]
    exact foresees_refusals isOf known scalar rfl rfl _ _
  case argument =>
    intro callee param position declared other
    refine ⟨_, Check.checkArgument_issues isOf declared other position, ?_⟩
    intro line argument u byValue
    simp only [Run.bindArgument_refused_iff argument byValue declared other]
    exact foresees_argument isOf known other rfl rfl callee param position

/-- The literal "ab". -/
def twoCharacters : Inferred := { type := some .string, literal := some (.string "ab") }

/-- A text of two characters is reported when it is assigned to a CHAR, and the store of it is refused. -/
theorem longText_foreseen : ∃ reports,
    Check.Issues (Check.checkAssignable ⟨2, 1⟩ (some .char) twoCharacters "'c'" none) reports ∧
      (∃ r ∈ reports, r.finding.severity = .error) ∧
        Memory.initial.Refuses ⟨.char "", some .char, false⟩ (.string "ab") := by
  have isOf : twoCharacters.IsOf .string := by
    constructor
    · rfl
    · rintro l given
      cases given
      rfl
  have foreseen := @scalar_stores_foreseen _ _ .char isOf (by decide) (by decide)
  obtain ⟨reports, issued, foresees⟩ := foreseen.1 ⟨2, 1⟩ "'c'" none
  have refused : Memory.initial.Refuses ⟨.char "", some .char, false⟩ (.string "ab") := ⟨_, rfl, rfl⟩
  have judged := (foresees Memory.initial ⟨.char "", some .char, false⟩ rfl rfl).literal (.string "ab") rfl
  exact ⟨reports, issued, judged.mpr refused, refused⟩

end Stores

end Pseudocode
