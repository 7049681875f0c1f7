import Mathlib.Data.Multiset.AddSub
import Pseudocode.Proofs.ReviewedCode

/-! Two checks in lockstep. The errors that a check of code reports depend on the symbols in scope and on
the routine that the code is in; they depend neither on which symbols are marked as used, nor on the
order of the global names, nor on anything that was reported or noted before. So from two states that are
alike in this sense, the same code is checked with the same errors, and the states are alike again. -/
namespace Pseudocode

/-- Two symbols that differ at most in the mark. -/
theorem Symbol.exists_used {a b : Symbol} (same : a.plain = b.plain) : ∃ used, b = { a with used } := by
  refine ⟨b.used, ?_⟩
  calc
    b = { b.plain with used := b.used } := rfl
    _ = { a.plain with used := b.used } := by rw [same]

/-- What was found, without the mark that it is used. -/
def Found.plain (found : Found) : Found := ⟨found.symbol.plain, found.isGlobal⟩

/-- Two symbols found in the same scope that differ at most in the mark. -/
theorem Found.exists_used {a b : Found} (same : a.plain = b.plain) :
    ∃ used, b = ⟨{ a.symbol with used }, a.isGlobal⟩ := by
  obtain ⟨used, symbol⟩ := Symbol.exists_used (congrArg Found.symbol same)
  have place : a.isGlobal = b.isGlobal := (congrArg Found.isGlobal same :)
  exact ⟨used, by rw [← symbol, place]⟩

/-- What is known of a value, without the mark of the array that it names. -/
def Inferred.plain (value : Inferred) : Inferred := { value with array := value.array.map Symbol.plain }

/-- Two tables that answer alike: they have the same scopes but for the marks and the order of the
global symbols. -/
structure SymbolTable.Alike (t u : SymbolTable) : Prop where
  inner : t.plain.inner = u.plain.inner
  globals : ∀ name, findIn t.plain.globals name = findIn u.plain.globals name

namespace SymbolTable

variable {t u w : SymbolTable}

theorem Alike.of_plain (same : t.plain = u.plain) : t.Alike u :=
  ⟨congrArg SymbolTable.inner same, fun name => congrArg (fun table : SymbolTable => findIn table.globals name) same⟩

theorem Alike.refl (t : SymbolTable) : t.Alike t := .of_plain rfl

theorem Alike.symm (alike : t.Alike u) : u.Alike t :=
  ⟨alike.inner.symm, fun name => (alike.globals name).symm⟩

theorem Alike.trans (first : t.Alike u) (second : u.Alike w) : t.Alike w :=
  ⟨first.inner.trans second.inner, fun name => (first.globals name).trans (second.globals name)⟩

/-- A name is found in both tables or in neither, in the same scope. -/
theorem Alike.lookup (alike : t.Alike u) (name : String) :
    (t.lookup name).map Found.plain = (u.lookup name).map Found.plain := by
  have same : t.plain.lookup name = u.plain.lookup name := by
    unfold SymbolTable.lookup
    rw [alike.inner, alike.globals]
  rwa [lookup_plain, lookup_plain] at same

theorem Alike.lookupLocal (alike : t.Alike u) (name : String) :
    (t.lookupLocal name).map Symbol.plain = (u.lookupLocal name).map Symbol.plain := by
  obtain ⟨inner, globals⟩ := t
  obtain ⟨inner', globals'⟩ := u
  have globals := alike.globals name
  have inside : inner.map (·.map Symbol.plain) = inner'.map (·.map Symbol.plain) := alike.inner
  simp only [plain, findIn_plain] at globals
  cases inner with
  | nil => cases inner' with
    | nil => exact globals
    | cons => simp at inside
  | cons scope outer => cases inner' with
    | nil => simp at inside
    | cons scope' outer' =>
      simp only [List.map_cons, List.cons.injEq] at inside
      simp only [SymbolTable.lookupLocal, current, List.head?_cons, Option.getD_some, ← findIn_plain]
      rw [inside.1]

/-- The same symbol is added to both. -/
theorem Alike.add (alike : t.Alike u) (symbol : Symbol) :
    (t.setCurrent (t.current ++ [symbol])).Alike (u.setCurrent (u.current ++ [symbol])) := by
  obtain ⟨inner, globals⟩ := t
  obtain ⟨inner', globals'⟩ := u
  have globals := alike.globals
  have inside : inner.map (·.map Symbol.plain) = inner'.map (·.map Symbol.plain) := alike.inner
  cases inner with
  | nil => cases inner' with
    | nil =>
      refine ⟨rfl, fun name => ?_⟩
      have same := globals name
      simp only [plain, findIn] at same
      simp only [plain, setCurrent, current, findIn, List.head?_nil, Option.getD_none, List.map_append,
        List.find?_append, same]
    | cons => simp at inside
  | cons scope outer => cases inner' with
    | nil => simp at inside
    | cons scope' outer' =>
      refine ⟨?_, globals⟩
      simp only [List.map_cons, List.cons.injEq] at inside
      simp only [plain, setCurrent, current, List.head?_cons, Option.getD_some, List.map_cons,
        List.map_append, inside]

theorem Alike.enter (alike : t.Alike u) : t.enter.Alike u.enter :=
  ⟨congrArg ([] :: ·) alike.inner, alike.globals⟩

/-- There is a scope to leave in both tables or in neither. -/
theorem Alike.exit (alike : t.Alike u) :
    (∃ fault, t.exit = .error fault ∧ u.exit = .error fault) ∨
      ∃ scope scope' t' u', t.exit = .ok (scope, t') ∧ u.exit = .ok (scope', u') ∧ t'.Alike u' := by
  obtain ⟨inner, globals⟩ := t
  obtain ⟨inner', globals'⟩ := u
  have inside : inner.map (·.map Symbol.plain) = inner'.map (·.map Symbol.plain) := alike.inner
  cases inner with
  | nil => cases inner' with
    | nil => exact .inl ⟨_, rfl, rfl⟩
    | cons => simp at inside
  | cons scope outer => cases inner' with
    | nil => simp at inside
    | cons scope' outer' =>
      exact .inr ⟨scope, scope', _, _, rfl, rfl, (List.cons.inj inside).2, alike.globals⟩

end SymbolTable

/-- The errors reported so far, in no order. -/
def CheckState.errors (s : CheckState) : Multiset Report :=
  ↑(s.reports.toList.filter (·.finding.severity = .error))

/-- Two states in which code is checked alike; since the errors in `before` and `before'`, the same errors
have been reported in both. -/
structure CheckState.Alike (before before' : Multiset Report) (s t : CheckState) : Prop where
  symbols : s.symbols.Alike t.symbols
  routine : s.routine = t.routine
  errors : ∃ new, s.errors = before + new ∧ t.errors = before' + new

/-- What was reported is still reported. -/
def CheckState.Kept (s t : CheckState) : Prop := ∀ r ∈ s.reports, r ∈ t.reports

/-- A later state that is the same for a check of code. -/
structure CheckState.Unmoved (s t : CheckState) : Prop where
  symbols : t.symbols.plain = s.symbols.plain
  routine : t.routine = s.routine
  errors : t.errors = s.errors
  kept : s.Kept t

namespace CheckState

variable {s t u s' t' : CheckState}

theorem Kept.refl (s : CheckState) : s.Kept s := fun _ => id

theorem Kept.trans (first : s.Kept t) (second : t.Kept u) : s.Kept u :=
  fun r member => second r (first r member)

theorem kept_of_same (same : t.reports = s.reports) : s.Kept t := fun _ member => same ▸ member

theorem Unmoved.refl (s : CheckState) : s.Unmoved s := ⟨rfl, rfl, rfl, .refl s⟩

theorem Unmoved.trans (first : s.Unmoved t) (second : t.Unmoved u) : s.Unmoved u :=
  ⟨second.symbols.trans first.symbols, second.routine.trans first.routine,
    second.errors.trans first.errors, first.kept.trans second.kept⟩

theorem Unmoved.alike {before before' : Multiset Report} (left : s.Unmoved s') (right : t.Unmoved t')
    (alike : s.Alike before before' t) : s'.Alike before before' t' where
  symbols := (SymbolTable.Alike.of_plain left.symbols).trans
    (alike.symbols.trans (.of_plain right.symbols.symm))
  routine := left.routine.trans (alike.routine.trans right.routine.symm)
  errors := by
    rw [left.errors, right.errors]
    exact alike.errors

end CheckState

namespace Check

/-- The two checks do the same from states that are alike, with answers that are related. -/
def Concurs (related : α → β → Prop) (m : Check α) (n : Check β) : Prop :=
  ∀ before before' s t, CheckState.Alike before before' s t → Ends m s
    (fun a s' => Ends n t (fun b t' => related a b ∧ s'.Alike before before' t') fun _ _ => False)
    fun _ _ => Ends n t (fun _ _ => False) fun _ _ => True

/-- What a check does is the same in states that are alike. -/
class Steady (m : Check α) : Prop where
  concurs : Concurs Eq m m

section Laws

variable {α β γ δ : Type} {m : Check α} {n : Check β} {related : α → β → Prop} {further : γ → δ → Prop}

theorem concurs_pure {a : α} {b : β} (same : related a b) : Concurs related (pure a) (pure b) :=
  fun _ _ _ _ alike => ⟨same, alike⟩

theorem concurs_throw (fault fault' : CheckFault) :
    Concurs related (throw fault : Check α) (throw fault' : Check β) := fun _ _ _ _ _ => trivial

theorem Concurs.bind {next : α → Check γ} {next' : β → Check δ} (first : Concurs related m n)
    (rest : ∀ a b, related a b → Concurs further (next a) (next' b)) :
    Concurs further (m >>= next) (n >>= next') := by
  intro before before' s t alike
  rw [ends_bind]
  refine (first _ _ s t alike).mono (fun a s' inner => ?_) fun e s' inner => ?_
  · obtain ⟨b, t', ran⟩ : ∃ b t', n t = .ok b t' := by
      cases ran : n t with
      | ok b t' => exact ⟨b, t', rfl⟩
      | error e t' => exact (inner.of_error ran).elim
    obtain ⟨same, between⟩ := inner.of_ok ran
    exact (rest a b same _ _ s' t' between).mono (fun c u known => (ends_congr (bind_of_ok ran)).mpr known)
      fun e u known => (ends_congr (bind_of_ok ran)).mpr known
  · exact ends_bind.mpr (inner.mono (fun _ _ never => never.elim) fun _ _ _ => trivial)

theorem Concurs.weaken {weaker : α → β → Prop} (concurs : Concurs related m n)
    (known : ∀ a b, related a b → weaker a b) : Concurs weaker m n :=
  fun before before' s t alike => (concurs before before' s t alike).mono
    (fun a _ inner => inner.mono (fun b _ both => ⟨known a b both.1, both.2⟩) fun _ _ never => never)
    fun _ _ inner => inner

theorem Concurs.mapped {f : α → γ} {g : β → δ} (concurs : Concurs related m n)
    (known : ∀ a b, related a b → further (f a) (g b)) : Concurs further (f <$> m) (g <$> n) := by
  rw [← bind_pure_comp, ← bind_pure_comp]
  exact concurs.bind fun a b same => concurs_pure (known a b same)

theorem Concurs.discarded (concurs : Concurs related m n) : Concurs Eq (discard m) (discard n) :=
  concurs.mapped fun _ _ _ => rfl

/-- What follows the same answer of a steady check. -/
theorem Steady.bind {next : α → Check γ} {next' : α → Check δ} [Steady m]
    (rest : ∀ a, Concurs further (next a) (next' a)) : Concurs further (m >>= next) (m >>= next') :=
  Steady.concurs.bind fun a _ same => same ▸ rest a

theorem concurs_ite {c : Prop} [Decidable c] {m m' : Check α} {n n' : Check β} (holds : Concurs related m n)
    (fails : Concurs related m' n') : Concurs related (if c then m else m') (if c then n else n') := by
  split
  · exact holds
  · exact fails

instance : Steady (pure a : Check α) := ⟨concurs_pure rfl⟩

instance : Steady (throw fault : Check α) := ⟨concurs_throw fault fault⟩

instance : Steady (report place finding) := by
  refine ⟨fun before before' s t alike => ⟨rfl, alike.symbols, alike.routine, ?_⟩⟩
  obtain ⟨new, left, right⟩ := alike.errors
  refine ⟨new + ↑(([⟨place, finding⟩] : List Report).filter (·.finding.severity = .error)), ?_, ?_⟩
  · rw [← Multiset.add_assoc, ← left]
    simp only [CheckState.errors, Array.toList_push, List.filter_append, Multiset.coe_add]
  · rw [← Multiset.add_assoc, ← right]
    simp only [CheckState.errors, Array.toList_push, List.filter_append, Multiset.coe_add]

instance {next : α → Check γ} [Steady m] [∀ a, Steady (next a)] : Steady (m >>= next) :=
  ⟨Steady.bind fun _ => Steady.concurs⟩

instance [Steady m] : Steady (discard m) := ⟨Steady.concurs.discarded⟩

instance {c : Prop} [Decidable c] {m m' : Check α} [Steady m] [Steady m'] :
    Steady (if c then m else m') := ⟨concurs_ite Steady.concurs Steady.concurs⟩

theorem concurs_forM {f : α → Check PUnit} {f' : β → Check PUnit} {all : List α} {all' : List β}
    (each : List.Forall₂ (fun a b => Concurs Eq (f a) (f' b)) all all') :
    Concurs Eq (all.forM f) (all'.forM f') := by
  induction each with
  | nil => exact concurs_pure rfl
  | cons first _ ih => exact Concurs.bind first fun _ _ _ => ih

instance {f : α → Check PUnit} [∀ a, Steady (f a)] (all : List α) : Steady (all.forM f) :=
  ⟨concurs_forM (List.forall₂_same.mpr fun _ _ => Steady.concurs)⟩

/-- A check that reports no error and changes nothing that other checks go by. -/
class Quiet (m : Check PUnit) : Prop where
  ends : ∀ s, Ends m s (fun _ t => s.Unmoved t) fun _ _ => False

theorem Quiet.concurs {m n : Check PUnit} [Quiet m] [Quiet n] : Concurs Eq m n := by
  intro before before' s t alike
  refine (Quiet.ends (m := m) s).mono (fun _ s' left => ?_) fun _ _ never => never.elim
  exact (Quiet.ends (m := n) t).mono (fun _ t' right => ⟨rfl, left.alike right alike⟩) fun _ _ never => never

instance {m : Check PUnit} [Quiet m] : Steady m := ⟨Quiet.concurs⟩

theorem quiet_modify {f : CheckState → CheckState} (keeps : ∀ s : CheckState, s.Unmoved (f s)) :
    Quiet (modify f) := ⟨keeps⟩

instance : Quiet (pure a) := ⟨fun s => .refl s⟩

theorem quiet_report {place : Position} {finding : Finding} (harmless : finding.severity = .warning) :
    Quiet (report place finding) :=
  quiet_modify fun s => ⟨rfl, rfl, by simp [CheckState.errors, harmless],
    fun _ member => Array.mem_push_of_mem _ member⟩

instance {m : Check PUnit} {next : PUnit → Check PUnit} [Quiet m] [∀ a, Quiet (next a)] :
    Quiet (m >>= next) := by
  refine ⟨fun s => ends_bind.mpr ?_⟩
  refine (Quiet.ends (m := m) s).mono (fun a t first => ?_) fun _ _ never => never
  exact (Quiet.ends t).mono (fun _ _ after => first.trans after) fun _ _ never => never

theorem quiet_forM {α : Type} {f : α → Check PUnit} (each : ∀ a, Quiet (f a)) {all : List α} :
    Quiet (all.forM f) := by
  induction all with
  | nil => exact inferInstanceAs (Quiet (pure ⟨⟩))
  | cons a rest ih => exact inferInstanceAs (Quiet (f a >>= fun _ => rest.forM f))

end Laws

section Basic

theorem concurs_modify {f g : CheckState → CheckState}
    (keeps : ∀ {before before' s t}, CheckState.Alike before before' s t → (f s).Alike before before' (g t)) :
    Concurs Eq (modify f : Check PUnit) (modify g) := fun _ _ _ _ alike => ⟨rfl, keeps alike⟩

/-- What follows a look for a name. -/
theorem concurs_lookup {α β : Type} {related : α → β → Prop} {next : Option Found → Check α}
    {next' : Option Found → Check β} (name : String)
    (absent : Concurs related (next none) (next' none))
    (present : ∀ symbol used isGlobal,
      Concurs related (next (some ⟨symbol, isGlobal⟩)) (next' (some ⟨{ symbol with used }, isGlobal⟩))) :
    Concurs related (lookup name >>= next) (lookup name >>= next') := by
  intro before before' s t alike
  have same := alike.symbols.lookup name
  show Ends (next (s.symbols.lookup name)) s (fun a s' => Ends (next' (t.symbols.lookup name)) t _ _)
    fun _ _ => Ends (next' (t.symbols.lookup name)) t _ _
  cases here : s.symbols.lookup name with
  | none =>
    rw [here] at same
    rw [Option.map_eq_none_iff.mp same.symm]
    exact absent _ _ s t alike
  | some found =>
    rw [here] at same
    obtain ⟨other, there, plain⟩ := Option.map_eq_some_iff.mp same.symm
    obtain ⟨used, rfl⟩ := Found.exists_used plain.symm
    rw [there]
    exact present found.symbol used found.isGlobal _ _ s t alike

/-- What goes by the routine that is checked. -/
theorem concurs_routine {α β : Type} {related : α → β → Prop} {next : CheckState → Check α}
    {next' : CheckState → Check β}
    (each : ∀ s t : CheckState, s.routine = t.routine → Concurs related (next s) (next' t)) :
    Concurs related (get >>= next) (get >>= next') :=
  fun _ _ s t alike => each s t alike.routine _ _ s t alike

instance : Steady (namedType place name) := by
  unfold namedType
  split
  · infer_instance
  · split <;> infer_instance

instance : Steady (optionalType place name) := by
  unfold optionalType
  split <;> infer_instance

instance : Steady (checkName place symbol) := by
  unfold checkName
  infer_instance

instance : Steady (declare place symbol) := by
  unfold declare
  refine ⟨Steady.bind fun _ before before' s t alike => ?_⟩
  have same := alike.symbols.lookupLocal symbol.name
  rw [ends_bind, ends_get]
  simp only [ends_bind, ends_get]
  cases here : s.symbols.lookupLocal symbol.name with
  | none =>
    rw [here] at same
    rw [Option.map_eq_none_iff.mp same.symm]
    exact ⟨rfl, alike.symbols.add symbol, alike.routine, alike.errors⟩
  | some existing =>
    rw [here] at same
    obtain ⟨other, there, plain⟩ := Option.map_eq_some_iff.mp same.symm
    obtain ⟨used, rfl⟩ := Symbol.exists_used plain.symm
    rw [there]
    exact Steady.concurs _ _ s t alike

instance : Steady enterScope := by
  refine ⟨concurs_modify fun alike => ?_⟩
  exact ⟨alike.symbols.enter, alike.routine, alike.errors⟩

instance : Quiet (reportUnused scope) := by
  unfold reportUnused
  refine quiet_forM fun symbol => ?_
  have : Quiet (report ⟨symbol.line, 0⟩ (.unused symbol.name)) := quiet_report rfl
  split <;> infer_instance

theorem leaveScope_of_ok {s : CheckState} (left : s.symbols.exit = .ok (scope, symbols)) :
    leaveScope s = reportUnused scope { s with symbols } := by
  unfold leaveScope
  refine (bind_of_ok (m := get) rfl).trans ?_
  rw [left]
  rfl

theorem leaveScope_of_error {s : CheckState} (none : s.symbols.exit = .error fault) :
    leaveScope s = .ok () s := by
  unfold leaveScope
  refine (bind_of_ok (m := get) rfl).trans ?_
  rw [none]
  rfl

instance : Steady leaveScope := by
  refine ⟨fun before before' s t alike => ?_⟩
  unfold Ends
  obtain ⟨fault, left, right⟩ | ⟨scope, scope', symbols, symbols', left, right, same⟩ := alike.symbols.exit
  · rw [leaveScope_of_error left, leaveScope_of_error right]
    exact ⟨rfl, alike⟩
  · rw [leaveScope_of_ok left, leaveScope_of_ok right]
    have concurs : Concurs Eq (reportUnused scope) (reportUnused scope') := Quiet.concurs
    exact concurs _ _ { s with symbols } { t with symbols := symbols' }
      ⟨same, alike.routine, alike.errors⟩

instance : Quiet (noteRead place found) := by
  refine quiet_modify fun s => ?_
  dsimp only
  have used : (s.symbols.use found.symbol.name).plain = s.symbols.plain := SymbolTable.use_plain _ _
  split
  · split <;> exact ⟨used, rfl, rfl, .refl s⟩
  · exact ⟨used, rfl, rfl, .refl s⟩

instance : Quiet (noteCall callee line) := by
  refine quiet_modify fun s => ?_
  split <;> exact ⟨rfl, rfl, rfl, .refl s⟩

end Basic

section Expressions

/-- Checks whose answers differ at most in the marks of arrays. -/
abbrev ConcursInferred (m n : Check Inferred) : Prop := Concurs (fun a b => a.plain = b.plain) m n

theorem Steady.inferred {m : Check Inferred} (steady : Steady m) : ConcursInferred m m :=
  Concurs.weaken steady.concurs fun _ _ same => congrArg Inferred.plain same

instance : Steady (checkShapes place target source what) := by
  unfold checkShapes
  split <;> infer_instance

instance : Steady (checkAssignable place target value what holder) := by
  unfold checkAssignable
  split
  · infer_instance
  · infer_instance
  · split <;> infer_instance

theorem checkAssignable_plain (place : Position) (target : Option DataType) (value : Inferred)
    (what : String) (holder : Option Symbol) :
    checkAssignable place target value.plain what (holder.map Symbol.plain) =
      checkAssignable place target value what holder := by
  have fits : value.plain.fit target = value.fit target := rfl
  unfold checkAssignable
  rw [fits]
  split
  · rfl
  · rfl
  · obtain ⟨_ | type, literal, _ | array⟩ := value <;> cases holder <;> try rfl
    all_goals cases type <;> rfl

theorem checkAssignable_concurs {value value' : Inferred} (same : value.plain = value'.plain)
    {holder holder' : Option Symbol} (held : holder.map Symbol.plain = holder'.map Symbol.plain)
    (place : Position) (target : Option DataType) (what : String) :
    Concurs Eq (checkAssignable place target value what holder)
      (checkAssignable place target value' what holder') := by
  rw [← checkAssignable_plain, ← checkAssignable_plain place target value' what holder', same, held]
  exact Steady.concurs

theorem inferName_concurs (place : Position) (name : String) :
    ConcursInferred (inferName place name) (inferName place name) := by
  unfold inferName
  refine concurs_lookup name ?_ fun symbol used isGlobal => ?_
  · exact Steady.bind fun _ => concurs_pure rfl
  · refine Concurs.bind Quiet.concurs fun _ _ _ => ?_
    dsimp only
    split
    · exact Steady.bind fun _ => concurs_pure rfl
    · split
      · exact concurs_pure rfl
      · exact concurs_pure rfl
      · exact concurs_ite (concurs_pure rfl) (concurs_pure rfl)

instance : Steady (checkIndex array place index bound) := by
  unfold checkIndex
  split
  · infer_instance
  · split <;> infer_instance
  · infer_instance

/-- What an index is checked for does not depend on an array that it may name. -/
theorem checkIndices_plain (array : String) (indices : List (Position × Inferred)) (bounds : List Bound) :
    ((indices.map (Prod.map id Inferred.plain)).zip bounds).forM
        (fun ((place, index), bound) => checkIndex array place index bound) =
      (indices.zip bounds).forM fun ((place, index), bound) => checkIndex array place index bound := by
  rw [List.zip_map_left]
  exact List.forM_map

theorem checkElement_concurs (place : Position) (array : String) (reading : Bool)
    {indices indices' : List (Position × Inferred)}
    (same : indices.map (Prod.map id Inferred.plain) = indices'.map (Prod.map id Inferred.plain)) :
    Concurs Eq (checkElement place array indices reading) (checkElement place array indices' reading) := by
  have count : indices.length = indices'.length := by simpa using congrArg List.length same
  unfold checkElement
  refine concurs_lookup array Steady.concurs fun symbol used isGlobal => ?_
  dsimp only
  have element (rest rest' : Check (Option DataType)) (concurs : Concurs Eq rest rest') :
      Concurs Eq (if reading then noteRead place ⟨symbol, isGlobal⟩ >>= fun _ => rest else rest)
        (if reading then noteRead place ⟨{ symbol with used }, isGlobal⟩ >>= fun _ => rest' else rest') :=
    concurs_ite (Concurs.bind Quiet.concurs fun _ _ _ => concurs) concurs
  refine element _ _ ?_
  rw [count]
  simp only [← checkIndices_plain array indices, ← checkIndices_plain array indices', same]
  split
  · exact Steady.concurs
  · refine concurs_ite Steady.concurs ?_
    split <;> exact Steady.concurs
  · exact Steady.concurs

instance : Steady (inferUnary place op operand) := by
  unfold inferUnary
  split <;> infer_instance

instance : Steady (checkComparison place op left right) := by
  unfold checkComparison
  split <;> infer_instance

instance : Steady (inferArithmetic place op left right) := by
  unfold inferArithmetic
  split <;> infer_instance

instance : Steady (checkLogical place op side) := by
  unfold checkLogical
  split <;> infer_instance

instance : Steady (inferBinary place op left right) := by unfold inferBinary; infer_instance

instance : Steady (checkReference callee number param argument) := by
  unfold checkReference
  split <;> infer_instance

instance : Steady (checkArgument callee param place value) := by
  unfold checkArgument
  dsimp only
  split
  · split
    case h_4 => infer_instance
    all_goals
      split
      · split <;> infer_instance
      · infer_instance
  · infer_instance

theorem checkArgument_concurs {value value' : Inferred} (same : value.plain = value'.plain) (callee : String)
    (param : Param) (place : Position) :
    Concurs Eq (checkArgument callee param place value) (checkArgument callee param place value') := by
  have plain (value : Inferred) :
      checkArgument callee param place value.plain = checkArgument callee param place value := by
    unfold checkArgument
    dsimp only
    split
    · obtain ⟨type, literal, array⟩ := value
      rcases type with _ | type
      · cases array <;> cases param.elementType <;> rfl
      · cases type <;> cases array <;> cases param.elementType <;> rfl
    · exact congrArg (fun last => if value.type = some .array then _ else last)
        (checkAssignable_plain place _ value _ none)
  rw [← plain value, same, plain value']
  exact Steady.concurs

instance : Steady (checkCount place kind callee expected given) := by
  unfold checkCount
  infer_instance

theorem checkCall_concurs {related : List Inferred → List Inferred → Prop} (asValue : Bool)
    (place : Position) (callee : String) (count : Nat) {plain plain' : Check (List Inferred)}
    (plains : Concurs related plain plain') {matched matched' : List Param → Check Unit}
    (matches' : ∀ params, Concurs Eq (matched params) (matched' params)) :
    Concurs Eq (checkCall asValue place callee count plain matched)
      (checkCall asValue place callee count plain' matched') := by
  unfold checkCall
  refine concurs_lookup callee ?_ fun symbol used isGlobal => ?_
  · refine Concurs.bind plains.discarded fun _ _ _ => ?_
    split <;> exact Steady.concurs
  · dsimp only
    split
    · refine Steady.bind fun _ => ?_
      have rest : Concurs Eq
          (do
            checkCount place symbol.kind callee symbol.params.length count
            matched symbol.params
            return symbol.type)
          (do
            checkCount place symbol.kind callee symbol.params.length count
            matched' symbol.params
            return symbol.type) :=
        Steady.bind fun _ => Concurs.bind (matches' symbol.params) fun _ _ _ => concurs_pure rfl
      exact concurs_ite (Steady.bind fun _ => rest) rest
    · exact Concurs.bind plains.discarded fun _ _ _ => Steady.concurs

mutual

theorem infer_concurs : ∀ e : Expr, ConcursInferred (infer e) (infer e)
  | .literal .. => by
    unfold infer
    exact concurs_pure rfl
  | .name place name => by
    unfold infer
    exact inferName_concurs place name
  | .element place array indices => by
    unfold infer
    refine (inferAll_concurs indices).bind fun values values' same => ?_
    refine Concurs.bind (checkElement_concurs place array true ?_) fun type type' alike => ?_
    · rw [← List.zip_map_right, ← List.zip_map_right, same]
    · exact concurs_pure (by rw [alike])
  | .binary place op left right => by
    unfold infer
    refine (infer_concurs left).bind fun l l' first => (infer_concurs right).bind fun r r' second => ?_
    have leftType : l.type = l'.type := (congrArg Inferred.type first :)
    have rightType : r.type = r'.type := (congrArg Inferred.type second :)
    rw [leftType, rightType]
    exact Steady.inferred inferInstance
  | .unary place op operand => by
    unfold infer
    refine (infer_concurs operand).bind fun value value' same => ?_
    have equal : inferUnary place op value = inferUnary place op value' :=
      (congrArg (inferUnary place op) same :)
    rw [equal]
    exact Steady.inferred inferInstance
  | .call place callee arguments => by
    unfold infer
    refine Concurs.bind (checkCall_concurs true place callee _ (inferAll_concurs arguments)
      fun params => inferArguments_concurs callee 1 params arguments) fun type type' same => ?_
    exact concurs_pure (by rw [same])
  | .range .. => by
    unfold infer
    exact concurs_throw _ _
  | .stray .. => by
    unfold infer
    exact concurs_throw _ _

theorem inferAll_concurs : ∀ es : List Expr,
    Concurs (fun as bs => as.map Inferred.plain = bs.map Inferred.plain) (inferAll es) (inferAll es)
  | [] => by
    unfold inferAll
    exact concurs_pure rfl
  | e :: rest => by
    unfold inferAll
    refine (infer_concurs e).bind fun a b first => (inferAll_concurs rest).bind fun as bs others => ?_
    exact concurs_pure (by rw [List.map_cons, List.map_cons, first, others])

theorem inferArguments_concurs (callee : String) : ∀ (number : Nat) (params : List Param)
    (es : List Expr), Concurs Eq (inferArguments callee number params es)
      (inferArguments callee number params es)
  | _, _, [] => by
    unfold inferArguments
    exact concurs_pure rfl
  | number, [], e :: rest => by
    unfold inferArguments
    exact Concurs.bind (infer_concurs e).discarded fun _ _ _ => inferArguments_concurs callee number [] rest
  | number, param :: params, e :: rest => by
    unfold inferArguments
    refine Steady.bind fun _ => (infer_concurs e).bind fun value value' same => ?_
    exact Concurs.bind (checkArgument_concurs same callee param e.position) fun _ _ _ =>
      inferArguments_concurs callee (number + 1) params rest

end

end Expressions

section Statements

instance : Steady (incomplete place what) := by unfold incomplete; infer_instance

instance : Steady (checkDeclaration place name typeName) := by
  unfold checkDeclaration
  infer_instance

instance : Steady (checkArrayDeclaration limit place name bounds elementType) := by
  unfold checkArrayDeclaration
  dsimp only
  infer_instance

instance : Steady (checkConstant place name value) := by
  unfold checkConstant
  cases value with
  | none => infer_instance
  | some e =>
    refine ⟨(infer_concurs e).bind fun value value' same => ?_⟩
    have type : value.type = value'.type := (congrArg Inferred.type same :)
    have literal : value.literal = value'.literal := (congrArg Inferred.literal same :)
    dsimp only
    rw [type, literal]
    exact Steady.concurs

instance : Steady (checkTargetElement place array indices) := by
  unfold checkTargetElement
  refine ⟨(inferAll_concurs indices).bind fun values values' same => checkElement_concurs place array false ?_⟩
  rw [← List.zip_map_right, ← List.zip_map_right, same]

instance : Steady (declareImplicitly place name) := by unfold declareImplicitly; infer_instance

instance : Steady (checkAssignment place target value) := by
  unfold checkAssignment
  refine ⟨(infer_concurs value).bind fun value value' same => ?_⟩
  split
  · exact Steady.bind fun type => checkAssignable_concurs same rfl place type _
  · exact Steady.concurs
  next targetPlace name =>
    refine concurs_lookup name Steady.concurs fun symbol used isGlobal => ?_
    refine concurs_ite Steady.concurs (concurs_ite Steady.concurs ?_)
    have held : (some symbol).map Symbol.plain = (some { symbol with used }).map Symbol.plain := rfl
    exact checkAssignable_concurs same held place symbol.type _

instance : Steady (checkInput place target) := by
  unfold checkInput
  split
  · infer_instance
  · infer_instance
  next targetPlace name =>
    refine ⟨concurs_lookup name Steady.concurs fun symbol used isGlobal => ?_⟩
    refine concurs_ite Steady.concurs (concurs_ite Steady.concurs (concurs_ite Steady.concurs Steady.concurs))

instance : Steady (checkCondition place keyword condition) := by
  unfold checkCondition
  cases condition with
  | none => infer_instance
  | some e =>
    refine ⟨(infer_concurs e).bind fun value value' same => ?_⟩
    have type : value.type = value'.type := (congrArg Inferred.type same :)
    rw [type]
    split <;> exact Steady.concurs

instance : Steady (checkForBound part e) := by
  unfold checkForBound
  refine ⟨(infer_concurs e).bind fun value value' same => ?_⟩
  have type : value.type = value'.type := (congrArg Inferred.type same :)
  have zero : isZeroLiteral value = isZeroLiteral value' := (congrArg isZeroLiteral same :)
  rw [type, zero]
  dsimp only
  split <;> exact Steady.concurs

theorem checkLabelType_concurs (place : Position) {label label' selector selector' : Inferred}
    (labels : label.plain = label'.plain) (selectors : selector.plain = selector'.plain) :
    Concurs Eq (checkLabelType place label selector) (checkLabelType place label' selector') := by
  have type : label.type = label'.type := (congrArg Inferred.type labels :)
  have type' : selector.type = selector'.type := (congrArg Inferred.type selectors :)
  unfold checkLabelType
  rw [type, type']
  split
  · exact concurs_ite Steady.concurs Steady.concurs
  · exact Steady.concurs

section Labels

variable {selector selector' : Inferred} (same : selector.plain = selector'.plain)

include same

theorem checkLabel_concurs (label : Expr) :
    Concurs Eq (checkLabel selector label) (checkLabel selector' label) := by
  unfold checkLabel
  split
  · refine (infer_concurs _).bind fun low low' lows => (infer_concurs _).bind fun high high' highs => ?_
    refine Concurs.bind (checkLabelType_concurs _ lows same) fun _ _ _ => ?_
    refine Concurs.bind (checkLabelType_concurs _ highs same) fun _ _ _ => ?_
    have first : low.literal = low'.literal := (congrArg Inferred.literal lows :)
    have last : high.literal = high'.literal := (congrArg Inferred.literal highs :)
    rw [first, last]
    split <;> exact Steady.concurs
  · refine (infer_concurs _).bind fun value value' values => ?_
    refine Concurs.bind (checkLabelType_concurs _ values same) fun _ _ _ => ?_
    have type : value.type = value'.type := (congrArg Inferred.type values :)
    have literal : value.literal = value'.literal := (congrArg Inferred.literal values :)
    rw [type, literal]
    split <;> exact Steady.concurs

theorem checkLabels_concurs (line : Nat) (labels : List Expr) (seen : List (LabelKey × Nat)) :
    Concurs Eq (checkLabels selector line labels seen) (checkLabels selector' line labels seen) := by
  induction labels generalizing seen with
  | nil => exact concurs_pure rfl
  | cons label rest ih =>
    unfold checkLabels
    refine Concurs.bind (checkLabel_concurs same label) fun key key' equal => ?_
    subst equal
    split
    · exact ih seen
    · split
      · exact Steady.bind fun _ => ih seen
      · exact ih _

end Labels

instance : Steady (checkReturn place value) := by
  let Same (a b : Option Inferred) : Prop := a.map Inferred.plain = b.map Inferred.plain
  have absent : Concurs Same (pure none) (pure none) := concurs_pure rfl
  have present (e : Expr) : Concurs Same (some <$> infer e) (some <$> infer e) :=
    (infer_concurs e).mapped fun _ _ same => congrArg some same
  unfold checkReturn
  refine ⟨?_⟩
  cases value
  case' none => refine absent.bind ?_
  case' some e => refine (present e).bind ?_
  all_goals
    intro value value' same
    refine concurs_routine fun s t equal => ?_
    rw [equal]
    cases t.routine with
    | none => exact Steady.concurs
    | some routine =>
      cases value <;> cases value' <;>
        simp only [Same, Option.map_none, Option.map_some, Option.some.injEq, reduceCtorEq] at same
      · exact Steady.concurs
      · exact concurs_ite Steady.concurs (checkAssignable_concurs same rfl _ _ _)

instance : Steady (reportUnreachable stmt) := by unfold reportUnreachable; infer_instance

mutual

theorem checkStatement_steady (limit : Int) : ∀ s : Stmt, Steady (checkStatement limit s)
  | .declare .. | .declareArray .. | .constant .. | .assign .. | .giveBack .. | .strayCall .. | .stray ..
  | .input .. | .routine _ => by unfold checkStatement; infer_instance
  | .output _ values => by
    unfold checkStatement
    exact ⟨(inferAll_concurs values).discarded⟩
  | .call _ position callee arguments => by
    unfold checkStatement
    exact ⟨(checkCall_concurs false position callee _ (inferAll_concurs arguments)
      fun params => inferArguments_concurs callee 1 params arguments).discarded⟩
  | .ifThen _ _ thenBranch elseBranch => by
    have := checkBlock_steady limit .live thenBranch
    have := checkOtherwise_steady limit elseBranch
    unfold checkStatement
    infer_instance
  | .whileDo _ _ body => by
    have := checkBlock_steady limit .live body
    unfold checkStatement
    infer_instance
  | .repeatUntil _ body _ => by
    have := checkBlock_steady limit .live body
    unfold checkStatement
    infer_instance
  | .forLoop position counter start stop step body => by
    have := checkBlock_steady limit .live body
    unfold checkStatement
    cases counter with
    | none => infer_instance
    | some counter => cases start with
      | none => infer_instance
      | some start => cases stop with
        | none => infer_instance
        | some stop => cases step <;> infer_instance
  | .caseOf _ selector branches otherwise => by
    have := checkOtherwise_steady limit otherwise
    have rest (a b : Inferred) (same : a.plain = b.plain) : Concurs Eq
        (do
          checkBranches limit a [] branches
          checkOtherwise limit otherwise)
        (do
          checkBranches limit b [] branches
          checkOtherwise limit otherwise) :=
      Concurs.bind (checkBranches_concurs limit same [] branches) fun _ _ _ => Steady.concurs
    unfold checkStatement
    cases selector with
    | none => exact ⟨Steady.bind fun _ => rest .unknown .unknown rfl⟩
    | some e => exact ⟨(infer_concurs e).bind rest⟩

theorem checkBlock_steady (limit : Int) (reach : Reach) : ∀ block : List Stmt,
    Steady (checkBlock limit reach block)
  | [] => by unfold checkBlock; infer_instance
  | s :: rest => by
    have := checkStatement_steady limit s
    have := fun reach => checkBlock_steady limit reach rest
    unfold checkBlock
    infer_instance

theorem checkOtherwise_steady (limit : Int) : ∀ block : Option (List Stmt),
    Steady (checkOtherwise limit block)
  | none => by unfold checkOtherwise; infer_instance
  | some block => by
    have := checkBlock_steady limit .live block
    unfold checkOtherwise
    infer_instance

theorem checkBranches_concurs (limit : Int) {selector selector' : Inferred}
    (same : selector.plain = selector'.plain) (seen : List (LabelKey × Nat)) :
    ∀ branches : List (Branch Stmt), Concurs Eq (checkBranches limit selector seen branches)
      (checkBranches limit selector' seen branches)
  | [] => by
    unfold checkBranches
    exact concurs_pure rfl
  | ⟨labels, body, line⟩ :: rest => by
    have := checkBlock_steady limit .live body
    unfold checkBranches
    refine Concurs.bind (checkLabels_concurs same line labels seen) fun keys keys' equal => ?_
    subst equal
    exact Steady.bind fun _ => checkBranches_concurs limit same keys rest

end

instance : Steady (checkParam place param) := by unfold checkParam; infer_instance

theorem checkRoutine_steady (limit : Int) (r : Routine Stmt) (registered : Option Symbol) :
    Steady (checkRoutine limit r registered) := by
  have := checkBlock_steady limit .live r.body
  have (checked : Option Symbol) :
      Steady (modify fun s => { s with routine := checked } : Check PUnit) :=
    ⟨concurs_modify fun alike => ⟨alike.symbols, rfl, alike.errors⟩⟩
  unfold checkRoutine
  dsimp only
  refine ⟨Steady.bind fun _ => Steady.bind fun _ => Steady.bind fun _ => Steady.bind fun _ => ?_⟩
  exact concurs_ite Steady.concurs Steady.concurs

end Statements

end Check

end Pseudocode
