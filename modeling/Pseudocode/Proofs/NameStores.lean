import Pseudocode.Proofs.IndexTuples
import Pseudocode.Proofs.Locality

/-! Stores under a name. They happen as a whole or not at all: a store that fails leaves the memory as it was,
and one that succeeds changes a single binding, the first that the environment has for the name or a new one.
Whoever shares the binding sees the new value, and nobody else sees a change. -/
namespace Pseudocode

namespace Memory

/-- Every name is one of a binding that exists. -/
def Linked (m : Memory) : Prop := ∀ frame name i, m.findIn frame name = some i → i < m.bindings.size

/-- What the memory can become when arrays are made and stored into, frames are opened, and names are defined,
shared between frames and assigned to, in any order and with any values. -/
inductive Reached : Memory → Prop
  | initial : Reached initial
  | array {m : Memory} (cell : ArrayCell) : Reached m → Reached (m.addArray cell).2
  | element {m n : Memory} {id : ArrayId} : Reached m → m.assignElement id indices v = .ok n → Reached n
  | opened {m : Memory} : Reached m → Reached m.addFrame.2
  | define {m : Memory} (env : Environment) (name : String) (b : Binding) : Reached m →
      Reached (m.define env name b).2
  | share {m : Memory} {i : BindingId} (frame : FrameId) (name : String) : Reached m → i < m.bindings.size →
      Reached (m.bind frame name i)
  | assign {m : Memory} (env : Environment) (name : String) (v : Value) : Reached m →
      Reached (m.assign env name v).2

/-- The name is one of the binding in the innermost frame of the environment that has the name. -/
def Resolves (m : Memory) (env : Environment) (name : String) (i : BindingId) : Prop :=
  ∃ inner frame outer, env = inner ++ frame :: outer ∧ (∀ f ∈ inner, m.findIn f name = none) ∧
    m.findIn frame name = some i

/-- Why a binding does not take a value. -/
inductive Declines (m : Memory) (b : Binding) (v : Value) : StoreFault → Prop
  | constant : b.isConstant = true → m.text b.value = .ok shown → Declines m b v (.constant shown)
  | textless : b.isConstant = true → m.text b.value = .error fault → Declines m b v fault.toStoreFault
  | mismatch : b.isConstant = false → fault.isMismatch = true → Declines m b v fault
  | overflow : b.isConstant = false → v.coerce b.declared = .error (.overflow cause) →
      Declines m b v (.overflow cause)

/-- From one memory to the next, a value was stored under a name: the binding of the name took it, which may
be a new one, and nothing else has changed. -/
structure Stores (m : Memory) (env : Environment) (name : String) (v : Value) (i : BindingId) (n : Memory) :
    Prop where
  target : (∃ b kept, m.Resolves env name i ∧ m.binding? i = some b ∧ b.isConstant = false ∧
      v.coerce b.declared = .ok kept ∧ n.binding? i = some { b with value := kept } ∧ n.frames = m.frames) ∨
    ((∀ frame ∈ env, m.findIn frame name = none) ∧ i = m.bindings.size ∧ n.binding? i = some ⟨v, none, false⟩ ∧
      ∀ frame word, n.findIn frame word =
        if frame ∈ env.head? ∧ word = name then some i else m.findIn frame word)
  bindings : ∀ j, j ≠ i → n.binding? j = m.binding? j
  arrays : n.arrays = m.arrays
  /-- What is seen under another name, from any environment, is new only if it is the binding. -/
  shared : ∀ other word, word ≠ name → n.lookup other word ≠ m.lookup other word →
    m.Resolves other word i ∧ n.Resolves other word i
  lookups : ∀ other word, n.lookup other word ≠ m.lookup other word → n.Resolves other word i

/-- A store under a name happens as a whole or not at all. -/
structure Atomic (m : Memory) (env : Environment) (name : String) (v : Value) : Prop where
  failed : ∀ fault n, m.assign env name v = (.error fault, n) → n = m ∧
    ∃ i b, m.Resolves env name i ∧ m.binding? i = some b ∧ m.Declines b v fault
  stored : ∀ i n, m.assign env name v = (.ok i, n) → m.Stores env name v i n
  /-- A run that stores a value either does so or stops with the state as it was. -/
  executed : ∀ (s : RunState) line, s.memory = m → s.env = env → Ends (Run.assign line name v) s
    (fun _ t => ∃ i n, m.assign env name v = (.ok i, n) ∧ t = { s with memory := n })
    fun _ t => ∃ fault, m.assign env name v = (.error fault, m) ∧ t = s

variable {m n : Memory} {env other : Environment} {name word : String} {i : BindingId} {b : Binding} {v kept : Value}

theorem find_eq_some_iff : m.find env name = some i ↔ m.Resolves env name i := by
  constructor
  · intro found
    induction env with
    | nil => cases found
    | cons frame outer ih =>
      unfold find at found
      split at found
      next j here => exact ⟨[], frame, outer, rfl, nofun, here.trans found⟩
      next free =>
        obtain ⟨inner, owner, rest, rfl, unknown, there⟩ := ih found
        exact ⟨frame :: inner, owner, rest, rfl, List.forall_mem_cons.mpr ⟨free, unknown⟩, there⟩
  · rintro ⟨inner, frame, outer, rfl, unknown, there⟩
    induction inner with
    | nil => rw [List.nil_append, find, there]
    | cons f inner ih =>
      obtain ⟨free, unknown⟩ := List.forall_mem_cons.mp unknown
      rw [List.cons_append, find, free]
      exact ih unknown

section Reachable

theorem initial_linked : initial.Linked := by
  intro frame name i found
  cases frame <;> simp [initial, findIn, Table.get?] at found

theorem Linked.addFrame (linked : m.Linked) : m.addFrame.2.Linked := by
  intro frame name i found
  rw [findIn_addFrame] at found
  exact linked frame name i found

theorem Linked.addBinding (linked : m.Linked) (b : Binding) : (m.addBinding b).2.Linked := by
  intro frame name i found
  have inside : i < m.bindings.size := linked frame name i found
  simpa [Memory.addBinding] using Nat.lt_succ_of_lt inside

theorem Linked.bind (linked : m.Linked) (inside : i < m.bindings.size) (frame : FrameId) (name : String) :
    (m.bind frame name i).Linked := by
  intro f word j found
  rw [findIn_bind] at found
  split at found
  · cases found
    exact inside
  · exact linked f word j found

theorem Linked.setValue (linked : m.Linked) (i : BindingId) (v : Value) : (m.setValue i v).Linked := by
  intro frame name j found
  have inside : j < m.bindings.size := linked frame name j found
  simpa [Memory.setValue] using inside

theorem Linked.define (linked : m.Linked) (env : Environment) (name : String) (b : Binding) :
    (m.define env name b).2.Linked := by
  have added : (m.addBinding b).2.Linked := linked.addBinding b
  cases env with
  | nil => exact added
  | cons frame outer =>
    apply added.bind
    simp [Memory.addBinding]

theorem Linked.assign (linked : m.Linked) (env : Environment) (name : String) (v : Value) :
    (m.assign env name v).2.Linked := by
  have located : (m.locate env name).2.Linked := by
    unfold locate
    split
    · exact linked
    · exact linked.define env name _
  rw [assign_eq]
  split
  · exact located
  · split
    · exact located.setValue _ _
    · exact located

theorem Linked.assignElement (linked : m.Linked) {id : ArrayId} (stored : m.assignElement id indices v = .ok n) :
    n.Linked := by
  obtain ⟨position, kept, rfl⟩ := assignElement_ok stored
  exact linked

theorem Reached.linked (reached : m.Reached) : m.Linked := by
  induction reached with
  | initial => exact initial_linked
  | array _ _ ih => exact ih
  | element _ stored ih => exact ih.assignElement stored
  | opened _ ih => exact ih.addFrame
  | define env name b _ ih => exact ih.define env name b
  | share frame name _ inside ih => exact ih.bind inside frame name
  | assign env name v _ ih => exact ih.assign env name v

/-- So it is in every run. -/
theorem Sound.linked (sound : Sound P limit m) : m.Linked := fun _ _ _ found => sound.names found

/-- The binding that a name is found for exists. -/
theorem Linked.held (linked : m.Linked) (found : m.find env name = some i) : ∃ b, m.binding? i = some b := by
  obtain ⟨frame, -, here⟩ := find_eq_some found
  have inside : i < m.bindings.size := linked frame name i here
  exact ⟨_, Array.getElem?_eq_getElem inside⟩

end Reachable

section Accepting

theorem accept_coerce (accepted : m.accept b v = .ok kept) :
    b.isConstant = false ∧ v.coerce b.declared = .ok kept := by
  obtain ⟨writable, ⟨id, rfl, rfl, untyped | typed⟩ | coerced⟩ := accept_cases accepted
  · rw [untyped]
    exact ⟨writable, Value.coerce_untyped _⟩
  · rw [typed]
    exact ⟨writable, Value.coerce_same _⟩
  · exact ⟨writable, coerced⟩

theorem accept_fault (refused : m.accept b v = .error fault) : m.Declines b v fault := by
  unfold accept at refused
  split at refused
  next constant =>
    cases shown : m.text b.value with
    | ok text =>
      rw [shown] at refused
      cases refused
      exact .constant constant shown
    | error cause =>
      rw [shown] at refused
      cases refused
      exact .textless constant shown
  next writable =>
    have writable : b.isConstant = false := (Bool.not_eq_true _).mp writable
    split at refused
    next id =>
      have mismatch : fault.isMismatch = true := by
        split at refused
        · split at refused
          · split at refused <;> cases refused
            rfl
          · cases refused
        · split at refused
          · split at refused <;> cases refused
            rfl
          · cases refused
        · cases refused
          rfl
      exact .mismatch writable mismatch
    next =>
      split at refused
      · cases refused
        exact .mismatch writable rfl
      · obtain mismatch | ⟨cause, rfl⟩ := Value.coerce_fault refused
        · exact .mismatch writable mismatch
        · exact .overflow writable refused

/-- A binding without a type takes every value as it is, but for an array that does not fit the one it holds. -/
theorem accept_untyped (untyped : b.declared = none) (writable : b.isConstant = false) (v : Value) :
    m.accept b v = match m.cell? b.value, m.cell? v with
      | some old, some new => if old.compatible new then .ok v else .error .arraysDiffer
      | _, _ => .ok v := by
  unfold accept
  rw [writable, untyped]
  cases v with
  | array id => rfl
  | _ =>
    cases m.cell? b.value with
    | none => simp [Value.coerce_untyped]
    | some old => simp [cell?, Value.coerce_untyped]

end Accepting

/-- A store under a name that is found goes to its binding. -/
theorem assign_found (found : m.find env name = some i) (held : m.binding? i = some b) (v : Value) :
    m.assign env name v = match m.accept b v with
      | .ok kept => (.ok i, m.setValue i kept)
      | .error fault => (.error fault, m) := by
  have located : m.locate env name = (i, m) := by rw [locate, found]
  cases accepted : m.accept b v with
  | ok kept => simp only [assign_eq, located, held, accepted]
  | error fault => simp only [assign_eq, located, held, accepted]

/-- Under a name that is not found every value is stored, in a new binding without a type. -/
theorem assign_fresh (free : m.find env name = none) (v : Value) :
    m.assign env name v =
      (.ok m.bindings.size, (m.define env name ⟨.null, none, false⟩).2.setValue m.bindings.size v) := by
  have made : (m.define env name ⟨.null, none, false⟩).1 = m.bindings.size := by cases env <;> rfl
  have held : (m.define env name ⟨.null, none, false⟩).2.binding? m.bindings.size = some ⟨.null, none, false⟩ := by
    rw [binding_define, if_pos rfl]
  have accepts : (m.define env name ⟨.null, none, false⟩).2.accept ⟨.null, none, false⟩ v = .ok v :=
    accept_untyped rfl rfl v
  rw [assign_eq, locate, free]
  dsimp only
  rw [made, held]
  dsimp only
  rw [accepts]

/-- A name that is defined is new in the innermost frame alone. -/
theorem findIn_define (opens : m.Opens env) (name : String) (b : Binding) (frame : FrameId) (word : String) :
    (m.define env name b).2.findIn frame word =
      if frame ∈ env.head? ∧ word = name then some m.bindings.size else m.findIn frame word := by
  obtain ⟨head, outer, rfl, inside⟩ := opens
  refine (findIn_bind (m.addBinding b).2 m.bindings.size head frame name word).trans ?_
  have open' : head < (m.addBinding b).2.frames.size := inside
  simp only [open', true_and, List.head?_cons, Option.mem_some_iff]
  rfl

/-- If each frame has the name for the binding that it had it for, or for a certain one, so has the environment. -/
theorem find_or (gives : ∀ frame, n.findIn frame word = m.findIn frame word ∨ n.findIn frame word = some i)
    (env : Environment) : n.find env word = m.find env word ∨ n.find env word = some i := by
  induction env with
  | nil => exact .inl rfl
  | cons frame outer ih =>
    unfold find
    obtain same | new := gives frame
    · rw [same]
      cases m.findIn frame word with
      | none => exact ih
      | some j => exact .inl rfl
    · rw [new]
      exact .inr rfl

/-- Where names go to what they went to, or to the one binding that has changed, only that is seen anew. -/
theorem find_of_lookup_ne (bindings : ∀ j, j ≠ i → n.binding? j = m.binding? j)
    (finds : n.find env word = m.find env word ∨ n.find env word = some i)
    (changed : n.lookup env word ≠ m.lookup env word) : n.find env word = some i := by
  obtain same | new := finds
  · refine Decidable.byContradiction fun apart => changed ?_
    unfold lookup
    rw [same] at apart ⊢
    cases found : m.find env word with
    | none => rfl
    | some j =>
      have other : j ≠ i := by
        rintro rfl
        exact apart found
      exact bindings j other
  · exact new

theorem find_setValue (m : Memory) (i : BindingId) (v : Value) (env : Environment) (name : String) :
    (m.setValue i v).find env name = m.find env name := find_eq_of_frames fun _ _ => rfl

/-- The value of the binding that a name is found for is replaced. -/
theorem stores_setValue (found : m.find env name = some i) (held : m.binding? i = some b)
    (writable : b.isConstant = false) (coerced : v.coerce b.declared = .ok kept) :
    m.Stores env name v i (m.setValue i kept) := by
  have resolves : m.Resolves env name i := find_eq_some_iff.mp found
  have bindings (j : BindingId) (apart : j ≠ i) : (m.setValue i kept).binding? j = m.binding? j := by
    rw [binding_setValue, if_neg apart.symm]
  have replaced : (m.setValue i kept).binding? i = some { b with value := kept } := by
    rw [binding_setValue, if_pos rfl, held]
    rfl
  constructor
  case target => exact .inl ⟨b, kept, resolves, held, writable, coerced, replaced, rfl⟩
  case bindings => exact bindings
  case arrays => rfl
  case shared =>
    intro other word _ changed
    have seen := find_of_lookup_ne bindings (.inl (find_setValue ..)) changed
    exact ⟨find_eq_some_iff.mp (find_setValue .. ▸ seen), find_eq_some_iff.mp seen⟩
  case lookups =>
    intro other word changed
    exact find_eq_some_iff.mp (find_of_lookup_ne bindings (.inl (find_setValue ..)) changed)

/-- A new binding gets the name in the innermost frame. -/
theorem stores_define (opens : m.Opens env) (free : m.find env name = none) (v : Value) :
    m.Stores env name v m.bindings.size
      ((m.define env name ⟨.null, none, false⟩).2.setValue m.bindings.size v) := by
  let n := (m.define env name ⟨.null, none, false⟩).2.setValue m.bindings.size v
  have bindings (j : BindingId) (apart : j ≠ m.bindings.size) : n.binding? j = m.binding? j := by
    rw [binding_setValue, if_neg apart.symm, binding_define, if_neg apart]
  have made : n.binding? m.bindings.size = some ⟨v, none, false⟩ := by
    rw [binding_setValue, if_pos rfl, binding_define, if_pos rfl]
    rfl
  have names (frame : FrameId) (word : String) : n.findIn frame word =
      if frame ∈ env.head? ∧ word = name then some m.bindings.size else m.findIn frame word :=
    findIn_define opens name _ frame word
  have finds (other : Environment) (word : String) :
      n.find other word = m.find other word ∨ n.find other word = some m.bindings.size := by
    refine find_or (fun frame => ?_) other
    rw [names]
    split
    · exact .inr rfl
    · exact .inl rfl
  have named (other : Environment) (word : String) (apart : word ≠ name) : n.find other word = m.find other word := by
    refine find_eq_of_frames fun frame _ => ?_
    rw [names, if_neg fun both => apart both.2]
  constructor
  case target => exact .inr ⟨find_eq_none.mp free, rfl, made, names⟩
  case bindings => exact bindings
  case arrays => exact arrays_define ..
  case shared =>
    intro other word apart changed
    have seen := find_of_lookup_ne bindings (finds other word) changed
    exact ⟨find_eq_some_iff.mp (named other word apart ▸ seen), find_eq_some_iff.mp seen⟩
  case lookups =>
    intro other word changed
    exact find_eq_some_iff.mp (find_of_lookup_ne bindings (finds other word) changed)

end Memory

namespace Run

variable {s : RunState} {n : Memory} {i : BindingId}

theorem withMemory_of_eq {change : Memory → α × Memory} (changed : change s.memory = (a, n)) :
    withMemory change s = .ok a { s with memory := n } := by
  show EStateM.Result.ok (change s.memory).1 { s with memory := (change s.memory).2 } = _
  rw [changed]

theorem assign_of_ok (stored : s.memory.assign s.env name v = (.ok i, n)) (line : Nat) :
    assign line name v s = .ok () { s with memory := n } := by
  have changed : withMemory (·.assign s.env name v) s = .ok (.ok i) { s with memory := n } :=
    withMemory_of_eq stored
  unfold assign
  exact (bind_of_ok rfl).trans (bind_of_ok changed)

theorem assign_of_error (failed : s.memory.assign s.env name v = (.error fault, n)) (line : Nat) :
    assign line name v s = storeFailed line (fun
      | .constant _ => .assignedConstant name
      | other => .store other) fault { s with memory := n } := by
  have changed : withMemory (·.assign s.env name v) s = .ok (.error fault) { s with memory := n } :=
    withMemory_of_eq failed
  unfold assign
  exact (bind_of_ok rfl).trans (bind_of_ok changed)

end Run

namespace Memory

variable {m : Memory} {env : Environment} {name : String} {v : Value}

/-- A store under a name goes to the binding that the name has, which takes the value or does not, or to a new
one. -/
theorem assign_cases (linked : m.Linked) (env : Environment) (name : String) (v : Value) :
    (∃ i b kept, m.find env name = some i ∧ m.binding? i = some b ∧ m.accept b v = .ok kept ∧
      m.assign env name v = (.ok i, m.setValue i kept)) ∨
    (∃ i b fault, m.find env name = some i ∧ m.binding? i = some b ∧ m.accept b v = .error fault ∧
      m.assign env name v = (.error fault, m)) ∨
    (m.find env name = none ∧ m.assign env name v =
      (.ok m.bindings.size, (m.define env name ⟨.null, none, false⟩).2.setValue m.bindings.size v)) := by
  cases found : m.find env name with
  | none => exact .inr (.inr ⟨rfl, assign_fresh found v⟩)
  | some i =>
    obtain ⟨b, held⟩ := linked.held found
    have stores := assign_found found held v
    cases accepted : m.accept b v with
    | ok kept =>
      rw [accepted] at stores
      exact .inl ⟨i, b, kept, rfl, held, accepted, stores⟩
    | error fault =>
      rw [accepted] at stores
      exact .inr (.inl ⟨i, b, fault, rfl, held, accepted, stores⟩)

/-- Whatever the frames and the bindings that they share, a store under a name that fails changes nothing, and
one that succeeds changes one binding, for all names that it has. -/
theorem assign_atomic (linked : m.Linked) (opens : m.Opens env) (name : String) (v : Value) :
    m.Atomic env name v := by
  have outcome : (∃ i n, m.assign env name v = (.ok i, n) ∧ m.Stores env name v i n) ∨
      ∃ fault, m.assign env name v = (.error fault, m) ∧
        ∃ i b, m.Resolves env name i ∧ m.binding? i = some b ∧ m.Declines b v fault := by
    obtain ⟨i, b, kept, found, held, accepted, stored⟩ | ⟨i, b, fault, found, held, refused, failed⟩ |
      ⟨free, stored⟩ := assign_cases linked env name v
    · obtain ⟨writable, coerced⟩ := accept_coerce accepted
      exact .inl ⟨i, _, stored, stores_setValue found held writable coerced⟩
    · exact .inr ⟨fault, failed, i, b, find_eq_some_iff.mp found, held, accept_fault refused⟩
    · exact .inl ⟨_, _, stored, stores_define opens free v⟩
  obtain ⟨i, n, stored, stores⟩ | ⟨fault, failed, declined⟩ := outcome
  · constructor
    case failed =>
      intro fault later failed
      cases stored.symm.trans failed
    case stored =>
      intro j later same
      cases stored.symm.trans same
      exact stores
    case executed =>
      rintro s line rfl rfl
      have ran := Run.assign_of_ok stored line
      unfold Ends
      rw [ran]
      exact ⟨i, n, stored, rfl⟩
  · constructor
    case failed =>
      intro cause n same
      cases failed.symm.trans same
      exact ⟨rfl, declined⟩
    case stored =>
      intro i n stored
      cases failed.symm.trans stored
    case executed =>
      rintro s line rfl rfl
      have ran := Run.assign_of_error failed line
      refine (ends_congr ran).mpr ((Run.storeFailed_ends line _ fault s).mono (fun _ _ => False.elim) ?_)
      rintro _ t rfl
      exact ⟨fault, failed, rfl⟩

/-- A variable x that a routine knows by the name of its parameter. -/
def lentVariable : Memory :=
  (initial.define globals "x" ⟨.integer 1, some .integer, false⟩).2.addFrame.2.bind 1 "param" 0

theorem lentVariable_assigned : lentVariable.Linked ∧ lentVariable.Opens [1, 0] ∧
    lentVariable.assign [1, 0] "param" (.string "a") = (.error (.mismatch .string .integer), lentVariable) ∧
    ∃ n, lentVariable.assign [1, 0] "param" (.integer 42) = (.ok 0, n) ∧
      lentVariable.Stores [1, 0] "param" (.integer 42) 0 n ∧
      n.lookup globals "x" = some ⟨.integer 42, some .integer, false⟩ := by
  have reached : lentVariable.Reached :=
    .share 1 "param" (.opened (.define globals "x" ⟨.integer 1, some .integer, false⟩ .initial)) Nat.one_pos
  have opens : lentVariable.Opens [1, 0] := ⟨1, [0], rfl, Nat.lt_add_one 1⟩
  have refused := (assign_atomic reached.linked opens "param" (.string "a")).failed _ _ rfl
  have stored := (assign_atomic reached.linked opens "param" (.integer 42)).stored _ _ rfl
  exact ⟨reached.linked, opens, Prod.ext rfl refused.1, _, rfl, stored, rfl⟩

end Memory

end Pseudocode
