import Pseudocode.Proofs.MemoryOnly
import Pseudocode.Proofs.Update

/-! What code can reach. Code gives names in the innermost frame of its environment alone, and it changes
only bindings that it can find: those with a name in its environment or in the global frame, those it is
handed by reference, and those that it makes. `Confines given kept s m` says so of a piece of a run:
`given` are the names that it may give, `kept` are bindings that it cannot find and hence keeps. -/
namespace Pseudocode

/-- The type that a binding was declared with, if there is such a binding and it has a type. -/
def Memory.declared? (m : Memory) (i : BindingId) : Option DataType := (m.binding? i).bind (·.declared)

theorem Memory.declared?_setValue (m : Memory) (i : BindingId) (v : Value) (j : BindingId) :
    (m.setValue i v).declared? j = m.declared? j := by
  rw [declared?, binding_setValue]
  split
  · cases held : m.binding? j <;> simp [declared?, held]
  · rfl

/-- From one memory to a later one, only names in `given` were given in the innermost frame, with types as
described, and none in any other frame that there was. No binding has another type than before, and those
in `kept` were left alone. -/
structure Memory.Local (given : String → Option DataType → Prop) (kept : BindingId → Prop)
    (env : Environment) (m n : Memory) : Prop where
  frames : m.frames.size ≤ n.frames.size
  bindings : m.bindings.size ≤ n.bindings.size
  outer : ∀ frame < m.frames.size, frame ∉ env.head? → ∀ name, n.findIn frame name = m.findIn frame name
  named : ∀ frame ∈ env.head?, ∀ name, n.findIn frame name = m.findIn frame name ∨
    ∃ i < n.bindings.size, given name (n.declared? i) ∧ n.findIn frame name = some i ∧ ¬kept i
  types : ∀ i < m.bindings.size, n.declared? i = m.declared? i
  values : ∀ i, kept i → n.binding? i = m.binding? i

/-- Code that runs in an environment cannot find the bindings in `kept`: they have no name in it, nor in
the global frame, and are none that code could make. -/
structure Memory.Hides (kept : BindingId → Prop) (env : Environment) (m : Memory) : Prop where
  inside : ∀ frame ∈ 0 :: env, frame < m.frames.size
  free : ∀ frame ∈ 0 :: env, ∀ name i, m.findIn frame name = some i → ¬kept i
  known : ∀ i, kept i → i < m.bindings.size

namespace Memory

variable {given given' : String → Option DataType → Prop} {kept : BindingId → Prop} {env sub : Environment}
  {m n o : Memory} {name : String} {i : BindingId} {frame : FrameId}
  {names : String → BindingId → Prop}

theorem Local.refl (m : Memory) : Local given kept env m m :=
  ⟨Nat.le_refl _, Nat.le_refl _, fun _ _ _ _ => rfl, fun _ _ _ => .inl rfl, fun _ _ => rfl, fun _ _ => rfl⟩

theorem Local.trans (first : Local given kept env m n) (second : Local given kept env n o) :
    Local given kept env m o where
  frames := Nat.le_trans first.frames second.frames
  bindings := Nat.le_trans first.bindings second.bindings
  outer frame inside other name :=
    (second.outer frame (Nat.lt_of_lt_of_le inside first.frames) other name).trans
      (first.outer frame inside other name)
  named frame head name := by
    rcases second.named frame head name with same | new
    · rw [same]
      refine (first.named frame head name).imp_right ?_
      rintro ⟨i, old, known, rest⟩
      exact ⟨i, Nat.lt_of_lt_of_le old second.bindings, (second.types i old).symm ▸ known, rest⟩
    · exact .inr new
  types i old := (second.types i (Nat.lt_of_lt_of_le old first.bindings)).trans (first.types i old)
  values i keeps := (second.values i keeps).trans (first.values i keeps)

theorem Local.mono (here : Local given kept env m n)
    (more : ∀ name type, given name type → given' name type) :
    Local given' kept env m n where
  frames := here.frames
  bindings := here.bindings
  outer := here.outer
  named frame head name := (here.named frame head name).imp_right
    fun ⟨i, old, known, rest⟩ => ⟨i, old, more name _ known, rest⟩
  types := here.types
  values := here.values

/-- A name that a frame has is not taken from it. -/
theorem Local.named_still (here : Local given kept env m n) (inside : frame < m.frames.size)
    (there : m.findIn frame name ≠ none) : n.findIn frame name ≠ none := by
  by_cases head : frame ∈ env.head?
  · rcases here.named frame head name with same | ⟨j, -, -, found, -⟩
    · rwa [same]
    · simp [found]
  · rwa [here.outer frame inside head name]

theorem find_eq_none : m.find env name = none ↔ ∀ frame ∈ env, m.findIn frame name = none := by
  induction env with
  | nil => simp [find]
  | cons frame outer ih =>
    unfold find
    cases here : m.findIn frame name with
    | none => simp [here, ih]
    | some j => simp [here]

theorem find_eq_some (found : m.find env name = some i) :
    ∃ frame ∈ env, m.findIn frame name = some i := by
  induction env with
  | nil => cases found
  | cons frame outer ih =>
    unfold find at found
    split at found
    next j here => exact ⟨frame, .head _, here.trans found⟩
    next =>
      obtain ⟨other, member, there⟩ := ih found
      exact ⟨other, .tail _ member, there⟩

theorem find_eq_of_frames (same : ∀ frame ∈ env, n.findIn frame name = m.findIn frame name) :
    n.find env name = m.find env name := by
  induction env with
  | nil => rfl
  | cons frame outer ih => rw [find, find, same frame (.head _), ih fun f member => same f (.tail _ member)]

theorem find_congr (same : ∀ frame ∈ env, ∀ name, n.findIn frame name = m.findIn frame name) (name : String) :
    n.find env name = m.find env name :=
  find_eq_of_frames fun frame member => same frame member name

/-- What cannot be found later could not be found before. -/
theorem Local.unnamed (here : Local given kept env m n) (inside : ∀ frame ∈ env, frame < m.frames.size)
    (free : n.find env name = none) : m.find env name = none := by
  rw [find_eq_none] at free ⊢
  intro frame member
  refine Decidable.byContradiction fun there => ?_
  exact here.named_still (inside frame member) there (free frame member)

/-- The globals are within reach of all code. -/
theorem Hides.globals (hides : Hides kept env m) : Hides kept Memory.globals m := by
  have member {frame : FrameId} (global : frame ∈ 0 :: Memory.globals) : frame ∈ 0 :: env := by
    simp only [Memory.globals, List.mem_cons, List.not_mem_nil, or_false, or_self] at global
    exact global ▸ .head _
  exact ⟨fun frame global => hides.inside frame (member global),
    fun frame global => hides.free frame (member global), hides.known⟩

theorem Hides.find (hides : Hides kept env m) (found : m.find env name = some i) : ¬kept i := by
  obtain ⟨frame, member, there⟩ := find_eq_some found
  exact hides.free frame (.tail _ member) name i there

theorem Hides.new (hides : Hides kept env m) : ¬kept m.bindings.size :=
  fun keeps => Nat.lt_irrefl _ (hides.known _ keeps)

/-- What code does in its environment brings none of the hidden bindings to light. -/
theorem Hides.later (hides : Hides kept env m) (here : Local given kept env m n) :
    Hides kept env n where
  inside frame member := Nat.lt_of_lt_of_le (hides.inside frame member) here.frames
  free frame member name i found := by
    by_cases head : frame ∈ env.head?
    · rcases here.named frame head name with same | ⟨j, -, -, there, free⟩
      · exact hides.free frame member name i (same ▸ found)
      · cases found.symm.trans there
        exact free
    · rw [here.outer frame (hides.inside frame member) head name] at found
      exact hides.free frame member name i found
  known i keeps := Nat.lt_of_lt_of_le (hides.known i keeps) here.bindings

/-- Where no name may be given, none of any frame that there was is changed. -/
theorem Local.untouched (here : Local (fun _ _ => False) kept env m n) (old : frame < m.frames.size)
    (name : String) : n.findIn frame name = m.findIn frame name := by
  by_cases head : frame ∈ env.head?
  · exact (here.named frame head name).resolve_right fun ⟨_, _, never, _⟩ => never
  · exact here.outer frame old head name

/-- A frame that was not there before is put in front of some frames of the environment. What is done in
it gives no names in the environment itself. -/
theorem Local.within (opened : Local (fun _ _ => False) kept env m n) (fresh : m.frames.size ≤ frame)
    (inside : ∀ f ∈ env, f < m.frames.size) (body : Local given kept (frame :: sub) n o) :
    Local given' kept env m o := by
  have same {f : FrameId} (old : f < m.frames.size) (name : String) : o.findIn f name = m.findIn f name := by
    have apart : f ∉ (frame :: sub).head? := by
      rintro ⟨⟩
      exact Nat.not_lt_of_le fresh old
    exact (body.outer f (Nat.lt_of_lt_of_le old opened.frames) apart name).trans (opened.untouched old name)
  exact ⟨Nat.le_trans opened.frames body.frames, Nat.le_trans opened.bindings body.bindings,
    fun f old _ name => same old name,
    fun f head name => .inl (same (inside f (List.mem_of_mem_head? head)) name),
    fun i old => (body.types i (Nat.lt_of_lt_of_le old opened.bindings)).trans (opened.types i old),
    fun i keeps => (body.values i keeps).trans (opened.values i keeps)⟩

/-- A change that leaves the names of all frames as they are. -/
theorem local_of_names (frames : m.frames.size ≤ n.frames.size)
    (bindings : m.bindings.size ≤ n.bindings.size)
    (names : ∀ frame < m.frames.size, ∀ name, n.findIn frame name = m.findIn frame name)
    (inside : ∀ frame ∈ env, frame < m.frames.size)
    (types : ∀ i < m.bindings.size, n.declared? i = m.declared? i)
    (values : ∀ i, kept i → n.binding? i = m.binding? i) : Local given kept env m n where
  frames := frames
  bindings := bindings
  outer frame there _ := names frame there
  named frame head name := .inl (names frame (inside frame (List.mem_of_mem_head? head)) name)
  types := types
  values := values

/-- A frame was made, with names for bindings as described. -/
structure Opened (m n : Memory) (frame : FrameId) (names : String → BindingId → Prop) : Prop where
  fresh : m.frames.size ≤ frame
  inside : frame < n.frames.size
  named : ∀ name i, n.findIn frame name = some i → names name i

theorem Opened.ofFrame (m : Memory) : Opened m m.addFrame.2 m.addFrame.1 fun _ _ => False where
  fresh := Nat.le_refl _
  inside := by simp [addFrame]
  named name i found := by
    rw [findIn_addFrame] at found
    simp [findIn, addFrame, Table.get?] at found

theorem Opened.addBinding (opened : Opened m n frame names) (b : Binding) :
    Opened m (n.addBinding b).2 frame names := ⟨opened.fresh, opened.inside, opened.named⟩

theorem Opened.bind (opened : Opened m n frame names) (word : String) (j : BindingId) :
    Opened m (n.bind frame word j) frame fun name i => names name i ∨ name = word ∧ i = j where
  fresh := opened.fresh
  inside := by simpa [Memory.bind] using opened.inside
  named name i found := by
    rw [findIn_bind] at found
    split at found
    next here => exact .inr ⟨here.2.2, (Option.some.inj found).symm⟩
    next => exact .inl (opened.named name i found)

theorem Opened.weaken {names' : String → BindingId → Prop} (opened : Opened m n frame names)
    (weakens : ∀ name i, names name i → names' name i) : Opened m n frame names' :=
  ⟨opened.fresh, opened.inside, fun name i found => weakens name i (opened.named name i found)⟩

/-- Names in a frame that was not there at first do not matter to the environment. -/
theorem Local.bindNew (here : Local given kept env m n) (fresh : m.frames.size ≤ frame)
    (inside : ∀ f ∈ env, f < m.frames.size) (word : String) (j : BindingId) :
    Local given kept env m (n.bind frame word j) := by
  have same {f : FrameId} (old : f < m.frames.size) (name : String) :
      (n.bind frame word j).findIn f name = n.findIn f name := by
    rw [findIn_bind, if_neg]
    rintro ⟨rfl, -⟩
    exact Nat.not_lt_of_le fresh old
  refine ⟨?_, here.bindings, fun f old other name => ?_, fun f head name => ?_, here.types, here.values⟩
  · simpa [Memory.bind] using here.frames
  · exact (same old name).trans (here.outer f old other name)
  · rw [same (inside f (List.mem_of_mem_head? head)) name]
    exact here.named f head name

/-- Bindings that are hidden where a frame is opened are hidden in it, if none of them has a name
there. -/
theorem Hides.opened (hides : Hides kept env n) (inside : frame < n.frames.size)
    (named : ∀ name i, n.findIn frame name = some i → ¬kept i) : Hides kept (frame :: env) n where
  inside f member := by
    rcases List.mem_cons.mp member with rfl | member
    · exact hides.inside _ (.head _)
    · rcases List.mem_cons.mp member with rfl | member
      · exact inside
      · exact hides.inside f (.tail _ member)
  free f member name i found := by
    rcases List.mem_cons.mp member with rfl | member
    · exact hides.free _ (.head _) name i found
    · rcases List.mem_cons.mp member with rfl | member
      · exact named name i found
      · exact hides.free f (.tail _ member) name i found
  known := hides.known

theorem Local.addFrame (inside : ∀ f ∈ env, f < m.frames.size) : Local given kept env m m.addFrame.2 :=
  local_of_names (by simp [Memory.addFrame]) (Nat.le_refl _) (fun f _ name => findIn_addFrame m f name)
    inside (fun _ _ => rfl) fun _ _ => rfl

section Changes

variable (hides : Hides kept env m)

include hides

theorem Hides.addArray (cell : ArrayCell) : Local given kept env m (m.addArray cell).2 :=
  local_of_names (Nat.le_refl _) (Nat.le_refl _) (fun _ _ _ => rfl)
    (fun f member => hides.inside f (.tail _ member)) (fun _ _ => rfl) fun _ _ => rfl

theorem Hides.setElement (id : ArrayId) (position : Nat) (v : Value) :
    Local given kept env m (m.setElement id position v) :=
  local_of_names (Nat.le_refl _) (Nat.le_refl _) (fun _ _ _ => rfl)
    (fun f member => hides.inside f (.tail _ member)) (fun _ _ => rfl) fun _ _ => rfl

theorem Hides.addBinding (b : Binding) : Local given kept env m (m.addBinding b).2 := by
  refine local_of_names (Nat.le_refl _) (by simp [Memory.addBinding]) (fun _ _ _ => rfl)
    (fun f member => hides.inside f (.tail _ member)) (fun i old => ?_) fun i keeps => ?_
  · rw [declared?, binding_addBinding, if_neg (Nat.ne_of_lt old), declared?]
  · rw [binding_addBinding, if_neg (Nat.ne_of_lt (hides.known i keeps))]

theorem Hides.setValue (found : ¬kept i) (v : Value) : Local given kept env m (m.setValue i v) := by
  refine local_of_names (Nat.le_refl _) (by simp [Memory.setValue]) (fun _ _ _ => rfl)
    (fun f member => hides.inside f (.tail _ member)) (fun j _ => declared?_setValue m i v j) fun j keeps => ?_
  have apart : i ≠ j := fun same => found (same ▸ keeps)
  rw [binding_setValue, if_neg apart]

theorem Hides.copyValue (v : Value) : Local given kept env m (m.copyValue v).2 := by
  unfold Memory.copyValue
  split
  · exact hides.addArray _
  · exact .refl m

theorem Hides.define (b : Binding) (permitted : given name b.declared) :
    Local given kept env m (m.define env name b).2 := by
  have added : Local given kept env m (m.addBinding b).2 := hides.addBinding b
  cases env with
  | nil => exact added
  | cons frame outer =>
    have names (f : FrameId) (word : String) :
        (m.define (frame :: outer) name b).2.findIn f word =
          if frame = f ∧ frame < m.frames.size ∧ word = name then some m.bindings.size
          else m.findIn f word := findIn_bind (m.addBinding b).2 m.bindings.size frame f name word
    refine ⟨Nat.le_of_eq (Array.size_modify ..).symm, added.bindings, fun f _ other word => ?_,
      fun f head word => ?_, added.types, added.values⟩
    · have apart : frame ≠ f := fun same => other (same ▸ rfl)
      rw [names, if_neg fun here => apart here.1]
    · rw [names]
      split
      next here =>
        have declared : (m.define (frame :: outer) name b).2.declared? m.bindings.size = b.declared := by
          simp [declared?]
        exact .inr ⟨_, by simp [Memory.define, Memory.addBinding, Memory.bindHere, Memory.bind],
          by rw [here.2.2, declared]; exact permitted, rfl, hides.new⟩
      next => exact .inl rfl

theorem Hides.assign (permitted : m.find env name = none → given name none) (v : Value) :
    Local given kept env m (m.assign env name v).2 := by
  have located : Local given kept env m (m.locate env name).2 ∧ ¬kept (m.locate env name).1 := by
    unfold Memory.locate
    split
    next i found => exact ⟨.refl m, hides.find found⟩
    next missing => exact ⟨hides.define _ (permitted missing), hides.new⟩
  rw [assign_eq]
  split
  · exact located.1
  · split
    · exact located.1.trans ((hides.later located.1).setValue located.2 _)
    · exact located.1

end Changes

end Memory

section

variable (given : String → Option DataType → Prop) (kept : BindingId → Prop)

/-- The state hides the bindings from what runs in it. -/
abbrev RunState.Hides (s : RunState) : Prop := s.memory.Hides kept s.env

/-- A later state of the same code. -/
structure RunState.Local (s t : RunState) : Prop where
  env : t.env = s.env
  memory : s.memory.Local given kept s.env t.memory

/-- However the computation ends, it has kept to the names that it may give and the bindings that it
may find. -/
def Run.Confines (s : RunState) (m : Run α) (result : α → RunState → Prop) : Prop :=
  Ends m s (fun a t => s.Local given kept t ∧ result a t) (fun _ t => s.Local given kept t)

end

variable {given : String → Option DataType → Prop} {kept : BindingId → Prop} {s t u : RunState} {α β : Type}

theorem RunState.Local.refl (s : RunState) : s.Local given kept s := ⟨rfl, .refl _⟩

theorem RunState.Local.trans (first : s.Local given kept t) (second : t.Local given kept u) :
    s.Local given kept u :=
  ⟨second.env.trans first.env, first.memory.trans (first.env ▸ second.memory)⟩

theorem RunState.Local.hides (here : s.Local given kept t) (hides : s.Hides kept) : t.Hides kept := by
  show t.memory.Hides kept t.env
  rw [here.env]
  exact Memory.Hides.later hides here.memory

/-- The names that are given without a declaration are those that cannot be found; they have no type. -/
def RunState.Admits (given : String → Option DataType → Prop) (s : RunState) : Prop :=
  ∀ name, s.memory.find s.env name = none → given name none

theorem RunState.Local.admits (here : s.Local given kept t) (hides : s.Hides kept)
    (admits : s.Admits given) : t.Admits given := by
  intro name missing
  rw [here.env] at missing
  exact admits name
    (here.memory.unnamed (fun frame member => hides.inside frame (.tail _ member)) missing)

namespace Run

variable {m : Run α} {next : α → Run β} {result : α → RunState → Prop}

theorem Confines.more {given' : String → Option DataType → Prop} (confines : Confines given kept s m result)
    (more : ∀ name type, given name type → given' name type) : Confines given' kept s m result := by
  have here {t : RunState} (known : s.Local given kept t) : s.Local given' kept t :=
    ⟨known.env, known.memory.mono more⟩
  exact confines.mono (fun a t known => ⟨here known.1, known.2⟩) fun _ t known => here known

theorem confines_pure (known : result a s) : Confines given kept s (pure a) result := ⟨.refl s, known⟩

theorem confines_throw (e : Stop) : Confines given kept s (throw e) result :=
  ends_throw.mpr (.refl s)

theorem Confines.bind {resultNext : β → RunState → Prop} (first : Confines given kept s m result)
    (rest : ∀ a t, s.Local given kept t → result a t → Confines given kept t (next a) resultNext) :
    Confines given kept s (m >>= next) resultNext := by
  unfold Confines at *
  rw [ends_bind]
  refine first.mono (fun a t ⟨here, known⟩ => ?_) fun _ _ failed => failed
  exact (rest a t here known).mono (fun b u ⟨further, known⟩ => ⟨here.trans further, known⟩)
    fun e u further => here.trans further

theorem Confines.weaken {weaker : α → RunState → Prop} (confines : Confines given kept s m result)
    (weakens : ∀ a t, s.Local given kept t → result a t → weaker a t) :
    Confines given kept s m weaker :=
  confines.mono (fun a t ⟨here, known⟩ => ⟨here, weakens a t here known⟩) fun _ _ failed => failed

theorem Confines.discard (confines : Confines given kept s m result) :
    Confines given kept s (discard m) (fun _ _ => True) := by
  unfold Confines at *
  rw [ends_discard]
  exact confines.mono (fun _ _ ⟨here, _⟩ => ⟨here, trivial⟩) fun _ _ failed => failed

theorem confines_get {f : RunState → Run α} (confines : Confines given kept s (f s) result) :
    Confines given kept s (get >>= f) result := confines

theorem Looks.confines (looks : Looks m) (s : RunState) :
    Confines given kept s m (fun _ t => t = s) := by
  have stays {t : RunState} (same : t = s) : s.Local given kept t := by
    rw [same]
    exact .refl s
  exact (looks.ends s).mono (fun _ _ same => ⟨stays same, same⟩) fun _ _ same => stays same

/-- What neither moves to another environment nor touches the memory. -/
theorem confines_of_memory
    (ends : Ends m s (fun _ t => t.env = s.env ∧ t.memory = s.memory)
      (fun _ t => t.env = s.env ∧ t.memory = s.memory)) :
    Confines given kept s m (fun _ _ => True) := by
  have here {t : RunState} (same : t.env = s.env ∧ t.memory = s.memory) : s.Local given kept t :=
    ⟨same.1, same.2 ▸ .refl _⟩
  exact ends.mono (fun _ _ same => ⟨here same, trivial⟩) fun _ _ same => here same

theorem confines_withMemory {f : Memory → α × Memory}
    (changes : s.memory.Local given kept s.env (f s.memory).2) :
    Confines given kept s (withMemory f)
      (fun a t => a = (f s.memory).1 ∧ t = { s with memory := (f s.memory).2 }) :=
  ⟨⟨rfl, changes⟩, rfl, rfl⟩

theorem ends_withMemory {f : Memory → α × Memory} {good : β → RunState → Prop}
    {bad : Stop → RunState → Prop} :
    Ends (withMemory f >>= next) s good bad ↔
      Ends (next (f s.memory).1) { s with memory := (f s.memory).2 } good bad := Iff.rfl

/-- Naming parameters in a frame that has just been made. -/
theorem bindParams_ends {m : Memory} {env : Environment} {frame : FrameId}
    {names : String → BindingId → Prop} (inside : ∀ f ∈ env, f < m.frames.size)
    (params : List Param) (bindings : List BindingId) {t : RunState}
    (here : m.Local given kept env t.memory) (opened : m.Opened t.memory frame names)
    (known : ∀ param i, (param, i) ∈ params.zip bindings → names param.name i) :
    Ends (bindParams frame params bindings) t
      (fun _ u => u.env = t.env ∧ m.Local given kept env u.memory ∧ m.Opened u.memory frame names)
      (fun _ _ => False) := by
  induction params generalizing bindings t with
  | nil => exact ⟨rfl, here, opened⟩
  | cons param params ih =>
    cases bindings with
    | nil => exact ⟨rfl, here, opened⟩
    | cons i rest =>
      refine ends_withMemory.mpr (ih rest (here.bindNew opened.fresh inside param.name i) ?_
        fun other j paired => known other j (.tail _ paired))
      refine (opened.bind param.name i).weaken fun name j named => ?_
      rcases named with named | ⟨rfl, rfl⟩
      · exact named
      · exact known param j (.head _)

/-- The frame of a call is new, and has names of parameters for the bindings that were made for them. -/
theorem openFrame_confines (inside : ∀ f ∈ s.env, f < s.memory.frames.size) (params : List Param)
    (bindings : List BindingId) :
    Confines given kept s (openFrame params bindings) (fun frame t => s.memory.Opened t.memory frame
      fun name i => ∃ param, (param, i) ∈ params.zip bindings ∧ param.name = name) := by
  have framed : s.memory.Local given kept s.env s.memory.addFrame.2 := .addFrame inside
  have opened : s.memory.Opened s.memory.addFrame.2 s.memory.addFrame.1
      fun name i => ∃ param, (param, i) ∈ params.zip bindings ∧ param.name = name :=
    (Memory.Opened.ofFrame s.memory).weaken nofun
  have named := bindParams_ends (t := { s with memory := s.memory.addFrame.2 }) inside params bindings
    framed opened fun param i paired => ⟨param, paired, rfl⟩
  refine ends_withMemory.mpr (ends_bind.mpr (named.of_safe fun _ t known => ?_))
  exact ⟨⟨known.1, known.2.1⟩, known.2.2⟩

section Primitives

variable (hides : s.Hides kept)

theorem storeFailed_confines (line : Nat) (report : StoreFault → RunFault) (fault : StoreFault) :
    Confines given kept s (storeFailed line report fault) result := by
  cases fault <;> exact confines_throw _

theorem tick_confines (ctx : RunContext) (line : Nat) :
    Confines given kept s (tick ctx line) (fun _ _ => True) := by
  refine confines_of_memory ?_
  unfold tick
  rw [ends_bind, ends_modify, ends_bind, ends_get]
  dsimp only
  split
  · exact ⟨rfl, rfl⟩
  · split
    · exact ⟨rfl, rfl⟩
    · split <;> exact ⟨rfl, rfl⟩

theorem begins_confines (ctx : RunContext) (stmt : Stmt) :
    Confines given kept s (begins ctx stmt) (fun _ _ => True) := by
  have moves : Confines given kept s
      (modify fun state : RunState => { state with line := stmt.line }) (fun _ _ => True) :=
    ⟨⟨rfl, .refl _⟩, trivial⟩
  unfold begins
  split
  · exact confines_throw _
  · exact moves.bind fun _ t _ _ => tick_confines ctx stmt.line

theorem emit_confines (ctx : RunContext) (line : Nat) (text : String) :
    Confines given kept s (emit ctx line text) (fun _ _ => True) := by
  refine confines_of_memory ?_
  unfold emit
  rw [ends_modify]
  split <;> exact ⟨rfl, rfl⟩

theorem takeInput_confines (line : Nat) :
    Confines given kept s (takeInput line) (fun _ _ => True) := by
  refine confines_of_memory ?_
  unfold takeInput
  rw [ends_bind, ends_get]
  split <;> exact ⟨rfl, rfl⟩

theorem callBuiltin_confines (line : Nat) (name : String) (arguments : List Value) :
    Confines given kept s (callBuiltin line name arguments) (fun _ _ => True) := by
  refine confines_of_memory ?_
  unfold callBuiltin
  rw [ends_bind, ends_modifyGet]
  split <;> exact ⟨rfl, rfl⟩

theorem readInput_confines (ctx : RunContext) (line : Nat) (target : Target) :
    Confines given kept s (readInput ctx line target) (fun _ _ => True) := by
  refine (takeInput_confines line).bind fun raw t _ _ => ?_
  refine ((checkLength_looks ctx line _).confines t).bind fun _ t _ _ => ?_
  refine ((inputType_looks line target).confines t).bind fun answer u _ _ => ?_
  dsimp only
  split
  · exact confines_throw _
  · split
    · exact confines_pure trivial
    · exact confines_throw _

include hides

theorem define_confines {name : String} (b : Binding) (permitted : given name b.declared) :
    Confines given kept s (define name b) (fun _ _ => True) :=
  confines_get ((confines_withMemory (hides.define b permitted)).weaken fun _ _ _ _ => trivial)

theorem assign_confines (admits : s.Admits given) (line : Nat) (name : String) (v : Value) :
    Confines given kept s (assign line name v) (fun _ _ => True) := by
  refine confines_get ((confines_withMemory (hides.assign (admits name) v)).bind fun answer t _ _ => ?_)
  split
  · exact confines_pure trivial
  · exact storeFailed_confines line _ _

theorem assignElement_confines (line : Nat) (id : ArrayId) (indices : List Int) (v : Value) :
    Confines given kept s (assignElement line id indices v) (fun _ _ => True) := by
  refine (confines_withMemory ?_).bind fun failed t _ _ => ?_
  · split
    · exact hides.setElement _ _ _
    · exact .refl _
    · exact .refl _
  · split
    · exact confines_pure trivial
    · exact storeFailed_confines line _ _

theorem storeFresh_confines (line : Nat) (declared : Option DataType) (v : Value)
    (report : StoreFault → RunFault) :
    Confines given kept s (storeFresh line declared v report)
      (fun i _ => s.memory.bindings.size ≤ i ∧ ¬kept i) := by
  refine confines_get ?_
  split
  · refine (confines_withMemory (hides.addBinding _)).weaken fun i t _ new => ?_
    rw [new.1]
    exact ⟨Nat.le_refl _, hides.new⟩
  · exact storeFailed_confines line report _

/-- A binding of its own for a BYVAL argument is new. -/
theorem bindValue_confines (line : Nat) (callee : String) (param : Param) (v : Value) :
    Confines given kept s (bindValue line callee param v)
      (fun i _ => s.memory.bindings.size ≤ i ∧ ¬kept i) := by
  unfold bindValue
  split
  · refine ((checkArrayArgument_looks line callee param v).confines s).bind fun _ t _ same => ?_
    subst same
    have copied : t.memory.Local given kept t.env (t.memory.copyValue v).2 := hides.copyValue v
    refine (confines_withMemory (copied.trans ((hides.later copied).addBinding _))).weaken
      fun i u _ new => ?_
    rw [new.1]
    exact ⟨copied.bindings, (hides.later copied).new⟩
  · exact storeFresh_confines hides line _ v _

/-- The binding of a BYREF argument is one that the caller can find. -/
theorem bindReference_confines (line : Nat) (callee : String) (param : Param) (argument : Expr) :
    Confines given kept s (bindReference line callee param argument) (fun i _ => ¬kept i) := by
  have finds (name : String) :
      Confines given kept s (findBinding name) (fun found _ => ∀ i ∈ found, ¬kept i) :=
    confines_get (confines_pure fun _ found => hides.find found)
  unfold bindReference
  split
  · refine (finds _).bind fun found t _ known => ?_
    split
    · exact confines_throw _
    next i =>
      refine confines_get ?_
      have free : ¬kept i := known i rfl
      split
      · split
        · exact confines_pure free
        · exact confines_throw _
      · exact confines_pure free
  · exact confines_throw _

theorem bindArgument_confines (line : Nat) (callee : String) (param : Param) (argument : Expr)
    {value : Run Value} (values : Confines given kept s value (fun _ _ => True)) :
    Confines given kept s (bindArgument line callee param argument value)
      (fun i _ => ¬kept i ∧ (param.mode = .byValue → s.memory.bindings.size ≤ i)) := by
  unfold bindArgument
  split
  next reference =>
    refine (bindReference_confines hides line callee param argument).weaken fun i _ _ free => ⟨free, ?_⟩
    intro value
    cases reference.symm.trans value
  next =>
    refine values.bind fun v t here _ => ?_
    refine (bindValue_confines (here.hides hides) line callee param v).weaken fun i u _ new => ?_
    exact ⟨new.2, fun _ => Nat.le_trans here.memory.bindings new.1⟩

theorem declareVariable_confines {name typeName : String} (permitted : given name (DataType.ofName? typeName)) :
    Confines given kept s (declareVariable name typeName) (fun _ _ => True) :=
  (define_confines hides _ permitted).discard

theorem declareArray_confines (ctx : RunContext) (line : Nat) {name : String}
    (permitted : given name (some .array)) (bounds : List Bound) (elementType : String) :
    Confines given kept s (declareArray ctx line name bounds elementType) (fun _ _ => True) := by
  unfold declareArray
  dsimp only
  split
  · exact confines_throw _
  · refine (confines_withMemory (hides.addArray _)).bind fun id t here _ => ?_
    exact (define_confines (here.hides hides) _ permitted).discard

theorem defineConstant_confines {name : String} (permitted : ∀ type, given name type) (v : Value) :
    Confines given kept s (defineConstant name v) (fun _ _ => True) := by
  refine (confines_withMemory (hides.copyValue v)).bind fun copy t here _ => ?_
  exact (define_confines (here.hides hides) _ (permitted _)).discard

theorem advance_confines (line : Nat) {counter : BindingId} (free : ¬kept counter) (step : Number) :
    Confines given kept s (advance line counter step) (fun _ _ => True) := by
  refine ((counterValue_looks counter).confines s).bind fun v t _ same => ?_
  subst same
  split
  · exact confines_throw _
  · split
    · exact confines_throw _
    · refine confines_get ?_
      dsimp only
      split
      · exact confines_pure trivial
      · split
        · exact (confines_withMemory (hides.setValue free _)).weaken fun _ _ _ _ => trivial
        · exact storeFailed_confines line _ _

/-- The frame of a FOR loop is new, and has at most the name of its counter. -/
theorem openCounter_confines (line : Nat) (counter : Option String) (start step : Number) :
    Confines given kept s (openCounter line counter start step) (fun opened t =>
      opened.2 = s.memory.bindings.size ∧ s.memory.Opened t.memory opened.1 fun name i =>
        counter = some name ∧ i = opened.2) := by
  unfold openCounter
  dsimp only
  split
  · exact confines_throw _
  · split
    · exact storeFailed_confines line _ _
    · have inside := fun f member => hides.inside f (.tail _ member)
      have framed : s.memory.Local given kept s.env s.memory.addFrame.2 := .addFrame inside
      have added (b : Binding) : s.memory.Local given kept s.env (s.memory.addFrame.2.addBinding b).2 :=
        framed.trans ((hides.later framed).addBinding b)
      have opened (b : Binding) := (Memory.Opened.ofFrame s.memory).addBinding b
      refine ends_withMemory.mpr (ends_withMemory.mpr ?_)
      cases counter with
      | none => exact ⟨⟨rfl, added _⟩, rfl, (opened _).weaken nofun⟩
      | some name =>
        refine ⟨⟨rfl, (added _).bindNew (Nat.le_refl _) inside name _⟩, rfl, ?_⟩
        refine ((opened _).bind name _).weaken fun other i named => ?_
        obtain ⟨rfl, rfl⟩ := named.resolve_left id
        exact ⟨rfl, rfl⟩

end Primitives

end Run

end Pseudocode
