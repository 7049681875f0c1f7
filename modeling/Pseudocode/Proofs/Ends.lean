import Pseudocode.Run.State

/-! How a computation with state and failure ends. `Ends m s good bad` is decided by one run of `m`
from `s`, so the laws below are equivalences and a proof follows the text of `m` from left to right.
Reading, checking and running are all such computations. -/
namespace Pseudocode

/-- Started in `s`, the computation returns with `good` or fails with `bad`. -/
def Ends (m : EStateM ε σ α) (s : σ) (good : α → σ → Prop) (bad : ε → σ → Prop) : Prop :=
  match m s with
  | .ok a t => good a t
  | .error e t => bad e t

variable {m : EStateM ε σ α} {s : σ} {good : α → σ → Prop} {bad : ε → σ → Prop}

theorem Ends.mono {good' : α → σ → Prop} {bad' : ε → σ → Prop} (ends : Ends m s good bad)
    (well : ∀ a t, good a t → good' a t) (ill : ∀ e t, bad e t → bad' e t) :
    Ends m s good' bad' := by
  unfold Ends at *
  split at ends
  · exact well _ _ ends
  · exact ill _ _ ends

/-- What is known of a computation that does not fail. -/
theorem Ends.of_safe {good' : α → σ → Prop} (ends : Ends m s good fun _ _ => False)
    (well : ∀ a t, good a t → good' a t) : Ends m s good' bad :=
  ends.mono well fun _ _ never => never.elim

theorem Ends.and {good' : α → σ → Prop} {bad' : ε → σ → Prop} (first : Ends m s good bad)
    (second : Ends m s good' bad') :
    Ends m s (fun a t => good a t ∧ good' a t) (fun e t => bad e t ∧ bad' e t) := by
  unfold Ends at *
  split at first
  next ran => exact ⟨first, by simpa only [ran] using second⟩
  next failed => exact ⟨first, by simpa only [failed] using second⟩

theorem Ends.of_ok (ends : Ends m s good bad) (returned : m s = .ok a t) : good a t := by
  simpa only [Ends, returned] using ends

theorem Ends.of_error (ends : Ends m s good bad) (failed : m s = .error e t) : bad e t := by
  simpa only [Ends, failed] using ends

/-- A computation returns just if `p` holds, if it returns only then and fails only otherwise. -/
theorem Ends.returns_iff {p : Prop} (ends : Ends m s (fun _ _ => p) fun _ _ => ¬p) :
    (∃ a t, m s = .ok a t) ↔ p := by
  unfold Ends at ends
  split at ends
  next a t returned => exact iff_of_true ⟨a, t, returned⟩ ends
  next failed =>
    refine iff_of_false ?_ ends
    rintro ⟨_, _, returned⟩
    cases failed.symm.trans returned

/-- Every run of a computation ends somehow. -/
theorem ends_iff : Ends m s good bad ↔
    (∀ a t, m s = .ok a t → good a t) ∧ (∀ e t, m s = .error e t → bad e t) := by
  unfold Ends
  cases m s with
  | ok a t => simp
  | error e t => simp

theorem ends_of_forall (well : ∀ a t, good a t) (ill : ∀ e t, bad e t) : Ends m s good bad :=
  ends_iff.mpr ⟨fun a t _ => well a t, fun e t _ => ill e t⟩

/-- Only what a computation does in its state counts. -/
theorem ends_congr {n : EStateM ε σ α} {t : σ} (same : m s = n t) :
    Ends m s good bad ↔ Ends n t good bad := by
  unfold Ends
  rw [same]

section Sequences

variable {β : Type} {next : α → EStateM ε σ β} {t u : σ}

theorem bind_of_ok (ran : m s = .ok a t) : (m >>= next) s = next a t := by
  show EStateM.bind m next s = _
  rw [EStateM.bind, ran]

theorem bind_of_error (failed : m s = .error e t) : (m >>= next) s = .error e t := by
  show EStateM.bind m next s = _
  rw [EStateM.bind, failed]

theorem bind_eq_ok : (m >>= next) s = .ok c u ↔ ∃ a t, m s = .ok a t ∧ next a t = .ok c u := by
  show EStateM.bind m next s = _ ↔ _
  unfold EStateM.bind
  cases m s with
  | ok a t => simp [and_assoc]
  | error e t => simp

end Sequences

/-- What is observed of a computation that does not fail. -/
def observed (m : EStateM ε σ α) (s : σ) (view : α → σ → β) : Option β :=
  match m s with
  | .ok a t => some (view a t)
  | .error _ _ => none

theorem ok_of_observed (view : α → σ → β) (seen : observed m s view = some b) :
    ∃ a t, m s = .ok a t ∧ view a t = b := by
  unfold observed at seen
  split at seen
  next a t returned => exact ⟨a, t, returned, Option.some.inj seen⟩
  next => cases seen

section Laws

variable {β : Type} {next : α → EStateM ε σ β} {goodNext : β → σ → Prop}

@[simp] theorem ends_pure : Ends (pure a : EStateM ε σ α) s good bad ↔ good a s := Iff.rfl

@[simp] theorem ends_throw : Ends (throw e : EStateM ε σ α) s good bad ↔ bad e s := Iff.rfl

@[simp] theorem ends_get {good : σ → σ → Prop} :
    Ends (get : EStateM ε σ σ) s good bad ↔ good s s := Iff.rfl

@[simp] theorem ends_set {good : PUnit → σ → Prop} :
    Ends (set t : EStateM ε σ PUnit) s good bad ↔ good ⟨⟩ t := Iff.rfl

@[simp] theorem ends_modify {good : PUnit → σ → Prop} (f : σ → σ) :
    Ends (modify f : EStateM ε σ PUnit) s good bad ↔ good ⟨⟩ (f s) := Iff.rfl

@[simp] theorem ends_modifyGet (f : σ → α × σ) :
    Ends (modifyGet f : EStateM ε σ α) s good bad ↔ good (f s).1 (f s).2 := Iff.rfl

@[simp] theorem ends_bind : Ends (m >>= next) s goodNext bad ↔
    Ends m s (fun a t => Ends (next a) t goodNext bad) bad := by
  simp only [Ends, bind, EStateM.bind]
  cases m s <;> rfl

/-- What holds after the second of two computations, wherever the first has left off. -/
theorem ends_bind_of_forall (rest : ∀ a t, Ends (next a) t goodNext fun _ _ => True) :
    Ends (m >>= next) s goodNext fun _ _ => True :=
  ends_bind.mpr (ends_of_forall rest fun _ _ => trivial)

@[simp] theorem ends_map (f : α → β) :
    Ends (f <$> m) s goodNext bad ↔ Ends m s (fun a t => goodNext (f a) t) bad := by
  simp only [Ends, Functor.map, EStateM.map]
  cases m s <;> rfl

@[simp] theorem ends_discard {goodNext : PUnit → σ → Prop} :
    Ends (discard m) s goodNext bad ↔ Ends m s (fun _ t => goodNext ⟨⟩ t) bad :=
  ends_map _

theorem ends_ite [Decidable c] {n : EStateM ε σ α} :
    Ends (if c then m else n) s good bad ↔
      (c → Ends m s good bad) ∧ (¬c → Ends n s good bad) := by
  by_cases h : c <;> simp [h]

end Laws

end Pseudocode
