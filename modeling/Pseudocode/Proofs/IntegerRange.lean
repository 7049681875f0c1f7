import Pseudocode.Proofs.CallFrames
import Pseudocode.Proofs.SizedParts

/-! The range of INTEGERs over a whole run. Literals are limited by their digits, arithmetic by the bits
of its results, and the counter of a FOR loop by the test before each round. So every INTEGER that a run
evaluates, or that a piece of code can find, has at most 13000 bits and a text. The argument is by
induction on the activities of a run: each begins within these sizes and stays within them. -/
namespace Pseudocode

namespace Scan

theorem number_sized (found : (number whole rest).1 = .integer n) : Sized n := by
  unfold number at found
  split at found
  · dsimp only at found
    split at found
    · exact sized_literal found
    · cases found
  · exact sized_literal found

theorem wordKind_word (word : String) : wordKind word ≠ .integer n := by
  intro found
  unfold wordKind at found
  split at found
  · cases found
  · split at found
    · cases found
    · split_ifs at found

theorem munch_sized (found : (munch c rest).1 = some (.integer n)) : Sized n := by
  unfold munch at found
  split at found
  · cases found
  split at found
  · cases found
  split at found
  · cases found
  split at found
  · exact number_sized (Option.some.inj found)
  split at found
  · split at found <;> cases found
  split at found
  · exact absurd (Option.some.inj found) (wordKind_word _)
  · split at found <;> cases found

theorem token_sized {t : Token} (member : t ∈ lineFrom line fuel column text) (same : t.kind = .integer n) :
    Sized n := by
  induction fuel generalizing column text with
  | zero => cases member
  | succ fuel ih =>
    cases text with
    | nil => cases member
    | cons c rest =>
      rw [lineFrom] at member
      cases form : (munch c rest).1 with
      | none =>
        simp only [form] at member
        exact ih member
      | some kind =>
        simp only [form] at member
        rcases List.mem_cons.mp member with rfl | after
        · exact munch_sized (form.trans (congrArg some same))
        · exact ih after

end Scan

/-- Every integer in the tree that is read from a text has an admissible size. -/
theorem Reading.integers_sized (source : String) : (ofScan (Scan.ofText source)).program.Grounded .sizes := by
  have known : ∀ t ∈ (Scan.ofText source).tokens, t.Grounded .sizes := by
    intro t member
    obtain ⟨⟨text, line⟩, -, there⟩ := List.mem_flatMap.mp member
    exact ⟨trivial, trivial, fun n same => Scan.token_sized there same, fun _ _ => trivial, trivial⟩
  have last : (Scan.ofText source).endToken.Grounded .sizes := by
    refine ⟨trivial, trivial, ?_, fun _ _ => trivial, trivial⟩
    rintro n ⟨⟩
  exact (Reading.grounded known last).1

namespace Activity

/-- What a run is assumed not to do: to come to a FOR loop whose end is an infinite or NaN REAL, or to
evaluate an expression to a text of 2^13000 characters or more. -/
structure Moderate (ctx : RunContext) (a : Activity) : Prop where
  finite : ∀ line counter last step body, a.task = .forLoop line counter last step body →
    ∀ x, last = .real x → x.isFinite = true
  short : ∀ e v t, a.task = .expr e → Run.eval ctx (Parts.enterAt ctx a.calls) e a.state = .ok v t → v.Short

variable {ctx : RunContext} {a b : Activity}

/-- An activity stays within the admissible sizes, and what it leads to begins within them. -/
theorem Sized.stays (routines : ∀ r ∈ ctx.routines, BlockGrounded .sizes r.body)
    (accessible : Acc (fun b a => Leads ctx a b) a) (moderate : ∀ b, Reaches ctx a b → b.Moderate ctx)
    (sized : a.Sized) : a.Stays ctx ∧ ∀ b, Leads ctx a b → b.Sized := by
  -- What a part stays within is known by induction, as soon as it is known to begin there.
  induction accessible with
  | intro a _ ih =>
    have here := moderate a .refl
    have holds : ∀ part ∈ Parts.all ctx a.calls a.task, Parts.Holds ctx a.state part := by
      intro part member entry t began begins
      have leads : Leads ctx a ⟨entry.calls, entry.task, { t with env := entry.env }⟩ :=
        ⟨part, member, entry, t, began, rfl⟩
      exact (ih _ leads (fun b reached => moderate b (.head leads reached)) begins).1
    have begins := Parts.all_sized routines sized.finds sized.code here.finite holds
    constructor
    · exact Parts.stays_of_parts sized.finds sized.code here.finite here.short fun part member =>
        (holds part member).stays (begins part member)
    · rintro b ⟨part, member, entry, t, began, rfl⟩
      exact begins part member entry t began

theorem Reaches.sized {P : Policy} (obey : ∀ r ∈ ctx.routines, ∀ stmt ∈ r.body, stmt.Obeys P)
    (routines : ∀ r ∈ ctx.routines, BlockGrounded .sizes r.body) (sound : a.Sound P ctx)
    (moderate : ∀ b, Reaches ctx a b → b.Moderate ctx) (sized : a.Sized) (reaches : Reaches ctx a b) :
    b.Sized := by
  induction reaches with
  | refl => exact sized
  | tail reached leads ih =>
    -- A reached activity is accessible, so what it leads to begins within the sizes as well.
    have accessible := (Reaches.sound obey reached sound).accessible obey
    exact (ih.stays routines accessible fun c further => moderate c (reached.trans further)).2 _ leads

theorem start_sized {p : Program} (grounded : p.Grounded .sizes) (settings : Settings) :
    (start p settings).Sized := by
  refine ⟨grounded.body, fun frame member => ?_, nofun, fun frame _ name i found => ?_⟩
  · rcases List.mem_cons.mp member with rfl | member
    · exact Nat.one_pos
    · exact List.mem_singleton.mp member ▸ Nat.one_pos
  · have sound : Memory.Sound .free 0 Memory.initial := Memory.initial_sound
    exact absurd (sound.names found) (Nat.not_lt_zero i)

end Activity

/-- If it is an INTEGER, the value has at most 13000 bits, its decimal text has at most 3914 digits, and
it can be made. -/
def Value.WithinLimit (v : Value) : Prop :=
  ∀ n, v = .integer n → bitLength n ≤ 13000 ∧ (toString n.natAbs).length ≤ 3914 ∧
    ∃ text, v.scalarText = .ok text

theorem Value.Sized.withinLimit {v : Value} (sized : v.Sized) : v.WithinLimit := by
  rintro n rfl
  exact ⟨sized n rfl, (sized n rfl).digits, sized.text nofun⟩

/-- The test of a FOR loop, where the counter may have passed the end. -/
def Task.isRound : Task → Bool
  | .forLoop .. => true
  | _ => false

/-- The INTEGERs of an activity are within the limit: what the expression evaluates to, if it is one, and
what its code can find. -/
structure Activity.WithinLimit (ctx : RunContext) (a : Activity) : Prop where
  result : ∀ e v t, a.task = .expr e → Run.eval ctx (Parts.enterAt ctx a.calls) e a.state = .ok v t →
    v.WithinLimit
  found : a.task.isRound = false → ∀ name b, a.state.memory.lookup a.state.env name = some b →
    b.value.WithinLimit
  elements : ∀ (i : ArrayId) cell, a.state.memory.arrays[i]? = some cell → ∀ v ∈ cell.elements,
    v.WithinLimit

theorem Activity.Sized.withinLimit {ctx : RunContext} {a : Activity} (sized : a.Sized)
    (stays : a.Stays ctx) : a.WithinLimit ctx := by
  obtain ⟨calls, task, s⟩ := a
  refine ⟨?_, ?_, ?_⟩
  · rintro e v t rfl ran
    exact (stays v t ran).2.1.withinLimit
  · intro plain name b held
    have whole : s.Sized := by
      cases task with
      | forLoop => cases plain
      | _ => exact sized.finds
    exact (whole.lookup held).withinLimit
  · have arrays : s.memory.ArraysSized := by
      cases task with
      | forLoop => exact sized.finds.1.arrays
      | _ => exact sized.finds.arrays
    exact fun i cell held v member => (arrays i cell held v member).withinLimit

/-- INTEGERs stay within the limit of 13000 bits in every run of a program that is read from a text, as
long as no FOR loop ends at an infinite or NaN REAL. -/
theorem integers_within_limit {source : String} {p : Program}
    (read : (Reading.ofScan (Scan.ofText source)).program = p) (settings : Settings) (host : Host)
    (moderate : ∀ b, Activity.Reaches (p.context settings host) (.start p settings) b →
      b.Moderate (p.context settings host))
    {a : Activity} (reached : Activity.Reaches (p.context settings host) (.start p settings) a) :
    a.WithinLimit (p.context settings host) := by
  have grounded : p.Grounded .sizes := read ▸ Reading.integers_sized source
  have routines : ∀ r ∈ (p.context settings host).routines, BlockGrounded .sizes r.body :=
    fun r member => (grounded.routines r member).2
  have sound := Activity.start_sound p.obeys_free settings host
  have sized : a.Sized := Activity.Reaches.sized p.obeys_free.routines routines sound moderate
    (Activity.start_sized grounded settings) reached
  have soundHere := Activity.Reaches.sound p.obeys_free.routines reached sound
  have accessible := soundHere.accessible p.obeys_free.routines
  have stays := sized.stays routines accessible fun b further => moderate b (reached.trans further)
  exact sized.withinLimit stays.1

section Counting

/-- An assignment in the body of a loop. -/
def countingStep : Stmt := .assign ⟨2, 3⟩ (.variable ⟨2, 3⟩ "x") (.literal ⟨2, 8⟩ (.integer 7))

/-- A loop that comes around twice. -/
def countingLoop : Stmt :=
  .forLoop ⟨1, 1⟩ (some "i") (some (.literal ⟨1, 10⟩ (.integer 1)))
    (some (.literal ⟨1, 15⟩ (.integer 2))) none [countingStep]

/-- The places, names and literals of a program that is a loop around an assignment. -/
def Program.loopParts : Program → Option (List Position × List String × List Literal)
  | ⟨[.forLoop place (some counter) (some (.literal start first)) (some (.literal stop last)) none
      [.assign inside (.variable target name) (.literal source value)]]⟩ =>
    some ([place, start, stop, inside, target, source], [counter, name], [first, last, value])
  | _ => none

/-- Programs have no decidable equality, but what such a loop is made of has. -/
theorem eq_counting {p : Program} (same : p.loopParts =
    some ([⟨1, 1⟩, ⟨1, 10⟩, ⟨1, 15⟩, ⟨2, 3⟩, ⟨2, 3⟩, ⟨2, 8⟩], ["i", "x"], [.integer 1, .integer 2, .integer 7])) :
    p = ⟨[countingLoop]⟩ := by
  unfold Program.loopParts at same
  split at same
  next =>
    cases same
    rfl
  next => cases same

theorem counting_read :
    (Reading.ofScan (Scan.ofText "FOR i <- 1 TO 2\n  x <- 7\nNEXT i")).program = ⟨[countingLoop]⟩ :=
  eq_counting (by decide +kernel)

/-- The code that a run of the loop comes to. -/
def Task.Counting : Task → Prop
  | .expr e => ∃ place n, e = .literal place (.integer n)
  | .stmt s => s = countingLoop ∨ s = countingStep
  | .block ss => ss = [countingLoop] ∨ ss = [countingStep] ∨ ss = []
  | .forLoop _ _ last _ body => last = .integer 2 ∧ body = [countingStep]
  | _ => False

open Run Parts in
/-- Whatever the state, such code leads to such code only. -/
theorem counting_parts {ctx : RunContext} {calls : List (Routine Stmt)} {s : RunState} {task : Task}
    (counting : task.Counting) : ∀ part ∈ all ctx calls task, Yields (fun b => b.task.Counting) s part := by
  cases task with
  | expr e =>
    obtain ⟨place, n, rfl⟩ := counting
    rintro part ⟨⟩
  | stmt stmt =>
    intro part member
    obtain ⟨rest, inStmt, rfl⟩ := List.mem_map.mp member
    rw [seqRight_eq_bind]
    refine yields_bind.mpr fun _ t _ => ?_
    have literal (place : Position) (n : Int) : Task.Counting (.expr (.literal place (.integer n))) :=
      ⟨place, n, rfl⟩
    rcases counting with rfl | rfl
    · rcases inStmt with _ | ⟨_, _ | ⟨_, _ | ⟨_, _ | ⟨_, ⟨⟩⟩⟩⟩⟩
      · exact yields_here.mpr (literal _ _)
      · exact yields_past.mpr (yields_bind.mpr fun _ _ _ => yields_here.mpr (literal _ _))
      · exact yields_past.mpr (yields_bind.mpr fun _ _ _ =>
          yields_past.mpr (yields_bind.mpr fun _ _ _ => yields_none))
      · refine yields_bind.mpr fun first u _ => yields_bind.mpr fun last w ran => ?_
        obtain ⟨v, _, evaluated, numeric⟩ := bind_eq_ok.mp ran
        rw [evalPresent, eval] at evaluated
        cases evaluated
        cases numeric
        refine yields_bind.mpr fun stride x _ => yields_bind.mpr fun opened y _ => ?_
        rintro entry z ⟨⟩
        exact ⟨rfl, rfl⟩
    · rcases inStmt with _ | ⟨_, _ | ⟨_, ⟨⟩⟩⟩
      · exact yields_here.mpr (literal _ _)
      · exact yields_past.mpr (yields_bind.mpr fun _ _ _ => yields_none)
  | block ss =>
    have rest {stmt : Stmt} (known : Task.Counting (.stmt stmt)) :
        ∀ part ∈ all ctx calls (.block [stmt]), Yields (fun b => b.task.Counting) s part := by
      rintro part (_ | ⟨_, _ | ⟨_, ⟨⟩⟩⟩)
      · exact yields_here.mpr known
      · refine yields_bind.mpr fun c t _ => ?_
        cases c with
        | returned => exact yields_none
        | normal => exact yields_here.mpr (.inr (.inr rfl))
    rcases counting with rfl | rfl | rfl
    · exact rest (.inl rfl)
    · exact rest (.inr rfl)
    · rintro part ⟨⟩
  | forLoop line counter last step body =>
    obtain ⟨rfl, rfl⟩ := counting
    rintro part (_ | ⟨_, _ | ⟨_, ⟨⟩⟩⟩)
    · refine yields_bind.mpr fun ended t _ => ?_
      split
      · exact yields_none
      · exact yields_here.mpr (.inr (.inl rfl))
    · refine yields_bind.mpr fun ended t _ => ?_
      split
      · exact yields_none
      · refine yields_bind.mpr fun c u _ => ?_
        cases c with
        | returned => exact yields_none
        | normal => exact yields_bind.mpr fun _ w _ => yields_bind.mpr fun _ x _ => yields_here.mpr ⟨rfl, rfl⟩
  | _ => exact counting.elim

theorem counting_moderate {ctx : RunContext} {settings : Settings} {b : Activity}
    (reached : Activity.Reaches ctx (.start ⟨[countingLoop]⟩ settings) b) : b.Moderate ctx := by
  have counting : b.task.Counting := by
    induction reached with
    | refl => exact .inl rfl
    | tail _ leads ih =>
      obtain ⟨part, member, entry, t, began, rfl⟩ := leads
      exact counting_parts ih part member entry t began
  obtain ⟨calls, task, s⟩ := b
  constructor
  · rintro line counter last step body rfl x rfl
    cases counting.1
  · rintro e v t rfl ran
    obtain ⟨place, n, rfl⟩ := counting
    rw [Run.eval] at ran
    cases ran
    nofun

/-- The counter of the loop before an assignment. -/
def Activity.observeCounter (a : Activity) : Option Binding :=
  match a.task with
  | .stmt (.assign ..) => a.state.memory.lookup a.state.env "i"
  | _ => none

/-- Before the assignment is executed for the second time, the counter is 2. -/
theorem counted_within_limit :
    (Reading.ofScan (Scan.ofText "FOR i <- 1 TO 2\n  x <- 7\nNEXT i")).program = ⟨[countingLoop]⟩ ∧
    ∃ a, Activity.Reaches (Program.context ⟨[countingLoop]⟩ {} {}) (.start ⟨[countingLoop]⟩ {}) a ∧
      a.observeCounter = some ⟨.integer 2, some .integer, false⟩ ∧
      a.WithinLimit (Program.context ⟨[countingLoop]⟩ {} {}) := by
  have seen : ((Activity.start ⟨[countingLoop]⟩ {}).follow (Program.context ⟨[countingLoop]⟩ {} {})
      [0, 3, 1, 0, 0]).bind Activity.observeCounter = some ⟨.integer 2, some .integer, false⟩ := by
    decide +kernel
  obtain ⟨a, followed, seen⟩ := Option.bind_eq_some_iff.mp seen
  have reached := Activity.Reaches.of_follow followed
  exact ⟨counting_read, a, reached, seen,
    integers_within_limit counting_read {} {} (fun b => counting_moderate) reached⟩

end Counting

end Pseudocode
