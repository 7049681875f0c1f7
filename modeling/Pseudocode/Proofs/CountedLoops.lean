import Mathlib.Data.Int.DivMod
import Pseudocode.Proofs.CallFrames
import Pseudocode.Proofs.IntegerSize

/-! FOR loops that count in integers. A round of such a loop is its body, one step and the next value of
the counter. While the body completes normally and leaves the counter alone, the value of the counter is
known before each round, whatever else the body does; so the loop ends after as many rounds as its first
value, its last value and its step say, and not before. -/
namespace Pseudocode

/-- The limits let a run take the step with this number. -/
structure RunContext.Allows (ctx : RunContext) (step : Nat) : Prop where
  steps : step ≤ ctx.settings.limits.maxSteps
  time : ctx.host.elapsedMs step ≤ ctx.settings.limits.timeoutMs
  going : ctx.host.isCancelled step = false

namespace RunState

/-- The state in which a FOR loop that counts from `first` begins: in a frame of its own, which has the
name of the counter. -/
def looping (s : RunState) (name : String) (first : Int) : RunState :=
  let memory := (s.memory.addFrame.2.addBinding ⟨.integer first, some .integer, false⟩).2
  { s with
    memory := memory.bind s.memory.frames.size name s.memory.bindings.size
    env := s.memory.frames.size :: s.env }

/-- The state in which the next round begins, after the body. -/
def nextRound (u : RunState) (counter : BindingId) (value : Int) : RunState :=
  { u with steps := u.steps + 1, memory := u.memory.setValue counter (.integer value) }

end RunState

namespace Run

section Counting

/-- How often a loop that counts from one integer to another comes around. -/
def roundCount (first last step : Int) : Nat := (max 0 ((last - first).fdiv step + 1)).toNat

theorem roundCount_le {first last step : Int} {done : Nat} :
    roundCount first last step ≤ done ↔ (last - first).fdiv step < done := by
  unfold roundCount
  omega

theorem compare?_integer (m n : Int) : Number.compare? (.integer m) (.integer n) = some (compare m n) := by
  have one : (0 : Int) < Binary64.unitsPerOne := Int.natCast_pos.mpr Binary64.unitsPerOne_pos
  show some (compare (m * Binary64.unitsPerOne) (n * Binary64.unitsPerOne)) = _
  rcases Int.lt_trichotomy m n with less | rfl | more
  · rw [Int.compare_eq_lt.mpr less, Int.compare_eq_lt.mpr (Int.mul_lt_mul_of_pos_right less one)]
  · rw [Int.compare_eq_eq.mpr rfl, Int.compare_eq_eq.mpr rfl]
  · rw [Int.compare_eq_gt.mpr more, Int.compare_eq_gt.mpr (Int.mul_lt_mul_of_pos_right more one)]

/-- The counter has passed the end once all rounds are done, in either direction. -/
theorem pastEnd_integer (first last : Int) {step : Int} (proper : step ≠ 0) (done : Nat) :
    pastEnd (.integer (first + done * step)) (.integer last) (.integer step) =
      decide (roundCount first last step ≤ done) := by
  unfold pastEnd
  simp only [compare?_integer]
  rw [Bool.eq_iff_iff, decide_eq_true_iff, roundCount_le]
  rcases Int.lt_or_gt_of_ne proper with down | up
  · have past : (last - first).fdiv step < done ↔ -(last - first) < done * -step := by
      rw [← Int.neg_fdiv_neg, Int.fdiv_eq_ediv_of_nonneg _ (by omega), Int.ediv_lt_iff_lt_mul (by omega)]
    rw [Int.compare_eq_lt.mpr down, past, Int.mul_neg]
    simp only [beq_iff_eq, Option.some.injEq, Int.compare_eq_lt]
    omega
  · have past : (last - first).fdiv step < done ↔ last - first < done * step := by
      rw [Int.fdiv_eq_ediv_of_nonneg _ (Int.le_of_lt up), Int.ediv_lt_iff_lt_mul up]
    rw [Int.compare_eq_gt.mpr up, past]
    simp only [beq_iff_eq, Option.some.injEq, Int.compare_eq_gt]
    omega

end Counting

theorem tick_of_allows {ctx : RunContext} {s : RunState} (allows : ctx.Allows (s.steps + 1)) (line : Nat) :
    tick ctx line s = .ok () { s with steps := s.steps + 1 } := by
  show (if _ then stop line .stepLimit else if _ then _ else if _ then _ else pure () : Run Unit) _ = _
  rw [if_neg (Nat.not_lt.mpr allows.steps), if_neg (Nat.not_lt.mpr allows.time),
    if_neg (by simp [allows.going])]
  rfl

/-- The binding of a counter with this value. -/
def counting (value : Int) : Binding := ⟨.integer value, some .integer, false⟩

theorem counterValue_of_counting {s : RunState} {counter : BindingId} {value : Int}
    (held : s.memory.binding? counter = some (counting value)) :
    counterValue counter s = .ok (.integer value) s := by
  show EStateM.Result.ok (((s.memory.binding? counter).map Binding.value).getD .null) s = _
  rw [held]
  rfl

theorem advance_of_counting {s : RunState} {counter : BindingId} {value : Int}
    (held : s.memory.binding? counter = some (counting value)) (line : Nat) (step : Int) :
    advance line counter (.integer step) s =
      .ok () { s with memory := s.memory.setValue counter (.integer (value + step)) } := by
  unfold advance
  rw [bind_of_ok (counterValue_of_counting held)]
  simp only [Value.number?, Number.addExact, Number.combine]
  refine (bind_of_ok (show (get : Run RunState) s = .ok s s from rfl)).trans ?_
  rw [held]
  rfl

/-- A FOR loop begins its round if its counter has not passed the end. -/
theorem forLoop_succ {ctx : RunContext} {line fuel : Nat} {last step : Number} {body : Run Completion}
    {s : RunState} {counter : BindingId} {value : Int}
    (held : s.memory.binding? counter = some (counting value)) :
    forLoop ctx line counter last step body (fuel + 1) s =
      (if pastEnd (.integer value) last step then return .normal
      else do
        match ← body with
        | .returned v returnLine => return .returned v returnLine
        | .normal =>
          tick ctx line
          advance line counter step
          forLoop ctx line counter last step body fuel : Run Completion) s := by
  rw [forLoop]
  refine (bind_of_ok (counterValue_of_counting held)).trans ?_
  rfl

/-- Rounds of a FOR loop whose body completes normally. -/
def rounds (ctx : RunContext) (line : Nat) (counter : BindingId) (step : Number) (body : Run Completion) :
    Nat → Run Unit
  | 0 => pure ()
  | done + 1 => do
    rounds ctx line counter step body done
    discard body
    tick ctx line
    advance line counter step

/-- The body of a loop that is begun in `t` completes normally in `u`. The counter keeps its name and its
binding, and a step can be taken after it. -/
structure Completes (ctx : RunContext) (name : String) (counter : BindingId) (body : Run Completion)
    (t u : RunState) : Prop where
  ran : body t = .ok .normal u
  named : u.memory.find u.env name = t.memory.find t.env name
  kept : u.memory.binding? counter = t.memory.binding? counter
  allows : ctx.Allows (u.steps + 1)

section Rounds

variable {P : Policy} {ctx : RunContext} {line : Nat} {name : String} {counter : BindingId}
  {first last step : Int} {body : Run Completion} {s t u : RunState} {done count : Nat}

/-- Where a loop from `s` is after a number of rounds. -/
structure Counted (P : Policy) (ctx : RunContext) (name : String) (counter : BindingId) (first step : Int)
    (s : RunState) (done : Nat) (t : RunState) : Prop where
  ready : t.Ready P ctx
  env : t.env = s.env
  named : t.memory.find t.env name = some counter
  held : t.memory.binding? counter = some (counting (first + done * step))
  steps : s.steps + done ≤ t.steps

/-- From one round to the next. -/
theorem Counted.next (counted : Counted P ctx name counter first step s done t)
    (conducts : Conducts P ctx t body (fun c u => c.Lives u.memory))
    (completes : Completes ctx name counter body t u) (line : Nat) :
    (do tick ctx line; advance line counter (.integer step) : Run Unit) u =
        .ok () (u.nextRound counter (first + (done + 1 : Nat) * step)) ∧
      Counted P ctx name counter first step s (done + 1)
        (u.nextRound counter (first + (done + 1 : Nat) * step)) := by
  have value : first + done * step + step = first + (done + 1 : Nat) * step := by
    rw [Int.natCast_succ, Int.add_mul, Int.one_mul, Int.add_assoc]
  have held := completes.kept.trans counted.held
  have ticked := tick_of_allows completes.allows line
  have advanced := advance_of_counting (s := { u with steps := u.steps + 1 }) held line step
  rw [value] at advanced
  obtain ⟨later, env, ready, -⟩ := conducts.of_ok completes.ran
  have readyT := ((tick_conducts ready line).of_ok ticked).2.2.1
  refine ⟨(bind_of_ok ticked).trans advanced, ?_, env.trans counted.env, ?_, ?_, ?_⟩
  · exact ((advance_conducts readyT line counter (.integer step)).of_ok advanced).2.2.1
  · have found := completes.named.trans counted.named
    rwa [← Memory.find_congr (m := u.memory) (n := u.memory.setValue counter _) fun _ _ _ => rfl] at found
  · show (u.memory.setValue counter _).binding? counter = _
    rw [Memory.binding_setValue, if_pos rfl, held]
    rfl
  · have steps := later.steps
    have before := counted.steps
    show s.steps + (done + 1) ≤ u.steps + 1
    omega

theorem rounds_succ {v : RunState} (rounded : rounds ctx line counter (.integer step) body done s = .ok () t)
    (ran : body t = .ok .normal u)
    (next : (do tick ctx line; advance line counter (.integer step) : Run Unit) u = .ok () v) :
    rounds ctx line counter (.integer step) body (done + 1) s = .ok () v := by
  have discarded : discard body t = .ok () u := by
    show EStateM.map _ body t = _
    rw [EStateM.map, ran]
  rw [rounds]
  exact (bind_of_ok rounded).trans ((bind_of_ok discarded).trans next)

/-- What a loop that counts from `first` has of its body in the rounds that are to come. -/
structure Turns (P : Policy) (ctx : RunContext) (line : Nat) (name : String) (counter : BindingId)
    (first step : Int) (body : Run Completion) (count : Nat) (s : RunState) : Prop where
  begun : Counted P ctx name counter first step s 0 s
  conducts : ∀ t, t.Ready P ctx → Conducts P ctx t body (fun c u => c.Lives u.memory)
  completes : ∀ done < count, ∀ t, rounds ctx line counter (.integer step) body done s = .ok () t →
    ∃ u, Completes ctx name counter body t u

namespace Turns

variable (turns : Turns P ctx line name counter first step body count s)

include turns

/-- One round more. -/
theorem succ (more : done < count)
    (rounded : rounds ctx line counter (.integer step) body done s = .ok () t)
    (counted : Counted P ctx name counter first step s done t) :
    ∃ u v, body t = .ok .normal u ∧ v.steps = u.steps + 1 ∧
      (do tick ctx line; advance line counter (.integer step) : Run Unit) u = .ok () v ∧
      rounds ctx line counter (.integer step) body (done + 1) s = .ok () v ∧
      Counted P ctx name counter first step s (done + 1) v := by
  obtain ⟨u, completes⟩ := turns.completes done more t rounded
  obtain ⟨next, counted⟩ := counted.next (turns.conducts t counted.ready) completes line
  exact ⟨u, _, completes.ran, rfl, next, rounds_succ rounded completes.ran next, counted⟩

theorem counted (within : done ≤ count) :
    ∃ t, rounds ctx line counter (.integer step) body done s = .ok () t ∧
      Counted P ctx name counter first step s done t := by
  induction done with
  | zero => exact ⟨s, rfl, turns.begun⟩
  | succ done ih =>
    obtain ⟨t, rounded, counted⟩ := ih (Nat.le_of_succ_le within)
    obtain ⟨-, v, -, -, -, rounded, counted⟩ := turns.succ within rounded counted
    exact ⟨v, rounded, counted⟩

/-- The loop does the rounds that are left, and no more. -/
theorem forLoop_from {left fuel : Nat} (proper : step ≠ 0) (whole : roundCount first last step = count)
    (rounded : rounds ctx line counter (.integer step) body done s = .ok () t)
    (counted : Counted P ctx name counter first step s done t) (sum : done + left = count)
    (enough : left < fuel) :
    ∃ u, rounds ctx line counter (.integer step) body count s = .ok () u ∧
      forLoop ctx line counter (.integer last) (.integer step) body fuel t = .ok .normal u := by
  induction left generalizing done t fuel with
  | zero =>
    cases fuel with
    | zero => cases enough
    | succ fuel =>
      cases sum
      refine ⟨t, rounded, ?_⟩
      rw [forLoop_succ counted.held, pastEnd_integer first last proper, whole, if_pos (by simp)]
      rfl
  | succ left ih =>
    cases fuel with
    | zero => cases enough
    | succ fuel =>
      have more : done < count := by omega
      obtain ⟨u, v, ran, -, next, rounded, counted'⟩ := turns.succ more rounded counted
      obtain ⟨w, all, looped⟩ := ih rounded counted' (by omega) (Nat.lt_of_succ_lt_succ enough)
      refine ⟨w, all, ?_⟩
      rw [forLoop_succ counted.held, pastEnd_integer first last proper, whole, if_neg (by simpa using more)]
      refine (bind_of_ok ran).trans ?_
      dsimp only
      rw [← bind_assoc]
      exact (bind_of_ok next).trans looped

/-- The loop ends normally after its rounds. -/
theorem forLoop_ends (proper : step ≠ 0) (whole : roundCount first last step = count) :
    ∃ t, rounds ctx line counter (.integer step) body count s = .ok () t ∧
      forLoop ctx line counter (.integer last) (.integer step) body
        (ctx.settings.limits.maxSteps + 1 - s.steps) s = .ok .normal t := by
  -- Each round takes a step at least, so the loop has room for all of them.
  obtain ⟨t, -, counted⟩ := turns.counted (Nat.le_refl _)
  have spent := counted.steps
  have within := counted.ready.steps
  exact turns.forLoop_from proper whole rfl turns.begun (Nat.zero_add _) (by omega)

end Turns

theorem counted_looping (ready : (s.looping name first).Ready P ctx) :
    Counted P ctx name s.memory.bindings.size first step (s.looping name first) 0 (s.looping name first) where
  ready := ready
  env := rfl
  named := by
    have found : (s.looping name first).memory.findIn s.memory.frames.size name =
        some s.memory.bindings.size := by
      refine (Memory.findIn_bind ..).trans (if_pos ⟨rfl, ?_, rfl⟩)
      simp [Memory.addBinding, Memory.addFrame]
    show Memory.find _ (s.memory.frames.size :: s.env) name = _
    rw [Memory.find, found]
  held := by
    rw [Int.natCast_zero, Int.zero_mul, Int.add_zero]
    exact (Memory.binding_addBinding ..).trans (if_pos rfl)
  steps := Nat.le_refl _

theorem openCounter_integer (proper : step ≠ 0) (line : Nat) (name : String) (first : Int) (s : RunState) :
    openCounter line (some name) (.integer first) (.integer step) s =
      .ok (s.memory.frames.size, s.memory.bindings.size) { s.looping name first with env := s.env } := by
  unfold openCounter
  have other : Number.isZero (.integer step) = false := by simpa [Number.isZero] using proper
  simp only [other]
  rfl

theorem inEnvironment_of_ok {env : Environment} {part : Run Completion} {c : Completion}
    (ran : part { s with env } = .ok c t) : inEnvironment env part s = .ok c { t with env := s.env } := by
  unfold inEnvironment
  rw [ran]

theorem countedLoop_integer (proper : step ≠ 0) {name : String}
    (looped : forLoop ctx line s.memory.bindings.size (.integer last) (.integer step) body
      (ctx.settings.limits.maxSteps + 1 - s.steps) (s.looping name first) = .ok .normal t) :
    countedLoop ctx line (some name) (.integer first) (.integer last) (.integer step) body s =
      .ok .normal { t with env := s.env } := by
  unfold countedLoop
  refine (bind_of_ok (openCounter_integer proper line name first s)).trans ?_
  exact inEnvironment_of_ok looped

end Rounds

end Run

namespace Activity

variable {ctx : RunContext} {a : Activity} {place : Position} {name : String} {counter : Option String}
  {start last step : Option Expr} {body : List Stmt} {s t : RunState}

/-- Carrying out a block as a part of an activity. -/
def block (ctx : RunContext) (a : Activity) (body : List Stmt) : Run Completion :=
  Run.execBlock ctx (Parts.enterAt ctx a.calls) (!a.calls.isEmpty) body

/-- A FOR statement comes to its loop once its bounds are evaluated. -/
theorem Leads.loop {bounds : Number × Number × Number} {frame : FrameId} {id : BindingId}
    (task : a.task = .stmt (.forLoop place counter start last step body))
    (header : (do
      Run.begins ctx (.forLoop place counter start last step body)
      Run.forBounds ctx (Parts.enterAt ctx a.calls) place.line start last step) a.state = .ok bounds s)
    (opened : Run.openCounter place.line counter bounds.1 bounds.2.2 s = .ok (frame, id) t) :
    Leads ctx a ⟨a.calls, .forLoop place.line id bounds.2.1 bounds.2.2 body,
      { t with env := frame :: t.env }⟩ := by
  have whole : (do
      Run.begins ctx (.forLoop place counter start last step body)
      let bounds ← Run.forBounds ctx (Parts.enterAt ctx a.calls) place.line start last step
      let opened ← Run.openCounter place.line counter bounds.1 bounds.2.2
      return some ⟨a.calls, opened.1 :: (← get).env,
        .forLoop place.line opened.2 bounds.2.1 bounds.2.2 body⟩ :
      Run (Option Entry)) a.state =
      .ok (some ⟨a.calls, frame :: t.env, .forLoop place.line id bounds.2.1 bounds.2.2 body⟩) t := by
    rw [← bind_assoc]
    exact (bind_of_ok header).trans (bind_of_ok opened)
  refine ⟨_, by rw [task]; exact .tail _ (.tail _ (.tail _ (.head _))), _, t, Eq.trans ?_ whole, rfl⟩
  unfold Run.forBounds
  cases step with
  | none => simp only [bind_assoc, pure_bind, seqRight_eq_bind]
  | some e =>
    simp only [bind_assoc, pure_bind, seqRight_eq_bind]
    rfl

end Activity

/-- FOR loops count exactly. Whatever a program has done when it comes to a FOR statement whose bounds and
step turn out to be integers: while each round that is due completes normally, leaves the counter alone and
stays within the limits, the loop does as many rounds as `roundCount` says and then ends normally. Whatever the
body does, the name of the counter stands for the first value and as many steps as there were rounds, and the
run takes one step for each round besides those of the body. In the end the environment is that of the
statement, and every name in it stands for what it stood for before. -/
theorem integer_loops_count (p : Program) (settings : Settings) (host : Host) {a : Activity}
    (reaches : Activity.Reaches (p.context settings host) (.start p settings) a) {place : Position}
    {name : String} {start last step : Option Expr} {body : List Stmt}
    (task : a.task = .stmt (.forLoop place (some name) start last step body)) {m n k : Int} {s : RunState}
    (header : (do
      Run.begins (p.context settings host) (.forLoop place (some name) start last step body)
      Run.forBounds (p.context settings host) (Parts.enterAt (p.context settings host) a.calls) place.line
        start last step) a.state = .ok (.integer m, .integer n, .integer k) s)
    (proper : k ≠ 0)
    (completes : ∀ done < Run.roundCount m n k, ∀ t,
      Run.rounds (p.context settings host) place.line s.memory.bindings.size (.integer k)
        (a.block (p.context settings host) body) done (s.looping name m) = .ok () t →
      ∃ u, Run.Completes (p.context settings host) name s.memory.bindings.size
        (a.block (p.context settings host) body) t u) :
    (∃ t, Run.rounds (p.context settings host) place.line s.memory.bindings.size (.integer k)
        (a.block (p.context settings host) body) (Run.roundCount m n k) (s.looping name m) = .ok () t ∧
      Run.exec (p.context settings host) (Parts.enterAt (p.context settings host) a.calls) (!a.calls.isEmpty)
        (.forLoop place (some name) start last step body) a.state =
        .ok .normal { t with env := a.state.env } ∧
      ∀ word, t.memory.find a.state.env word = a.state.memory.find a.state.env word) ∧
    ∀ done < Run.roundCount m n k, ∃ t u v,
      Run.rounds (p.context settings host) place.line s.memory.bindings.size (.integer k)
        (a.block (p.context settings host) body) done (s.looping name m) = .ok () t ∧
      t.memory.lookup t.env name = some ⟨.integer (m + done * k), some .integer, false⟩ ∧
      a.block (p.context settings host) body t = .ok .normal u ∧
      Run.rounds (p.context settings host) place.line s.memory.bindings.size (.integer k)
        (a.block (p.context settings host) body) (done + 1) (s.looping name m) = .ok () v ∧
      v.steps = u.steps + 1 := by
  have sound := Activity.Reaches.sound p.obeys_free.routines reaches
    (Activity.start_sound p.obeys_free settings host)
  have leads := Activity.Leads.loop task header (Run.openCounter_integer proper place.line name m s)
  have loop := leads.sound p.obeys_free.routines sound
  have turns : Run.Turns .free (p.context settings host) place.line name s.memory.bindings.size m k
      (a.block (p.context settings host) body) (Run.roundCount m n k) (s.looping name m) :=
    ⟨Run.counted_looping loop.ready, fun t ready => Run.execBlock_conducts
      (Parts.enterAt_conducts p.obeys_free.routines a.calls) _ body ready loop.obeys, completes⟩
  refine ⟨?_, fun done more => ?_⟩
  · obtain ⟨t, rounded, looped⟩ := turns.forLoop_ends proper (rfl : Run.roundCount m n k = _)
    have inside : a.Inside := Activity.Reaches.inside p.obeys_free.routines reaches
      (Activity.start_sound p.obeys_free settings host) (Activity.start_inside p settings)
    have ran : Run.exec (p.context settings host) (Parts.enterAt (p.context settings host) a.calls)
        (!a.calls.isEmpty) (.forLoop place (some name) start last step body) a.state =
        .ok .normal { t with env := s.env } := by
      rw [Run.exec_forLoop, ← bind_assoc]
      exact (bind_of_ok header).trans (Run.countedLoop_integer proper looped)
    -- The statement gives no name in its environment, whatever names its body gives.
    have here : a.state.Local (fun _ _ => False) (fun _ => False) { t with env := s.env } :=
      ((Run.exec_forLoop_confines (Run.enter_confines _ _) _
        ⟨inside, fun _ _ _ _ _ => id, nofun⟩).of_ok ran).1
    have env : s.env = a.state.env := here.env
    refine ⟨t, rounded, env ▸ ran, fun word => ?_⟩
    exact Memory.find_congr (fun f member => here.memory.untouched (inside f (.tail _ member))) word
  · obtain ⟨t, rounded, counted⟩ := turns.counted (Nat.le_of_lt more)
    obtain ⟨u, v, ran, steps, -, rounded', -⟩ := turns.succ more rounded counted
    refine ⟨t, u, v, rounded, ?_, ran, rounded', steps⟩
    rw [Memory.lookup, counted.named]
    exact counted.held

/-- Whether the body of a loop that is begun in `t` completes. -/
def Run.completes (ctx : RunContext) (name : String) (counter : BindingId) (body : Run Completion)
    (t : RunState) : Bool :=
  match body t with
  | .ok .normal u => decide (u.memory.find u.env name = t.memory.find t.env name ∧
      u.memory.binding? counter = t.memory.binding? counter ∧
      u.steps + 1 ≤ ctx.settings.limits.maxSteps ∧
      ctx.host.elapsedMs (u.steps + 1) ≤ ctx.settings.limits.timeoutMs ∧
      ctx.host.isCancelled (u.steps + 1) = false)
  | _ => false

theorem Run.exists_of_completes {ctx : RunContext} {name : String} {counter : BindingId}
    {body : Run Completion} {t : RunState} (completes : Run.completes ctx name counter body t = true) :
    ∃ u, Run.Completes ctx name counter body t u := by
  unfold Run.completes at completes
  split at completes
  next u ran =>
    obtain ⟨named, kept, steps, time, going⟩ := of_decide_eq_true completes
    exact ⟨u, ran, named, kept, steps, time, going⟩
  next => cases completes

/-- The body of a loop that raises the end of the loop. -/
def raising : List Stmt :=
  [.assign ⟨3, 2⟩ (.variable ⟨3, 2⟩ "n")
    (.binary ⟨3, 9⟩ .plus (.name ⟨3, 7⟩ "n") (.name ⟨3, 11⟩ "i"))]

/-- A loop to a variable that its body changes. -/
def raisedLoop : Stmt :=
  .forLoop ⟨2, 1⟩ (some "i") (some (.literal ⟨2, 10⟩ (.integer 1))) (some (.name ⟨2, 15⟩ "n"))
    (some (.literal ⟨2, 22⟩ (.integer 2))) raising

def raisedEnd : Program where
  body := [.assign ⟨1, 1⟩ (.variable ⟨1, 1⟩ "n") (.literal ⟨1, 6⟩ (.integer 6)), raisedLoop]

/-- The run at the loop, after so many steps. -/
def RunState.raised (steps line : Nat) : RunState :=
  { RunState.initial {} with
    memory := ⟨#[], #[⟨.integer 6, none, false⟩], #[[("n", 0)]]⟩, steps, line }

/-- The body of the loop, and rounds of it. -/
def raisedBody : Run Completion :=
  Run.execBlock (raisedEnd.context {} {}) (Parts.enterAt (raisedEnd.context {} {}) []) false raising

def raisedRounds (done : Nat) : Run Unit :=
  Run.rounds (raisedEnd.context {} {}) 2 1 (.integer 2) raisedBody done

theorem raisedRounds_complete : ∀ done < 3, ∀ t,
    raisedRounds done ((RunState.raised 2 2).looping "i" 1) = .ok () t →
    ∃ u, Run.Completes (raisedEnd.context {} {}) "i" 1 raisedBody t u := by
  intro done within t rounded
  have all : ∀ done ∈ List.range 3, (observed (raisedRounds done) ((RunState.raised 2 2).looping "i" 1)
      fun _ t => Run.completes (raisedEnd.context {} {}) "i" 1 raisedBody t) = some true := by decide +kernel
  obtain ⟨_, u, rounded', completes⟩ := ok_of_observed _ (all done (List.mem_range.mpr within))
  cases rounded.symm.trans rounded'
  exact Run.exists_of_completes completes

theorem raisedEnd_counted : ∃ t,
    raisedRounds 3 ((RunState.raised 2 2).looping "i" 1) = .ok () t ∧
    Run.exec (raisedEnd.context {} {}) (Parts.enterAt (raisedEnd.context {} {}) []) false raisedLoop
      (RunState.raised 1 1) = .ok .normal { t with env := [0] } ∧
    (∀ word, t.memory.find [0] word = (RunState.raised 1 1).memory.find [0] word) ∧
    t.memory.lookup [0] "n" = some ⟨.integer 15, none, false⟩ ∧ t.steps = 8 := by
  have followed : (Activity.start raisedEnd {}).follow (raisedEnd.context {} {}) [1, 0] =
      some ⟨[], .stmt raisedLoop, .raised 1 1⟩ := rfl
  obtain ⟨⟨t, rounded, ran, names⟩, -⟩ := integer_loops_count raisedEnd {} {} (.of_follow followed) rfl
    (s := .raised 2 2) (m := 1) (n := 6) (k := 2) rfl (by decide) raisedRounds_complete
  have seen : observed (raisedRounds 3) ((RunState.raised 2 2).looping "i" 1)
      (fun _ t => (t.memory.lookup [0] "n", t.steps)) = some (some ⟨.integer 15, none, false⟩, 8) := by
    decide +kernel
  obtain ⟨_, u, rounded', view⟩ := ok_of_observed _ seen
  cases Eq.trans (Eq.symm rounded) rounded'
  exact ⟨t, rounded, ran, names, Prod.mk.inj view⟩

end Pseudocode
