import Mathlib.Data.List.Forall2
import Pseudocode.Analysis
import Pseudocode.Proofs.CheckFaults
import Pseudocode.Proofs.Parts

/-! The analysis of RETURN is sound for runs. A function whose body may end without a RETURN is reported
whatever else the check finds, so one that is not reported never ends so; and a statement is reported as
one that cannot be reached only where the execution of its block cannot come to it. -/
namespace Pseudocode

namespace Check

variable {r : Routine Stmt} {limit : Int} {s : CheckState}

/-- The symbol, if the routine got one, has its name and its kind. -/
def Names (r : Routine Stmt) (registered : Option Symbol) : Prop :=
  ∀ symbol ∈ registered, r.name = some symbol.name ∧ symbol.kind = .ofRoutine r.kind

theorem names_none : Names r none := by
  intro symbol given
  cases given

theorem register_names (r : Routine Stmt) (s : CheckState) :
    Ends (register r) s (fun registered _ => Names r registered) (fun _ _ => True) := by
  unfold register
  split
  next => exact names_none
  next name named =>
    have declared (type : Option DataType) (t : CheckState) : Ends (do
        let symbol : Symbol :=
          { name, kind := .ofRoutine r.kind, type, line := r.position.line, params := r.params,
            used := true }
        return if ← declare r.position symbol then some symbol else none) t
        (fun registered _ => Names r registered) (fun _ _ => True) := by
      refine ends_bind_of_forall fun free u => ?_
      cases free with
      | false => exact names_none
      | true =>
        rintro _ ⟨⟩
        exact ⟨named, rfl⟩
    dsimp only
    split <;> exact ends_bind_of_forall declared

theorem mapM_register_names (rs : List (Routine Stmt)) (s : CheckState) :
    Ends (rs.mapM register) s (fun registered _ => List.Forall₂ Names rs registered)
      (fun _ _ => True) := by
  induction rs generalizing s with
  | nil => exact .nil
  | cons r rest ih =>
    rw [List.mapM_cons, ends_bind]
    refine (register_names r s).mono (fun symbol t first => ?_) fun _ _ _ => trivial
    rw [ends_bind]
    exact (ih t).mono (fun symbols u others => .cons first others) fun _ _ _ => trivial

/-- A function with a path that does not end in RETURN is reported. -/
theorem checkRoutine_reports (names : Names r registered) (named : r.name = some name)
    (function : r.kind = .function) (ends : blockTerminates r.body = false) (s : CheckState) :
    Ends (checkRoutine limit r registered) s
      (fun _ t => ⟨r.position, .missingReturn name⟩ ∈ t.reports) (fun _ _ => True) := by
  have checked : ∀ symbol, symbol = registered.getD
      { name := r.name.getD "?", kind := .ofRoutine r.kind, line := r.position.line,
        params := r.params } → symbol.kind = .function ∧ symbol.name = name := by
    rintro _ rfl
    cases registered with
    | none => simp [named, function, SymbolKind.ofRoutine]
    | some symbol =>
      obtain ⟨spelled, kind⟩ := names symbol rfl
      exact ⟨by rw [Option.getD_some, kind, function]; rfl, Option.some.inj (spelled.symm.trans named)⟩
  obtain ⟨kind, spelled⟩ := checked _ rfl
  have silent : Proceeds (fun _ => True) (modify fun t => { t with routine := none } : Check PUnit) :=
    proceeds_modify fun _ => rfl
  have last : Proceeds (fun _ => True) (leaveScope >>= fun _ =>
      modify fun t => { t with routine := none }) := inferInstance
  unfold checkRoutine
  dsimp only
  rw [kind, spelled, ends]
  -- Whatever the check of the body adds, the report comes then, and nothing removes it.
  refine ends_bind_of_forall fun _ _ => ends_bind_of_forall fun _ _ => ends_bind_of_forall fun _ _ =>
    ends_bind_of_forall fun _ t => ?_
  rw [if_pos ⟨rfl, rfl⟩, ends_bind]
  refine (last.ends _).mono (fun _ u adds => ?_) fun _ _ _ => trivial
  exact adds.mem Array.mem_push_self

theorem forM_reports {α : Type} {f : α → Check PUnit} (found : α → Report → Prop) (all : List α)
    (each : ∀ a ∈ all, Proceeds (fun _ => True) (f a) ∧
      ∀ s, Ends (f a) s (fun _ t => ∀ report, found a report → report ∈ t.reports) fun _ _ => True)
    (s : CheckState) :
    Ends (all.forM f) s (fun _ t => ∀ a ∈ all, ∀ report, found a report → report ∈ t.reports)
      fun _ _ => True := by
  induction all generalizing s with
  | nil => exact ends_pure.mpr nofun
  | cons a rest ih =>
    have others : Proceeds (fun _ => True) (rest.forM f) :=
      proceeds_forM rest fun b member => (each b (.tail _ member)).1
    change Ends (f a >>= fun _ => rest.forM f) s _ _
    rw [ends_bind]
    refine ((each a (.head _)).2 s).mono (fun _ t first => ?_) fun _ _ _ => trivial
    refine ends_iff.mpr ⟨fun _ u ended => List.forall_mem_cons.mpr ⟨fun report known => ?_, ?_⟩,
      fun _ _ _ => trivial⟩
    · exact ((others.ends t).of_ok ended).mem (first report known)
    · exact (ih (fun b member => each b (.tail _ member)) t).of_ok ended

/-- Every function with a path that does not end in RETURN is reported. -/
theorem checkProgram_reports {p : Program} (tidy : p.Tidy) (s : CheckState) :
    Ends (checkProgram limit p) s (fun _ t => ∀ r ∈ p.routines, r.kind = .function →
      blockTerminates r.body = false → ∀ name, r.name = some name →
        ⟨r.position, .missingReturn name⟩ ∈ t.reports) (fun _ _ => True) := by
  unfold checkProgram
  rw [ends_bind]
  refine (mapM_register_names p.routines s).mono (fun registered t names => ?_) fun _ _ _ => trivial
  obtain ⟨count, names⟩ := List.forall₂_iff_zip.mp names
  refine ends_bind_of_forall fun _ u => ?_
  have last : Proceeds (fun _ => True) (do
      reportLateGlobals
      reportUnused (← get).symbols.globals) := inferInstance
  rw [ends_bind]
  refine (forM_reports (fun pair report => pair.1.kind = .function ∧
    blockTerminates pair.1.body = false ∧ ∃ name, pair.1.name = some name ∧
      report = ⟨pair.1.position, .missingReturn name⟩) (p.routines.zip registered)
    (fun pair member => ⟨?_, fun v => ?_⟩) u).mono (fun _ v reported => ?_) fun _ _ _ => trivial
  · exact checkRoutine_proceeds limit (tidy.routines _ (List.of_mem_zip member).1)
      (fun _ _ => trivial) pair.2
  · refine ends_iff.mpr ⟨fun _ w ended report => ?_, fun _ _ _ => trivial⟩
    rintro ⟨function, ends, name, named, rfl⟩
    exact (checkRoutine_reports (names member) named function ends v).of_ok ended
  · refine (last.ends v).mono (fun _ w adds r member function ends name named => ?_)
      fun _ _ _ => trivial
    have all : r ∈ (p.routines.zip registered).map Prod.fst := by
      rwa [List.map_fst_zip (Nat.le_of_eq count)]
    obtain ⟨pair, inside, rfl⟩ := List.mem_map.mp all
    exact adds.mem (reported pair inside _ ⟨function, ends, name, named, rfl⟩)

end Check

namespace Review

variable {p : Program} {limit : Int} {review : Review}

/-- What a check that was carried out has found. -/
theorem ended (reviewed : ofProgram limit p = .ok review) :
    ∃ t, Check.checkProgram limit p .initial = .ok () t ∧ review.reports = t.reports.toList := by
  unfold ofProgram EStateM.run at reviewed
  split at reviewed
  next t ended =>
    cases reviewed
    exact ⟨t, ended, rfl⟩
  next => cases reviewed

theorem missingReturn_mem (reviewed : ofProgram limit p = .ok review) (tidy : p.Tidy)
    (member : r ∈ p.routines) (function : r.kind = .function) (named : r.name = some name)
    (ends : blockTerminates r.body = false) : ⟨r.position, .missingReturn name⟩ ∈ review.reports := by
  obtain ⟨t, ended, same⟩ := ended reviewed
  have reported := (Check.checkProgram_reports tidy .initial).of_ok ended r member function ends name named
  exact same ▸ Array.mem_toList_iff.mpr reported

/-- What is reported as out of reach stands behind a statement that ends every path in RETURN. -/
theorem dead_of_unreachable (reviewed : ofProgram limit p = .ok review) (tidy : p.Tidy)
    (reported : report ∈ review.reports) (unreachable : report.finding = .unreachable) :
    ∃ code stmt, p.Has code ∧ Dead stmt code ∧ stmt.position = report.position := by
  obtain ⟨t, ended, same⟩ := ended reviewed
  have proceeds : Check.Proceeds
      (fun place => ∃ code stmt, p.Has code ∧ Dead stmt code ∧ stmt.position = place)
      (Check.checkProgram limit p) :=
    Check.checkProgram_proceeds limit tidy fun code has stmt dead => ⟨code, stmt, has, dead, rfl⟩
  obtain ⟨more, added, known⟩ := (proceeds.ends .initial).of_ok ended
  have none : CheckState.initial.reports.toList = [] := rfl
  rw [none, List.nil_append] at added
  exact known report (added ▸ same ▸ reported) unreachable

end Review

namespace Activity

/-- The execution of a block comes to its `k`-th statement, which is carried out as `b`. -/
inductive Comes (ctx : RunContext) : Activity → Nat → Activity → Prop
  | first : a.task = .block (stmt :: rest) → Leads ctx a b → b.task = .stmt stmt → Comes ctx a 0 b
  | next : a.task = .block (stmt :: rest) → Leads ctx a c → c.task = .block rest → Comes ctx c k b →
    Comes ctx a (k + 1) b

variable {ctx : RunContext} {a b : Activity} {block : List Stmt}

theorem ne_none_of_begun {part : Run (Option Entry)} {s t : RunState} (began : part s = .ok (some entry) t) :
    ¬Ends part s (fun e _ => e = none) fun _ _ => True :=
  fun ends => Option.some_ne_none entry (ends.of_ok began)

/-- The execution of a block goes on from a statement only if that can end normally. -/
theorem Leads.live {c : Activity} (leads : Leads ctx a c) (block : a.task = .block (stmt :: rest))
    (rests : c.task = .block others) : stmt.terminates = false := by
  obtain ⟨part, member, entry, t, began, rfl⟩ := leads
  rw [block] at member
  obtain _ | ⟨_, _ | ⟨_, ⟨⟩⟩⟩ := member
  · cases began
    cases rests
  · refine Bool.eq_false_iff.mpr fun terminates => ?_
    have exits : Run.Exits (Run.exec ctx (Parts.enterAt ctx a.calls) (!a.calls.isEmpty) stmt) :=
      Run.exec_exits stmt terminates
    refine ne_none_of_begun began (ends_bind.mpr ?_)
    refine (exits a.state).mono (fun c u left => ?_) fun _ _ _ => trivial
    cases c with
    | normal => exact absurd rfl left
    | returned => rfl

theorem Comes.live (comes : Comes ctx a k b) (here : a.task = .block block) :
    ∀ i < k, ∀ stmt ∈ block[i]?, stmt.terminates = false := by
  induction comes generalizing block with
  | first => nofun
  | next whole leads rests _ ih =>
    cases whole.symm.trans here
    intro i before stmt member
    cases i with
    | zero =>
      cases member
      exact leads.live whole rests
    | succ i => exact ih rests i (Nat.lt_of_succ_lt_succ before) stmt member

end Activity

/-- A run that fails because a function ended without a RETURN blames one that does not end every path
in RETURN. -/
theorem Program.ended_function {p : Program} {settings : Settings} {host : Host}
    (stopped : (p.outcome settings host).stop = some (.fault line (.missingReturn name))) :
    ∃ r ∈ p.routines, r.name = some name ∧ r.kind = .function ∧ blockTerminates r.body = false := by
  unfold Program.outcome at stopped
  split at stopped
  next => cases stopped
  next e t ran =>
    cases stopped
    obtain ⟨-, -, due⟩ := (Run.program_conducts p.obeys_free settings host).of_error ran
    obtain ⟨r, found, function, ends⟩ := due.ended name rfl
    exact ⟨r, Run.routine_mem found, by simpa using List.find?_some found, function, ends⟩

/-- A block with a statement that ends every path in RETURN never ends normally, and its execution comes
to nothing behind the first of them, which might as well not be there. So in the run of a text no
function ends without a RETURN but one that the analysis reports, and whatever the analysis reports as
out of reach, the execution of its block never comes to it. -/
theorem return_analysis_holds (source : String) (settings : Settings) (host : Host) :
    (∀ ctx enter inRoutine block, blockTerminates block = true →
      ∀ s, Ends (Run.execBlock ctx enter inRoutine block) s (fun c _ => c ≠ .normal)
        fun _ _ => True) ∧
    (∀ ctx enter inRoutine before stmt rest, stmt.terminates = true →
      Run.execBlock ctx enter inRoutine (before ++ stmt :: rest) =
        Run.execBlock ctx enter inRoutine (before ++ [stmt])) ∧
    (∀ ctx a block k b, a.task = .block block → Activity.Comes ctx a k b →
      ∀ i < k, ∀ stmt ∈ block[i]?, stmt.terminates = false) ∧
    ∀ review, (Analysis.ofText settings.limits source).review = .ok review →
      (∀ line name, ((Analysis.ofText settings.limits source).reading.program.outcome settings host).stop =
          some (.fault line (.missingReturn name)) →
        ∃ r ∈ (Analysis.ofText settings.limits source).reading.program.routines, r.name = some name ∧
          ⟨r.position, .missingReturn name⟩ ∈ review.reports) ∧
      ∀ report ∈ review.reports, report.finding = .unreachable →
        ∃ code block k stmt, (Analysis.ofText settings.limits source).reading.program.Has code ∧
          Stands block code ∧ block[k]? = some stmt ∧ stmt.position = report.position ∧
          ∀ ctx a b, a.task = .block block → ¬Activity.Comes ctx a k b := by
  refine ⟨fun ctx enter inRoutine block => Run.execBlock_exits block,
    fun ctx enter inRoutine before stmt rest => Run.execBlock_cut before rest,
    fun ctx a block k b here comes => comes.live here, fun review reviewed => ?_⟩
  rw [Analysis.review_ofText] at reviewed
  rw [Analysis.reading_ofText]
  constructor
  · intro line name stopped
    obtain ⟨r, member, named, function, ends⟩ := Program.ended_function stopped
    exact ⟨r, member, named,
      Review.missingReturn_mem reviewed (Reading.tidy _ _) member function named ends⟩
  · intro report reported unreachable
    obtain ⟨code, stmt, has, ⟨before, rest, stands, ended⟩, place⟩ :=
      Review.dead_of_unreachable reviewed (Reading.tidy _ _) reported unreachable
    refine ⟨code, _, before.length, stmt, has, stands, ?_, place, fun ctx a b here comes => ?_⟩
    · rw [List.getElem?_append_right (Nat.le_refl _), Nat.sub_self, List.getElem?_cons_zero]
    · obtain ⟨i, inside, terminates⟩ := exists_terminates ended
      have there : (before ++ stmt :: rest)[i]? = some before[i] := by
        rw [List.getElem?_append_left inside, List.getElem?_eq_getElem inside]
      exact Bool.false_ne_true ((comes.live here i inside _ there).symm.trans terminates)

/-- A text with a function that may end without a RETURN, and with a statement out of reach. -/
def halfReturned : String :=
  "FUNCTION f(x : INTEGER) RETURNS INTEGER\n IF x > 0 THEN\n  RETURN 1\n  OUTPUT x\n ENDIF\n" ++
    "ENDFUNCTION\nOUTPUT f(1), f(0)"

theorem halfReturned_holds : ∃ review, (Analysis.ofText {} halfReturned).review = .ok review ∧
    ((Analysis.ofText {} halfReturned).reading.program.outcome {} {}).stop =
      some (.fault 7 (.missingReturn "f")) ∧
    (∃ r ∈ (Analysis.ofText {} halfReturned).reading.program.routines, r.name = some "f" ∧
      ⟨r.position, .missingReturn "f"⟩ ∈ review.reports) ∧
    ⟨⟨4, 3⟩, .unreachable⟩ ∈ review.reports ∧
    ∃ code block k stmt, (Analysis.ofText {} halfReturned).reading.program.Has code ∧
      Stands block code ∧ block[k]? = some stmt ∧ stmt.position = ⟨4, 3⟩ ∧
      ∀ ctx a b, a.task = .block block → ¬Activity.Comes ctx a k b := by
  obtain ⟨stopped, found⟩ : ((Analysis.ofText {} halfReturned).reading.program.outcome {} {}).stop =
        some (.fault 7 (.missingReturn "f")) ∧
      (Analysis.ofText {} halfReturned).review.toOption.map Review.reports =
        some [⟨⟨4, 3⟩, .unreachable⟩, ⟨⟨1, 1⟩, .missingReturn "f"⟩] := by decide +kernel
  cases reviewed : (Analysis.ofText {} halfReturned).review with
  | error fault =>
    rw [reviewed] at found
    cases found
  | ok review =>
    rw [reviewed] at found
    have reports : review.reports = [⟨⟨4, 3⟩, .unreachable⟩, ⟨⟨1, 1⟩, .missingReturn "f"⟩] :=
      Option.some.inj found
    have dead : ⟨⟨4, 3⟩, .unreachable⟩ ∈ review.reports := reports ▸ .head _
    obtain ⟨ended, unreachable⟩ := (return_analysis_holds halfReturned {} {}).2.2.2 review reviewed
    exact ⟨review, rfl, stopped, ended 7 "f" stopped, dead, unreachable _ dead rfl⟩

end Pseudocode
