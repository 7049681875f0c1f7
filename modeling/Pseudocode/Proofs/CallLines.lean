import Mathlib.Data.DFinsupp.WellFounded
import Mathlib.Data.ENat.Lattice
import Mathlib.Data.Finset.Card
import Mathlib.Logic.Relation
import Mathlib.Order.Bounds.Basic
import Pseudocode.Check.LateGlobals
import Pseudocode.Proofs.Reported

/-! The first line of the main program from which a routine can be reached. Lines are passed on along the
calls between routines, pass after pass and within a pass in any order of the calls, until a pass changes
nothing. Whatever the orders, that comes to an end, and then every routine has the least line on which the
main program calls a routine that leads to it. Global names are reported by these lines. -/
namespace Pseudocode

/-- One routine calls another, by the table of callers. -/
def Calls (callers : Table (List String)) (caller callee : String) : Prop :=
  ∃ names, (callee, names) ∈ callers ∧ caller ∈ names

/-- One routine can be reached from another by calls, perhaps by none. -/
abbrev Leads (callers : Table (List String)) : String → String → Prop := Relation.ReflTransGen (Calls callers)

/-- On the line the main program calls a routine from which the given one can be reached. -/
def ReachedOn (firstCalls : Table Nat) (callers : Table (List String)) (routine : String) (line : Nat) : Prop :=
  ∃ first, firstCalls.get? first = some line ∧ Leads callers first routine

/-- The calls of the table: each callee with each of its callers. -/
def callPairs (callers : Table (List String)) : List (String × String) :=
  callers.flatMap fun (callee, names) => names.map (callee, ·)

/-- Passes lines on along calls, in the order given. -/
def passAlong (order : List (String × String)) (lines : Table Nat) : Table Nat :=
  order.foldl (fun lines (callee, caller) => passLine lines callee caller) lines

/-- One pass over all calls, in some order, changes the lines. -/
def ChangedBy (callers : Table (List String)) (next lines : Table Nat) : Prop :=
  ∃ order, order.Perm (callPairs callers) ∧ next = passAlong order lines ∧ next ≠ lines

/-- Passes over all calls, each in an order of its own, lead from the lines to the result, and a last one
changes nothing. -/
inductive Relays (callers : Table (List String)) : Table Nat → Table Nat → Prop
  | stop {order : List (String × String)} : order.Perm (callPairs callers) → passAlong order lines = lines →
      Relays callers lines lines
  | again : ChangedBy callers next lines → Relays callers next result → Relays callers lines result

section Lines

/-- The line that a table gives a routine; one without a line has the line past all others. -/
def lineOf (lines : Table Nat) (routine : String) : ℕ∞ :=
  match lines.get? routine with
  | some line => line
  | none => ⊤

variable {lines : Table Nat} {order : List (String × String)} {callee caller routine : String}

theorem lineOf_eq_coe {line : Nat} : lineOf lines routine = line ↔ lines.get? routine = some line := by
  unfold lineOf
  cases lines.get? routine <;> simp

theorem lineOf_eq_top : lineOf lines routine = ⊤ ↔ lines.get? routine = none := by
  unfold lineOf
  cases lines.get? routine <;> simp

theorem lineOf_set (line : Nat) :
    lineOf (lines.set callee line) routine = if routine = callee then (line : ℕ∞) else lineOf lines routine := by
  unfold lineOf
  rw [Table.get?_set]
  by_cases same : routine = callee <;> simp [same]

/-- A callee is given the lesser of its own line and that of the caller. -/
theorem lineOf_passLine (lines : Table Nat) (callee caller routine : String) :
    lineOf (passLine lines callee caller) routine =
      if routine = callee then min (lineOf lines callee) (lineOf lines caller) else lineOf lines routine := by
  cases given : lines.get? caller with
  | none =>
    have past : lineOf lines caller = ⊤ := lineOf_eq_top.mpr given
    simp only [passLine, given, past, min_top_right]
    split
    next same => rw [same]
    next => rfl
  | some line =>
    have from_caller : lineOf lines caller = line := lineOf_eq_coe.mpr given
    cases known : lines.get? callee with
    | none =>
      have past : lineOf lines callee = ⊤ := lineOf_eq_top.mpr known
      simp only [passLine, given, known, lineOf_set, from_caller, past, min_top_left]
    | some old =>
      have had : lineOf lines callee = old := lineOf_eq_coe.mpr known
      simp only [passLine, given, known, from_caller, had]
      by_cases less : line < old
      · rw [if_pos less, lineOf_set, min_eq_right (Nat.cast_le.mpr less.le)]
      · rw [if_neg less, min_eq_left (Nat.cast_le.mpr (Nat.le_of_not_lt less))]
        split
        next same => rw [same, had]
        next => rfl

theorem lineOf_passLine_le : lineOf (passLine lines callee caller) routine ≤ lineOf lines routine := by
  rw [lineOf_passLine]
  split
  next same => exact same ▸ min_le_left _ _
  next => exact le_rfl

/-- A line that is not less is not passed on. -/
theorem passLine_eq_self (le : lineOf lines callee ≤ lineOf lines caller) : passLine lines callee caller = lines := by
  unfold passLine
  cases given : lines.get? caller with
  | none => rfl
  | some line =>
    rw [lineOf_eq_coe.mpr given] at le
    cases known : lines.get? callee with
    | none =>
      rw [lineOf_eq_top.mpr known] at le
      exact absurd le (by simp)
    | some old =>
      rw [lineOf_eq_coe.mpr known, Nat.cast_le] at le
      exact if_neg (Nat.not_lt.mpr le)

theorem lineOf_passAlong_le : lineOf (passAlong order lines) routine ≤ lineOf lines routine := by
  induction order generalizing lines with
  | nil => exact le_rfl
  | cons call rest ih => exact ih.trans lineOf_passLine_le

/-- After a pass a callee is no later than its caller was before. -/
theorem lineOf_passAlong_le_caller (member : (callee, caller) ∈ order) :
    lineOf (passAlong order lines) callee ≤ lineOf lines caller := by
  induction order generalizing lines with
  | nil => cases member
  | cons call rest ih =>
    cases member with
    | head =>
      have passed : lineOf (passLine lines callee caller) callee ≤ lineOf lines caller := by
        rw [lineOf_passLine, if_pos rfl]
        exact min_le_right _ _
      show lineOf (passAlong rest (passLine lines callee caller)) callee ≤ _
      exact lineOf_passAlong_le.trans passed
    | tail _ later => exact (ih later).trans lineOf_passLine_le

/-- A pass changes nothing just if no call of it has a line to pass on. -/
theorem passAlong_eq_self : passAlong order lines = lines ↔
    ∀ callee caller, (callee, caller) ∈ order → lineOf lines callee ≤ lineOf lines caller := by
  constructor
  · intro same callee caller member
    have passed : lineOf (passAlong order lines) callee ≤ lineOf lines caller := lineOf_passAlong_le_caller member
    rwa [same] at passed
  · intro ordered
    induction order with
    | nil => rfl
    | cons call rest ih =>
      have first : passLine lines call.1 call.2 = lines := passLine_eq_self (ordered _ _ List.mem_cons_self)
      show passAlong rest (passLine lines call.1 call.2) = lines
      rw [first]
      exact ih fun callee caller member => ordered callee caller (List.mem_cons_of_mem _ member)

end Lines

section Calls

variable {callers : Table (List String)} {lines next : Table Nat} {callee caller : String}
  {order : List (String × String)}

theorem mem_callPairs : (callee, caller) ∈ callPairs callers ↔ Calls callers caller callee := by
  unfold callPairs Calls
  simp only [List.mem_flatMap, List.mem_map, Prod.mk.injEq, Prod.exists]
  constructor
  · rintro ⟨_, names, entry, _, member, rfl, rfl⟩
    exact ⟨names, entry, member⟩
  · rintro ⟨names, entry, member⟩
    exact ⟨callee, names, entry, caller, member, rfl, rfl⟩

theorem passLines_eq : passLines callers lines = passAlong (callPairs callers) lines := by
  simp [passLines, passAlong, callPairs, List.foldl_flatMap, List.foldl_map]

/-- The names of the routines that are called by routines. -/
def callees (callers : Table (List String)) : Finset String := (callers.map Prod.fst).toFinset

theorem mem_callees (calls : Calls callers caller callee) : callee ∈ callees callers := by
  obtain ⟨names, entry, -⟩ := calls
  exact List.mem_toFinset.mpr (List.mem_map.mpr ⟨_, entry, rfl⟩)

/-- A pass that changes something gives some callee a lesser line. -/
theorem ChangedBy.lesser (changed : ChangedBy callers next lines) :
    ∃ callee ∈ callees callers, lineOf next callee < lineOf lines callee := by
  obtain ⟨order, perm, rfl, moved⟩ := changed
  have unstable := mt passAlong_eq_self.mpr moved
  push Not at unstable
  obtain ⟨callee, caller, member, later⟩ := unstable
  refine ⟨callee, mem_callees (mem_callPairs.mp (perm.mem_iff.mp member)), ?_⟩
  exact lt_of_le_of_lt (lineOf_passAlong_le_caller member) later

theorem ChangedBy.le (changed : ChangedBy callers next lines) (routine : String) :
    lineOf next routine ≤ lineOf lines routine := by
  obtain ⟨order, -, rfl, -⟩ := changed
  exact lineOf_passAlong_le

/-- Lines cannot be passed on for ever: there are only so many callees, and no line gets less for ever. -/
theorem changedBy_wellFounded (callers : Table (List String)) : WellFounded (ChangedBy callers) := by
  let view (lines : Table Nat) (callee : callees callers) : ℕ∞ := lineOf lines callee
  refine Subrelation.wf (r := InvImage (· < ·) view) ?_ (InvImage.wf view wellFounded_lt)
  intro next lines changed
  obtain ⟨callee, known, less⟩ := changed.lesser
  exact Pi.lt_def.mpr ⟨fun other => changed.le other, ⟨callee, known⟩, less⟩

end Calls

section Least

/-- The least line on which the main program calls a routine that leads to the given one. -/
noncomputable def leastLine (firstCalls : Table Nat) (callers : Table (List String)) (routine : String) : ℕ∞ :=
  sInf (lineOf firstCalls '' {first | Leads callers first routine})

variable {firstCalls lines next result : Table Nat} {callers : Table (List String)}
  {routine callee caller first : String} {order : List (String × String)}

theorem leastLine_le (leads : Leads callers first routine) :
    leastLine firstCalls callers routine ≤ lineOf firstCalls first := sInf_le ⟨first, leads, rfl⟩

theorem leastLine_attained (firstCalls : Table Nat) (callers : Table (List String)) (routine : String) :
    ∃ first, Leads callers first routine ∧ lineOf firstCalls first = leastLine firstCalls callers routine :=
  csInf_mem (Set.Nonempty.image _ ⟨routine, .refl⟩)

theorem leastLine_mono (leads : Leads callers caller routine) :
    leastLine firstCalls callers routine ≤ leastLine firstCalls callers caller := by
  obtain ⟨first, before, attained⟩ := leastLine_attained firstCalls callers caller
  exact attained ▸ leastLine_le (before.trans leads)

theorem leastLine_eq_coe {line : Nat} : leastLine firstCalls callers routine = line ↔
    IsLeast {l | ReachedOn firstCalls callers routine l} line := by
  constructor
  · intro least
    constructor
    · obtain ⟨first, leads, attained⟩ := leastLine_attained firstCalls callers routine
      exact ⟨first, lineOf_eq_coe.mp (attained.trans least), leads⟩
    · rintro other ⟨first, called, leads⟩
      have below : leastLine firstCalls callers routine ≤ lineOf firstCalls first := leastLine_le leads
      rwa [least, lineOf_eq_coe.mpr called, Nat.cast_le] at below
  · rintro ⟨⟨first, called, leads⟩, least⟩
    refine le_antisymm ((leastLine_le leads).trans_eq (lineOf_eq_coe.mpr called)) ?_
    obtain ⟨other, before, attained⟩ := leastLine_attained firstCalls callers routine
    rw [← attained]
    cases found : firstCalls.get? other with
    | none => exact le_top.trans_eq (lineOf_eq_top.mpr found).symm
    | some l => exact (Nat.cast_le.mpr (least ⟨other, found, before⟩)).trans_eq (lineOf_eq_coe.mpr found).symm

theorem leastLine_eq_top : leastLine firstCalls callers routine = ⊤ ↔
    ∀ line, ¬ReachedOn firstCalls callers routine line := by
  constructor
  · rintro least line ⟨first, called, leads⟩
    have below : leastLine firstCalls callers routine ≤ lineOf firstCalls first := leastLine_le leads
    rw [least, lineOf_eq_coe.mpr called] at below
    exact absurd below (by simp)
  · intro never
    obtain ⟨first, leads, attained⟩ := leastLine_attained firstCalls callers routine
    rw [← attained, lineOf_eq_top]
    cases found : firstCalls.get? first with
    | none => rfl
    | some line => exact absurd ⟨first, found, leads⟩ (never line)

/-- Lines on their way from those of the first calls to the least ones. -/
structure Relayed (firstCalls : Table Nat) (callers : Table (List String)) (lines : Table Nat) : Prop where
  least : ∀ routine, leastLine firstCalls callers routine ≤ lineOf lines routine
  first : ∀ routine, lineOf lines routine ≤ lineOf firstCalls routine

theorem relayed_first : Relayed firstCalls callers firstCalls :=
  ⟨fun _ => leastLine_le .refl, fun _ => le_rfl⟩

theorem Relayed.passLine (relayed : Relayed firstCalls callers lines) (calls : Calls callers caller callee) :
    Relayed firstCalls callers (passLine lines callee caller) := by
  constructor
  · intro routine
    rw [lineOf_passLine]
    split
    next same =>
      have before := (leastLine_mono (.single calls)).trans (relayed.least caller)
      rw [same]
      exact le_min (relayed.least callee) before
    next => exact relayed.least routine
  · exact fun routine => lineOf_passLine_le.trans (relayed.first routine)

theorem Relayed.passAlong (relayed : Relayed firstCalls callers lines)
    (calls : ∀ callee caller, (callee, caller) ∈ order → Calls callers caller callee) :
    Relayed firstCalls callers (passAlong order lines) := by
  induction order generalizing lines with
  | nil => exact relayed
  | cons call rest ih =>
    refine ih (relayed.passLine (calls _ _ List.mem_cons_self)) ?_
    exact fun callee caller member => calls callee caller (List.mem_cons_of_mem _ member)

theorem Relayed.pass (relayed : Relayed firstCalls callers lines) (perm : order.Perm (callPairs callers)) :
    Relayed firstCalls callers (Pseudocode.passAlong order lines) :=
  relayed.passAlong fun _ _ member => mem_callPairs.mp (perm.mem_iff.mp member)

/-- Lines that no call has to pass on any more are the least ones. -/
theorem Relayed.eq_least (relayed : Relayed firstCalls callers lines)
    (stable : ∀ caller callee, Calls callers caller callee → lineOf lines callee ≤ lineOf lines caller)
    (routine : String) : lineOf lines routine = leastLine firstCalls callers routine := by
  refine le_antisymm ?_ (relayed.least routine)
  obtain ⟨first, leads, attained⟩ := leastLine_attained firstCalls callers routine
  rw [← attained]
  clear attained
  induction leads with
  | refl => exact relayed.first first
  | tail _ calls ih => exact (stable _ _ calls).trans ih

/-- However the lines were passed on, in the end they are the least ones. -/
theorem Relays.eq_least (relays : Relays callers lines result) (relayed : Relayed firstCalls callers lines)
    (routine : String) : lineOf result routine = leastLine firstCalls callers routine := by
  induction relays with
  | stop perm same =>
    refine relayed.eq_least (fun caller callee calls => ?_) routine
    exact passAlong_eq_self.mp same _ _ (perm.mem_iff.mpr (mem_callPairs.mpr calls))
  | again changed _ ih =>
    obtain ⟨order, perm, rfl, -⟩ := changed
    exact ih (relayed.pass perm)

end Least

section Rounds

variable {firstCalls lines result : Table Nat} {callers : Table (List String)} {routine : String}

/-- The callees that do not have their least line yet. -/
noncomputable def unsettled (firstCalls : Table Nat) (callers : Table (List String)) (lines : Table Nat) :
    Finset String :=
  {callee ∈ callees callers | lineOf lines callee ≠ leastLine firstCalls callers callee}

theorem Relayed.settled (relayed : Relayed firstCalls callers lines) (none : unsettled firstCalls callers lines = ∅)
    (routine : String) : lineOf lines routine = leastLine firstCalls callers routine := by
  by_cases known : routine ∈ callees callers
  · by_contra late
    have member : routine ∈ unsettled firstCalls callers lines := Finset.mem_filter.mpr ⟨known, late⟩
    rw [none] at member
    exact absurd member (Finset.notMem_empty routine)
  · refine le_antisymm ?_ (relayed.least routine)
    obtain ⟨first, leads, attained⟩ := leastLine_attained firstCalls callers routine
    rw [← attained]
    cases leads with
    | refl => exact relayed.first routine
    | tail _ calls => exact absurd (mem_callees calls) known

/-- On the way from a caller in time to a routine that is late, some call comes from one in time to a callee
that is late. -/
theorem exists_late_call {line : ℕ∞} {first : String} (leads : Leads callers first routine)
    (early : lineOf lines first ≤ line) (late : line < lineOf lines routine) :
    ∃ caller callee, Leads callers first caller ∧ Calls callers caller callee ∧ Leads callers callee routine ∧
      lineOf lines caller ≤ line ∧ line < lineOf lines callee := by
  induction leads with
  | refl => exact absurd late (not_lt.mpr early)
  | @tail middle last before calls ih =>
    by_cases inTime : lineOf lines middle ≤ line
    · exact ⟨middle, last, before, calls, .refl, inTime, late⟩
    · obtain ⟨caller, callee, start, call, rest, known, missed⟩ := ih (not_le.mp inTime)
      exact ⟨caller, callee, start, call, rest.tail calls, known, missed⟩

theorem Relayed.unsettled_subset (relayed : Relayed firstCalls callers lines) :
    unsettled firstCalls callers (passLines callers lines) ⊆ unsettled firstCalls callers lines := by
  rw [passLines_eq]
  have after := relayed.pass (List.Perm.refl (callPairs callers))
  intro callee member
  obtain ⟨known, late⟩ := Finset.mem_filter.mp member
  refine Finset.mem_filter.mpr ⟨known, fun settled => late ?_⟩
  exact le_antisymm (lineOf_passAlong_le.trans_eq settled) (after.least callee)

/-- Every pass settles one callee more. -/
theorem Relayed.unsettled_ssubset (relayed : Relayed firstCalls callers lines)
    (some : (unsettled firstCalls callers lines).Nonempty) :
    unsettled firstCalls callers (passLines callers lines) ⊂ unsettled firstCalls callers lines := by
  have after := relayed.pass (List.Perm.refl (callPairs callers))
  obtain ⟨routine, member⟩ := some
  have late := lt_of_le_of_ne (relayed.least routine) (Finset.mem_filter.mp member).2.symm
  obtain ⟨first, leads, attained⟩ := leastLine_attained firstCalls callers routine
  have early := (relayed.first first).trans_eq attained
  obtain ⟨caller, callee, start, calls, rest, inTime, missed⟩ := exists_late_call leads early late
  -- The call lies on a best way to the routine, so its callee has the same least line as the routine.
  have same : leastLine firstCalls callers callee = leastLine firstCalls callers routine := by
    refine le_antisymm ?_ (leastLine_mono rest)
    exact (leastLine_le (start.tail calls)).trans_eq attained
  have settled : lineOf (passLines callers lines) callee = leastLine firstCalls callers callee := by
    rw [passLines_eq]
    refine le_antisymm ?_ (after.least callee)
    exact ((lineOf_passAlong_le_caller (mem_callPairs.mpr calls)).trans inTime).trans_eq same.symm
  refine (Finset.ssubset_iff_of_subset relayed.unsettled_subset).mpr ⟨callee, ?_, ?_⟩
  · exact Finset.mem_filter.mpr ⟨mem_callees calls, fun settledBefore => missed.ne (same ▸ settledBefore.symm)⟩
  · exact fun unsettledAfter => (Finset.mem_filter.mp unsettledAfter).2 settled

theorem relayed_repeat (firstCalls : Table Nat) (callers : Table (List String)) (n : Nat) :
    Relayed firstCalls callers (n.repeat (passLines callers) firstCalls) := by
  induction n with
  | zero => exact relayed_first
  | succ n ih =>
    show Relayed firstCalls callers (passLines callers _)
    rw [passLines_eq]
    exact ih.pass (List.Perm.refl _)

theorem card_unsettled_le (firstCalls : Table Nat) (callers : Table (List String)) (n : Nat) :
    (unsettled firstCalls callers (n.repeat (passLines callers) firstCalls)).card ≤ callers.length - n := by
  induction n with
  | zero =>
    calc (unsettled firstCalls callers firstCalls).card ≤ (callees callers).card :=
          Finset.card_le_card (Finset.filter_subset _ _)
      _ ≤ (callers.map Prod.fst).length := List.toFinset_card_le _
      _ = callers.length - 0 := by simp
  | succ n ih =>
    rcases (unsettled firstCalls callers (n.repeat (passLines callers) firstCalls)).eq_empty_or_nonempty
      with none | some
    · have still := (relayed_repeat firstCalls callers n).unsettled_subset
      rw [none, Finset.subset_empty] at still
      show (unsettled firstCalls callers (passLines callers _)).card ≤ _
      rw [still, Finset.card_empty]
      exact Nat.zero_le _
    · have fewer := Finset.card_lt_card ((relayed_repeat firstCalls callers n).unsettled_ssubset some)
      show (unsettled firstCalls callers (passLines callers _)).card ≤ _
      omega

/-- Passing lines on any number of times and then as often as it takes. -/
theorem relays_repeat (n : Nat) (relays : Relays callers (n.repeat (passLines callers) lines) result) :
    Relays callers lines result := by
  induction n with
  | zero => exact relays
  | succ n ih =>
    apply ih
    by_cases same : passLines callers (n.repeat (passLines callers) lines) = n.repeat (passLines callers) lines
    · exact same ▸ relays
    · exact .again ⟨_, .refl _, passLines_eq, same⟩ relays

/-- As many passes as there are callees are enough. -/
theorem relays_firstLines (firstCalls : Table Nat) (callers : Table (List String)) :
    Relays callers firstCalls (firstLines firstCalls callers) := by
  have none : unsettled firstCalls callers (firstLines firstCalls callers) = ∅ := by
    have few := card_unsettled_le firstCalls callers callers.length
    rw [Nat.sub_self] at few
    exact Finset.card_eq_zero.mp (Nat.le_zero.mp few)
  have settled := (relayed_repeat firstCalls callers callers.length).settled none
  refine relays_repeat callers.length (.stop (.refl _) (passAlong_eq_self.mpr fun callee caller member => ?_))
  rw [settled, settled]
  exact leastLine_mono (.single (mem_callPairs.mp member))

end Rounds

namespace Check

/-- The reports about global names that are read by routines and declared after their first lines. -/
def lateReports (lines : Table Nat) (globalReads : Table (Table GlobalRead)) : List Report :=
  globalReads.flatMap fun (routine, reads) =>
    match lines.get? routine with
    | none => []
    | some callLine => reads.flatMap fun (name, read) =>
      if callLine < read.declaredLine then [⟨read.position, .lateGlobal name read.declaredLine routine callLine⟩]
      else []

theorem reportLateGlobals_eq (s : CheckState) :
    reportLateGlobals s =
      .ok ⟨⟩ (s.reporting (lateReports (firstLines s.firstCalls s.callers) s.globalReads)) := by
  refine issues_forM (fun (routine, reads) => ?_) s.globalReads s
  dsimp only
  cases (firstLines s.firstCalls s.callers).get? routine with
  | none => exact issues_pure
  | some callLine =>
    exact issues_forM (fun (name, read) => issues_ite (issues_report _ _)) reads

theorem mem_lateReports {lines : Table Nat} {globalReads : Table (Table GlobalRead)} {r : Report} :
    r ∈ lateReports lines globalReads ↔ ∃ routine reads name read line, (routine, reads) ∈ globalReads ∧
      (name, read) ∈ reads ∧ lines.get? routine = some line ∧ line < read.declaredLine ∧
      r = ⟨read.position, .lateGlobal name read.declaredLine routine line⟩ := by
  simp only [lateReports, List.mem_flatMap, Prod.exists]
  constructor
  · rintro ⟨routine, reads, entry, reported⟩
    cases found : lines.get? routine with
    | none => simp [found] at reported
    | some line =>
      simp only [found, List.mem_flatMap, Prod.exists] at reported
      obtain ⟨name, read, member, reported⟩ := reported
      split at reported
      next late => exact ⟨routine, reads, name, read, line, entry, member, found, late, List.mem_singleton.mp reported⟩
      next => cases reported
  · rintro ⟨routine, reads, name, read, line, entry, member, found, late, rfl⟩
    refine ⟨routine, reads, entry, ?_⟩
    simp only [found, List.mem_flatMap, Prod.exists]
    exact ⟨name, read, member, by simp [late]⟩

end Check

/-- However lines are passed on, in whatever order of the calls, it comes to an end, and then a routine has the
least line on which the main program calls a routine that leads to it, if there is one. The lines that the check
goes by are such an end. It reports a global name for a routine just if the routine reads the name and the name
is declared after the least line. -/
theorem late_globals_exact (firstCalls : Table Nat) (callers : Table (List String)) :
    WellFounded (ChangedBy callers) ∧
    (∀ result, Relays callers firstCalls result → ∀ routine,
      (∀ line, result.get? routine = some line ↔ IsLeast {l | ReachedOn firstCalls callers routine l} line) ∧
      (result.get? routine = none ↔ ∀ line, ¬ReachedOn firstCalls callers routine line)) ∧
    Relays callers firstCalls (firstLines firstCalls callers) ∧
    ∀ s : CheckState, s.firstCalls = firstCalls → s.callers = callers → ∃ more,
      Check.reportLateGlobals s = .ok ⟨⟩ (s.reporting more) ∧
      (∀ r ∈ more, r.finding.code = .possibleUndeclaredVariable ∧ r.finding.severity = .warning) ∧
      ∀ r, r ∈ more ↔ ∃ routine reads name read line, (routine, reads) ∈ s.globalReads ∧ (name, read) ∈ reads ∧
        IsLeast {l | ReachedOn firstCalls callers routine l} line ∧ line < read.declaredLine ∧
        r = ⟨read.position, .lateGlobal name read.declaredLine routine line⟩ := by
  have ends : ∀ result, Relays callers firstCalls result → ∀ routine,
      (∀ line, result.get? routine = some line ↔ IsLeast {l | ReachedOn firstCalls callers routine l} line) ∧
      (result.get? routine = none ↔ ∀ line, ¬ReachedOn firstCalls callers routine line) := by
    intro result relays routine
    have least : lineOf result routine = leastLine firstCalls callers routine := relays.eq_least relayed_first routine
    constructor
    · intro line
      rw [← lineOf_eq_coe, least, leastLine_eq_coe]
    · rw [← lineOf_eq_top, least, leastLine_eq_top]
  refine ⟨changedBy_wellFounded callers, ends, relays_firstLines firstCalls callers, ?_⟩
  rintro s rfl rfl
  refine ⟨_, Check.reportLateGlobals_eq s, ?_, ?_⟩
  · intro r member
    obtain ⟨routine, reads, name, read, line, -, -, -, -, rfl⟩ := Check.mem_lateReports.mp member
    exact ⟨rfl, rfl⟩
  · intro r
    rw [Check.mem_lateReports]
    simp only [(ends _ (relays_firstLines s.firstCalls s.callers) _).1]

/-- Two routines that call each other, one of which calls a third one that reads a global name. -/
def mutualCalls : CheckState :=
  { CheckState.initial with
    firstCalls := [("odd", 5), ("even", 9)]
    callers := [("even", ["odd"]), ("odd", ["even"]), ("show", ["even"])]
    globalReads := [("show", [("total", ⟨7, ⟨2, 3⟩⟩)])] }

/-- The call on line 5 leads to the third routine around the cycle, before the name is declared on line 7. -/
theorem mutualCalls_late :
    (firstLines mutualCalls.firstCalls mutualCalls.callers).get? "show" = some 5 ∧
    ∃ more, Check.reportLateGlobals mutualCalls = .ok ⟨⟩ (mutualCalls.reporting more) ∧
      ⟨⟨2, 3⟩, .lateGlobal "total" 7 "show" 5⟩ ∈ more := by
  obtain ⟨-, ends, relays, reports⟩ := late_globals_exact mutualCalls.firstCalls mutualCalls.callers
  have first : (firstLines mutualCalls.firstCalls mutualCalls.callers).get? "show" = some 5 := by decide
  have least := ((ends _ relays "show").1 5).mp first
  obtain ⟨more, reported, -, exactly⟩ := reports mutualCalls rfl rfl
  refine ⟨first, more, reported, (exactly _).mpr ?_⟩
  exact ⟨"show", _, "total", ⟨7, ⟨2, 3⟩⟩, 5, .head _, .head _, least, by decide, rfl⟩

end Pseudocode
