import Pseudocode.Proofs.LabelKeys
import Pseudocode.Proofs.Reported
import Pseudocode.Trace

/-! Labels of a CASE statement that are reported as duplicates are dead. A check goes through the labels in the
order in which a run tests them, so what is earlier for the one is earlier for the other. A label is reported
for an earlier one with the same key, and a run that comes to it has tested that one. -/
namespace Pseudocode

/-- The labels of some branches in their order. -/
def labelsOf (branches : List (Branch Stmt)) : List Expr := branches.flatMap Branch.labels

/-- A place of a label in the branches of a CASE statement. -/
structure LabelPlace where
  before : List (Branch Stmt)
  earlier : List Expr
  label : Expr
  later : List Expr
  body : List Stmt
  line : Nat
  after : List (Branch Stmt)

namespace LabelPlace

def branches (p : LabelPlace) : List (Branch Stmt) :=
  p.before ++ ⟨p.earlier ++ p.label :: p.later, p.body, p.line⟩ :: p.after

/-- The branches up to the place, without the label. -/
def above (p : LabelPlace) : List (Branch Stmt) := p.before ++ [⟨p.earlier, [], p.line⟩]

/-- The branches up to the place, with the label as the last. -/
def through (p : LabelPlace) : List (Branch Stmt) := p.before ++ [⟨p.earlier ++ [p.label], [], p.line⟩]

/-- A check that goes on through the label reports a duplicate that it has not reported above. -/
def Flagged (limit : Int) (selector : Inferred) (s : CheckState) (p : LabelPlace) : Prop :=
  ∃ t u, Check.checkBranches limit selector [] p.above s = .ok ⟨⟩ t ∧
    Check.checkBranches limit selector [] p.through s = .ok ⟨⟩ u ∧
    ∃ r ∈ u.reports.toList.drop t.reports.size, r.finding.code = .duplicateCaseLabel

/-- A run that has no branch for the selector above the label has one through it. -/
def Chosen (ctx : RunContext) (enter : Enter) (inRoutine : Bool) (line : Nat) (v : Value) (s : RunState)
    (p : LabelPlace) : Prop :=
  Run.execBranches ctx enter inRoutine line v p.above s = .ok none s ∧
    Run.execBranches ctx enter inRoutine line v p.through s = .ok (some .normal) s

theorem labelsOf_above (p : LabelPlace) : labelsOf p.above = labelsOf p.before ++ p.earlier := by
  simp [labelsOf, above]

theorem labelsOf_through (p : LabelPlace) : labelsOf p.through = labelsOf p.above ++ [p.label] := by
  simp [labelsOf, above, through]

theorem labelsOf_branches (p : LabelPlace) :
    labelsOf p.branches = labelsOf p.through ++ (p.later ++ labelsOf p.after) := by
  simp [labelsOf, branches, through]

end LabelPlace

/-- All labels are literals or ranges of literals. -/
def Known (labels : List Expr) : Prop := ∀ label ∈ labels, ∃ key, label.labelKey? = some key

theorem Known.append {first second : List Expr} : Known (first ++ second) ↔ Known first ∧ Known second :=
  List.forall_mem_append

theorem Known.cons {label : Expr} {labels : List Expr} :
    Known (label :: labels) ↔ (∃ key, label.labelKey? = some key) ∧ Known labels := List.forall_mem_cons

/-- What a check knows of a literal. -/
def Inferred.ofLiteral (v : Literal) : Inferred := { type := some (Value.ofLiteral v).type, literal := some v }

namespace Check

/-- The keys known after some labels. -/
def keysAfter (line : Nat) : List Expr → List (LabelKey × Nat) → List (LabelKey × Nat)
  | [], seen => seen
  | label :: rest, seen =>
    match label.labelKey? with
    | none => keysAfter line rest seen
    | some key =>
      match seen.find? fun (other, _) => other.same key with
      | some _ => keysAfter line rest seen
      | none => keysAfter line rest (seen ++ [(key, line)])

/-- The keys known after some branches. -/
def keysAfterAll (branches : List (Branch Stmt)) (seen : List (LabelKey × Nat)) : List (LabelKey × Nat) :=
  branches.foldl (fun seen branch => keysAfter branch.line branch.labels seen) seen

theorem mem_keysAfter (found : known ∈ keysAfter line labels seen) :
    known ∈ seen ∨ ∃ label ∈ labels, label.labelKey? = some known.1 := by
  induction labels generalizing seen with
  | nil => exact .inl found
  | cons label rest ih =>
    have later (there : known ∈ seen ∨ ∃ label ∈ rest, label.labelKey? = some known.1) :
        known ∈ seen ∨ ∃ other ∈ label :: rest, other.labelKey? = some known.1 := by
      refine there.imp_right ?_
      rintro ⟨other, member, key⟩
      exact ⟨other, .tail _ member, key⟩
    rw [keysAfter] at found
    split at found
    · exact later (ih found)
    next key known' =>
      split at found
      · exact later (ih found)
      · rcases ih found with there | there
        · rcases List.mem_append.mp there with old | new
          · exact .inl old
          · obtain rfl := List.mem_singleton.mp new
            exact .inr ⟨label, .head _, known'⟩
        · exact later (.inr there)

theorem mem_keysAfterAll (found : known ∈ keysAfterAll branches seen) :
    known ∈ seen ∨ ∃ label ∈ labelsOf branches, label.labelKey? = some known.1 := by
  induction branches generalizing seen with
  | nil => exact .inl found
  | cons branch branches ih =>
    have split : labelsOf (branch :: branches) = branch.labels ++ labelsOf branches := rfl
    rw [split]
    rcases ih found with there | ⟨label, member, key⟩
    · rcases mem_keysAfter there with old | ⟨label, member, key⟩
      · exact .inl old
      · exact .inr ⟨label, List.mem_append_left _ member, key⟩
    · exact .inr ⟨label, List.mem_append_right _ member, key⟩

/-- No report is about a duplicate label. -/
def Silent (reports : List Report) : Prop := ∀ r ∈ reports, r.finding.code ≠ .duplicateCaseLabel

theorem labelType_silent (place : Position) (label selector : Inferred) :
    ∃ more, Silent more ∧ Issues (checkLabelType place label selector) more := by
  have silent : Silent [] := List.forall_mem_nil _
  unfold checkLabelType
  split
  next l s _ _ =>
    split
    · refine ⟨_, List.forall_mem_singleton.mpr ?_, issues_report place (.labelType l s)⟩
      intro same
      cases same
    · exact ⟨[], silent, issues_pure⟩
  · exact ⟨[], silent, issues_pure⟩

/-- The check of a known label answers its key and reports types at most. -/
theorem checkLabel_known (known : label.labelKey? = some key) (selector : Inferred) :
    ∃ more, Silent more ∧ ∀ s, checkLabel selector label s = .ok (some key) (s.reporting more) := by
  unfold Expr.labelKey? at known
  split at known
  next place value =>
    cases known
    obtain ⟨more, silent, issues⟩ := labelType_silent place (.ofLiteral value) selector
    refine ⟨more, silent, fun s => ?_⟩
    simp only [checkLabel, infer, pure_bind]
    exact bind_of_ok (issues s)
  next place _ low _ high =>
    cases known
    obtain ⟨first, silent, issues⟩ := labelType_silent place (.ofLiteral low) selector
    obtain ⟨second, silent', issues'⟩ := labelType_silent place (.ofLiteral high) selector
    refine ⟨first ++ second, List.forall_mem_append.mpr ⟨silent, silent'⟩, fun s => ?_⟩
    simp only [checkLabel, infer, pure_bind]
    rw [← CheckState.reporting_append]
    exact (bind_of_ok (issues s)).trans (bind_of_ok (issues' _))
  · cases known

theorem checkLabels_append (selector : Inferred) (line : Nat) (first second : List Expr)
    (seen : List (LabelKey × Nat)) :
    checkLabels selector line (first ++ second) seen =
      checkLabels selector line first seen >>= checkLabels selector line second := by
  induction first generalizing seen with
  | nil => rfl
  | cons label rest ih =>
    rw [List.cons_append, checkLabels, checkLabels, bind_assoc]
    congr 1
    funext key?
    cases key? with
    | none => exact ih seen
    | some key =>
      dsimp only
      split
      · rw [bind_assoc]
        congr 1
        funext _
        exact ih seen
      · exact ih _

/-- The check of known labels ends with their keys. -/
theorem checkLabels_known (known : Known labels) (selector : Inferred) (line : Nat) (seen : List (LabelKey × Nat)) :
    ∃ more, ∀ s, checkLabels selector line labels seen s = .ok (keysAfter line labels seen) (s.reporting more) := by
  induction labels generalizing seen with
  | nil => exact ⟨[], fun s => congrArg _ s.reporting_nil.symm⟩
  | cons label rest ih =>
    obtain ⟨⟨key, found⟩, known⟩ := Known.cons.mp known
    obtain ⟨first, -, checked⟩ := checkLabel_known found selector
    unfold checkLabels keysAfter
    rw [found]
    dsimp only
    cases repeated : seen.find? fun (other, _) => other.same key with
    | none =>
      obtain ⟨more, others⟩ := ih known (seen ++ [(key, line)])
      refine ⟨first ++ more, fun s => ?_⟩
      rw [bind_of_ok (checked s)]
      dsimp only
      rw [repeated, ← CheckState.reporting_append]
      exact others _
    | some other =>
      obtain ⟨more, others⟩ := ih known seen
      let shown := if line = 0 then label.line else line
      refine ⟨first ++ ([⟨⟨shown, label.position.column⟩, .duplicateLabel other.2⟩] ++ more), fun s => ?_⟩
      rw [bind_of_ok (checked s)]
      dsimp only
      rw [repeated, ← CheckState.reporting_append, ← CheckState.reporting_append]
      exact (bind_of_ok (issues_report _ _ _)).trans (others _)

/-- A label with a key of its own is not reported as a duplicate. -/
theorem checkLabels_fresh (known : label.labelKey? = some key)
    (fresh : (seen.find? fun (other, _) => other.same key) = none) (selector : Inferred) (line : Nat) :
    ∃ more, Silent more ∧ ∀ s, ∃ keys,
      checkLabels selector line [label] seen s = .ok keys (s.reporting more) := by
  obtain ⟨more, silent, checked⟩ := checkLabel_known known selector
  refine ⟨more, silent, fun s => ⟨seen ++ [(key, line)], ?_⟩⟩
  rw [checkLabels, bind_of_ok (checked s)]
  dsimp only
  rw [fresh]
  rfl

/-- The check of some branches and of more goes on with the keys of the first. -/
theorem checkBranches_append (known : Known (labelsOf before)) (limit : Int) (selector : Inferred)
    (seen : List (LabelKey × Nat)) (branches : List (Branch Stmt)) :
    checkBranches limit selector seen (before ++ branches) =
      checkBranches limit selector seen before >>= fun _ =>
        checkBranches limit selector (keysAfterAll before seen) branches := by
  induction before generalizing seen with
  | nil => rfl
  | cons branch before ih =>
    obtain ⟨labels, body, line⟩ := branch
    obtain ⟨here, others⟩ := Known.append.mp known
    obtain ⟨more, checked⟩ := checkLabels_known here selector line seen
    funext s
    rw [List.cons_append, checkBranches, checkBranches, bind_assoc, bind_of_ok (checked s),
      bind_of_ok (checked s), bind_assoc, ih others]
    rfl

/-- A branch without a body is checked as its labels. -/
theorem checkBranches_bare (limit : Int) (selector : Inferred) (seen : List (LabelKey × Nat)) (labels : List Expr)
    (line : Nat) :
    checkBranches limit selector seen [⟨labels, [], line⟩] =
      checkLabels selector line labels seen >>= fun _ => pure ⟨⟩ := rfl

/-- A label that is reported as a duplicate has the key of an earlier one. -/
theorem flagged_same {p : LabelPlace} (known : Known (labelsOf p.through)) (flagged : p.Flagged limit selector s) :
    ∃ other ∈ labelsOf p.above, ∃ key key', other.labelKey? = some key ∧ p.label.labelKey? = some key' ∧
      key.same key' = true := by
  obtain ⟨t, u, above, through, r, member, code⟩ := flagged
  rw [p.labelsOf_through, p.labelsOf_above] at known
  obtain ⟨⟨before, earlier⟩, label⟩ := Known.append.mp known |>.imp_left Known.append.mp
  obtain ⟨⟨key, known⟩, -⟩ := Known.cons.mp label
  generalize keys_eq : keysAfter p.line p.earlier (keysAfterAll p.before []) = keys
  obtain ⟨more, checked⟩ := checkLabels_known earlier selector p.line (keysAfterAll p.before [])
  rw [keys_eq] at checked
  rw [LabelPlace.above, checkBranches_append before, checkBranches_bare] at above
  rw [LabelPlace.through, checkBranches_append before, checkBranches_bare, checkLabels_append] at through
  obtain ⟨_, w, bodies, above⟩ := bind_eq_ok.mp above
  obtain ⟨_, w', bodies', through⟩ := bind_eq_ok.mp through
  cases bodies.symm.trans bodies'
  rw [bind_of_ok (checked w)] at above
  rw [bind_assoc, bind_of_ok (checked w)] at through
  cases above
  cases found : keys.find? fun (other, _) => other.same key with
  | some other =>
    have same := List.find?_some found
    have there : ∃ label ∈ labelsOf p.above, label.labelKey? = some other.1 := by
      rw [p.labelsOf_above]
      rcases mem_keysAfter (keys_eq ▸ List.mem_of_find?_eq_some found) with old | ⟨label, member, known⟩
      · rcases mem_keysAfterAll old with none | ⟨label, member, known⟩
        · cases none
        · exact ⟨label, List.mem_append_left _ member, known⟩
      · exact ⟨label, List.mem_append_right _ member, known⟩
    obtain ⟨label, member, known'⟩ := there
    exact ⟨label, member, other.1, key, known', known, same⟩
  | none =>
    -- the label is new, so what is reported at it is no duplicate
    obtain ⟨new, silent, fresh⟩ := checkLabels_fresh known found selector p.line
    obtain ⟨_, fresh⟩ := fresh (w.reporting more)
    rw [bind_of_ok fresh] at through
    cases through
    have part : r ∈ new := by
      generalize w.reporting more = t at member
      simpa [CheckState.reporting] using member
    exact absurd code (silent r part)

/-- The check of all branches goes on from the check up to a label. -/
theorem checkBranches_through {p : LabelPlace} (known : Known (labelsOf p.through)) (limit : Int)
    (selector : Inferred) : ∃ rest : Check Unit, checkBranches limit selector [] p.branches =
      checkBranches limit selector [] p.through >>= fun _ => rest := by
  rw [p.labelsOf_through, p.labelsOf_above] at known
  obtain ⟨before, row⟩ := Known.append.mp (List.append_assoc .. ▸ known)
  obtain ⟨more, checked⟩ := checkLabels_known row selector p.line (keysAfterAll p.before [])
  let keys := keysAfter p.line (p.earlier ++ [p.label]) (keysAfterAll p.before [])
  refine ⟨checkLabels selector p.line p.later keys >>= fun seen =>
    checkBlock limit .live p.body >>= fun _ => checkBranches limit selector seen p.after, ?_⟩
  have apart : p.earlier ++ p.label :: p.later = (p.earlier ++ [p.label]) ++ p.later := by simp
  rw [LabelPlace.branches, LabelPlace.through, checkBranches_append before, checkBranches_append before,
    checkBranches_bare, bind_assoc, checkBranches, apart, checkLabels_append]
  congr 1
  funext _ s
  rw [bind_assoc, bind_assoc, bind_of_ok (checked s), bind_of_ok (checked s), pure_bind]

end Check

namespace Run

/-- The label has a key, and the test of the key answers a value so. -/
def Tests (v : Value) (label : Expr) (answer : Except RunFault Bool) : Prop :=
  ∃ key, label.labelKey? = some key ∧ key.takes v = answer

variable {v : Value}

/-- All labels let the value pass by. -/
def Passes (v : Value) (labels : List Expr) : Prop := ∀ label ∈ labels, Tests v label (.ok false)

theorem Tests.unique (first : Tests v label answer) (second : Tests v label answer') : answer = answer' := by
  obtain ⟨key, found, rfl⟩ := first
  obtain ⟨key', found', rfl⟩ := second
  cases found.symm.trans found'
  rfl

section Search

variable (ctx : RunContext) (enter : Enter) (inRoutine : Bool) (line : Nat) (s : RunState)

/-- The test of a known label is the test of its key. -/
theorem labelMatches_known (known : label.labelKey? = some key) :
    labelMatches ctx enter line v label s =
      match key.takes v with
      | .ok taken => .ok taken s
      | .error fault => .error (.fault line fault) s := by
  unfold Expr.labelKey? at known
  split at known
  next place value =>
    cases known
    simp only [labelMatches, eval, pure_bind, LabelKey.takes]
    cases compareValues .equal v (.ofLiteral value) <;> rfl
  next place _ low _ high =>
    cases known
    simp only [labelMatches, eval, pure_bind, LabelKey.takes]
    rcases compareValues .greaterEqual v (.ofLiteral low) with fault | _ | _
    · rfl
    · rfl
    · cases compareValues .lessEqual v (.ofLiteral high) <;> rfl
  · cases known

/-- Known labels are tested in their order up to the first that does not let the value pass by. -/
theorem anyLabelMatches_known (known : Known labels) :
    (anyLabelMatches ctx enter line v labels s = .ok false s ∧ Passes v labels) ∨
    (anyLabelMatches ctx enter line v labels s = .ok true s ∧ ∃ earlier label later,
      labels = earlier ++ label :: later ∧ Passes v earlier ∧ Tests v label (.ok true)) ∨
    ∃ fault, anyLabelMatches ctx enter line v labels s = .error (.fault line fault) s ∧
      ∃ label ∈ labels, Tests v label (.error fault) := by
  induction labels with
  | nil => exact .inl ⟨rfl, List.forall_mem_nil _⟩
  | cons label rest ih =>
    obtain ⟨⟨key, found⟩, known⟩ := Known.cons.mp known
    have tested := labelMatches_known (v := v) ctx enter line s found
    rw [anyLabelMatches]
    rcases takes : key.takes v with fault | _ | _
    · rw [takes] at tested
      exact .inr (.inr ⟨fault, bind_of_error tested, label, .head _, key, found, takes⟩)
    · rw [takes] at tested
      have missed : Tests v label (.ok false) := ⟨key, found, takes⟩
      rw [bind_of_ok tested]
      obtain ⟨none, others⟩ | ⟨some, earlier, hit, later, rfl, others, taken⟩ |
        ⟨fault, failed, other, member, refused⟩ := ih known
      · exact .inl ⟨none, List.forall_mem_cons.mpr ⟨missed, others⟩⟩
      · have missed' : Passes v (label :: earlier) := List.forall_mem_cons.mpr ⟨missed, others⟩
        exact .inr (.inl ⟨some, label :: earlier, hit, later, rfl, missed', taken⟩)
      · exact .inr (.inr ⟨fault, failed, other, .tail _ member, refused⟩)
    · rw [takes] at tested
      rw [bind_of_ok tested]
      exact .inr (.inl ⟨rfl, [], label, rest, rfl, List.forall_mem_nil _, key, found, takes⟩)

/-- The label is the first that does not let the value pass by, and it takes the value. -/
def First (v : Value) (p : LabelPlace) : Prop := Passes v (labelsOf p.above) ∧ Tests v p.label (.ok true)

/-- A run with known labels finds no branch, or goes on with the branch of the first label that takes the value,
or fails at a comparison. -/
theorem execBranches_known (known : Known (labelsOf branches)) :
    (execBranches ctx enter inRoutine line v branches s = .ok none s ∧ Passes v (labelsOf branches)) ∨
    (∃ p : LabelPlace, p.branches = branches ∧ First v p ∧
      execBranches ctx enter inRoutine line v branches s =
        (do return some (← execBlock ctx enter inRoutine p.body) : Run _) s) ∨
    ∃ place fault, execBranches ctx enter inRoutine line v branches s = .error (.fault place fault) s ∧
      ∃ label ∈ labelsOf branches, Tests v label (.error fault) := by
  induction branches with
  | nil => exact .inl ⟨rfl, List.forall_mem_nil _⟩
  | cons branch rest ih =>
    obtain ⟨labels, body, branchLine⟩ := branch
    obtain ⟨here, others⟩ := Known.append.mp known
    have split : labelsOf (⟨labels, body, branchLine⟩ :: rest) = labels ++ labelsOf rest := rfl
    rw [execBranches, split]
    obtain ⟨none, missed⟩ | ⟨some, earlier, hit, later, rfl, missed, taken⟩ |
      ⟨fault, failed, other, member, refused⟩ :=
      anyLabelMatches_known ctx enter (if branchLine = 0 then line else branchLine) s here
    · rw [bind_of_ok none]
      obtain ⟨none', missed'⟩ | ⟨p, rfl, ⟨missed', taken⟩, runs⟩ |
        ⟨place, fault, failed, other, member, refused⟩ := ih others
      · exact .inl ⟨none', List.forall_mem_append.mpr ⟨missed, missed'⟩⟩
      · refine .inr (.inl ⟨{ p with before := ⟨labels, body, branchLine⟩ :: p.before }, rfl, ⟨?_, taken⟩, runs⟩)
        exact List.forall_mem_append.mpr ⟨missed, missed'⟩
      · exact .inr (.inr ⟨place, fault, failed, other, List.mem_append_right _ member, refused⟩)
    · rw [bind_of_ok some]
      refine .inr (.inl ⟨⟨[], earlier, hit, later, body, branchLine, rest⟩, rfl, ⟨?_, taken⟩, rfl⟩)
      rw [LabelPlace.labelsOf_above]
      exact missed
    · exact .inr (.inr ⟨_, fault, bind_of_error failed, other, List.mem_append_left _ member, refused⟩)

theorem execBranches_none_iff (known : Known (labelsOf branches)) :
    execBranches ctx enter inRoutine line v branches s = .ok none s ↔ Passes v (labelsOf branches) := by
  obtain ⟨none, missed⟩ | ⟨p, rfl, ⟨-, taken⟩, runs⟩ | ⟨place, fault, failed, label, member, refused⟩ :=
    execBranches_known ctx enter inRoutine line s known
  · exact iff_of_true none missed
  · refine iff_of_false (fun none => ?_) fun missed => ?_
    · obtain ⟨completion, t, -, same⟩ := bind_eq_ok.mp (runs.symm.trans none)
      cases same
    · exact nomatch taken.unique (missed p.label (by simp [p.labelsOf_branches, p.labelsOf_through]))
  · refine iff_of_false (fun none => ?_) fun missed => nomatch (missed label member).unique refused
    cases failed.symm.trans none

theorem execBranches_through_iff {p : LabelPlace} (known : Known (labelsOf p.through))
    (missed : Passes v (labelsOf p.above)) :
    execBranches ctx enter inRoutine line v p.through s = .ok (some .normal) s ↔ Tests v p.label (.ok true) := by
  have labels := p.labelsOf_through
  have above := p.labelsOf_above
  obtain ⟨none, others⟩ | ⟨q, same, ⟨-, taken⟩, runs⟩ | ⟨place, fault, failed, label, member, refused⟩ :=
    execBranches_known ctx enter inRoutine line s known
  · refine iff_of_false (fun some => ?_) fun hit => nomatch hit.unique (others p.label (by simp [labels]))
    cases none.symm.trans some
  · -- the label that takes the value is missed unless it is the last one
    have place : ⟨q.earlier ++ q.label :: q.later, q.body, q.line⟩ ∈ p.through := by
      simp [← same, LabelPlace.branches]
    rcases List.mem_append.mp place with there | last
    · have member : q.label ∈ labelsOf p.before := List.mem_flatMap.mpr ⟨_, there, by simp⟩
      exact nomatch taken.unique (missed q.label (by simp [above, member]))
    · injection List.mem_singleton.mp last with row body _
      have member : q.label ∈ p.earlier ++ [p.label] := by simp [← row]
      rcases List.mem_append.mp member with there | last
      · exact nomatch taken.unique (missed q.label (by simp [above, there]))
      · rw [body] at runs
        exact iff_of_true runs (List.mem_singleton.mp last ▸ taken)
  · rw [labels] at member
    rcases List.mem_append.mp member with there | last
    · exact nomatch (missed label there).unique refused
    · obtain rfl := List.mem_singleton.mp last
      refine iff_of_false (fun some => ?_) fun hit => nomatch hit.unique refused
      cases failed.symm.trans some

theorem chosen_iff {p : LabelPlace} (known : Known (labelsOf p.through)) :
    p.Chosen ctx enter inRoutine line v s ↔ First v p := by
  have above := (Known.append.mp (p.labelsOf_through ▸ known)).1
  rw [LabelPlace.Chosen, execBranches_none_iff ctx enter inRoutine line s above]
  exact and_congr_right fun missed => execBranches_through_iff ctx enter inRoutine line s known missed

end Search

end Run

section Dead

variable {branches : List (Branch Stmt)} {limit : Int} {selector : Inferred} {found : CheckState}

/-- A label that is reported as a duplicate chooses no branch. Among branches whose labels are literals or ranges
of literals, a check goes on from the check up to any of the labels, and a run has a branch by a label that is
chosen, has none, or fails at a comparison. -/
theorem duplicate_labels_dead (known : Known (labelsOf branches)) :
    (∀ p : LabelPlace, p.branches = branches → p.Flagged limit selector found →
      ¬p.Chosen ctx enter inRoutine line v s) ∧
    (∀ p : LabelPlace, p.branches = branches → ∃ rest : Check Unit,
      Check.checkBranches limit selector [] branches =
        Check.checkBranches limit selector [] p.through >>= fun _ => rest) ∧
    (Run.execBranches ctx enter inRoutine line v branches s = .ok none s ∨
      (∃ p : LabelPlace, p.branches = branches ∧ p.Chosen ctx enter inRoutine line v s ∧
        Run.execBranches ctx enter inRoutine line v branches s =
          (do return some (← Run.execBlock ctx enter inRoutine p.body) : Run _) s) ∨
      ∃ place fault, Run.execBranches ctx enter inRoutine line v branches s = .error (.fault place fault) s ∧
        ∃ label ∈ labelsOf branches, Run.Tests v label (.error fault)) := by
  have upto (p : LabelPlace) (same : p.branches = branches) : Known (labelsOf p.through) := by
    subst same
    exact (Known.append.mp (p.labelsOf_branches ▸ known)).1
  refine ⟨?_, ?_, ?_⟩
  · intro p same flagged chosen
    obtain ⟨other, member, key, key', known', found', same'⟩ := Check.flagged_same (upto p same) flagged
    obtain ⟨missed, hit⟩ := (Run.chosen_iff ctx enter inRoutine line s (upto p same)).mp chosen
    obtain ⟨_, first, passes⟩ := missed other member
    obtain ⟨_, second, takes⟩ := hit
    cases first.symm.trans known'
    cases second.symm.trans found'
    exact LabelKey.not_missed same' takes passes
  · intro p same
    obtain ⟨rest, goes⟩ := Check.checkBranches_through (upto p same) limit selector
    exact ⟨rest, same ▸ goes⟩
  · obtain ⟨none, -⟩ | ⟨p, same, first, runs⟩ | failed :=
      Run.execBranches_known ctx enter inRoutine line s known
    · exact .inl none
    · exact .inr (.inl ⟨p, same, (Run.chosen_iff ctx enter inRoutine line s (upto p same)).mpr first, runs⟩)
    · exact .inr (.inr failed)

/-- The range from 1 to 2 and, below it, the range from TRUE to 2, which a check takes for the same. -/
def twinRanges : LabelPlace where
  before := [⟨[.range ⟨2, 3⟩ (.literal ⟨2, 3⟩ (.integer 1)) (.literal ⟨2, 8⟩ (.integer 2))], [], 2⟩]
  earlier := []
  label := .range ⟨3, 3⟩ (.literal ⟨3, 3⟩ (.boolean true)) (.literal ⟨3, 11⟩ (.integer 2))
  later := []
  body := []
  line := 3
  after := []

theorem twinRanges_dead :
    twinRanges.Flagged 1000 (.of .integer) .initial ∧
      ¬twinRanges.Chosen ⟨{}, {}, []⟩ (Run.enter ⟨{}, {}, []⟩ 100) false 1 (.integer 2) (.initial {}) := by
  have known : Known (labelsOf twinRanges.branches) := by
    intro label member
    rcases List.mem_cons.mp member with rfl | member
    · exact ⟨_, rfl⟩
    · obtain rfl := List.mem_singleton.mp member
      exact ⟨_, rfl⟩
  have flagged : twinRanges.Flagged 1000 (.of .integer) .initial := by
    have above : observed (Check.checkBranches 1000 (.of .integer) [] twinRanges.above) .initial
        (fun _ t => t.reports.size) = some 0 := by decide +kernel
    have through : observed (Check.checkBranches 1000 (.of .integer) [] twinRanges.through) .initial
        (fun _ u => u.reports.toList.map (·.finding.code)) = some [.typeMismatch, .duplicateCaseLabel] := by
      decide +kernel
    obtain ⟨_, t, above, size⟩ := ok_of_observed _ above
    obtain ⟨_, u, through, codes⟩ := ok_of_observed _ through
    have reported : Code.duplicateCaseLabel ∈ u.reports.toList.map (·.finding.code) := codes ▸ .tail _ (.head _)
    obtain ⟨r, member, code⟩ := List.mem_map.mp reported
    exact ⟨t, u, above, through, r, by rwa [size], code⟩
  exact ⟨flagged, (duplicate_labels_dead known).1 twinRanges rfl flagged⟩

end Dead

end Pseudocode
