import Pseudocode.Proofs.EmbeddedExpressions

/-! Statements of a text that stands in a longer one. What is read without errors is complete: no
part of a statement is left out. A block that is not closed would go on into the longer text, but then
the text by itself is reported to lack the end of the block. -/
namespace Pseudocode

mutual

/-- No part of the statement is left out. -/
def Stmt.complete : Stmt → Bool
  | .constant _ _ value => value.isSome
  | .ifThen _ condition thenBranch elseBranch =>
    condition.isSome && blockComplete thenBranch && otherwiseComplete elseBranch
  | .whileDo _ condition body => condition.isSome && blockComplete body
  | .repeatUntil _ body condition => blockComplete body && condition.isSome
  | .forLoop _ counter start stop _ body =>
    counter.isSome && start.isSome && stop.isSome && blockComplete body
  | .caseOf _ selector branches otherwise =>
    selector.isSome && branchesComplete branches && otherwiseComplete otherwise
  | .routine ⟨_, kind, name, _, returns, body⟩ =>
    name.isSome && (kind == .procedure || returns.isSome) && blockComplete body
  | _ => true

def blockComplete : List Stmt → Bool
  | [] => true
  | s :: rest => s.complete && blockComplete rest

def otherwiseComplete : Option (List Stmt) → Bool
  | none => true
  | some block => blockComplete block

def branchesComplete : List (Branch Stmt) → Bool
  | [] => true
  | ⟨_, body, _⟩ :: rest => blockComplete body && branchesComplete rest

end

theorem blockComplete_iff {block : List Stmt} :
    blockComplete block = true ↔ ∀ s ∈ block, s.complete = true := by
  induction block with
  | nil => simp [blockComplete]
  | cons s rest ih => simp [blockComplete, ih]

theorem branchesComplete_append (first rest : List (Branch Stmt)) :
    branchesComplete (first ++ rest) = (branchesComplete first && branchesComplete rest) := by
  induction first with
  | nil => rfl
  | cons b first ih => simp [branchesComplete, ih, Bool.and_assoc]

namespace Embedding

open Parse

variable {E : Embedding} {s s' : Reader} {α β : Type} {rel : α → α → Prop} {cut : Reader → Prop}

/-- The statements that a production returns in the two readings. -/
structure SameBlock (E : Embedding) (a b : List Stmt) : Prop where
  same : b = a.map (Stmt.moved (.down E.above))
  complete : blockComplete a = true

theorem SameBlock.append {first first' rest rest' : List Stmt} (same : E.SameBlock first first')
    (sames : E.SameBlock rest rest') : E.SameBlock (first ++ rest) (first' ++ rest') := by
  refine ⟨by rw [same.same, sames.same, List.map_append], blockComplete_iff.mpr ?_⟩
  exact List.forall_mem_append.mpr ⟨blockComplete_iff.mp same.complete, blockComplete_iff.mp sames.complete⟩

/-- One statement, complete, and the same further down. -/
theorem same_single {stmt stmt' : Stmt} (same : stmt' = stmt.moved (.down E.above))
    (complete : stmt.complete = true) : E.SameBlock [stmt] [stmt'] :=
  ⟨by rw [same]; rfl, by rw [blockComplete, complete]; rfl⟩

section Recovery

variable {m m' : Parse α}

theorem Overflows.recover {rest : SyntaxFault → Parse α} [∀ e, Forward (rest e)]
    (past : E.Overflows m s) : E.Overflows (tryCatch m fun e => record e >>= fun _ => rest e) s := by
  refine ⟨past.1, ?_⟩
  cases early : m s with
  | ok a t => exact (ends_congr ((tryCatch_of_ok early).trans early.symm)).mpr past.2
  | error e t =>
    rw [ends_congr (tryCatch_of_error early)]
    obtain ⟨p, low, rfl⟩ | full := past.2.of_error early
    · obtain ⟨u, recorded, found⟩ := record_found p .tooManyOperators t
      rw [ends_congr (bind_of_ok recorded)]
      exact Overfull.ends ⟨p, low, found⟩
    · exact full.ends

/-- A failure is reported, so a reading without errors has had none. -/
theorem recover_ok [Forward m] {rest : SyntaxFault → Parse α} [∀ e, Forward (rest e)] {t : Reader}
    (legible : s.Legible)
    (ran : (tryCatch m fun e => record e >>= fun _ => rest e : Parse α) s = .ok a t)
    (clean : t.errors = #[]) : m s = .ok a t := by
  cases early : m s with
  | ok b u =>
    rw [tryCatch_of_ok early] at ran
    exact ran
  | error e u =>
    rw [tryCatch_of_error early] at ran
    cases e with
    | reported => cases (Forward.of_error early).2 legible rfl
    | found p error =>
      obtain ⟨v, recorded, found⟩ := record_found p error u
      rw [bind_of_ok recorded] at ran
      rw [(Forward.of_ok ran).clean clean] at found
      exact absurd found (Array.not_mem_empty _)

theorem agrees_recover [Forward m] {rest rest' : SyntaxFault → Parse α} [∀ e, Forward (rest e)]
    [∀ e, Forward (rest' e)] (joins : E.Joins s s') (first : E.Agrees s s' m m' rel cut) :
    E.Agrees s s' (tryCatch m fun e => record e >>= fun _ => rest e)
      (tryCatch m' fun e => record e >>= fun _ => rest' e) rel cut := by
  intro a t ran clean
  have early := recover_ok joins.legible ran clean
  refine (first a t early clean).imp_right (Or.imp Overflows.recover ?_)
  rintro ⟨c, t', early', joins', known⟩
  exact ⟨c, t', tryCatch_of_ok early', joins', known⟩

/-- The headers that are read in the two readings. -/
def SameHeader (rel : α → α → Prop) (a b : Option α) : Prop :=
  ∃ x y, a = some x ∧ b = some y ∧ rel x y

theorem header_agrees [Forward m] (joins : E.Joins s s') (first : E.Agrees s s' m m' rel) :
    E.Agrees s s' (header m) (header m') (SameHeader rel) := by
  rw [header_eq, header_eq]
  exact agrees_recover joins (first.map fun a b known => ⟨a, b, rfl, rfl, known⟩)

theorem orSkip_agrees [Forward m] (joins : E.Joins s s') (first : E.Agrees s s' m m' rel cut) :
    E.Agrees s s' (orSkip m instead) (orSkip m' instead') rel cut := by
  rw [orSkip_eq, orSkip_eq]
  exact agrees_remaining (agrees_recover joins first)

theorem orSkip_ok [Forward m] {t : Reader} (legible : s.Legible) (ran : orSkip m instead s = .ok a t)
    (clean : t.errors = #[]) : m s = .ok a t := by
  rw [orSkip_eq] at ran
  exact recover_ok legible ran clean

/-- Where the first reading records an error nothing is said. -/
theorem agrees_record {next : PUnit → Parse α} [∀ a, Forward (next a)] (place : Position)
    (error : SyntaxError) :
    E.Agrees s s' (record (.found place error) >>= next) m' rel cut := by
  obtain ⟨t, recorded, found⟩ := record_found place error s
  intro a u ran clean
  rw [bind_of_ok recorded] at ran
  rw [(Forward.of_ok ran).clean clean] at found
  exact absurd found (Array.not_mem_empty _)

end Recovery

section Terminators

/-- Words that end a block do not start a statement. -/
theorem inner_of_closes {word : Keyword} (closes : word.closesBlock = true) :
    Inner (.keyword word) := by
  cases word <;> first | decide | cases closes

theorem expectTerminator_agrees (proper : E.Proper) (joins : E.Joins s s') {word : Keyword}
    (closes : word.closesBlock = true) (context : String) (start start' : Token) :
    E.Agrees s s' (expectTerminator word context start) (expectTerminator word context start')
      fun a b => a = true ∧ b = true := by
  unfold expectTerminator acceptWord
  refine agrees_accept joins proper (inner_of_closes closes) (fun t r u u' _ _ joinsU _ _ => ?_) ?_
  · exact agrees_pure joinsU ⟨rfl, rfl⟩
  · refine agrees_of_report ?_
    show _ ≠ _
    simp

/-- At the end of the text an error is reported. -/
def Dead (m : Parse α) : Prop :=
  ∀ s : Reader, s.rest = [] → s.finish.kind = .endOfInput →
    Ends m s (fun _ t => t.errors ≠ #[]) (fun _ _ => True)

theorem Dead.bind {m : Parse α} {next : α → Parse β} [rest : ∀ a, Forward (next a)] (dead : Dead m) :
    Dead (m >>= next) := by
  intro s left ends
  rw [ends_bind]
  refine (dead s left ends).mono (fun a t reported => ?_) fun _ _ _ => trivial
  exact ((rest a).ends t).mono (fun _ u onward clean => reported (onward.clean clean))
    fun _ _ _ => trivial

theorem Dead.discard {m : Parse α} (dead : Dead m) : Dead (discard m) :=
  fun s left ends => ends_discard.mpr (dead s left ends)

theorem dead_accept {next : Bool → Parse α} (inner : kind ≠ .endOfInput) (dead : Dead (next false)) :
    Dead (accept kind >>= next) := by
  intro s left ends
  have other : accept kind s = .ok false s := by
    rw [accept_apply, if_neg]
    rw [Reader.current, left]
    simpa [ends] using inner.symm
  rw [ends_congr (bind_of_ok other)]
  exact dead s left ends

theorem expectTerminator_dead (word : Keyword) (context : String) (start : Token) :
    Dead (expectTerminator word context start) := by
  unfold expectTerminator acceptWord
  refine dead_accept nofun fun s _ _ => ?_
  show _ ≠ _
  simp

/-- A block that ends with the text is reported, so there is none. -/
theorem Agrees.closed {m m' : Parse α} {next next' : α → Parse β} {rel' : β → β → Prop} [Forward m]
    (first : E.Agrees s s' m m' rel E.Cut) (joins : E.Joins s s') [forward : ∀ a, Forward (next a)]
    [∀ b, Forward (next' b)] (dead : ∀ a, Dead (next a))
    (rest : ∀ a b t t', m s = .ok a t → E.Joins t t' → rel a b →
      E.Agrees t t' (next a) (next' b) rel') :
    E.Agrees s s' (m >>= next) (m' >>= next') rel' := by
  intro c u ran clean
  obtain ⟨a, t, early, later⟩ := bind_eq_ok.mp ran
  have onward := Forward.of_ok early
  have clean' := ((forward a).of_ok later).clean clean
  by_cases gone : t.rest = []
  · have ends : t.finish.kind = .endOfInput := by rw [onward.finish, joins.ends]
    exact absurd clean ((dead a t gone ends).of_ok later)
  · have matched := (first a t early clean').resolve_left fun cut => gone cut.1
    exact matched.bind inferInstance fun b t' joins known => rest a b t t' early joins known c u later clean

end Terminators

section Simple

theorem failExpected_agrees (text context : String) (next : α → Parse β) {m' : Parse β}
    {rel : β → β → Prop} : E.Agrees s s' (failExpected text context >>= next) m' rel cut := by
  refine agrees_of_report ?_
  rw [ends_bind]
  exact (failExpected_fails text context s).mono (fun _ _ never => never.elim) fun _ _ _ => trivial

theorem accept_agrees (proper : E.Proper) (joins : E.Joins s s') (inner : Inner kind) :
    E.Agrees s s' (accept kind) (accept kind) Eq := by
  rw [← bind_pure (accept kind)]
  exact agrees_accept joins proper inner (fun t r u u' _ _ joinsU _ _ => agrees_pure joinsU rfl)
    (agrees_pure joins rfl)

theorem acceptAssign_agrees (proper : E.Proper) (joins : E.Joins s s') :
    E.Agrees s s' acceptAssign acceptAssign Eq := by
  unfold acceptAssign acceptSign
  refine agrees_accept joins proper (by decide) (fun t r u u' _ _ joinsU _ _ => ?_) ?_
  · exact agrees_pure joinsU rfl
  · exact accept_agrees proper joins (by decide)

theorem typeName_agrees (joins : E.Joins s s') (context : String) :
    E.Agrees s s' (typeName context) (typeName context) Eq := by
  have read {t : Token} {r : List Token} (rest : s.rest = t :: r) :
      E.Agrees s s' (advance >>= fun t => pure t.lexeme) (advance >>= fun t => pure t.lexeme) Eq :=
    agrees_advance joins rest fun u u' joinsU _ => agrees_pure joinsU rfl
  have fails {m' : Parse String} : E.Agrees s s' (failExpected "type name" context) m' Eq := by
    rw [← bind_pure (failExpected _ _)]
    exact failExpected_agrees _ _ _
  unfold typeName
  refine agrees_current joins (fun done => ?_) fun t r rest holds => ?_
  · rw [joins.ends]
    exact fails
  · rw [Token.kind_down]
    split
    · exact read rest
    · exact read rest
    · exact fails

theorem boundLiteral_agrees (proper : E.Proper) (joins : E.Joins s s') :
    E.Agrees s s' boundLiteral boundLiteral Eq := by
  unfold boundLiteral
  refine (accept_agrees proper joins (by decide)).andThen ?_ ?_ fun negative _ t t' _ joinsT same => ?_
  · intro negative
    refine forward_bind fun token => ?_
    split <;> infer_instance
  · intro negative
    refine forward_bind fun token => ?_
    split <;> infer_instance
  · cases same
    refine agrees_current joinsT (fun done => ?_) fun t r rest holds => ?_
    · rw [joinsT.ends]
      exact agrees_of_error rfl
    · rw [Token.kind_down]
      split
      · exact agrees_skip joinsT rest fun u u' joinsU _ => agrees_pure joinsU rfl
      · exact agrees_of_error rfl

theorem bound_agrees (proper : E.Proper) (joins : E.Joins s s') :
    E.Agrees s s' bound bound Eq := by
  unfold bound acceptSign
  refine (boundLiteral_agrees proper joins).bind fun first _ t t' _ joinsT same => ?_
  cases same
  refine agrees_accept joinsT proper (by decide) (fun _ _ u u' _ _ joinsU _ _ => ?_) ?_
  · refine (boundLiteral_agrees proper joinsU).bind fun last _ v v' _ joinsV same => ?_
    cases same
    exact agrees_pure joinsV rfl
  · exact agrees_pure joinsT rfl

theorem arrayBounds_agrees (proper : E.Proper) (joins : E.Joins s s') :
    E.Agrees s s' arrayBounds arrayBounds Eq := by
  unfold arrayBounds acceptSign
  refine (expectSign_agrees joins _ _ _).bind fun opened opened' t t' _ joinsT _ => ?_
  refine (commaSeparated_agrees proper (bound_agrees proper) joinsT).bind
    fun bounds bounds' u u' _ joinsU same => ?_
  rw [List.forall₂_eq_eq_eq] at same
  cases same
  refine agrees_accept joinsU proper (by decide) (fun _ _ v v' _ _ joinsV _ _ => ?_) ?_
  · exact agrees_pure joinsV rfl
  · exact agrees_of_error rfl

/-- One statement for each name. -/
theorem same_of_names {names names' : List Token} (same : List.Forall₂ E.SameToken names names')
    {make make' : String → Stmt} (known : ∀ name, E.SameBlock [make name] [make' name]) :
    E.SameBlock ((names.map Token.lexeme).map make) ((names'.map Token.lexeme).map make') := by
  induction same with
  | nil => exact ⟨rfl, rfl⟩
  | cons first _ ih =>
    obtain ⟨_, rfl⟩ := first
    exact (known _).append ih

theorem declaration_agrees (proper : E.Proper) (joins : E.Joins s s') {start start' : Token}
    (begun : E.SameToken start start') :
    E.Agrees s s' (declaration start) (declaration start') E.SameBlock := by
  obtain ⟨_, rfl⟩ := begun
  unfold declaration
  refine (expectIdentifier_agrees joins _ _).andThen (fun _ => ?_) (fun _ => ?_) fun first first' t t' _ joinsT same => ?_
  · exact forward_bind fun left => forward_bind fun others => inferInstance
  · exact forward_bind fun left => forward_bind fun others => inferInstance
  refine agrees_remaining ?_
  refine (afterCommas_agrees proper (fun joins => expectIdentifier_agrees joins _ _) joinsT
    (Nat.le_refl _) (Nat.le_refl _)).bind fun others others' u u' _ joinsU sames => ?_
  refine (expectSign_agrees joinsU _ _ _).discard.bind fun _ _ v v' _ joinsV _ => ?_
  refine agrees_accept joinsV proper (by decide) (fun _ _ w w' _ _ joinsW _ _ => ?_) ?_
  · refine (arrayBounds_agrees proper joinsW).bind fun bounds _ x x' _ joinsX same' => ?_
    cases same'
    refine (expectWord_agrees joinsX _ _ _).discard.bind fun _ _ y y' _ joinsY _ => ?_
    refine (typeName_agrees joinsY _).bind fun type _ z z' _ joinsZ same' => ?_
    cases same'
    exact agrees_pure joinsZ (same_of_names (.cons same sames) fun name => same_single rfl rfl)
  · refine (typeName_agrees joinsV _).bind fun type _ w w' _ joinsW same' => ?_
    cases same'
    exact agrees_pure joinsW (same_of_names (.cons same sames) fun name => same_single rfl rfl)

theorem constantDeclaration_agrees (proper : E.Proper) (joins : E.Joins s s') (room : Nat)
    {start start' : Token} (begun : E.SameToken start start') :
    E.Agrees s s' (constantDeclaration room start) (constantDeclaration room start') E.SameBlock := by
  obtain ⟨_, rfl⟩ := begun
  unfold constantDeclaration
  refine (expectIdentifier_agrees joins _ _).bind fun name _ t t' _ joinsT same => ?_
  obtain ⟨_, rfl⟩ := same
  refine (acceptAssign_agrees proper joinsT).bind fun assigned _ u u' _ joinsU same => ?_
  cases same
  cases assigned with
  | true =>
    refine (expression_agrees proper room joinsU).bind fun e f v v' _ joinsV same => ?_
    exact agrees_pure joinsV (same_single (by simp [Stmt.moved, same.symm]) rfl)
  | false => exact failExpected_agrees _ _ _

/-- The targets that a production returns in the two readings. -/
def SameTarget (E : Embedding) (a b : Target) : Prop := b = a.moved (.down E.above)

theorem target_agrees (proper : E.Proper) (joins : E.Joins s s') (room : Nat) :
    E.Agrees s s' (target room) (target room) E.SameTarget := by
  unfold target
  refine agrees_previous ?_
  refine (expectIdentifier_agrees joins _ _).andThen (fun _ => ?_) (fun _ => ?_)
    fun name _ t t' _ joinsT same => ?_
  · refine forward_bind fun left => forward_bind fun indices => ?_
    split <;> infer_instance
  · refine forward_bind fun left => forward_bind fun indices => ?_
    split <;> infer_instance
  · obtain ⟨_, rfl⟩ := same
    refine agrees_remaining ?_
    refine (indexGroups_agrees proper (enclosedExpression_agrees proper room _) joinsT
      (Nat.le_refl _) (Nat.le_refl _)).andThen (fun es => by split <;> infer_instance)
      (fun fs => by split <;> infer_instance) fun es fs u u' _ joinsU same => ?_
    cases same
    cases es with
    | nil => exact agrees_pure joinsU rfl
    | cons e es => exact agrees_pure joinsU rfl

theorem setStatement_agrees (proper : E.Proper) (joins : E.Joins s s') (room : Nat)
    {start start' : Token} (begun : E.SameToken start start') :
    E.Agrees s s' (setStatement room start) (setStatement room start') E.SameBlock := by
  obtain ⟨_, rfl⟩ := begun
  unfold setStatement
  refine (target_agrees proper joins room).bind fun target _ t t' _ joinsT same => ?_
  cases same
  refine (expectWord_agrees joinsT _ _ _).discard.bind fun _ _ u u' _ joinsU _ => ?_
  refine (expression_agrees proper room joinsU).bind fun e f v v' _ joinsV same => ?_
  exact agrees_pure joinsV (same_single (by simp [Stmt.moved, same.symm]) rfl)

theorem moreValues_stop (other : ¬(s.current.kind = .sign .comma ∧ s.current.line = line))
    (room fuel : Nat) : moreValues room line fuel s = .ok [] s := by
  cases fuel with
  | zero => rfl
  | succ fuel =>
    unfold moreValues
    rw [current_bind, if_neg other]
    rfl

theorem moreValues_agrees (proper : E.Proper) (joins : E.Joins s s') (room line : Nat)
    {fuel fuel' : Nat} (enough : s.rest.length ≤ fuel) (enough' : s'.rest.length ≤ fuel') :
    E.Agrees s s' (moreValues room line fuel) (moreValues room (line + E.above) fuel')
      E.SameExprs := by
  have stops {s s' : Reader} (joins : E.Joins s s') (done : s.rest = []) (fuel fuel' : Nat) :
      E.Agrees s s' (moreValues room line fuel) (moreValues room (line + E.above) fuel')
        E.SameExprs := by
    have other : s.current.kind ≠ .sign .comma := joins.other_kind done _ (by decide)
    refine agrees_stop joins (moreValues_stop (fun here => other here.1) ..)
      (moreValues_stop (fun here => other ?_) ..) rfl
    exact (joins.same_kind proper (by decide)).mp here.1
  induction fuel generalizing fuel' s s' with
  | zero => exact stops joins (List.eq_nil_of_length_eq_zero (Nat.le_zero.mp enough)) _ _
  | succ fuel ih =>
    cases rest : s.rest with
    | nil => exact stops joins rest _ _
    | cons t r =>
      have long := joins.length
      rw [rest, List.length_cons] at long enough
      obtain ⟨fuel', rfl⟩ : ∃ n, fuel' = n + 1 := ⟨fuel' - 1, by omega⟩
      unfold moreValues
      refine agrees_current joins (fun done => ?_) fun t r rest' holds => ?_
      · rw [done] at rest
        cases rest
      · by_cases here : t.kind = .sign .comma ∧ t.line = line
        · rw [if_pos here, if_pos ⟨here.1, by rw [Token.line_down, here.2]⟩]
          refine agrees_skip joins rest' fun u u' joinsU behind => ?_
          refine (expression_agrees proper room joinsU).bind fun e f v v' ran joinsV same => ?_
          have shorter := (Forward.of_ok ran).rest.length_le
          have long' := joinsV.length
          rw [rest'] at rest
          cases rest
          rw [behind] at shorter
          refine (ih joinsV (by omega) (by omega)).bind fun more more' w w' _ joinsW sames => ?_
          exact agrees_pure joinsW (by rw [SameExprs, same, sames, List.map_cons])
        · rw [if_neg here, if_neg fun there => here ⟨there.1, Nat.add_right_cancel there.2⟩]
          exact agrees_pure joins rfl

theorem outputStatement_agrees (proper : E.Proper) (joins : E.Joins s s') (room : Nat)
    {start start' : Token} (begun : E.SameToken start start') :
    E.Agrees s s' (outputStatement room start) (outputStatement room start') E.SameBlock := by
  obtain ⟨_, rfl⟩ := begun
  unfold outputStatement
  refine (expression_agrees proper room joins).bind fun e f t t' _ joinsT same => ?_
  refine agrees_remaining ?_
  refine (moreValues_agrees proper joinsT room start.line (Nat.le_refl _) (Nat.le_refl _)).bind
    fun es fs u u' _ joinsU sames => ?_
  exact agrees_pure joinsU (same_single (by simp [Stmt.moved, same.symm, sames.symm]) rfl)

theorem assignmentOrCall_agrees (proper : E.Proper) (joins : E.Joins s s') (room : Nat)
    (left : s.rest ≠ []) :
    E.Agrees s s' (assignmentOrCall room) (assignmentOrCall room) E.SameBlock := by
  unfold assignmentOrCall
  refine agrees_current joins (fun done => absurd done left) fun t r rest holds => ?_
  refine agrees_startsCall proper joins rest (fun u r' more => ?_) ?_
  · refine agrees_skip joins rest fun u u' joinsU behind => ?_
    refine (argumentList_agrees proper (enclosedExpression_agrees proper room _) joinsU
      (behind.trans more)).bind fun es fs v v' _ joinsV same => ?_
    exact agrees_pure joinsV (same_single (by simp [Stmt.moved, same.symm]) rfl)
  · refine (target_agrees proper joins room).bind fun target _ u u' _ joinsU same => ?_
    cases same
    refine (acceptAssign_agrees proper joinsU).bind fun assigned _ v v' _ joinsV same => ?_
    cases same
    cases assigned with
    | true =>
      refine (expression_agrees proper room joinsV).bind fun e f w w' _ joinsW same => ?_
      exact agrees_pure joinsW (same_single (by simp [Stmt.moved, same.symm]) rfl)
    | false => exact failExpected_agrees _ _ _

theorem callStatement_agrees (proper : E.Proper) (joins : E.Joins s s') (room : Nat)
    {start start' : Token} (begun : E.SameToken start start') :
    E.Agrees s s' (callStatement room start) (callStatement room start') E.SameBlock := by
  obtain ⟨_, rfl⟩ := begun
  unfold callStatement
  refine (expectIdentifier_agrees joins _ _).bind fun name _ t t' _ joinsT same => ?_
  obtain ⟨_, rfl⟩ := same
  have made {u u' : Reader} (joinsU : E.Joins u u') {es fs : List Expr} (same : E.SameExprs es fs) :
      E.Agrees u u' (pure [.call start.position name.position name.lexeme es])
        (pure [.call (start.down E.above).position (name.down E.above).position name.lexeme fs])
        E.SameBlock :=
    agrees_pure joinsU (same_single (by simp [Stmt.moved, same.symm]) rfl)
  refine agrees_current joinsT (fun done => ?_) fun u r rest holds => ?_
  · have next : E.next.kind ≠ .sign .openParen := proper.next_ne (by decide)
    rw [if_neg (by rw [joinsT.ends]; nofun), if_neg fun here => next here.1]
    exact made joinsT rfl
  · by_cases here : u.kind = .sign .openParen ∧ u.line = name.line
    · rw [if_pos here, if_pos ⟨here.1, by simp [here.2]⟩]
      exact (argumentList_agrees proper (enclosedExpression_agrees proper room _) joinsT rest).bind
        fun es fs v v' _ joinsV same => made joinsV same
    · rw [if_neg here, if_neg fun there => here ⟨there.1, Nat.add_right_cancel there.2⟩]
      exact made joinsT rfl

/-- Whether a RETURN statement has no value. -/
def bareReturn (s : Reader) (start : Token) : Bool :=
  s.rest.isEmpty || s.current.line != start.line || isBoundary s.current

theorem Joins.bareReturn (joins : E.Joins s s') (proper : E.Proper) {start : Token}
    (placed : E.Holds start) :
    Embedding.bareReturn s' (start.down E.above) = Embedding.bareReturn s start := by
  unfold Embedding.bareReturn
  cases left : s.rest with
  | nil =>
    obtain ⟨-, here'⟩ := joins.current_end left
    have ends : s'.rest = [] ∨ E.next.line ≠ start.line + E.above := by
      obtain ⟨none, _⟩ | ⟨_, behind⟩ := proper
      · exact .inl (by simp [joins.rest, left, none])
      · have := placed.last
        exact .inr (by omega)
    rw [here']
    simpa using .inl ends
  | cons t r =>
    obtain ⟨here, here', -⟩ := joins.current_inside left
    have lines : (t.line + E.above != start.line + E.above) = (t.line != start.line) := by
      rw [Bool.eq_iff_iff, bne_iff_ne, bne_iff_ne, ne_eq, Nat.add_right_cancel_iff]
    have boundary : isBoundary (t.down E.above) = isBoundary t := rfl
    simp [here, here', joins.rest, left, lines, boundary]

theorem returnStatement_agrees (proper : E.Proper) (joins : E.Joins s s') (room : Nat)
    {start start' : Token} (begun : E.SameToken start start') :
    E.Agrees s s' (returnStatement room start) (returnStatement room start') E.SameBlock := by
  obtain ⟨placed, rfl⟩ := begun
  have bare (s : Reader) (start : Token) (empty : bareReturn s start = true) :
      returnStatement room start s = .ok [.giveBack start.position none] s := by
    show (if bareReturn s start then _ else _ : Parse (List Stmt)) s = _
    rw [empty]
    rfl
  have given (s : Reader) (start : Token) (present : bareReturn s start = false) :
      returnStatement room start s =
        (expression room >>= fun e => pure [.giveBack start.position (some e)]) s := by
    show (if bareReturn s start then _ else _ : Parse (List Stmt)) s = _
    rw [present]
    rfl
  have same := joins.bareReturn proper placed
  cases answer : bareReturn s start with
  | true =>
    rw [answer] at same
    exact agrees_stop joins (bare s start answer) (bare s' _ same) (same_single rfl rfl)
  | false =>
    rw [answer] at same
    refine Agrees.congr (given s start answer) (given s' _ same) ?_
    refine (expression_agrees proper room joins).bind fun e f t t' _ joinsT known => ?_
    exact agrees_pure joinsT (same_single (by simp [Stmt.moved, known.symm]) rfl)

end Simple

end Embedding

end Pseudocode
