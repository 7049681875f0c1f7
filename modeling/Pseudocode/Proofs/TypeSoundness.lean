import Pseudocode.Proofs.Typing
import Pseudocode.Proofs.Update
import Pseudocode.Trace

/-! Evaluation agrees with the typing rules. Where every name holds a value of its type, an expression
that has a type is evaluated to a value of that type, or it fails for a reason that no type can rule out:
a number that is too large, a division by zero, an index out of bounds, a text that is too long. -/
namespace Pseudocode

/-- A failure that types are to rule out: a value of the wrong type, a name without a variable, a name
that holds no array, or an expression that the engine has no rule for. -/
def Stop.isTypeFailure : Stop → Bool
  | .fault _ cause =>
    cause.code = .typeMismatch ∨ cause.code = .undeclaredVariable ∨ cause.code = .notAnArray
  | .engine cause => cause ≠ .nanToInteger
  | _ => false

namespace Value

variable {v : Value} {type : DataType}

theorem boolean_of_type (typed : v.type = .boolean) : ∃ b, v = .boolean b := by
  cases v <;> simp [Value.type] at typed ⊢

theorem integer_of_type (typed : v.type = .integer) : ∃ n, v = .integer n := by
  cases v <;> simp [Value.type] at typed ⊢

theorem number_of_type (typed : v.type = type) (numeric : type.isNumeric = true) :
    ∃ n, v = ofNumber n := by
  subst typed
  cases v with
  | integer n => exact ⟨.integer n, rfl⟩
  | real x => exact ⟨.real x, rfl⟩
  | _ => cases numeric

theorem text_of_type (typed : v.type = type) (text : type.isText = true) :
    ∃ s, v = .string s ∨ v = .char s := by
  subst typed
  cases v with
  | string s => exact ⟨s, .inl rfl⟩
  | char s => exact ⟨s, .inr rfl⟩
  | _ => cases text

@[simp] theorem number_ofNumber (n : Number) : (ofNumber n).number? = some n := by cases n <;> rfl

@[simp] theorem text_ofNumber (n : Number) : (ofNumber n).text? = none := by cases n <;> rfl

theorem type_ofNumber (n : Number) : (ofNumber n).type = if n.isReal then .real else .integer := by
  cases n <;> rfl

end Value

section

variable {ε δ α β : Type}

theorem ok_of_bind {x : Except ε α} {f : α → Except ε β} (made : x >>= f = .ok b) :
    ∃ a, x = .ok a ∧ f a = .ok b := by
  cases x with
  | error => cases made
  | ok a => exact ⟨a, rfl, made⟩

theorem ok_of_mapError {x : Except ε α} {f : ε → δ} (made : x.mapError f = .ok a) : x = .ok a := by
  cases x with
  | error => cases made
  | ok b =>
    cases made
    rfl

theorem ok_of_map {x : Except ε α} {f : α → β} (made : x.map f = .ok b) :
    ∃ a, x = .ok a ∧ b = f a := by
  cases x with
  | error => cases made
  | ok a => exact ⟨a, rfl, (Except.ok.inj made).symm⟩

end

namespace Number

variable {a b c : Number}

/-- An operation on two numbers gives an integer exactly when both are. -/
theorem combine_isReal {f : Int → Int → Int} {g : Binary64 → Binary64 → Binary64}
    (made : combine f g a b = .ok c) : c.isReal = (a.isReal || b.isReal) := by
  unfold combine at made
  split at made
  · cases made
    rfl
  · next mixed =>
    have real : (a.isReal || b.isReal) = true := by
      cases a with
      | real => rfl
      | integer m =>
        cases b with
        | real => rfl
        | integer n => exact absurd rfl (mixed m n rfl)
    obtain ⟨x, -, made⟩ := ok_of_bind made
    obtain ⟨y, -, made⟩ := ok_of_bind made
    cases made
    exact real.symm

theorem checked_isReal (made : a.checked = .ok c) : c.isReal = a.isReal := by
  unfold checked at made
  split at made
  next m =>
    obtain ⟨n, -, made⟩ := ok_of_bind made
    cases made
    rfl
  next => cases made; rfl

theorem remainder_isReal (made : a.remainder b = .ok c) : c.isReal = (a.isReal || b.isReal) := by
  obtain ⟨q, -, made⟩ := ok_of_bind made
  obtain ⟨product, multiplied, made⟩ := ok_of_bind made
  rw [combine_isReal (ok_of_mapError made), combine_isReal (ok_of_mapError multiplied)]
  rfl

end Number

/-- NULL is not compared. -/
theorem BinaryOp.Compares.present {op : BinaryOp} {l r : DataType} (compares : op.Compares l r) :
    l ≠ .null ∧ r ≠ .null := by
  obtain ⟨left, right⟩ | ⟨left, right⟩ | ⟨rfl, rfl, -⟩ := compares
  · refine ⟨?_, ?_⟩ <;> rintro rfl
    · cases left
    · cases right
  · refine ⟨?_, ?_⟩ <;> rintro rfl
    · cases left
    · cases right
  · exact ⟨nofun, nofun⟩

theorem BinaryOp.Gives.of_logical {op : BinaryOp} {l r type : DataType} (gives : op.Gives l r type)
    (logical : op.isLogical = true) : l = .boolean ∧ r = .boolean ∧ type = .boolean := by
  cases gives with
  | logical => exact ⟨rfl, rfl, rfl⟩
  | comparison comparison => cases (comparison_plain comparison).2.symm.trans logical
  | join | joinText => cases logical
  | arithmetic arithmetic => cases (arithmetic_plain arithmetic).2.1.symm.trans logical

namespace ArrayCell

/-- A position inside the bounds is one of as many as the bounds ask for. -/
theorem offsetFrom_lt {bounds : List Bound} {indices : List Int} {start position : Nat} {total : Int}
    (inside : start < total) (count : indices.length = bounds.length)
    (found : offsetFrom start bounds indices = .ok position) :
    position < bounds.foldl (fun total b => total * b.extent) total := by
  induction bounds generalizing indices start total with
  | nil =>
    cases found
    exact inside
  | cons b bounds ih =>
    cases indices with
    | nil => cases count
    | cons i indices =>
      rw [offsetFrom] at found
      split at found
      · cases found
      · next within =>
        have extent : b.extent = b.upper - b.lower + 1 := rfl
        refine ih ?_ (Nat.succ.inj count) found
        calc ((start * b.extent.toNat + (i - b.lower).toNat : Nat) : Int)
            = start * b.extent + (i - b.lower) := by
              rw [Int.natCast_add, Int.natCast_mul, Int.toNat_of_nonneg (by omega),
                Int.toNat_of_nonneg (by omega)]
          _ < start * b.extent + b.extent := by omega
          _ = (start + 1) * b.extent := by rw [Int.add_mul, Int.one_mul]
          _ ≤ total * b.extent := Int.mul_le_mul_of_nonneg_right (by omega) (by omega)

theorem offset_lt {bounds : List Bound} (found : offset bounds indices = .ok position) :
    position < (elementCount bounds).toNat := by
  unfold offset at found
  split at found
  · cases found
  · next count =>
    have inside := offsetFrom_lt Int.one_pos (Decidable.not_not.mp count) found
    exact Int.lt_toNat.mpr inside

theorem get_fault {cell : ArrayCell} (failed : cell.get indices = .error fault) :
    offset cell.bounds indices = .error fault := by
  unfold get at failed
  cases found : offset cell.bounds indices with
  | ok position =>
    rw [found] at failed
    cases failed
  | error cause =>
    rw [found] at failed
    cases failed
    rfl

/-- What is read is an element of the array. -/
theorem get_mem {cell : ArrayCell} (size : cell.elements.size = (elementCount cell.bounds).toNat)
    (read : cell.get indices = .ok v) : v ∈ cell.elements := by
  obtain ⟨position, found, same⟩ := ok_of_bind read
  have inside : position < cell.elements.size := size ▸ offset_lt found
  cases same
  simp [inside]

end ArrayCell

/-- A scalar holds a value of its declared type, and an array that is declared with bounds has these, as
many elements as they ask for, and only elements of its declared type. Other expressions hold nothing of
their own. -/
def Expr.Stored (t : SymbolTable) (s : RunState) : Expr → Prop
  | .name _ word => ∀ type, t.Scalar word type →
    ∃ b, s.memory.lookup s.env word = some b ∧ b.value.type = type
  | .element _ array _ => ∀ bounds type, t.Indexed array bounds type →
    ∃ b i cell, s.memory.lookup s.env array = some b ∧ b.value = .array i ∧
      s.memory.arrays[i]? = some cell ∧ cell.bounds = bounds ∧
      cell.elements.size = (ArrayCell.elementCount bounds).toNat ∧ ∀ v ∈ cell.elements, v.type = type
  | _ => True

namespace Run

variable {ctx : RunContext} {s : RunState} {v w : Value} {l r type : DataType} {op : BinaryOp}

/-- The computation changes nothing. It answers as described, or fails for a reason that types do not
rule out. -/
def Answers (m : Run α) (s : RunState) (good : α → Prop) : Prop :=
  Ends m s (fun a t => t = s ∧ good a) (fun e _ => e.isTypeFailure = false)

theorem answers_pure {a : α} {good : α → Prop} (known : good a) : Answers (pure a) s good := ⟨rfl, known⟩

theorem Answers.bind {m : Run α} {next : α → Run β} {good : α → Prop} {goodNext : β → Prop}
    (first : Answers m s good) (rest : ∀ a, good a → Answers (next a) s goodNext) :
    Answers (m >>= next) s goodNext := by
  unfold Answers at *
  rw [ends_bind]
  refine first.mono (fun a t ⟨same, known⟩ => ?_) fun _ _ failed => failed
  subst same
  exact rest a known

theorem liftNumber_answers (line : Nat) {result : Except NumberFault Number}
    (typed : ∀ n, result = .ok n → (Value.ofNumber n).type = type) :
    Answers (liftNumber line result) s (fun v => v.type = type) := by
  cases result with
  | ok n => exact ⟨rfl, typed n rfl⟩
  | error fault => cases fault <;> rfl

theorem liftOverflow_answers (line : Nat) {result : Except Overflow Number}
    (typed : ∀ n, result = .ok n → (Value.ofNumber n).type = type) :
    Answers (liftOverflow line result) s (fun v => v.type = type) :=
  liftNumber_answers line fun n made => typed n (ok_of_mapError made)

theorem checkLength_answers (line length : Nat) :
    Answers (checkLength ctx line length) s (fun _ => True) := by
  unfold checkLength
  dsimp only
  split
  · rfl
  · exact answers_pure trivial

theorem joinText_answers (line : Nat) (left right : String) :
    Answers (joinText ctx line left right) s (fun v => v.type = .string) :=
  (checkLength_answers line _).bind fun _ _ => answers_pure rfl

theorem shown_answers (line : Nat) (v : Value) : Answers (shown ctx line v) s (fun _ => True) := by
  unfold shown Answers
  simp only [ends_bind, ends_get]
  split
  · exact ⟨rfl, trivial⟩
  · rfl
  · rfl
  · rfl

theorem join_answers (line : Nat) (v w : Value) :
    Answers (join ctx line v w) s (fun v => v.type = .string) := by
  have joined : Answers (shown ctx line v >>= fun l => shown ctx line w >>= joinText ctx line l) s
      (fun v => v.type = .string) :=
    (shown_answers line v).bind fun _ _ => (shown_answers line w).bind fun _ _ =>
      joinText_answers line _ _
  unfold Answers Ends join
  cases ran : (shown ctx line v >>= fun l => shown ctx line w >>= joinText ctx line l) s with
  | ok x t => exact joined.of_ok ran
  | error e t =>
    have plain := joined.of_error ran
    cases e with
    | overflow => rfl
    | _ => exact plain

theorem type_combined (op : BinaryOp) (noDivide : op ≠ .divide) (noDiv : op ≠ .div) {m n k : Number}
    (real : k.isReal = (m.isReal || n.isReal)) :
    (Value.ofNumber k).type = op.numberType (Value.ofNumber m).type (Value.ofNumber n).type := by
  simp only [BinaryOp.numberType, noDivide, noDiv, if_false, Value.type_ofNumber, real]
  cases m.isReal <;> cases n.isReal <;> rfl

theorem checked_answers (op : BinaryOp) (noDivide : op ≠ .divide) (noDiv : op ≠ .div) (line : Nat)
    (m n : Number)
    {onIntegers : Int → Int → Int} {onReals : Binary64 → Binary64 → Binary64} :
    Answers (liftOverflow line (Number.combine onIntegers onReals m n >>= Number.checked)) s
      (fun v => v.type = op.numberType (Value.ofNumber m).type (Value.ofNumber n).type) := by
  refine liftOverflow_answers line fun k made => ?_
  obtain ⟨c, combined, made⟩ := ok_of_bind made
  exact type_combined op noDivide noDiv
    ((Number.checked_isReal made).trans (Number.combine_isReal combined))

/-- Two numbers give a number of the type that the rules give. -/
theorem arithmetic_answers (line : Nat) (known : op.isArithmetic = true) (m n : Number) :
    Answers (arithmetic ctx line op (.ofNumber m) (.ofNumber n)) s
      (fun v => v.type = op.numberType (Value.ofNumber m).type (Value.ofNumber n).type) := by
  unfold arithmetic
  simp only [Value.text_ofNumber, Value.number_ofNumber]
  cases op with
  | plus => exact checked_answers .plus nofun nofun line m n
  | minus => exact checked_answers .minus nofun nofun line m n
  | times => exact checked_answers .times nofun nofun line m n
  | divide =>
    dsimp only
    split
    · rfl
    · refine liftOverflow_answers line fun k made => ?_
      obtain ⟨x, -, rfl⟩ := ok_of_map made
      rfl
  | div =>
    dsimp only
    split
    · rfl
    · refine liftNumber_answers line fun k made => ?_
      obtain ⟨q, -, rfl⟩ := ok_of_map made
      rfl
  | mod =>
    dsimp only
    split
    · rfl
    · exact liftNumber_answers line fun k made =>
        type_combined .mod nofun nofun (Number.remainder_isReal made)
  | _ => cases known

theorem compareValues_typed (compares : op.Compares l r) (left : v.type = l) (right : w.type = r) :
    ∃ b, compareValues op v w = .ok b := by
  have present : ¬(v = .null ∨ w = .null) := by
    rintro (rfl | rfl)
    · exact compares.present.1 left.symm
    · exact compares.present.2 right.symm
  unfold compareValues
  rw [if_neg present]
  obtain ⟨leftNumber, rightNumber⟩ | ⟨leftText, rightText⟩ | ⟨rfl, rfl, equality⟩ := compares
  · obtain ⟨m, rfl⟩ := Value.number_of_type left leftNumber
    obtain ⟨n, rfl⟩ := Value.number_of_type right rightNumber
    simp
  · obtain ⟨x, rfl | rfl⟩ := Value.text_of_type left leftText <;>
      obtain ⟨y, rfl | rfl⟩ := Value.text_of_type right rightText <;>
      simp [Value.number?, Value.text?]
  · obtain ⟨a, rfl⟩ := Value.boolean_of_type left
    obtain ⟨b, rfl⟩ := Value.boolean_of_type right
    simp [Value.number?, Value.text?, equality]

/-- An operator that has values of two types makes of them a value of the type that the rules give. -/
theorem binary_answers (line : Nat) (gives : op.Gives l r type) (plain : op.isLogical = false)
    (left : v.type = l) (right : w.type = r) :
    Answers (binary ctx line op v w) s (fun v => v.type = type) := by
  unfold binary
  cases gives with
  | logical logical => cases plain.symm.trans logical
  | comparison comparison compares =>
    obtain ⟨b, compared⟩ := compareValues_typed compares left right
    rw [if_pos comparison, compared]
    exact answers_pure rfl
  | join => exact join_answers line v w
  | joinText leftText rightText =>
    obtain ⟨x, rfl | rfl⟩ := Value.text_of_type left leftText <;>
      obtain ⟨y, rfl | rfl⟩ := Value.text_of_type right rightText <;> exact joinText_answers line x y
  | arithmetic arithmetic leftNumber rightNumber =>
    obtain ⟨m, rfl⟩ := Value.number_of_type left leftNumber
    obtain ⟨n, rfl⟩ := Value.number_of_type right rightNumber
    obtain ⟨noJoin, -, noComparison⟩ := BinaryOp.arithmetic_plain arithmetic
    subst left right
    rw [if_neg (by simp [noComparison]), if_neg noJoin]
    exact arithmetic_answers line arithmetic m n

theorem elementValue_answers (line : Nat) (indices : List Int) {i : ArrayId} {cell : ArrayCell}
    (held : s.memory.arrays[i]? = some cell)
    (size : cell.elements.size = (ArrayCell.elementCount cell.bounds).toNat)
    (typed : ∀ v ∈ cell.elements, v.type = type) :
    Answers (elementValue line i indices) s (fun v => v.type = type) := by
  unfold elementValue Answers
  simp only [ends_bind, ends_get, held, Option.map_some]
  cases read : cell.get indices with
  | ok v => exact ⟨rfl, typed v (ArrayCell.get_mem size read)⟩
  | error fault =>
    obtain rfl | rfl := ArrayCell.offset_fault (ArrayCell.get_fault read)
    · rfl
    · rfl

theorem truth_answers (text : String) (line : Nat) (typed : v.type = .boolean) :
    Answers (truth text line v) s (fun _ => True) := by
  obtain ⟨b, rfl⟩ := Value.boolean_of_type typed
  exact answers_pure trivial

theorem unary_answers (line : Nat) {op : UnaryOp} (gives : op.Gives l type) (typed : v.type = l) :
    Answers (unary line op v) s (fun v => v.type = type) := by
  cases gives with
  | minus numeric =>
    obtain ⟨n, rfl⟩ := Value.number_of_type typed numeric
    subst typed
    cases n <;> exact answers_pure rfl
  | not => exact (truth_answers _ line typed).bind fun _ _ => answers_pure rfl

theorem evalIndices_answers {enter : Enter} (line : Nat) (es : List Expr)
    (answer : ∀ e ∈ es, Answers (eval ctx enter e) s (fun v => v.type = .integer)) :
    Answers (evalIndices ctx enter line es) s (fun _ => True) := by
  induction es with
  | nil =>
    rw [evalIndices]
    exact answers_pure trivial
  | cons e rest ih =>
    rw [evalIndices]
    refine (answer e (.head _)).bind fun v typed => ?_
    obtain ⟨n, rfl⟩ := Value.integer_of_type typed
    exact (ih fun e member => answer e (.tail _ member)).bind fun _ _ => answers_pure trivial

/-- An expression that has a type is evaluated to a value of that type. -/
theorem eval_answers {t : SymbolTable} {e : Expr} (enter : Enter) (typed : e.HasType t type)
    (stored : ∀ part : Expr, part.Within e → part.Stored t s) :
    Answers (eval ctx enter e) s (fun v => v.type = type) := by
  induction typed with
  | literal =>
    rw [eval]
    exact answers_pure rfl
  | @name word type place scalar =>
    obtain ⟨b, found, typed⟩ := stored _ .here type scalar
    rw [eval]
    unfold nameValue lookup Answers
    simp only [ends_bind, ends_get, ends_pure, found, true_and]
    exact typed
  | @element array bounds type indices place indexed _ _ ih =>
    obtain ⟨b, i, cell, found, same, held, rfl, size, elements⟩ := stored _ .here bounds type indexed
    have arrays : Answers (arrayNamed place.line array) s (fun j => j = i) := by
      unfold arrayNamed lookup Answers
      simp only [ends_bind, ends_get, ends_pure, found, same, true_and]
    rw [eval]
    refine arrays.bind fun j same => ?_
    subst same
    refine (evalIndices_answers place.line indices fun e member => ?_).bind fun is _ =>
      elementValue_answers place.line is held size elements
    exact ih e member fun part within => stored part (.index member within)
  | unary _ gives ih =>
    rw [eval]
    exact (ih fun part within => stored part (.operand within)).bind fun v typed =>
      unary_answers _ gives typed
  | @binary left l right r place op type _ _ gives leftIH rightIH =>
    have leftAnswers := leftIH fun part within => stored part (.left within)
    have rightAnswers := rightIH fun part within => stored part (.right within)
    rw [eval]
    split
    next logical =>
      obtain ⟨rfl, rfl, rfl⟩ := gives.of_logical logical
      refine leftAnswers.bind fun v leftTyped => ?_
      refine (truth_answers op.text place.line leftTyped).bind fun b _ => ?_
      split
      · exact answers_pure rfl
      · refine rightAnswers.bind fun w rightTyped => ?_
        exact (truth_answers op.text place.line rightTyped).bind fun _ _ => answers_pure rfl
    next plain =>
      exact leftAnswers.bind fun v leftTyped => rightAnswers.bind fun w rightTyped =>
        binary_answers place.line gives (by simpa using plain) leftTyped rightTyped

end Run

/-- The check of an expression and its evaluation agree on types. Let an expression be built from
literals, declared scalars, elements of declared arrays and operators; let the check have nothing to
report of it and know a type other than NULL for each of its parts; and let every name in it hold a value
as declared. Then the expression evaluates to a value of the inferred type, or it fails for a reason that
types do not rule out. -/
theorem inferred_expression_evaluates (ctx : RunContext) (enter : Enter) (c : CheckState)
    (s : RunState) (e : Expr) (built : ∀ part : Expr, part.Within e → part.Built c.symbols)
    (inferred : ∀ part : Expr, part.Within e → Check.Infers c part)
    (stored : ∀ part : Expr, part.Within e → part.Stored c.symbols s) :
    ∃ i t type, Check.infer e c = .ok i t ∧ i.type = some type ∧
      Ends (Run.eval ctx enter e) s (fun v _ => v.type = type)
        (fun stop _ => stop.isTypeFailure = false) := by
  obtain ⟨type, typed, -⟩ := Check.hasType_of_infers e built inferred
  obtain ⟨i, t, -, ran, -⟩ := inferred e .here
  obtain ⟨known, -⟩ := (Check.finds_of_hasType typed c rfl).of_ok ran
  refine ⟨i, t, type, ran, known, ?_⟩
  exact (Run.eval_answers enter typed stored).mono (fun _ _ ⟨_, answer⟩ => answer)
    fun _ _ plain => plain

/-- An INTEGER and an array of REAL elements that it indexes, as they are declared and as they are held. -/
def indexedSymbols : CheckState :=
  { CheckState.initial with symbols := ⟨[],
    [{ name := "i", kind := .variable, type := some .integer },
      { name := "a", kind := .array, type := some .array, elementType := some .real,
        bounds := some [⟨1, 2⟩] }]⟩ }

def indexedState : RunState :=
  { RunState.initial {} with memory :=
    ⟨#[.fresh [⟨1, 2⟩] (some .real)],
      #[⟨.integer 1, some .integer, false⟩, ⟨.array 0, some .array, false⟩], #[[("i", 0), ("a", 1)]]⟩ }

/-- One more than an element. -/
def indexedSum : Expr :=
  .binary ⟨1, 6⟩ .plus (.element ⟨1, 1⟩ "a" [.name ⟨1, 3⟩ "i"]) (.literal ⟨1, 8⟩ (.integer 1))

theorem indexedSum_evaluates : ∃ i t type, Check.infer indexedSum indexedSymbols = .ok i t ∧
    i.type = some type ∧
      Ends (Run.eval ⟨{}, {}, []⟩ (fun line _ _ => Run.stop line .stackOverflow) indexedSum) indexedState
        (fun v _ => v.type = type) (fun stop _ => stop.isTypeFailure = false) := by
  have scalar : indexedSymbols.symbols.Scalar "i" .integer := ⟨_, rfl, rfl, rfl, nofun, nofun⟩
  have indexed : indexedSymbols.symbols.Indexed "a" [⟨1, 2⟩] .real :=
    ⟨_, rfl, nofun, rfl, rfl, rfl, nofun⟩
  have parts : ∀ part : Expr, part.Within indexedSum → part.Built indexedSymbols.symbols ∧
      Check.Infers indexedSymbols part ∧ part.Stored indexedSymbols.symbols indexedState := by
    intro part within
    cases within with
    | here =>
      have known : BinaryOp.plus ∈ BinaryOp.all := by decide
      exact ⟨known, ⟨_, _, .real, rfl, rfl, rfl, nofun⟩, trivial⟩
    | left within =>
      cases within with
      | here =>
        refine ⟨⟨_, _, indexed⟩, ⟨_, _, .real, rfl, rfl, rfl, nofun⟩, ?_⟩
        rintro bounds type ⟨found, looked, -, -, bounded, elements, -⟩
        cases looked
        cases bounded
        cases elements
        exact ⟨_, 0, _, rfl, rfl, rfl, rfl, rfl, by decide⟩
      | index member within =>
        cases List.mem_singleton.mp member
        cases within with
        | here =>
          refine ⟨⟨_, scalar⟩, ⟨_, _, .integer, rfl, rfl, rfl, nofun⟩, ?_⟩
          rintro type ⟨found, looked, -, typed, -⟩
          cases looked
          cases typed
          exact ⟨_, rfl, rfl⟩
    | right within =>
      cases within with
      | here => exact ⟨trivial, ⟨_, _, .integer, rfl, rfl, rfl, nofun⟩, trivial⟩
  exact inferred_expression_evaluates _ _ indexedSymbols indexedState indexedSum
    (fun part within => (parts part within).1) (fun part within => (parts part within).2.1)
    fun part within => (parts part within).2.2

end Pseudocode
