import Pseudocode.Proofs.Exhaustion
import Pseudocode.Proofs.Tracking

/-! Reading with stacks, next to reading from a list. The two productions of a kind are started where
the tokens left are the same, and both fail alike or come to the same result. What is open around a
production it finds and leaves as it is; only a production that fails may leave delimiters open, which
the next expression forgets. -/
namespace Pseudocode

/-- The tokens of a text: the end of input stands behind them and nowhere else. -/
structure TokenStream where
  tokens : List Token
  finish : Token
  ends : finish.kind = .endOfInput
  only : ∀ token ∈ tokens, token.kind ≠ .endOfInput

def TokenStream.all (stream : TokenStream) : List Token := stream.tokens ++ [stream.finish]

namespace Reader

/-- A token of the line that does not start or end a statement. -/
def passes (line : Nat) (token : Token) : Bool := token.line ≤ line && !Parse.isBoundary token

/-- The state in front of the next line, statement or end of a block. -/
def skipped (s : Reader) (line : Nat) : Reader :=
  { s with
    rest := s.rest.dropWhile (passes line)
    previous := (s.rest.takeWhile (passes line)).getLast?.or s.previous }

variable {s : Reader} {line : Nat}

theorem skipped_of_nil (left : s.rest = []) : s.skipped line = s := by
  cases s
  cases left
  rfl

theorem skipped_of_stop (left : s.rest = t :: r) (stops : passes line t = false) :
    s.skipped line = s := by
  cases s
  cases left
  simp [skipped, stops]

theorem skipped_of_pass (left : s.rest = t :: r) (goes : passes line t = true) :
    s.skipped line = s.advanced.skipped line := by
  cases s
  cases left
  simp [skipped, advanced, current, goes, List.getLast?_cons]

end Reader

namespace Tracking

open Parse (Forward)

/-- What is open around a production, other than delimiters, in a text that is not too long for the
loops and nestings that are allowed. -/
structure Standing where
  stream : TokenStream
  limit : Nat
  long : stream.tokens.length + SyntaxError.maxNesting + 2 ≤ limit
  blocks : List (List Keyword)
  depth : Nat

/-- The line of an expression and the delimiters that are open in it, if any is being read. -/
abbrev Within := Option (Nat × List (Sign × Token))

/-- The cursor is in front of the tokens that the reader has left. -/
structure Mirrors (here : Standing) (within : Within) (s : Reader) (c : Cursor) : Prop where
  tokens : c.tokens = here.stream.all
  bounded : c.pos ≤ here.stream.tokens.length
  rest : s.rest = here.stream.tokens.drop c.pos
  finish : s.finish = here.stream.finish
  previous : c.previous = s.previous
  operators : c.operators = s.operators
  errors : c.errors = s.errors
  blocks : c.blocks = here.blocks
  depth : c.depth = here.depth
  within : ∀ e ∈ within, c.line = e.1 ∧ c.delimiters = e.2

section Mirroring

variable {here : Standing} {within : Within} {s : Reader} {c : Cursor}

theorem Mirrors.leave (mirrors : Mirrors here within s c) : Mirrors here none s c :=
  { mirrors with within := by simp }

theorem Mirrors.length (mirrors : Mirrors here within s c) :
    s.rest.length + c.pos = here.stream.tokens.length := by
  have bounded := mirrors.bounded
  rw [mirrors.rest, List.length_drop]
  omega

/-- The tokens of both, the end of input included. -/
theorem Mirrors.drop (mirrors : Mirrors here within s c) :
    c.tokens.drop c.pos = s.rest ++ [s.finish] := by
  rw [mirrors.tokens, mirrors.rest, mirrors.finish, TokenStream.all,
    List.drop_append_of_le_length mirrors.bounded]

theorem Mirrors.token (mirrors : Mirrors here within s c) (k : Nat) :
    c.tokens[c.pos + k]? = (s.rest ++ [s.finish])[k]? := by
  rw [← mirrors.drop, List.getElem?_drop]

theorem Mirrors.head (mirrors : Mirrors here within s c) : c.tokens[c.pos]? = some s.current := by
  rw [← Nat.add_zero c.pos, mirrors.token, Reader.current]
  cases s.rest <;> rfl

theorem Mirrors.not_end {t : Token} (mirrors : Mirrors here within s c) (member : t ∈ s.rest) :
    t.kind ≠ .endOfInput :=
  here.stream.only t (List.mem_of_mem_drop (mirrors.rest ▸ member))

/-- The end of input is next just where no token is left. -/
theorem Mirrors.atEnd (mirrors : Mirrors here within s c) :
    s.current.kind = .endOfInput ↔ s.rest = [] := by
  cases left : s.rest with
  | nil => simp [Reader.current, left, mirrors.finish, here.stream.ends]
  | cons token rest =>
    simpa [Reader.current, left] using mirrors.not_end (left ▸ List.mem_cons_self)

end Mirroring

/-- Both computations fail with the same error of the text, or return the same. -/
inductive Agrees (here : Standing) (within : Within) {α : Type} :
    EStateM.Result SyntaxFault Reader α → EStateM.Result Breakdown Cursor α → Prop
  | ok {a : α} {t : Reader} {d : Cursor} :
      Mirrors here within t d → Agrees here within (.ok a t) (.ok a d)
  | error {e : SyntaxFault} {t : Reader} {d : Cursor} :
      Mirrors here none t d → Agrees here within (.error e t) (.error (.fault e) d)

/-- The computations agree wherever they are started. -/
class Tracks (here : Standing) (within : Within) (m : Parse α) (n : Tracking α) : Prop where
  agrees {s : Reader} {c : Cursor} : Mirrors here within s c → Agrees here within (m s) (n c)

section Laws

variable {here : Standing} {within inner : Within} {α β : Type} {m : Parse α} {n : Tracking α}
  {s : Reader} {c : Cursor}

theorem Agrees.leave {ran : EStateM.Result SyntaxFault Reader α}
    {went : EStateM.Result Breakdown Cursor α} (agrees : Agrees here within ran went) :
    Agrees here none ran went := by
  cases agrees with
  | ok mirrors => exact .ok mirrors.leave
  | error mirrors => exact .error mirrors

theorem discard_of_ok (ran : n c = .ok a d) : discard n c = .ok ⟨⟩ d := by
  show EStateM.map _ n c = _
  rw [EStateM.map, ran]

theorem Agrees.bind {next : α → Parse β} {next' : α → Tracking β}
    (first : Agrees here within (m s) (n c))
    (rest : ∀ a t d, m s = .ok a t → Mirrors here within t d →
      Agrees here inner (next a t) (next' a d)) :
    Agrees here inner ((m >>= next) s) ((n >>= next') c) := by
  show Agrees here inner (EStateM.bind m next s) (EStateM.bind n next' c)
  unfold EStateM.bind
  revert first rest
  cases m s <;> cases n c <;> intro first rest <;> cases first
  case ok.ok.ok mirrors => exact rest _ _ _ rfl mirrors
  case error.error.error mirrors => exact .error mirrors

instance : Tracks here within (pure a : Parse α) (pure a) := ⟨.ok⟩

instance : Tracks here within (throw e : Parse α) (throw (.fault e)) :=
  ⟨fun mirrors => .error mirrors.leave⟩

theorem tracks_bind {next : α → Parse β} {next' : α → Tracking β} [Tracks here within m n]
    (rest : ∀ a, Tracks here within (next a) (next' a)) :
    Tracks here within (m >>= next) (n >>= next') :=
  ⟨fun mirrors => (Tracks.agrees mirrors).bind fun a _ _ _ mirrors => (rest a).agrees mirrors⟩

instance {next : α → Parse β} {next' : α → Tracking β} [Tracks here within m n]
    [∀ a, Tracks here within (next a) (next' a)] : Tracks here within (m >>= next) (n >>= next') :=
  tracks_bind inferInstance

theorem Agrees.map (f : α → β) (agrees : Agrees here within (m s) (n c)) :
    Agrees here within ((f <$> m) s) ((f <$> n) c) := by
  rw [← bind_pure_comp, ← bind_pure_comp]
  exact agrees.bind fun _ _ _ _ mirrors => .ok mirrors

instance {f : α → β} [Tracks here within m n] : Tracks here within (f <$> m) (f <$> n) :=
  ⟨fun mirrors => (Tracks.agrees mirrors).map f⟩

instance [Tracks here within m n] : Tracks here within (discard m) (discard n) :=
  inferInstanceAs (Tracks here within (Function.const α PUnit.unit <$> m)
    (Function.const α PUnit.unit <$> n))

instance [Decidable p] {m' : Parse α} {n' : Tracking α} [Tracks here within m n]
    [Tracks here within m' n'] :
    Tracks here within (if p then m else m') (if p then n else n') := by
  split <;> infer_instance

theorem tracks_get {next : Reader → Parse β} {next' : Cursor → Tracking β}
    (rest : ∀ {s c}, Mirrors here within s c → Agrees here within (next s s) (next' c c)) :
    Tracks here within (get >>= next) (get >>= next') := ⟨fun mirrors => rest mirrors⟩

theorem tracks_modify {f : Reader → Reader} {g : Cursor → Cursor}
    (keeps : ∀ {s c}, Mirrors here within s c → Mirrors here within (f s) (g c)) :
    Tracks here within (modify f : Parse PUnit) (modify g) := ⟨fun mirrors => .ok (keeps mirrors)⟩

end Laws

section Tokens

variable {here : Standing} {within : Within} {α : Type} {s : Reader} {c : Cursor}

theorem get_bind (next : Cursor → Tracking α) (c : Cursor) : (get >>= next) c = next c c := rfl

theorem previous_bind (next : Option Token → Tracking α) (c : Cursor) :
    (Tracking.previous >>= next) c = next c.previous c := rfl

theorem tokenAt_of_some (found : c.tokens[index]? = some token) : tokenAt index c = .ok token c := by
  unfold tokenAt
  rw [get_bind, found]
  rfl

theorem Mirrors.current (mirrors : Mirrors here within s c) :
    Tracking.current c = .ok s.current c := by
  unfold Tracking.current
  rw [get_bind]
  exact tokenAt_of_some mirrors.head

instance : Tracks here within Parse.current Tracking.current :=
  ⟨fun mirrors => mirrors.current ▸ .ok mirrors⟩

/-- The token after the next one. -/
theorem Mirrors.following (mirrors : Mirrors here within s c) :
    Tracking.following c = .ok (s.rest.tail.head?.getD s.finish) c := by
  have found : c.tokens[min (c.pos + 1) (c.tokens.length - 1)]? =
      some (s.rest.tail.head?.getD s.finish) := by
    have size : c.tokens.length - 1 = s.rest.length + c.pos := by
      rw [mirrors.length, mirrors.tokens, TokenStream.all]
      simp
    rw [size]
    cases left : s.rest with
    | nil =>
      have last : min (c.pos + 1) (([] : List Token).length + c.pos) = c.pos + 0 := by simp
      rw [last, mirrors.token, left]
      rfl
    | cons token rest =>
      have next : min (c.pos + 1) ((token :: rest).length + c.pos) = c.pos + 1 := by
        simp only [List.length_cons]
        omega
      rw [next, mirrors.token, left]
      cases rest <;> rfl
  unfold Tracking.following
  rw [get_bind]
  exact tokenAt_of_some found

instance : Tracks here within Parse.following Tracking.following :=
  ⟨fun mirrors => mirrors.following ▸ .ok mirrors⟩

instance : Tracks here within Parse.previous Tracking.previous :=
  tracks_get fun mirrors => mirrors.previous ▸ .ok mirrors

/-- At the end of input the cursor stays where it is. -/
theorem Mirrors.advance (mirrors : Mirrors here within s c) :
    ∃ d, Tracking.advance c = .ok s.current d ∧ Mirrors here within s.advanced d := by
  unfold Tracking.advance
  rw [bind_of_ok mirrors.current]
  cases left : s.rest with
  | nil =>
    rw [if_neg (by simpa using mirrors.atEnd.mpr left)]
    refine ⟨_, rfl, { mirrors with rest := ?_, previous := rfl }⟩
    show s.rest.tail = _
    rw [← mirrors.rest, left]
    rfl
  | cons token rest =>
    have more : ¬s.current.kind = .endOfInput := mirrors.atEnd.not.mpr (by simp [left])
    obtain ⟨behind, found⟩ : ∃ t, c.tokens[c.pos + 1]? = some t := by
      rw [mirrors.token, left]
      cases rest <;> exact ⟨_, rfl⟩
    have moves : discard (tokenAt (c.pos + 1)) c = .ok ⟨⟩ c := discard_of_ok (tokenAt_of_some found)
    rw [if_pos more]
    have length := mirrors.length
    refine ⟨_, (bind_of_ok moves).trans rfl,
      { mirrors with bounded := ?_, rest := ?_, previous := rfl }⟩
    · show c.pos + 1 ≤ _
      rw [left, List.length_cons] at length
      omega
    · show s.rest.tail = _
      rw [mirrors.rest, List.tail_drop]

instance : Tracks here within Parse.advance Tracking.advance where
  agrees mirrors := by
    obtain ⟨d, ran, mirrors⟩ := mirrors.advance
    rw [ran]
    exact .ok mirrors

theorem Mirrors.ended (mirrors : Mirrors here within s c) :
    Tracking.atEnd c = .ok s.rest.isEmpty c := by
  have same : s.rest.isEmpty = (s.current.kind == .endOfInput) := by
    rw [Bool.eq_iff_iff, List.isEmpty_iff, beq_iff_eq, mirrors.atEnd]
  unfold Tracking.atEnd
  rw [bind_of_ok mirrors.current, ← same]
  rfl

instance : Tracks here within Parse.atEnd Tracking.atEnd :=
  ⟨fun mirrors => mirrors.ended ▸ .ok mirrors⟩

instance : Tracks here within (Parse.fail place error : Parse α) (Tracking.fail place error) := by
  unfold Parse.fail Tracking.fail
  infer_instance

instance : Tracks here within (Parse.failExpected text context : Parse α)
    (Tracking.failExpected text context) := by
  unfold Parse.failExpected Tracking.failExpected
  exact tracks_bind fun token => by cases token.kind <;> infer_instance

instance : Tracks here within (Parse.nextIs kind) (Tracking.nextIs kind) := by
  unfold Parse.nextIs Tracking.nextIs
  infer_instance

instance : Tracks here within (Parse.accept kind) (Tracking.accept kind) := by
  unfold Parse.accept Tracking.accept
  infer_instance

instance : Tracks here within (Parse.acceptWord word) (Tracking.acceptWord word) := by
  unfold Parse.acceptWord Tracking.acceptWord
  infer_instance

instance : Tracks here within (Parse.acceptSign sign) (Tracking.acceptSign sign) := by
  unfold Parse.acceptSign Tracking.acceptSign
  infer_instance

instance : Tracks here within Parse.acceptAssign Tracking.acceptAssign := by
  unfold Parse.acceptAssign Tracking.acceptAssign
  infer_instance

instance : Tracks here within (Parse.expect kind text context)
    (Tracking.expect kind text context) := by
  unfold Parse.expect Tracking.expect
  infer_instance

instance : Tracks here within (Parse.expectWord word context)
    (Tracking.expectWord word context) :=
  inferInstanceAs (Tracks here within (Parse.expect (.keyword word) word.text context)
    (Tracking.expect (.keyword word) word.text context))

instance : Tracks here within (Parse.expectSign sign context)
    (Tracking.expectSign sign context) :=
  inferInstanceAs (Tracks here within (Parse.expect (.sign sign) sign.text context)
    (Tracking.expect (.sign sign) sign.text context))

instance : Tracks here within (Parse.expectIdentifier context)
    (Tracking.expectIdentifier context) :=
  inferInstanceAs (Tracks here within (Parse.expect .identifier "identifier" context)
    (Tracking.expect .identifier "identifier" context))

end Tokens

section Loops

variable {here : Standing} {within : Within} {α β : Type} {s t : Reader} {c : Cursor}

theorem Mirrors.below (mirrors : Mirrors here within s c) : s.rest.length < here.limit := by
  have length := mirrors.length
  have long := here.long
  omega

theorem Mirrors.shorter (mirrors : Mirrors here within s c) (more : s.current.kind ≠ .endOfInput) :
    s.advanced.rest.length < s.rest.length := by
  have left : s.rest ≠ [] := mirrors.atEnd.not.mp more
  have positive := List.length_pos_iff.mpr left
  show s.rest.tail.length < _
  rw [List.length_tail]
  omega

/-- A loop that may go on for no more tokens is at the end of input. -/
theorem Mirrors.exhausted (mirrors : Mirrors here within s c) (enough : s.rest.length ≤ 0) :
    s.current.kind = .endOfInput :=
  mirrors.atEnd.mpr (List.length_eq_zero_iff.mp (Nat.le_zero.mp enough))

/-- A token that has been read is gone. -/
theorem Mirrors.accepted (mirrors : Mirrors here within s c) (ran : Parse.accept kind s = .ok true t)
    (more : kind ≠ .endOfInput) : t.rest.length < s.rest.length := by
  rw [Parse.accept_apply] at ran
  split at ran
  next found =>
    cases ran
    exact mirrors.shorter (by rwa [beq_iff_eq.mp found])
  next => cases ran

/-- Where no token is left none is accepted. -/
theorem Mirrors.refused (mirrors : Mirrors here within s c) (enough : s.rest.length ≤ 0)
    (more : kind ≠ .endOfInput) : Tracking.accept kind c = .ok false c := by
  have other : (s.current.kind == kind) = false := by
    rw [mirrors.exhausted enough]
    simpa using more.symm
  have next : Tracking.nextIs kind c = .ok (s.current.kind == kind) c := bind_of_ok mirrors.current
  unfold Tracking.accept
  rw [bind_of_ok next, other]
  rfl

theorem tracks_remaining {loop : Nat → Parse α} {n : Tracking α}
    (runs : ∀ {s c}, Mirrors here within s c → Agrees here within (loop s.rest.length s) (n c)) :
    Tracks here within (Parse.remaining >>= loop) n := ⟨runs⟩

/-- A loop whose fuel is the number of tokens left, with what comes after it. -/
theorem tracks_loop {loop : Nat → Parse α} {n : Tracking α} {next : α → Parse β}
    {next' : α → Tracking β} [Tracks here within (Parse.remaining >>= loop) n]
    (rest : ∀ a, Tracks here within (next a) (next' a)) :
    Tracks here within (Parse.remaining >>= fun left => loop left >>= next) (n >>= next') := by
  rw [← bind_assoc]
  exact tracks_bind rest

instance {loop : Nat → Parse α} {n : Tracking α} {next : α → Parse β} {next' : α → Tracking β}
    [Tracks here within (Parse.remaining >>= loop) n]
    [∀ a, Tracks here within (next a) (next' a)] :
    Tracks here within (Parse.remaining >>= fun left => loop left >>= next) (n >>= next') :=
  tracks_loop inferInstance

theorem afterCommas_agrees {item : Parse α} {item' : Tracking α} [Forward item]
    [Tracks here within item item'] {rounds fuel : Nat} (mirrors : Mirrors here within s c)
    (enough : s.rest.length ≤ fuel) (fewer : s.rest.length < rounds) :
    Agrees here within (Parse.afterCommas item fuel s) (Tracking.afterCommas item' rounds c) := by
  induction rounds generalizing fuel s c with
  | zero => cases fewer
  | succ rounds ih =>
    unfold Tracking.afterCommas
    cases fuel with
    | zero =>
      have refused : Tracking.acceptSign .comma c = .ok false c :=
        mirrors.refused enough (by simp)
      rw [bind_of_ok refused]
      exact .ok mirrors
    | succ fuel =>
      unfold Parse.afterCommas
      refine (Tracks.agrees mirrors).bind fun accepted t d ran mirrorsT => ?_
      cases accepted with
      | false => exact .ok mirrorsT
      | true =>
        have taken := mirrors.accepted ran (by simp)
        refine (Tracks.agrees mirrorsT).bind fun a u e ran mirrorsU => ?_
        have onward := (Forward.of_ok ran).rest.length_le
        refine (ih mirrorsU (by omega) (by omega)).bind fun others v f _ mirrorsV => ?_
        exact .ok mirrorsV

instance {item : Parse α} {item' : Tracking α} [Forward item] [Tracks here within item item'] :
    Tracks here within (Parse.remaining >>= fun left => Parse.afterCommas item left)
      (Tracking.afterCommas item' here.limit) :=
  tracks_remaining fun mirrors => afterCommas_agrees mirrors (Nat.le_refl _) mirrors.below

instance {item : Parse α} {item' : Tracking α} [Forward item] [Tracks here within item item'] :
    Tracks here within (Parse.commaSeparated item) (Tracking.commaSeparated here.limit item') := by
  unfold Parse.commaSeparated Tracking.commaSeparated
  infer_instance

end Loops

section Recovery

variable {here : Standing} {within : Within} {α : Type} {s : Reader} {c : Cursor}

instance : Tracks here within (Parse.record fault) (Tracking.record fault) := by
  unfold Parse.record Tracking.record
  cases fault with
  | reported => infer_instance
  | found place error =>
    refine tracks_modify fun {s c} mirrors => ?_
    dsimp only
    rw [mirrors.errors]
    split
    · exact mirrors
    · exact { mirrors with errors := rfl }

instance : Tracks here within (Parse.expectTerminator word context start)
    (Tracking.expectTerminator word context start) := by
  have reports (d : Diagnostic) : Tracks here within
      (modify fun s : Reader => { s with errors := s.errors.push d } : Parse PUnit)
      (modify fun c => { c with errors := c.errors.push d }) :=
    tracks_modify fun mirrors => { mirrors with errors := congrArg (·.push d) mirrors.errors }
  unfold Parse.expectTerminator Tracking.expectTerminator
  infer_instance

theorem skipLine_agrees (line : Nat) {rounds : Nat} (mirrors : Mirrors here within s c)
    (fewer : s.rest.length < rounds) :
    Agrees here within (.ok ⟨⟩ (s.skipped line)) (skipLine line rounds c) := by
  induction rounds generalizing s c with
  | zero => cases fewer
  | succ rounds ih =>
    unfold skipLine
    rw [bind_of_ok mirrors.current]
    cases left : s.rest with
    | nil =>
      rw [if_pos (.inl (mirrors.atEnd.mpr left)), Reader.skipped_of_nil left]
      exact .ok mirrors
    | cons token rest =>
      have next : s.current = token := by simp [Reader.current, left]
      have more : s.current.kind ≠ .endOfInput := mirrors.atEnd.not.mpr (by simp [left])
      rw [next] at more ⊢
      by_cases goes : Reader.passes line token = true
      · have on : ¬(token.kind = .endOfInput ∨ ¬token.line ≤ line ∨
            Parse.isBoundary token = true) := by
          simpa [more, Reader.passes] using goes
        have shorter := mirrors.shorter (next ▸ more)
        obtain ⟨d, ran, mirrors⟩ := mirrors.advance
        rw [if_neg on, bind_of_ok (discard_of_ok ran), Reader.skipped_of_pass left goes]
        exact ih mirrors (by omega)
      · have stop : token.kind = .endOfInput ∨ ¬token.line ≤ line ∨
            Parse.isBoundary token = true := by
          simpa [more, Reader.passes, imp_iff_not_or] using goes
        rw [if_pos stop, Reader.skipped_of_stop left (by simpa using goes)]
        exact .ok mirrors

instance : Tracks here within Parse.synchronize (synchronize here.limit) := by
  unfold Parse.synchronize Tracking.synchronize
  exact tracks_bind fun before => tracks_bind fun token =>
    ⟨fun mirrors => skipLine_agrees _ mirrors mirrors.below⟩

/-- Both productions are followed by what is to be done where they fail. -/
theorem Agrees.recover {m : Parse α} {n : Tracking α} {handle : SyntaxFault → Parse α}
    {handle' : SyntaxFault → Tracking α} (first : Agrees here within (m s) (n c))
    (rest : ∀ e t d, Mirrors here none t d → Agrees here none (handle e t) (handle' e d)) :
    Agrees here none ((tryCatch m handle : Parse α) s) (recover n handle' c) := by
  show Agrees here none (EStateM.tryCatch m handle s) (EStateM.tryCatch n _ c)
  unfold EStateM.tryCatch
  revert first
  cases m s <;> cases n c <;> intro first <;> cases first
  case ok.ok.ok mirrors => exact .ok mirrors.leave
  case error.error.error mirrors => exact rest _ _ _ mirrors

theorem Agrees.header {production : Parse α} {production' : Tracking α}
    (agrees : Agrees here none (production s) (production' c)) :
    Agrees here none (Parse.header production s) (Tracking.header here.limit production' c) := by
  rw [Parse.header_eq]
  refine (agrees.map some).recover fun fault t d mirrors => ?_
  have goesOn : Tracks here none (Parse.headerMissing fault : Parse (Option α)) (do
      Tracking.record fault
      Tracking.synchronize here.limit
      return none) := by
    unfold Parse.headerMissing
    infer_instance
  exact goesOn.agrees mirrors

instance {production : Parse α} {production' : Tracking α} [Tracks here none production production'] :
    Tracks here none (Parse.header production) (Tracking.header here.limit production') :=
  ⟨fun mirrors => (Tracks.agrees mirrors).header⟩

/-- An item has taken no token just where the index is that of its start. -/
theorem itemMissing_agrees (instead : α) (fault : SyntaxFault) (mirrors : Mirrors here none s c)
    (before start : Nat) (placed : before + start = here.stream.tokens.length) :
    Agrees here none (Parse.itemMissing before instead fault s)
      (Tracking.itemMissing here.limit start instead fault c) := by
  refine (Tracks.agrees mirrors).bind fun _ t d _ mirrors => ?_
  have same : t.rest.length = before ↔ d.pos = start := by
    have length := mirrors.length
    omega
  have goesOn : Tracks here none (do Parse.synchronize; pure instead : Parse α) (do
      Tracking.synchronize here.limit
      pure instead) := inferInstance
  have passesOver : Tracks here none
      (do discard Parse.advance; Parse.synchronize; pure instead : Parse α) (do
      discard Tracking.advance
      Tracking.synchronize here.limit
      pure instead) := inferInstance
  show Agrees here none ((if t.rest.length = before then _ else _ : Parse α) t)
    ((if d.pos = start then _ else _ : Tracking α) d)
  by_cases missing : d.pos = start
  · rw [if_pos (same.mpr missing), if_pos missing]
    exact passesOver.agrees mirrors
  · rw [if_neg (same.not.mpr missing), if_neg missing]
    exact goesOn.agrees mirrors

instance {production : Parse α} {production' : Tracking α} [Tracks here none production production'] :
    Tracks here none (Parse.orSkip production instead)
      (Tracking.orSkip here.limit production' instead) where
  agrees mirrors := by
    rw [Parse.orSkip_eq]
    exact (Tracks.agrees mirrors).recover fun fault t d failed =>
      itemMissing_agrees instead fault failed _ _ mirrors.length

instance : Tracks here within (Parse.countOperator token) (Tracking.countOperator token) := by
  have counts : Tracks here within
      (modify fun s : Reader => { s with operators := s.operators + 1 } : Parse PUnit)
      (modify fun c => { c with operators := c.operators + 1 }) :=
    tracks_modify fun mirrors => { mirrors with operators := congrArg (· + 1) mirrors.operators }
  unfold Parse.countOperator Tracking.countOperator
  refine tracks_bind fun _ => tracks_get fun {s c} mirrors => ?_
  rw [mirrors.operators]
  exact Tracks.agrees mirrors

end Recovery

end Tracking

end Pseudocode
