import Pseudocode.Proofs.Policy
import Pseudocode.Symbol

/-! Symbol tables. Marking a symbol as used changes nothing else about it, so it changes no answer of a
table but for that mark. A table agrees with the routines of a run when it has a global name for each
of them and no other symbol passes for a routine. -/
namespace Pseudocode

namespace SymbolTable

/-- The symbol stands in some scope of the table. -/
def Has (t : SymbolTable) (symbol : Symbol) : Prop :=
  symbol ∈ t.globals ∨ ∃ scope ∈ t.inner, symbol ∈ scope

variable {t : SymbolTable} {symbol : Symbol} {word : String} {scope : List Symbol}

theorem findIn_some (found : findIn scope word = some symbol) : symbol ∈ scope ∧ symbol.name = word :=
  ⟨List.mem_of_find?_eq_some found, by simpa using List.find?_some found⟩

theorem findIn_none (free : findIn scope word = none) : ∀ symbol ∈ scope, symbol.name ≠ word := by
  simpa [findIn] using free

theorem lookup_some (found : t.lookup word = some ⟨symbol, isGlobal⟩) :
    t.Has symbol ∧ symbol.name = word := by
  unfold lookup at found
  split at found
  next other inside =>
    cases found
    obtain ⟨scope, member, here⟩ := List.exists_of_findSome?_eq_some inside
    exact ⟨.inr ⟨scope, member, (findIn_some here).1⟩, (findIn_some here).2⟩
  next =>
    obtain ⟨other, here, same⟩ := Option.map_eq_some_iff.mp found
    cases same
    exact ⟨.inl (findIn_some here).1, (findIn_some here).2⟩

theorem lookup_none (free : t.lookup word = none) : ∀ symbol ∈ t.globals, symbol.name ≠ word := by
  unfold lookup at free
  split at free
  next => cases free
  next => exact findIn_none (Option.map_eq_none_iff.mp free)

end SymbolTable

/-- The symbol without the mark that it is used. -/
def Symbol.plain (symbol : Symbol) : Symbol := { symbol with used := false }

/-- Two symbols that differ at most in the mark are declared alike. -/
theorem Symbol.declared_alike {a b : Symbol} (same : a.plain = b.plain) :
    a.name = b.name ∧ a.kind = b.kind ∧ a.params = b.params := by
  simp only [plain, Symbol.mk.injEq] at same
  exact ⟨same.1, same.2.1, same.2.2.2.2.2.2.1⟩

namespace SymbolTable

variable {t : SymbolTable} {symbol : Symbol} {word : String} {scope : List Symbol}

def plain (t : SymbolTable) : SymbolTable :=
  ⟨t.inner.map (·.map Symbol.plain), t.globals.map Symbol.plain⟩

theorem findIn_plain (scope : List Symbol) (word : String) :
    findIn (scope.map Symbol.plain) word = (findIn scope word).map Symbol.plain := by
  simp only [findIn, List.find?_map]
  rfl

theorem useIn_plain (scope : List Symbol) (word : String) :
    (useIn scope word).map Symbol.plain = scope.map Symbol.plain := by
  simp only [useIn, List.map_map]
  refine List.map_congr_left fun symbol _ => ?_
  simp only [Function.comp]
  split <;> rfl

theorem inScopes_plain (word : String) (scopes : List (List Symbol)) :
    ∀ inner ∈ use.inScopes word scopes,
      inner.map (·.map Symbol.plain) = scopes.map (·.map Symbol.plain) := by
  induction scopes with
  | nil => nofun
  | cons scope outer ih =>
    intro inner found
    unfold use.inScopes at found
    split at found
    · cases found
      simp only [List.map_cons, useIn_plain]
    · obtain ⟨rest, inside, rfl⟩ := Option.map_eq_some_iff.mp found
      simp only [List.map_cons, ih rest inside]

/-- Reading a name changes nothing but the mark. -/
@[simp] theorem use_plain (t : SymbolTable) (word : String) : (t.use word).plain = t.plain := by
  unfold use
  split
  next inner found => simp only [plain, inScopes_plain word t.inner inner found]
  next => simp only [plain, useIn_plain]

/-- A name is found in the same scope whatever is marked. -/
theorem lookup_plain (t : SymbolTable) (word : String) :
    t.plain.lookup word = (t.lookup word).map fun found => ⟨found.symbol.plain, found.isGlobal⟩ := by
  have inner : (t.inner.map (·.map Symbol.plain)).findSome? (findIn · word) =
      (t.inner.findSome? (findIn · word)).map Symbol.plain := by
    rw [List.findSome?_map]
    induction t.inner with
    | nil => rfl
    | cons scope outer ih =>
      simp only [List.findSome?_cons, Function.comp, findIn_plain]
      cases findIn scope word with
      | none => exact ih
      | some symbol => rfl
  unfold lookup plain
  rw [inner, findIn_plain]
  cases t.inner.findSome? (findIn · word) with
  | some symbol => rfl
  | none => cases findIn t.globals word <;> rfl

end SymbolTable

/-- A routine symbol is what the run knows under its name. -/
def RunContext.Declares (ctx : RunContext) (symbol : Symbol) : Prop :=
  ∃ r, ctx.routine? symbol.name = some r ∧ r.params = symbol.params ∧ .ofRoutine r.kind = symbol.kind

/-- The table has a global name for every routine of a run, and no other symbol passes for one. -/
structure SymbolTable.Agrees (ctx : RunContext) (t : SymbolTable) : Prop where
  registered : ∀ {word r}, ctx.routine? word = some r → ∃ symbol ∈ t.globals, symbol.name = word
  routines : ∀ {symbol}, t.Has symbol → symbol.kind.isRoutine = true → ctx.Declares symbol

namespace SymbolTable

variable {ctx : RunContext} {t u : SymbolTable} {symbol : Symbol}

theorem has_plain (has : t.Has symbol) : t.plain.Has symbol.plain := by
  obtain outer | ⟨scope, member, inside⟩ := has
  · exact .inl (List.mem_map_of_mem outer)
  · exact .inr ⟨_, List.mem_map_of_mem member, List.mem_map_of_mem inside⟩

theorem has_of_plain (has : t.plain.Has symbol) : ∃ old, t.Has old ∧ old.plain = symbol := by
  obtain outer | ⟨scope, member, inside⟩ := has
  · obtain ⟨old, here, same⟩ := List.mem_map.mp outer
    exact ⟨old, .inl here, same⟩
  · obtain ⟨before, here, rfl⟩ := List.mem_map.mp member
    obtain ⟨old, within, same⟩ := List.mem_map.mp inside
    exact ⟨old, .inr ⟨before, here, within⟩, same⟩

theorem Agrees.of_plain (agrees : t.Agrees ctx) (same : u.plain = t.plain) : u.Agrees ctx where
  registered found := by
    obtain ⟨symbol, member, named⟩ := agrees.registered found
    have member : symbol.plain ∈ u.plain.globals := same ▸ List.mem_map_of_mem member
    obtain ⟨other, inside, equal⟩ := List.mem_map.mp member
    exact ⟨other, inside, (congrArg Symbol.name equal).trans named⟩
  routines {symbol} has routine := by
    obtain ⟨old, before, equal⟩ := has_of_plain (same ▸ has_plain has)
    obtain ⟨names, kinds, lists⟩ := Symbol.declared_alike equal
    obtain ⟨r, known, params, kind⟩ := agrees.routines before (kinds ▸ routine)
    exact ⟨r, names ▸ known, params.trans lists, kind.trans kinds⟩

theorem Agrees.enter (agrees : t.Agrees ctx) : t.enter.Agrees ctx where
  registered found := agrees.registered found
  routines has routine := by
    obtain outer | ⟨scope, member, inside⟩ := has
    · exact agrees.routines (.inl outer) routine
    · cases member with
      | head => cases inside
      | tail _ member => exact agrees.routines (.inr ⟨scope, member, inside⟩) routine

theorem Agrees.exit (agrees : t.Agrees ctx) (left : t.exit = .ok (scope, u)) : u.Agrees ctx := by
  unfold SymbolTable.exit at left
  split at left
  next => cases left
  next here outer inner =>
    cases left
    refine ⟨fun found => agrees.registered found, fun has routine => agrees.routines ?_ routine⟩
    obtain outside | ⟨scope, member, inside⟩ := has
    · exact .inl outside
    · exact .inr ⟨scope, by rw [inner]; exact .tail _ member, inside⟩

/-- A new symbol that is no routine. -/
theorem Agrees.add (agrees : t.Agrees ctx) (other : symbol.kind.isRoutine = false) :
    (t.setCurrent (t.current ++ [symbol])).Agrees ctx := by
  have fresh {old : Symbol} {scope : List Symbol} (member : old ∈ scope ++ [symbol])
      (known : old ∈ scope → t.Has old) (routine : old.kind.isRoutine = true) : ctx.Declares old := by
    obtain before | new := List.mem_append.mp member
    · exact agrees.routines (known before) routine
    · cases List.mem_singleton.mp new
      cases other.symm.trans routine
  unfold setCurrent current
  split
  next empty =>
    rw [empty]
    refine ⟨fun found => ?_, fun has routine => ?_⟩
    · obtain ⟨old, member, named⟩ := agrees.registered found
      exact ⟨old, List.mem_append_left _ member, named⟩
    · obtain outer | ⟨scope, member, inside⟩ := has
      · exact fresh outer .inl routine
      · cases member
  next here outer inner =>
    rw [inner]
    refine ⟨fun found => agrees.registered found, fun has routine => ?_⟩
    obtain outside | ⟨scope, member, inside⟩ := has
    · exact agrees.routines (.inl outside) routine
    · cases member with
      | head =>
        exact fresh inside (fun before => .inr ⟨here, by rw [inner]; exact .head _, before⟩) routine
      | tail _ member => exact agrees.routines (.inr ⟨scope, by rw [inner]; exact .tail _ member, inside⟩) routine

end SymbolTable

end Pseudocode
