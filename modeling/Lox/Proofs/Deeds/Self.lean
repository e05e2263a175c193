import Lox.Proofs.Scoping.Chain

/-! What `this` stands for in a scope, and how a store of scopes changes while a program runs: `this`
stands for what it stood for, and no scope gets a name but the one whose statements are executed. -/
namespace Lox

namespace Scopes

variable {s t u : Scopes Value} {i j outer : ScopeId} {name : String} {value : Value}

/-- The value that `this` is bound to in the nearest scope, going outward, that binds it. -/
def self? (s : Scopes Value) (i : ScopeId) : Option Value :=
  (s.holder? i Keyword.thisWord.spelling).bind fun j =>
    (s.bindings j).get? Keyword.thisWord.spelling

theorem self?_of_get? (bound : (s.bindings i).get? Keyword.thisWord.spelling = some value) :
    s.self? i = some value := by
  have here : (s.bindings i).binds Keyword.thisWord.spelling = true := by
    simp [Bindings.binds, bound]
  rw [self?, holder?, if_pos here, Option.bind_some, bound]

theorem self?_of_not_binds (free : (s.bindings i).binds Keyword.thisWord.spelling = false) :
    s.self? i = (s.enclosing? i).bind s.self? := by
  rw [self?, holder?, if_neg (by simp [free])]
  split
  next none => rw [none, Option.bind_none, Option.bind_none]
  next outer linked => rw [linked, Option.bind_some, self?]

/-- Scopes may be added and names bound, but `this` is not bound anew where it could be seen before. -/
structure Preserves (s t : Scopes Value) : Prop where
  le : s ≤ t
  this : ∀ i < s.list.size,
    (t.bindings i).get? Keyword.thisWord.spelling = (s.bindings i).get? Keyword.thisWord.spelling

namespace Preserves

theorem refl (s : Scopes Value) : Preserves s s := ⟨le_refl s, fun _ _ => rfl⟩

theorem trans (first : Preserves s t) (second : Preserves t u) : Preserves s u := by
  refine ⟨le_trans first.le second.le, fun i known => ?_⟩
  rw [second.this i (Nat.lt_of_lt_of_le known first.le.size), first.this i known]

theorem self? (preserves : Preserves s t) (known : i < s.list.size) : t.self? i = s.self? i := by
  induction i using Nat.strongRecOn with
  | ind i ih =>
    have same := preserves.this i known
    cases bound : (s.bindings i).get? Keyword.thisWord.spelling with
    | some value => rw [self?_of_get? (same.trans bound), self?_of_get? bound]
    | none =>
      rw [self?_of_not_binds (by simp [Bindings.binds, same, bound]),
        self?_of_not_binds (by simp [Bindings.binds, bound]), preserves.le.enclosing i known]
      cases linked : s.enclosing? i with
      | none => rfl
      | some outer =>
        have older := enclosing?_lt linked
        exact ih outer older (Nat.lt_trans older known)

end Preserves

/-- What was there is preserved, and of the scopes that were there only the one that is changing may
get names. -/
structure Keeps (changing : Option ScopeId) (s t : Scopes Value) : Prop where
  preserves : Preserves s t
  names : ∀ i < s.list.size, changing ≠ some i →
    ∀ name, (t.bindings i).binds name = (s.bindings i).binds name

/-- What changes inside an action changes in the whole of it, or is new. -/
def Admits (changing : Option ScopeId) (s : Scopes Value) (inner : Option ScopeId) : Prop :=
  ∀ j, inner = some j → changing = some j ∨ s.list.size ≤ j

variable {changing inner : Option ScopeId}

namespace Admits

theorem refl : Admits changing s changing := fun _ same => .inl same

theorem none : Admits changing s none := nofun

theorem new (unknown : s.list.size ≤ i) : Admits changing s (some i) := fun _ same =>
  .inr (Option.some.inj same ▸ unknown)

end Admits

namespace Keeps

theorem refl (s : Scopes Value) : Keeps changing s s := ⟨.refl s, fun _ _ _ _ => rfl⟩

theorem le (keeps : Keeps changing s t) : s ≤ t := keeps.preserves.le

theorem widen (keeps : Keeps inner s t) (admits : Admits changing s inner) : Keeps changing s t := by
  refine ⟨keeps.preserves, fun i known apart name => keeps.names i known (fun same => ?_) name⟩
  rcases admits i same with same | new
  · exact apart same
  · exact Nat.lt_irrefl _ (Nat.lt_of_lt_of_le known new)

theorem trans (first : Keeps changing s t) (second : Keeps inner t u)
    (admits : Admits changing s inner) : Keeps changing s u := by
  refine ⟨first.preserves.trans second.preserves, fun i known apart name => ?_⟩
  have other : inner ≠ some i := by
    intro same
    rcases admits i same with same | new
    · exact apart same
    · exact Nat.lt_irrefl _ (Nat.lt_of_lt_of_le known new)
  rw [second.names i (Nat.lt_of_lt_of_le known first.le.size) other, first.names i known apart]

theorem add (s : Scopes Value) (enclosing : Option ScopeId) :
    Keeps changing s (s.add enclosing).1 := by
  refine ⟨⟨s.le_add enclosing, fun i _ => ?_⟩, fun i _ _ name => ?_⟩ <;> rw [bindings_add]

theorem define (s : Scopes Value) (i : ScopeId) (value : Value) (other : name ≠ Keyword.thisWord.spelling) :
    Keeps (some i) s (s.define i name value) := by
  refine ⟨⟨s.le_define i name value, fun j _ => ?_⟩, fun j _ apart _ => ?_⟩
  · rw [bindings_define]
    split
    next here => rw [Bindings.get?_put_other _ (Ne.symm other), here.1]
    next => rfl
  · rw [bindings_define_of_ne fun same => apart (congrArg some same.symm)]

/-- A name that is bound anew where it was bound is no further name. -/
theorem replace (value : Value) (other : name ≠ Keyword.thisWord.spelling)
    (bound : (s.bindings i).binds name = true) : Keeps changing s (s.define i name value) := by
  refine ⟨(define s i value other).preserves, fun j _ _ later => ?_⟩
  rw [bindings_define]
  split
  next here =>
    rw [Bindings.binds_put, here.1]
    by_cases same : later = name
    · rw [same, bound, Bool.or_true]
    · rw [decide_eq_false same, Bool.false_or]
  next => rfl

end Keeps

end Scopes

/-- The chain from a scope goes along with the static scopes around a place, binds their names, and
binds `this` only where they do. -/
inductive Follows (s : Scopes Value) : List (Bindings Readiness) → ScopeId → Prop where
  | top : Follows s [] globals
  | inner : Follows s scopes outer → s.enclosing? i = some outer →
      (∀ name, innermost.binds name = true → (s.bindings i).binds name = true) →
      ((s.bindings i).binds Keyword.thisWord.spelling = true →
        innermost.binds Keyword.thisWord.spelling = true) →
      Follows s (innermost :: scopes) i

namespace Follows

variable {s t : Scopes Value} {scopes : List (Bindings Readiness)} {here : Surroundings}
  {i j : ScopeId} {distance : Nat}

theorem covers (follows : Follows s scopes i) : Covers s scopes i := by
  induction follows with
  | top => exact .top
  | inner _ linked bound _ ih => exact .inner ih linked bound

theorem mono (preserves : s.Preserves t) (follows : Follows s scopes i) : Follows t scopes i := by
  induction follows with
  | top => exact .top
  | inner _ linked bound own ih =>
    have known := Scopes.lt_size_of_enclosing? linked
    refine .inner ih ?_ (fun name static => preserves.le.binds _ name (bound name static)) ?_
    · rw [preserves.le.enclosing _ known, linked]
    · rwa [Bindings.binds, preserves.this _ known]

theorem enter (follows : Follows s scopes i) (linked : s.enclosing? j = some i)
    (free : (s.bindings j).binds Keyword.thisWord.spelling = false) :
    Follows s ([] :: scopes) j :=
  .inner follows linked (fun _ static => by cases static) fun bound => by simp [free] at bound

theorem define {name : Token} {value : Value} (follows : Follows s here.scopes i)
    (other : name.lexeme ≠ Keyword.thisWord.spelling) :
    Follows (s.define i name.lexeme value) (here.define name).scopes i := by
  have later := follows.mono (Scopes.Keeps.define s i value other).preserves
  rw [Surroundings.define, Surroundings.hold]
  cases scopes : here.scopes with
  | nil => rwa [scopes] at later ⊢
  | cons innermost outer =>
    rw [scopes] at follows later
    cases follows with
    | inner _ linked bound own =>
      have known := Scopes.lt_size_of_enclosing? linked
      cases later with
      | inner around linked' bound' own' =>
        refine .inner around linked' (fun name' static => ?_) fun this => ?_
        · rw [Bindings.binds_put, Bool.or_eq_true, decide_eq_true_iff] at static
          rcases static with rfl | before
          · rw [Scopes.bindings_define_same known, Bindings.binds_put]
            simp
          · exact bound' name' before
        · rw [Bindings.binds_put, own' this, Bool.or_true]

/-- In a method `this` is the only name of its scope. -/
theorem inMethods {value : Value} (follows : Follows s here.scopes i)
    (linked : s.enclosing? j = some i)
    (bound : s.bindings j = [(Keyword.thisWord.spelling, value)]) :
    Follows s here.inMethods.scopes j := by
  refine .inner follows linked (fun name static => ?_) fun _ => ?_
  · rw [bound]
    simpa [Bindings.binds, Bindings.get?] using static
  · simp [Bindings.binds, Bindings.get?]

/-- The scope that `this` is found in statically is the nearest one that binds it. -/
theorem self? (follows : Follows s scopes i)
    (found : scopes.findIdx? (·.binds Keyword.thisWord.spelling) = some distance) :
    ∃ j value, s.ancestor? i distance = some j ∧
      (s.bindings j).get? Keyword.thisWord.spelling = some value ∧ s.self? i = some value := by
  induction follows generalizing distance with
  | top => simp at found
  | @inner _ _ i innermost _ linked bound own ih =>
    rw [List.findIdx?_cons] at found
    split at found
    next static =>
      cases found
      obtain ⟨value, here⟩ := Option.isSome_iff_exists.1 (bound _ static)
      exact ⟨i, value, rfl, here, Scopes.self?_of_get? here⟩
    next apart =>
      obtain ⟨d, deeper, rfl⟩ := Option.map_eq_some_iff.1 found
      obtain ⟨j, value, out, here, same⟩ := ih deeper
      have free : (s.bindings i).binds Keyword.thisWord.spelling = false := by
        cases binds : (s.bindings i).binds Keyword.thisWord.spelling with
        | false => rfl
        | true => exact absurd (own binds) apart
      refine ⟨j, value, ?_, here, ?_⟩
      · rwa [Scopes.ancestor?, linked, Option.bind_some]
      · rwa [Scopes.self?_of_not_binds free, linked, Option.bind_some]

end Follows

end Lox
