import Lox.Resolution
import Lox.Run

/-! How a store of scopes may change while programs run, and what the chain of scopes outward from
one of them looks like: it comes to the globals, and it binds what the static scopes around a place
in the program bind. -/
namespace Lox

namespace Scopes

variable {α : Type} {s t u : Scopes α} {i j outer : ScopeId} {name : String} {value : α}

/-- Scopes may be added and names bound, but no name is lost and no link is changed. -/
structure Extends (s t : Scopes α) : Prop where
  size : s.list.size ≤ t.list.size
  enclosing : ∀ i < s.list.size, t.enclosing? i = s.enclosing? i
  binds : ∀ i name, (s.bindings i).binds name = true → (t.bindings i).binds name = true

instance : LE (Scopes α) := ⟨Extends⟩

theorem le_refl (s : Scopes α) : s ≤ s := ⟨Nat.le_refl _, fun _ _ => rfl, fun _ _ bound => bound⟩

theorem le_trans (first : s ≤ t) (second : t ≤ u) : s ≤ u := by
  refine ⟨Nat.le_trans first.size second.size, fun i known => ?_, fun i name bound => ?_⟩
  · rw [second.enclosing i (Nat.lt_of_lt_of_le known first.size), first.enclosing i known]
  · exact second.binds i name (first.binds i name bound)

@[simp] theorem size_add (s : Scopes α) (enclosing : Option ScopeId) :
    (s.add enclosing).1.list.size = s.list.size + 1 := by
  simp [add]

@[simp] theorem size_define (s : Scopes α) (i : ScopeId) (name : String) (value : α) :
    (s.define i name value).list.size = s.list.size := by
  simp [define]

theorem le_add (s : Scopes α) (enclosing : Option ScopeId) : s ≤ (s.add enclosing).1 := by
  refine ⟨by simp, fun i known => enclosing?_add_of_ne (Nat.ne_of_lt known), fun i name bound => ?_⟩
  rwa [bindings_add]

theorem lt_size_of_enclosing? (linked : s.enclosing? i = some outer) : i < s.list.size := by
  obtain ⟨scope, found, -⟩ := Option.bind_eq_some_iff.1 linked
  exact (Array.getElem?_eq_some_iff.1 found).1

theorem bindings_of_size_le (unknown : s.list.size ≤ i) : s.bindings i = [] := by
  simp [bindings, unknown]

theorem bindings_define (s : Scopes α) (i j : ScopeId) (name : String) (value : α) :
    (s.define i name value).bindings j =
      if j = i ∧ i < s.list.size then (s.bindings i).put name value else s.bindings j := by
  by_cases same : j = i
  · obtain rfl := same
    by_cases known : j < s.list.size
    · rw [if_pos ⟨rfl, known⟩, bindings_define_same known]
    · have unknown := Nat.le_of_not_lt known
      rw [if_neg (fun both => known both.2), bindings_of_size_le (by simpa using unknown),
        bindings_of_size_le unknown]
  · rw [if_neg (fun both => same both.1), bindings_define_of_ne same]

theorem le_define (s : Scopes α) (i : ScopeId) (name : String) (value : α) :
    s ≤ s.define i name value := by
  refine ⟨by simp, fun j _ => enclosing?_define j, fun j other bound => ?_⟩
  rw [bindings_define]
  split
  next here => rw [Bindings.binds_put, ← here.1, bound, Bool.or_true]
  next => exact bound

theorem ancestor?_add (s : Scopes α) (i : ScopeId) (a b : Nat) :
    s.ancestor? i (a + b) = (s.ancestor? i a).bind (s.ancestor? · b) := by
  induction a generalizing i with
  | zero => simp [ancestor?]
  | succ a ih =>
    rw [Nat.succ_add, ancestor?, ancestor?, Option.bind_assoc]
    exact congrArg _ (funext ih)

/-- The chain goes to older and older scopes. -/
theorem ancestor?_lt {distance : Nat} (out : s.ancestor? i (distance + 1) = some j) : j < i := by
  induction distance generalizing i with
  | zero =>
    obtain ⟨o, linked, last⟩ := Option.bind_eq_some_iff.1 out
    cases last
    exact enclosing?_lt linked
  | succ distance ih =>
    obtain ⟨o, linked, further⟩ := Option.bind_eq_some_iff.1 out
    exact Nat.lt_trans (ih further) (enclosing?_lt linked)

/-- The chain of scopes outward comes back to no scope, and the globals are the end of it. -/
structure Grounded (s : Scopes α) (i : ScopeId) : Prop where
  acyclic : ∀ {a b j}, s.ancestor? i a = some j → s.ancestor? i b = some j → a = b
  ends : ∃ distance, s.ancestor? i distance = some globals ∧ s.ancestor? i (distance + 1) = none

/-- Every scope but that of the globals is in another. -/
structure Rooted (s : Scopes α) : Prop where
  inhabited : globals < s.list.size
  enclosed : ∀ i < s.list.size, i ≠ globals → (s.enclosing? i).isSome

theorem acyclic {a b : Nat} (first : s.ancestor? i a = some j) (second : s.ancestor? i b = some j) :
    a = b := by
  have apart {a b : Nat} (first : s.ancestor? i a = some j) (second : s.ancestor? i b = some j) :
      ¬a < b := by
    intro before
    obtain ⟨distance, rfl⟩ := Nat.exists_eq_add_of_lt before
    rw [Nat.add_assoc, ancestor?_add, first] at second
    exact Nat.lt_irrefl _ (ancestor?_lt second)
  exact Nat.le_antisymm (Nat.le_of_not_lt (apart second first)) (Nat.le_of_not_lt (apart first second))

theorem enclosing?_globals (s : Scopes α) : s.enclosing? globals = none := by
  cases linked : s.enclosing? globals with
  | none => rfl
  | some o => exact absurd (enclosing?_lt linked) (Nat.not_lt_zero _)

namespace Rooted

theorem ends (rooted : s.Rooted) (known : i < s.list.size) :
    ∃ distance, s.ancestor? i distance = some globals ∧ s.ancestor? i (distance + 1) = none := by
  induction i using Nat.strongRecOn with
  | ind i ih =>
    by_cases top : i = globals
    · obtain rfl := top
      exact ⟨0, rfl, by simp [ancestor?, enclosing?_globals]⟩
    · obtain ⟨o, linked⟩ := Option.isSome_iff_exists.1 (rooted.enclosed i known top)
      have older := enclosing?_lt linked
      obtain ⟨distance, found, last⟩ := ih o older (Nat.lt_trans older known)
      exact ⟨distance + 1, by rwa [ancestor?, linked, Option.bind_some], by
        rwa [ancestor?, linked, Option.bind_some]⟩

theorem grounded (rooted : s.Rooted) (known : i < s.list.size) : s.Grounded i :=
  ⟨acyclic, rooted.ends known⟩

theorem add (rooted : s.Rooted) (known : i < s.list.size) : (s.add (some i)).1.Rooted := by
  refine ⟨Nat.lt_of_lt_of_le rooted.inhabited (s.le_add _).size, fun j below apart => ?_⟩
  by_cases last : j = s.list.size
  · simp [last, enclosing?, Scopes.add, known]
  · rw [enclosing?_add_of_ne last]
    rw [size_add] at below
    have old : j < s.list.size := Nat.lt_of_le_of_ne (Nat.le_of_lt_succ below) last
    exact rooted.enclosed j old apart

theorem define (rooted : s.Rooted) (i : ScopeId) (name : String) (value : α) :
    (s.define i name value).Rooted := by
  refine ⟨by simpa using rooted.inhabited, fun j below apart => ?_⟩
  rw [enclosing?_define]
  exact rooted.enclosed j (by simpa using below) apart

end Rooted

end Scopes

/-- The chain from a scope goes along with the static scopes around a place and binds their names. It
may bind more. -/
inductive Covers {α : Type} (s : Scopes α) : List (Bindings Readiness) → ScopeId → Prop where
  | top : Covers s [] globals
  | inner : Covers s scopes outer → s.enclosing? i = some outer →
      (∀ name, innermost.binds name = true → (s.bindings i).binds name = true) →
      Covers s (innermost :: scopes) i

namespace Covers

variable {α : Type} {s t : Scopes α} {scopes : List (Bindings Readiness)} {here : Surroundings}
  {i j : ScopeId} {name : String} {distance : Nat}

theorem mono (le : s ≤ t) (covers : Covers s scopes i) : Covers t scopes i := by
  induction covers with
  | top => exact .top
  | inner _ linked bound ih =>
    have known := Scopes.lt_size_of_enclosing? linked
    refine .inner ih ?_ fun name static => le.binds _ name (bound name static)
    rw [le.enclosing _ known, linked]

theorem lt_size (rooted : s.Rooted) (covers : Covers s scopes i) : i < s.list.size := by
  cases covers with
  | top => exact rooted.inhabited
  | inner _ linked _ => exact Scopes.lt_size_of_enclosing? linked

/-- What is bound so many static scopes out is bound so many scopes out. -/
theorem found (covers : Covers s scopes i)
    (bound : scopes.findIdx? (·.binds name) = some distance) :
    ∃ j, s.ancestor? i distance = some j ∧ (s.bindings j).binds name = true := by
  induction covers generalizing distance with
  | top => simp at bound
  | @inner _ _ i _ _ linked known ih =>
    rw [List.findIdx?_cons] at bound
    split at bound
    next static =>
      cases bound
      exact ⟨i, rfl, known name static⟩
    next =>
      obtain ⟨d, deeper, rfl⟩ := Option.map_eq_some_iff.1 bound
      obtain ⟨j, out, binds⟩ := ih deeper
      exact ⟨j, by rwa [Scopes.ancestor?, linked, Option.bind_some], binds⟩

theorem enter (covers : Covers s scopes i) (linked : s.enclosing? j = some i) :
    Covers s ([] :: scopes) j :=
  .inner covers linked fun _ static => by cases static

theorem define {name : Token} {value : α} (covers : Covers s here.scopes i) :
    Covers (s.define i name.lexeme value) (here.define name).scopes i := by
  have later := covers.mono (s.le_define i name.lexeme value)
  rw [Surroundings.define, Surroundings.hold]
  cases scopes : here.scopes with
  | nil => rwa [scopes] at later ⊢
  | cons innermost outer =>
    rw [scopes] at covers later
    cases covers with
    | inner _ linked bound =>
      have known := Scopes.lt_size_of_enclosing? linked
      cases later with
      | inner around linked' bound' =>
        refine .inner around linked' fun other static => ?_
        rw [Bindings.binds_put, Bool.or_eq_true, decide_eq_true_iff] at static
        rcases static with rfl | before
        · rw [Scopes.bindings_define_same known, Bindings.binds_put]
          simp
        · exact bound' other before

end Covers

end Lox
