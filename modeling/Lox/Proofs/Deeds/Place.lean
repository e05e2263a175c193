import Lox.Proofs.Deeds.Log
import Lox.Proofs.Deeds.Self
import Lox.Proofs.Scoping.Action
import Lox.Proofs.Static.Surroundings

/-! How a place in a program and the scope it is executed in go together: where statements are executed
and where, inside a statement, expressions are evaluated. -/
namespace Lox

/-- Where a class is around, `this` is bound. -/
def Surroundings.Classed (here : Surroundings) : Prop :=
  here.inClass = true → ∃ scope ∈ here.scopes, scope.binds Keyword.thisWord.spelling = true

theorem Surroundings.Classed.define {here : Surroundings} (classed : here.Classed) (name : Token) :
    (here.define name).Classed := by
  intro inside
  rw [Surroundings.define, inClass_hold] at inside
  obtain ⟨scope, member, bound⟩ := classed inside
  rw [Surroundings.define, hold]
  cases scopes : here.scopes with
  | nil => simp [scopes] at member
  | cons innermost outer =>
    rcases List.mem_cons.1 (scopes ▸ member) with rfl | later
    · exact ⟨_, List.mem_cons_self .., by rw [Bindings.binds_put, bound, Bool.or_true]⟩
    · exact ⟨scope, List.mem_cons_of_mem _ later, bound⟩

theorem Surroundings.Classed.inMethods (here : Surroundings) : here.inMethods.Classed := fun _ =>
  ⟨_, List.mem_cons_self .., by simp [Bindings.binds, Bindings.get?]⟩

/-- What is declared has no part in where another name is found. -/
theorem Surroundings.findIdx?_hold (here : Surroundings) {name : Token} {other : String}
    (readiness : Readiness) (different : other ≠ name.lexeme) :
    (here.hold name readiness).scopes.findIdx? (·.binds other) =
      here.scopes.findIdx? (·.binds other) := by
  rw [hold]
  cases scopes : here.scopes with
  | nil => simp [scopes]
  | cons innermost outer =>
    simp only [List.findIdx?_cons, Bindings.binds_put, different, decide_false, Bool.false_or]

/-- In a scope `this` stands for what it stands for around the function that is executed. -/
def Agrees (s : Scopes Value) (active : Option Closure) (i : ScopeId) : Prop :=
  ∀ f ∈ active, f.scope < s.list.size ∧ s.self? i = s.self? f.scope

variable {s t : Scopes Value} {here : Surroundings} {active : Option Closure} {site : Site}
  {i j : ScopeId} {name : Token}

theorem Agrees.mono (agrees : Agrees s active i) (preserves : s.Preserves t)
    (known : i < s.list.size) : Agrees t active i := by
  intro f member
  obtain ⟨older, same⟩ := agrees f member
  refine ⟨Nat.lt_of_lt_of_le older preserves.le.size, ?_⟩
  rw [preserves.self? known, preserves.self? older, same]

/-- A scope in which statements are executed: its own names are those declared before, and no variable
is being declared. -/
structure Stands (s : Scopes Value) (here : Surroundings) (active : Option Closure) (i : ScopeId) :
    Prop where
  follows : Follows s here.scopes i
  own : ∀ innermost ∈ here.scopes.head?, ∀ name,
    (s.bindings i).binds name = true → innermost.binds name = true
  settled : ∀ name, here.isPending name = false
  classed : here.Classed
  agrees : Agrees s active i

namespace Stands

theorem known (stands : Stands s here active i) (rooted : s.Rooted) : i < s.list.size :=
  stands.follows.covers.lt_size rooted

theorem mono (stands : Stands s here active i) (rooted : s.Rooted) (keeps : s.Keeps none t) :
    Stands t here active i := by
  have known := stands.known rooted
  refine { stands with
    follows := stands.follows.mono keeps.preserves
    own := fun innermost member name bound => ?_
    agrees := stands.agrees.mono keeps.preserves known }
  rw [keeps.names i known (by simp)] at bound
  exact stands.own innermost member name bound

theorem define {value : Value} (stands : Stands s here active i) (rooted : s.Rooted)
    (other : name.lexeme ≠ Keyword.thisWord.spelling) :
    Stands (s.define i name.lexeme value) (here.define name) active i := by
  have known := stands.known rooted
  have keeps := Scopes.Keeps.define s i value other
  constructor
  · exact stands.follows.define other
  · intro innermost member name' bound
    rw [Surroundings.define, Surroundings.hold] at member
    cases scopes : here.scopes with
    | nil => simp [scopes] at member
    | cons first outer =>
      simp only [scopes, List.head?_cons, Option.mem_def, Option.some.injEq] at member
      subst member
      rw [Scopes.bindings_define_same known] at bound
      rw [Bindings.binds_put, Bool.or_eq_true] at bound ⊢
      rcases bound with new | before
      · exact .inl new
      · exact .inr (stands.own first (by simp [scopes]) name' before)
  · intro later
    by_cases inside : here.scopes = []
    · rw [Surroundings.define, Surroundings.hold_of_nil inside]
      exact stands.settled later
    · rw [← Bool.not_eq_true, Surroundings.define, Surroundings.isPending_hold inside]
      simp [stands.settled]
  · exact stands.classed.define name
  · exact stands.agrees.mono keeps.preserves known

/-- A scope without names in another one: that of a block, or that of a call. -/
theorem fresh {function : Bool} (follows : Follows s here.scopes i) (classed : here.Classed)
    (agrees : Agrees s active i) (linked : s.enclosing? j = some i) (empty : s.bindings j = []) :
    Stands s { here.enter [] with inFunction := function } active j := by
  have free (name : String) : (s.bindings j).binds name = false := by
    rw [empty]
    rfl
  constructor
  · exact follows.enter linked (free _)
  · intro innermost _ name bound
    simp [free] at bound
  · exact fun name => rfl
  · intro inside
    obtain ⟨scope, member, bound⟩ := classed inside
    exact ⟨scope, List.mem_cons_of_mem _ member, bound⟩
  · intro f member
    rw [Scopes.self?_of_not_binds (free _), linked, Option.bind_some]
    exact agrees f member

end Stands

/-- A scope in which expressions are evaluated: what is found statically is there, but a variable that
is being declared is not. -/
structure Sees (s : Scopes Value) (here : Surroundings) (site : Site) (i : ScopeId) : Prop where
  known : i < s.list.size
  binds : ∀ (name : Token) distance, here.isPending name = false →
    here.depth? name = some distance →
    ∃ j, s.ancestor? i distance = some j ∧ (s.bindings j).binds name.lexeme = true
  pending : ∀ name : Token, here.isPending name = true → (s.bindings i).binds name.lexeme = false
  declaring : ∀ (name : Token) distance, here.depth? name = some distance →
    (here.isPending name = true ↔ site.declaring.map (·.lexeme) = some name.lexeme)
  this : here.inClass = true → ∃ distance j value,
    here.scopes.findIdx? (·.binds Keyword.thisWord.spelling) = some distance ∧
    s.ancestor? i distance = some j ∧
    (s.bindings j).get? Keyword.thisWord.spelling = some value ∧ s.self? i = some value
  agrees : Agrees s site.active i

namespace Sees

theorem mono (sees : Sees s here site i) (keeps : s.Keeps none t) : Sees t here site i := by
  constructor
  · exact Nat.lt_of_lt_of_le sees.known keeps.le.size
  · intro name distance ready depth
    obtain ⟨j, out, bound⟩ := sees.binds name distance ready depth
    exact ⟨j, keeps.le.ancestor? out, keeps.le.binds j _ bound⟩
  · intro name pending
    rw [keeps.names i sees.known (by simp), sees.pending name pending]
  · exact sees.declaring
  · intro inside
    obtain ⟨distance, j, value, found, out, bound, same⟩ := sees.this inside
    have older : j < s.list.size := by
      by_contra unknown
      rw [Scopes.bindings_of_size_le (Nat.le_of_not_lt unknown)] at bound
      cases bound
    refine ⟨distance, j, value, found, keeps.le.ancestor? out, ?_, ?_⟩
    · rw [keeps.preserves.this j older, bound]
    · rw [keeps.preserves.self? sees.known, same]
  · exact sees.agrees.mono keeps.preserves sees.known

/-- Where a class is around, what is found of `this` is what it stands for. -/
theorem this_of_follows (follows : Follows s here.scopes i) (classed : here.Classed)
    (inside : here.inClass = true) : ∃ distance j value,
      here.scopes.findIdx? (·.binds Keyword.thisWord.spelling) = some distance ∧
      s.ancestor? i distance = some j ∧
      (s.bindings j).get? Keyword.thisWord.spelling = some value ∧ s.self? i = some value := by
  obtain ⟨scope, member, bound⟩ := classed inside
  cases found : here.scopes.findIdx? (·.binds Keyword.thisWord.spelling) with
  | none => simp [List.findIdx?_eq_none_iff.1 found scope member] at bound
  | some distance =>
    obtain ⟨j, value, rest⟩ := follows.self? found
    exact ⟨distance, j, value, rfl, rest⟩

theorem of_stands (stands : Stands s here active i) (rooted : s.Rooted) :
    Sees s here ⟨active, none⟩ i := by
  constructor
  · exact stands.known rooted
  · exact fun name distance _ depth => stands.follows.covers.found depth
  · intro name pending
    simp [stands.settled] at pending
  · intro name distance _
    simp [stands.settled]
  · exact this_of_follows stands.follows stands.classed
  · exact stands.agrees

/-- In the initializer of a variable that is new in its scope. -/
theorem declare (stands : Stands s here active i) (rooted : s.Rooted)
    (free : here.holds name = false) (other : name.lexeme ≠ Keyword.thisWord.spelling) :
    Sees s (here.declare name) ⟨active, some name⟩ i := by
  rw [Surroundings.declare, if_neg (by simp [free])]
  by_cases inside : here.scopes = []
  · rw [Surroundings.hold_of_nil inside]
    have nowhere (name : Token) : here.depth? name = none := by
      simp [Surroundings.depth?, inside]
    refine { of_stands stands rooted with declaring := fun name distance depth => ?_ }
    simp [nowhere] at depth
  · have isPending (later : Token) : (here.hold name .pending).isPending later = true ↔
        name.lexeme = later.lexeme := by
      rw [Surroundings.isPending_hold inside]
      simp [stands.settled]
    constructor
    · exact stands.known rooted
    · intro later distance ready depth
      have different : later.lexeme ≠ name.lexeme := by
        intro same
        rw [(isPending later).2 same.symm] at ready
        cases ready
      rw [Surroundings.depth?, Surroundings.findIdx?_hold here .pending different] at depth
      exact stands.follows.covers.found depth
    · intro later pending
      have same := (isPending later).1 pending
      cases bound : (s.bindings i).binds later.lexeme with
      | false => rfl
      | true =>
        cases scopes : here.scopes with
        | nil => exact absurd scopes inside
        | cons innermost outer =>
          have held := stands.own innermost (by simp [scopes]) _ bound
          rw [Surroundings.holds, scopes] at free
          simp [same, held] at free
    · intro later distance _
      rw [isPending]
      simp
    · intro inside
      rw [Surroundings.inClass_hold] at inside
      rw [Surroundings.findIdx?_hold here .pending (Ne.symm other)]
      exact this_of_follows stands.follows stands.classed inside
    · exact stands.agrees

end Sees

end Lox
