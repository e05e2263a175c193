import Lox.Proofs.Grammar.Placement
import Lox.Proofs.Lexical.Reference

/-! What ties a store of scopes to one of cells. A world says which cell stands for a name in a scope,
which scope is around which, and how far out a resolved occurrence refers. Worlds only grow, and what
is said of values in one world is true in every later one. -/
namespace Lox.Lexical

structure World where
  /-- The cell of a name that a local scope binds, or is about to bind. -/
  cell : ScopeId → String → Option Cell
  outer : ScopeId → Option ScopeId
  /-- How many scopes out an occurrence refers, or that it refers to a global. -/
  depth : Occurrence → Option (Option Nat)

namespace World

variable {w v u : World} {i j outer : ScopeId} {name other : String} {c : Cell}

structure Extends (w v : World) : Prop where
  cell : ∀ {i name c}, w.cell i name = some c → v.cell i name = some c
  outer : ∀ {i o}, w.outer i = some o → v.outer i = some o
  depth : ∀ {i d}, w.depth i = some d → v.depth i = some d

instance : LE World := ⟨Extends⟩

theorem le_refl (w : World) : w ≤ w := ⟨fun h => h, fun h => h, fun h => h⟩

theorem le_trans (first : w ≤ v) (second : v ≤ u) : w ≤ u :=
  ⟨fun h => second.cell (first.cell h), fun h => second.outer (first.outer h),
    fun h => second.depth (first.depth h)⟩

/-- While statements are executed nothing is resolved, and of the scopes that were there only the
listed ones may have got names. -/
structure Grows (changing : List ScopeId) (w v : World) : Prop where
  le : w ≤ v
  depth : v.depth = w.depth
  frame : ∀ i ∉ changing, (w.outer i).isSome → v.cell i = w.cell i

namespace Grows

variable {changing more : List ScopeId}

theorem refl (w : World) : w.Grows changing w := ⟨le_refl w, rfl, fun _ _ _ => rfl⟩

theorem outer_isSome (grows : w.Grows changing v) (old : (w.outer i).isSome) :
    (v.outer i).isSome := by
  obtain ⟨o, linked⟩ := Option.isSome_iff_exists.1 old
  rw [grows.le.outer linked]
  rfl

theorem trans (first : w.Grows changing v) (second : v.Grows changing u) : w.Grows changing u := by
  refine ⟨le_trans first.le second.le, second.depth.trans first.depth, fun i apart old => ?_⟩
  rw [second.frame i apart (first.outer_isSome old), first.frame i apart old]

theorem weaken (grows : w.Grows changing v) (fewer : ∀ i ∈ changing, i ∈ more) :
    w.Grows more v :=
  ⟨grows.le, grows.depth, fun i apart => grows.frame i fun member => apart (fewer i member)⟩

/-- A scope that was not there need not be listed. -/
theorem of_new (grows : w.Grows (i :: changing) v) (new : w.outer i = none) :
    w.Grows changing v := by
  refine ⟨grows.le, grows.depth, fun j apart old => grows.frame j ?_ old⟩
  intro member
  rcases List.mem_cons.1 member with rfl | listed
  · simp [new] at old
  · exact apart listed

end Grows

/-- The scope so many steps out. -/
def ancestor? (w : World) (i : ScopeId) : (distance : Nat) → Option ScopeId
  | 0 => some i
  | distance + 1 => (w.outer i).bind (w.ancestor? · distance)

/-- The world in which a name has a cell. -/
def withCell (w : World) (i : ScopeId) (name : String) (c : Cell) : World :=
  { w with cell := fun j other => if j = i ∧ other = name then some c else w.cell j other }

/-- The world with one more scope. -/
def withScope (w : World) (i outer : ScopeId) : World :=
  { w with outer := fun j => if j = i then some outer else w.outer j }

@[simp] theorem cell_withCell_same : (w.withCell i name c).cell i name = some c := by
  simp [withCell]

theorem cell_withCell_of_ne (different : ¬(j = i ∧ other = name)) :
    (w.withCell i name c).cell j other = w.cell j other := by
  simp [withCell, different]

@[simp] theorem cell_withScope : (w.withScope i outer).cell = w.cell := rfl
@[simp] theorem outer_withScope_same : (w.withScope i outer).outer i = some outer := by
  simp [withScope]

theorem outer_withScope_of_ne (different : j ≠ i) :
    (w.withScope i outer).outer j = w.outer j := by
  simp [withScope, different]

theorem grows_withCell (new : w.cell i name = none) : w.Grows [i] (w.withCell i name c) := by
  refine ⟨⟨fun {j other d} held => ?_, fun held => held, fun held => held⟩, rfl, fun j apart _ => ?_⟩
  · rw [cell_withCell_of_ne, held]
    rintro ⟨rfl, rfl⟩
    simp [new] at held
  · funext other
    refine cell_withCell_of_ne fun same => ?_
    simp [same.1] at apart

theorem grows_withScope (new : w.outer i = none) : w.Grows [] (w.withScope i outer) := by
  refine ⟨⟨fun held => held, fun {j o} held => ?_, fun held => held⟩, rfl, fun _ _ _ => rfl⟩
  rw [outer_withScope_of_ne, held]
  rintro rfl
  simp [new] at held

end World

/-- A place in the program seen three ways: the static scopes around it, the scope it is executed in,
and its environment. The scopes may since have got names that the place does not know. -/
inductive Mirrors (w : World) : List (Bindings Readiness) → ScopeId → Environment → Prop where
  | top : Mirrors w [] globals .top
  | inner : Mirrors w scopes outer around → w.outer i = some outer →
      (∀ name, innermost.binds name = true → (w.cell i name).isSome) →
      (∀ name, names.get? name =
        if innermost.binds name then w.cell i name else around.cell? name) →
      Mirrors w (innermost :: scopes) i (.inner names)

variable {w v : World} {scopes : List (Bindings Readiness)} {innermost : Bindings Readiness}
  {i j : ScopeId} {name : String} {c : Cell} {e : Environment}

namespace Mirrors

theorem mono (le : w ≤ v) (mirrors : Mirrors w scopes i e) : Mirrors v scopes i e := by
  induction mirrors with
  | top => exact .top
  | inner _ linked bound same ih =>
    refine .inner ih (le.outer linked) (fun name binds => ?_) fun name => ?_
    · obtain ⟨c, held⟩ := Option.isSome_iff_exists.1 (bound name binds)
      simp [le.cell held]
    · rw [same]
      split
      next binds =>
        obtain ⟨c, held⟩ := Option.isSome_iff_exists.1 (bound name binds)
        rw [held, le.cell held]
      next => rfl

/-- A name that is bound so many static scopes out is bound so many scopes out. -/
theorem found (mirrors : Mirrors w scopes i e)
    (bound : scopes.findIdx? (·.binds name) = some distance) : ∃ j c,
      w.ancestor? i distance = some j ∧ w.cell j name = some c ∧ e.cell? name = some c := by
  induction mirrors generalizing distance with
  | top => simp at bound
  | @inner _ _ _ i _ _ _ linked known same ih =>
    rw [List.findIdx?_cons] at bound
    split at bound
    next binds =>
      cases bound
      obtain ⟨c, held⟩ := Option.isSome_iff_exists.1 (known name binds)
      exact ⟨i, c, rfl, held, by simp [same, binds, held]⟩
    next absent =>
      obtain ⟨d, deeper, rfl⟩ := Option.map_eq_some_iff.1 bound
      obtain ⟨j, c, out, held, seen⟩ := ih deeper
      refine ⟨j, c, by simp [World.ancestor?, linked, out], held, ?_⟩
      simp [same, absent, seen]

theorem not_found (mirrors : Mirrors w scopes i e)
    (unbound : scopes.findIdx? (·.binds name) = none) : e.cell? name = none := by
  induction mirrors with
  | top => rfl
  | inner _ _ _ same ih =>
    rw [List.findIdx?_cons] at unbound
    split at unbound
    next => cases unbound
    next absent =>
      simp [same, absent, ih (Option.map_eq_none_iff.1 unbound)]

theorem enter (mirrors : Mirrors w scopes i e) (linked : w.outer j = some i) :
    Mirrors w ([] :: scopes) j e.enter := by
  have none (name : String) : Bindings.binds ([] : Bindings Readiness) name = false := rfl
  cases e with
  | top => exact .inner mirrors linked (by simp [none]) (by simp [none])
  | inner names => exact .inner mirrors linked (by simp [none]) (by simp [none])

theorem declare (mirrors : Mirrors w (innermost :: scopes) i e) (new : w.cell i name = none)
    (readiness : Readiness) : Mirrors (w.withCell i name c) (innermost.put name readiness :: scopes)
      i (e.extend name c) := by
  have grown := (World.grows_withCell (c := c) new).le
  cases mirrors with
  | inner around linked bound same =>
    refine .inner (around.mono grown) linked (fun other binds => ?_) fun other => ?_
    · by_cases equal : other = name
      · simp [equal]
      · rw [Bindings.binds_put, Bool.or_eq_true, decide_eq_true_iff] at binds
        obtain ⟨d, held⟩ := Option.isSome_iff_exists.1 (bound other (binds.resolve_left equal))
        simp [grown.cell held]
    · by_cases equal : other = name
      · simp [equal, Bindings.binds_put]
      · rw [Bindings.get?_put_other _ equal, same, Bindings.binds_put,
          World.cell_withCell_of_ne (by simp [equal])]
        simp [equal]

theorem scope_known (mirrors : Mirrors w scopes i e) : i = globals ∨ (w.outer i).isSome := by
  cases mirrors with
  | top => exact .inl rfl
  | inner _ linked _ _ => exact .inr (by simp [linked])

end Mirrors

end Lox.Lexical
