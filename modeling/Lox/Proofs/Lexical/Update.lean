import Lox.Proofs.Lexical.Matching

/-! Matching stores stay matched when both are changed alike. -/
namespace Lox

namespace Bindings

variable {α β : Type} {P : α → β → Prop} {objects : Array (Bindings α)}
  {objects' : Array (Bindings β)} {value : α} {value' : β} {name : String}

/-- Bindings that correspond still do after one name was bound in both. -/
theorem rel_put {b : Bindings α} {b' : Bindings β}
    (related : ∀ name, Option.Rel P (b.get? name) (b'.get? name)) (both : P value value')
    (other : String) :
    Option.Rel P ((b.put name value).get? other) ((b'.put name value').get? other) := by
  by_cases equal : other = name
  · simp [equal, both]
  · rw [get?_put_other _ equal, get?_put_other _ equal]
    exact related other

section

variable (size : objects.size = objects'.size) (related : ∀ (i : Nat) name,
  Option.Rel P (get? name (objects[i]?.getD [])) (get? name (objects'[i]?.getD [])))
include size related

theorem rel_push (i : Nat) (name : String) :
    Option.Rel P (get? name ((objects.push [])[i]?.getD []))
      (get? name ((objects'.push [])[i]?.getD [])) := by
  have before := related i name
  simp only [Array.getElem?_push]
  by_cases last : i = objects'.size
  · simp [last, size]
  · simpa [last, size] using before

theorem rel_modify (object : Nat) (both : P value value') (i : Nat) (other : String) :
    Option.Rel P (get? other ((objects.modify object (·.put name value))[i]?.getD []))
      (get? other ((objects'.modify object (·.put name value'))[i]?.getD [])) := by
  have before := related i
  simp only [Array.getElem?_modify]
  by_cases here : object = i
  · by_cases known : i < objects'.size
    · have known' : i < objects.size := size ▸ known
      simp only [here, known, known', Array.getElem?_eq_getElem, if_true, Option.map_some,
        Option.getD_some] at before ⊢
      exact rel_put before both other
    · have unknown : ¬ i < objects.size := size ▸ known
      simp [here, known, unknown]
  · simpa [here] using before other

end

end Bindings

namespace Lexical

namespace Matches

variable {w : World} {current i : ScopeId} {m : Lox.Machine} {r : Machine} {name : String} {c : Cell}
  {value : Value} {value' : Value Environment}

theorem ne_globals (matched : Matches w current m r) (local' : (w.outer i).isSome) : i ≠ globals := by
  obtain ⟨o, linked⟩ := Option.isSome_iff_exists.1 local'
  rintro rfl
  exact Nat.not_lt_zero _ (Scopes.enclosing?_lt (matched.links linked))

theorem lt_size (matched : Matches w current m r) (local' : (w.outer i).isSome) :
    i < m.scopes.list.size := by
  obtain ⟨o, linked⟩ := Option.isSome_iff_exists.1 local'
  obtain ⟨scope, found, -⟩ := Option.bind_eq_some_iff.1 (matched.links linked)
  exact (Array.getElem?_eq_some_iff.1 found).1

theorem outer_new (matched : Matches w current m r) : w.outer m.scopes.list.size = none := by
  cases linked : w.outer m.scopes.list.size with
  | none => rfl
  | some o => exact absurd (matched.lt_size (by simp [linked])) (Nat.lt_irrefl _)

theorem cell_new (matched : Matches w current m r) (new : w.outer i = none) (name : String) :
    w.cell i name = none := by
  cases held : w.cell i name with
  | none => rfl
  | some c => simpa [new] using matched.placed held

theorem ancestor? (matched : Matches w current m r) {distance : Nat} {j : ScopeId}
    (out : w.ancestor? i distance = some j) : m.scopes.ancestor? i distance = some j := by
  induction distance generalizing i with
  | zero => exact out
  | succ distance ih =>
    obtain ⟨o, linked, further⟩ := Option.bind_eq_some_iff.1 out
    rw [Scopes.ancestor?, matched.links linked]
    exact ih further

/-- A cell without content for a name that a local scope does not bind yet. -/
theorem newCell (matched : Matches w current m r) (local' : (w.outer i).isSome)
    (new : w.cell i name = none) : Matches (w.withCell i name r.cells.size) current m
      { r with cells := r.cells.push none } := by
  have le := (World.grows_withCell (c := r.cells.size) new).le
  have fresh {j other c} (held : w.cell j other = some c) : c ≠ r.cells.size :=
    Nat.ne_of_lt (matched.bounded held)
  have content : Machine.content { r with cells := r.cells.push none } = r.content := by
    funext c
    simp only [Machine.content, Array.getElem?_push]
    split
    next last => simp [last]
    next => rfl
  refine { matched with
    links := matched.links, linked := matched.linked, noted := matched.noted
    placed := ?_, bounded := ?_, injective := ?_, locals := ?_
    shared := fun name => rel_mono le (matched.shared name)
    fields := fun i name => rel_mono le (matched.fields i name) }
  · intro j other d held
    by_cases same : j = i ∧ other = name
    · exact same.1 ▸ local'
    · rw [World.cell_withCell_of_ne same] at held
      exact matched.placed held
  · intro j other d held
    rw [Array.size_push]
    by_cases same : j = i ∧ other = name
    · obtain ⟨rfl, rfl⟩ := same
      rw [World.cell_withCell_same] at held
      cases held
      exact Nat.lt_succ_self _
    · rw [World.cell_withCell_of_ne same] at held
      exact Nat.lt_succ_of_lt (matched.bounded held)
  · intro j other k another d held held'
    by_cases same : j = i ∧ other = name
    · by_cases same' : k = i ∧ another = name
      · exact ⟨same.1.trans same'.1.symm, same.2.trans same'.2.symm⟩
      · obtain ⟨rfl, rfl⟩ := same
        rw [World.cell_withCell_same] at held
        rw [World.cell_withCell_of_ne same'] at held'
        cases held
        exact absurd rfl (fresh held')
    · rw [World.cell_withCell_of_ne same] at held
      by_cases same' : k = i ∧ another = name
      · obtain ⟨rfl, rfl⟩ := same'
        rw [World.cell_withCell_same] at held'
        cases held'
        exact absurd rfl (fresh held)
      · rw [World.cell_withCell_of_ne same'] at held'
        exact matched.injective held held'
  · intro j apart other
    have before := rel_mono le (matched.locals apart other)
    by_cases same : j = i ∧ other = name
    · obtain ⟨rfl, rfl⟩ := same
      rw [World.cell_withCell_same, Option.bind_some, content]
      rw [new, Option.bind_none] at before
      simpa [Machine.content] using before
    · rw [World.cell_withCell_of_ne same]
      rwa [content]

/-- Whether a name of a local scope is assigned to or gets its first value makes no difference. -/
theorem setLocal (matched : Matches w current m r) (held : w.cell i name = some c)
    (alike : Alike w value value') : Matches w current
      { m with scopes := m.scopes.define i name value }
      { r with cells := r.cells.setIfInBounds c (some value') } := by
  have local' := matched.placed held
  have content (d : Cell) : Machine.content { r with cells := r.cells.setIfInBounds c (some value') } d =
      if d = c then some value' else r.content d := by
    have bounded := matched.bounded held
    simp only [Machine.content, Array.getElem?_setIfInBounds]
    by_cases same : d = c
    · simp [same, bounded]
    · simp [same, Ne.symm same]
  refine { matched with
    inhabited := ?_, links := ?_, linked := ?_, bounded := ?_, locals := ?_, shared := ?_ }
  · simpa [Scopes.define] using matched.inhabited
  · intro j o linked
    rw [Scopes.enclosing?_define]
    exact matched.links linked
  · intro j known
    exact matched.linked (by simpa [Scopes.define] using known)
  · intro j other d held
    simpa using matched.bounded held
  · intro j apart other
    have before := matched.locals apart other
    by_cases same : j = i
    · obtain rfl := same
      rw [Scopes.bindings_define_same (matched.lt_size local')]
      by_cases equal : other = name
      · obtain rfl := equal
        simp [held, content, alike]
      · rw [Bindings.get?_put_other _ equal]
        cases held' : w.cell j other with
        | none => simpa [held'] using before
        | some d =>
          have different : d ≠ c := by
            rintro rfl
            exact equal (matched.injective held' held).2
          simpa [held', content, different] using before
    · rw [Scopes.bindings_define_of_ne same]
      cases held' : w.cell j other with
      | none => simpa [held'] using before
      | some d =>
        have different : d ≠ c := by
          rintro rfl
          exact same (matched.injective held' held).1
        simpa [held', content, different] using before
  · intro other
    rw [Scopes.bindings_define_of_ne (Ne.symm (matched.ne_globals local'))]
    exact matched.shared other

theorem setGlobal (matched : Matches w current m r) (alike : Alike w value value') :
    Matches w current { m with scopes := m.scopes.define globals name value }
      { r with globals := r.globals.put name value' } := by
  refine { matched with
    inhabited := ?_, links := ?_, linked := ?_, locals := ?_, shared := ?_ }
  · simpa [Scopes.define] using matched.inhabited
  · intro j o linked
    rw [Scopes.enclosing?_define]
    exact matched.links linked
  · intro j known
    exact matched.linked (by simpa [Scopes.define] using known)
  · intro j apart other
    rw [Scopes.bindings_define_of_ne apart]
    exact matched.locals apart other
  · intro other
    rw [Scopes.bindings_define_same matched.inhabited]
    exact Bindings.rel_put matched.shared alike other

/-- One more scope inside one that is there. -/
theorem newScope (matched : Matches w current m r) (known : i < m.scopes.list.size) :
    Matches (w.withScope m.scopes.list.size i) current
      { m with scopes := (m.scopes.add (some i)).1 } r := by
  have le : w ≤ w.withScope m.scopes.list.size i := (World.grows_withScope matched.outer_new).le
  have size : (m.scopes.add (some i)).1.list.size = m.scopes.list.size + 1 := by
    simp [Scopes.add]
  refine { matched with
    inhabited := ?_, links := ?_, linked := ?_, placed := ?_, bounded := matched.bounded
    injective := matched.injective, locals := ?_, shared := ?_, noted := matched.noted
    fields := fun i name => rel_mono le (matched.fields i name) }
  · exact size ▸ Nat.lt_succ_of_lt matched.inhabited
  · intro j o linked
    by_cases same : j = m.scopes.list.size
    · obtain rfl := same
      rw [World.outer_withScope_same] at linked
      cases linked
      simp [Scopes.enclosing?, Scopes.add, known]
    · rw [World.outer_withScope_of_ne same] at linked
      rw [Scopes.enclosing?_add_of_ne same]
      exact matched.links linked
  · intro j below apart
    by_cases same : j = m.scopes.list.size
    · simp [same]
    · rw [World.outer_withScope_of_ne same]
      rw [size] at below
      exact matched.linked (by omega) apart
  · intro j other d held
    obtain ⟨o, linked⟩ := Option.isSome_iff_exists.1 (matched.placed held)
    simp [le.outer linked]
  · intro j apart other
    rw [Scopes.bindings_add]
    exact rel_mono le (matched.locals apart other)
  · intro other
    rw [Scopes.bindings_add]
    exact rel_mono le (matched.shared other)

theorem newObject (matched : Matches w current m r) : Matches w current
    { m with objects := m.objects.push [] } { r with objects := r.objects.push [] } :=
  { matched with
    instances := by simp [matched.instances]
    fields := Bindings.rel_push matched.instances matched.fields }

theorem setField (matched : Matches w current m r) (alike : Alike w value value')
    (object : ObjectId) : Matches w current
      { m with objects := m.objects.modify object (·.put name value) }
      { r with objects := r.objects.modify object (·.put name value') } :=
  { matched with
    instances := by simp [matched.instances]
    fields := Bindings.rel_modify matched.instances matched.fields object alike }

end Matches

end Lexical

end Lox
