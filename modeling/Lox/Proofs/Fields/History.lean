import Lox.Proofs.Deeds.Log
import Lox.Proofs.Depth.Starts
import Lox.Proofs.Scoping.Lookup

/-! Histories of instances: what the stores of a log leave in the fields, and which classes were called
to make the instances. Each entry of a log happens in the fields that the entries before it have left. -/
namespace Lox

section

variable {σ ι : Type} (fits : σ → ι → Prop) (behind : σ → ι → σ)

/-- Each item fits what the items before it have left. -/
def Along : σ → List ι → Prop
  | _, [] => True
  | s, i :: rest => fits s i ∧ Along (behind s i) rest

end

namespace Along

variable {σ ι : Type} {fits : σ → ι → Prop} {behind : σ → ι → σ} {s : σ} {a b : List ι} {i : ι}

theorem append (first : Along fits behind s a) (second : Along fits behind (a.foldl behind s) b) :
    Along fits behind s (a ++ b) := by
  induction a generalizing s with
  | nil => exact second
  | cons i rest ih => exact ⟨first.1, ih first.2 second⟩

theorem at_split (along : Along fits behind s (a ++ i :: b)) : fits (a.foldl behind s) i := by
  induction a generalizing s with
  | nil => exact along.1
  | cons i rest ih => exact ih along.2

end Along

/-- What the fields of instances hold. -/
abbrev Contents := ObjectId → String → Option Value

def Machine.contents (m : Machine) : Contents := fun id name =>
  Bindings.get? name (m.objects[id]?.getD [])

def Contents.put (f : Contents) (id : ObjectId) (name : String) (value : Value) : Contents :=
  fun other n => if other = id ∧ n = name then some value else f other n

/-- Only a store changes anything, and that in one field of one instance. -/
def Contents.behind (f : Contents) (e : Entry) : Contents :=
  match e.deed with
  | .store id name value => f.put id name.lexeme value
  | _ => f

/-- The value that is stored in a field of an instance. -/
def Entry.stored? (id : ObjectId) (name : String) (e : Entry) : Option Value :=
  match e.deed with
  | .store other n value => if id = other ∧ name = n.lexeme then some value else none
  | _ => none

/-- The value of the last store to a field of an instance. -/
def lastStored (log : List Entry) (id : ObjectId) (name : String) : Option Value :=
  log.reverse.findSome? (·.stored? id name)

theorem Contents.behind_apply (f : Contents) (e : Entry) (id : ObjectId) (name : String) :
    f.behind e id name = (e.stored? id name).or (f id name) := by
  rw [behind, Entry.stored?]
  cases e.deed with
  | store other n value =>
    simp only [put]
    split <;> rfl
  | _ => rfl

theorem Contents.foldl_behind (f : Contents) (log : List Entry) (id : ObjectId) (name : String) :
    log.foldl behind f id name = (lastStored log id name).or (f id name) := by
  induction log generalizing f with
  | nil => rfl
  | cons e rest ih =>
    have last : lastStored (e :: rest) id name =
        (lastStored rest id name).or (e.stored? id name) := by
      rw [lastStored, List.reverse_cons, List.findSome?_append]
      simp [lastStored]
    rw [List.foldl_cons, ih, behind_apply, last, Option.or_assoc]

/-- The class whose call begins. -/
def Start.class? (s : Start) : Option Class :=
  match s.what with
  | .ofClass c => some c
  | _ => none

/-- The classes that are called, in the order of the calls. -/
def classesCalled (starts : List Start) : List Class := starts.filterMap Start.class?

/-- The classes of the instances, behind a call that begins. -/
def madeBehind (made : List Class) (s : Start) : List Class := made ++ s.class?.toList

theorem foldl_madeBehind (made : List Class) (starts : List Start) :
    starts.foldl madeBehind made = made ++ classesCalled starts := by
  induction starts generalizing made with
  | nil => simp [classesCalled]
  | cons s rest ih =>
    rw [List.foldl_cons, ih, madeBehind, List.append_assoc, classesCalled, classesCalled]
    cases called : s.class? <;> simp [called]

section

variable (made : List Class)

/-- The classes tell which instances there are, and of which class each is: the first instance is of the
first class, and so on. A callable has an identity that was given away. -/
def Value.Known (m : Machine) : Value → Prop
  | .object id c => made[id]? = some c
  | .callable identity _ => identity < m.identities
  | .nil | .boolean _ | .number _ | .string _ => True

/-- All that is held in a scope or in a field is known, and so many instances were made. -/
structure Machine.Populated (m : Machine) : Prop where
  size : m.objects.size = made.length
  values : ∀ i name v, (m.scopes.bindings i).get? name = some v → v.Known made m
  fields : ∀ id name v, m.contents id name = some v → v.Known made m

def Stop.Known (m : Machine) : Stop → Prop
  | .returned value _ => value.Known made m
  | .raised _ | .meaningless _ | .exhausted => True

/-- What is done is done to what is known. -/
def Deed.Known (m : Machine) : Deed → Prop
  | .property object _ => object.Known made m
  | .store id _ value => (∃ c, made[id]? = some c) ∧ value.Known made m
  | .rest | .execute _ | .this _ _ | .assign _ _ _ => True

end

/-- An entry in whose machine some of the instances were made, those of the first classes. -/
def Entry.Known (made : List Class) (e : Entry) : Prop :=
  ∃ now, now <+: made ∧ e.machine.Populated now ∧ e.deed.Known now e.machine

/-- More instances and more callables. -/
structure Later (made : List Class) (m : Machine) (made' : List Class) (m' : Machine) : Prop where
  classes : made <+: made'
  identities : m.identities ≤ m'.identities

variable {made made' : List Class} {m m' k : Machine}

theorem Value.Known.mono {v : Value} (later : Later made m made' m') (known : v.Known made m) :
    v.Known made' m' := by
  cases v with
  | object id c =>
    obtain ⟨more, joined⟩ := later.classes
    have here : made[id]? = some c := known
    have there : (made ++ more)[id]? = some c := by
      rw [List.getElem?_append_left (List.getElem?_eq_some_iff.1 here).1, here]
    exact joined ▸ there
  | callable identity what => exact Nat.lt_of_lt_of_le known later.identities
  | _ => trivial

theorem Value.ofConstant_known (c : Constant) : (Value.ofConstant c : Value).Known made m := by
  cases c <;> trivial

/-- An instance that is known has its place among the instances. -/
theorem Machine.Populated.lt_size {id : ObjectId} {c : Class} (populated : m.Populated made)
    (known : made[id]? = some c) : id < m.objects.size := by
  rw [populated.size]
  exact (List.getElem?_eq_some_iff.1 known).1

theorem Machine.contents_congr (same : m'.objects = m.objects) : m'.contents = m.contents := by
  unfold contents
  rw [same]

/-- Instances and their fields are the same, and no more is known. -/
theorem Machine.Populated.of_scopes (populated : m.Populated made) (same : m'.objects = m.objects)
    (le : m.identities ≤ m'.identities)
    (values : ∀ i name v, (m'.scopes.bindings i).get? name = some v → v.Known made m') :
    m'.Populated made := by
  refine ⟨same ▸ populated.size, values, fun id name v held => ?_⟩
  rw [contents_congr same] at held
  exact (populated.fields id name v held).mono ⟨List.prefix_rfl, le⟩

end Lox
