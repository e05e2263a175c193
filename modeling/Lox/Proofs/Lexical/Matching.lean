import Lox.Proofs.Lexical.World
import Mathlib.Data.List.Forall2

/-! When a value, a reason to stop and a whole machine stand for one of lexical scope. Functions and
classes stand for each other if they were declared at the same place in the program: the scope the one
keeps and the environment the other keeps mirror the static scopes there, and resolution found no
error in them and noted how far out each name in them refers. -/
namespace Lox.Lexical

/-- No finding is an error, and every reference among them is known. -/
def Settled (w : World) (findings : List Finding) : Prop :=
  ∀ f ∈ findings, ∃ i name depth, f = .reference i name depth ∧ w.depth i = some depth

structure ClosureAlike (w : World) (f : Closure) (g : Closure Environment) : Prop where
  declaration : f.declaration = g.declaration
  placed : f.declaration.Placed
  mirrors : ∃ here : Surroundings, Mirrors w here.scopes f.scope g.scope ∧
    Settled w (f.declaration.findings here)

structure ClassAlike (w : World) (c : Class) (d : Class Environment) : Prop where
  name : c.name = d.name
  methods : c.methods = d.methods
  placed : FunctionDecl.AllPlaced c.methods
  mirrors : ∃ here : Surroundings, Mirrors w here.scopes c.scope d.scope ∧
    Settled w (FunctionDecl.allFindings here.inMethods c.methods)

inductive CallableAlike (w : World) : Callable → Callable Environment → Prop where
  | native : CallableAlike w (.native which) (.native which)
  | closure : ClosureAlike w f g → CallableAlike w (.closure f) (.closure g)
  | ofClass : ClassAlike w c d → CallableAlike w (.ofClass c) (.ofClass d)

inductive Alike (w : World) : Value → Value Environment → Prop where
  | nil : Alike w .nil .nil
  | boolean : Alike w (.boolean b) (.boolean b)
  | number : Alike w (.number x) (.number x)
  | string : Alike w (.string s) (.string s)
  | callable : CallableAlike w what what' → Alike w (.callable identity what) (.callable identity what')
  | object : ClassAlike w c d → Alike w (.object object c) (.object object d)

inductive StopAlike (w : World) : Stop → Stop Environment → Prop where
  | raised : StopAlike w (.raised d) (.raised d)
  | returned : Alike w value value' → StopAlike w (.returned value line) (.returned value' line)
  | meaningless : StopAlike w (.meaningless operator) (.meaningless operator)
  | exhausted : StopAlike w .exhausted .exhausted

/-- The two stores of one run, as a world sees them, while statements of the scope `current` are
executed. -/
structure Matches (w : World) (current : ScopeId) (m : Lox.Machine) (r : Machine) : Prop where
  current : m.current = current
  inhabited : globals < m.scopes.list.size
  links : ∀ {i o}, w.outer i = some o → m.scopes.enclosing? i = some o
  linked : ∀ {i}, i < m.scopes.list.size → i ≠ globals → (w.outer i).isSome
  placed : ∀ {i name c}, w.cell i name = some c → (w.outer i).isSome
  bounded : ∀ {i name c}, w.cell i name = some c → c < r.cells.size
  injective : ∀ {i name j other c}, w.cell i name = some c → w.cell j other = some c →
    i = j ∧ name = other
  locals : ∀ {i}, i ≠ globals → ∀ name, Option.Rel (Alike w) ((m.scopes.bindings i).get? name)
    ((w.cell i name).bind r.content)
  shared : ∀ name, Option.Rel (Alike w) ((m.scopes.bindings globals).get? name)
    (r.globals.get? name)
  instances : m.objects.size = r.objects.size
  fields : ∀ (i : ObjectId) (name : String), Option.Rel (Alike w) (Bindings.get? name (m.objects[i]?.getD []))
    (Bindings.get? name (r.objects[i]?.getD []))
  depth : m.depth = r.depth
  identities : m.identities = r.identities
  readings : m.readings = r.readings
  sink : m.sink = r.sink
  noted : ∀ i, m.distances[i]? = (w.depth i).join

section

variable {w v : World}

namespace Settled

variable {a b : List Finding}

theorem mono (le : w ≤ v) (settled : Settled w a) : Settled v a := by
  intro f member
  obtain ⟨i, name, depth, rfl, known⟩ := settled f member
  exact ⟨i, name, depth, rfl, le.depth known⟩

theorem left (settled : Settled w (a ++ b)) : Settled w a :=
  fun f member => settled f (List.mem_append_left _ member)

theorem right (settled : Settled w (a ++ b)) : Settled w b :=
  fun f member => settled f (List.mem_append_right _ member)

theorem of_referring {here : Surroundings} {i : Occurrence} {name : Token}
    (settled : Settled w [here.referring i name]) : w.depth i = some (here.depth? name) := by
  obtain ⟨j, other, depth, same, known⟩ := settled _ (List.mem_singleton.2 rfl)
  cases same
  exact known

/-- What is declared without an error is not declared in its scope yet. -/
theorem not_holds {here : Surroundings} {name : Token} (settled : Settled w (here.redeclaring name)) :
    here.holds name = false := by
  cases holds : here.holds name with
  | false => rfl
  | true =>
    obtain ⟨j, other, depth, same, -⟩ :=
      settled (.refused name .redeclared) (by simp [Surroundings.redeclaring, holds])
    cases same

theorem of_method {here : Surroundings} {list : List FunctionDecl} {f : FunctionDecl}
    (settled : Settled w (FunctionDecl.allFindings here list)) (member : f ∈ list) :
    Settled w (f.findings here) :=
  fun g part => settled g (FunctionDecl.findings_subset here member part)

end Settled

theorem ClosureAlike.mono {f : Closure} {g : Closure Environment} (le : w ≤ v)
    (alike : ClosureAlike w f g) : ClosureAlike v f g := by
  obtain ⟨here, mirrors, settled⟩ := alike.mirrors
  exact ⟨alike.declaration, alike.placed, here, mirrors.mono le, settled.mono le⟩

theorem ClassAlike.mono {c : Class} {d : Class Environment} (le : w ≤ v)
    (alike : ClassAlike w c d) : ClassAlike v c d := by
  obtain ⟨here, mirrors, settled⟩ := alike.mirrors
  exact ⟨alike.name, alike.methods, alike.placed, here, mirrors.mono le, settled.mono le⟩

theorem CallableAlike.mono {c : Callable} {d : Callable Environment} (le : w ≤ v)
    (alike : CallableAlike w c d) : CallableAlike v c d := by
  cases alike with
  | native => exact .native
  | closure alike => exact .closure (alike.mono le)
  | ofClass alike => exact .ofClass (alike.mono le)

theorem Alike.mono {a : Value} {b : Value Environment} (le : w ≤ v) (alike : Alike w a b) :
    Alike v a b := by
  cases alike with
  | callable alike => exact .callable (alike.mono le)
  | object alike => exact .object (alike.mono le)
  | _ => constructor

theorem rel_mono {a : Option Value} {b : Option (Value Environment)} (le : w ≤ v)
    (related : Option.Rel (Alike w) a b) : Option.Rel (Alike v) a b := by
  cases related with
  | some alike => exact .some (alike.mono le)
  | none => exact .none

theorem Alike.truthy_eq {a : Value} {b : Value Environment} (alike : Alike w a b) :
    a.truthy = b.truthy := by
  cases alike <;> rfl

theorem CallableAlike.arity_eq {c : Callable} {d : Callable Environment}
    (alike : CallableAlike w c d) : c.arity = d.arity := by
  cases alike with
  | closure alike => simp [Callable.arity, alike.declaration]
  | _ => rfl

theorem Alike.text_eq {a : Value} {b : Value Environment} (alike : Alike w a b) :
    a.text = b.text := by
  cases alike with
  | callable alike =>
    cases alike with
    | native => rfl
    | closure alike => simp [Value.text, Callable.text, alike.declaration]
    | ofClass alike => simp [Value.text, Callable.text, alike.name]
  | object alike => simp [Value.text, alike.name]
  | _ => rfl

theorem Alike.kind_eq {a : Value} {b : Value Environment} (alike : Alike w a b) :
    a.kind = b.kind := by
  cases alike with
  | callable alike => cases alike <;> rfl
  | _ => rfl

theorem Alike.shown_eq {a : Value} {b : Value Environment} (alike : Alike w a b) :
    a.shown = b.shown := by
  have constants : a.constant? = b.constant? := by cases alike <;> rfl
  rw [Value.shown, Value.shown, alike.kind_eq, alike.text_eq, constants]

/-- Arguments that are shown alike are answered alike, whatever is asked. -/
theorem answers_of_shown {δ ε : Type} {P : Value δ → Value ε → Prop} {arguments : List (Value δ)}
    {arguments' : List (Value ε)} (which : Native) (now : Float)
    (all : List.Forall₂ P arguments arguments') (shown : ∀ a b, P a b → a.shown = b.shown) :
    ∃ given : Except String Constant, which.answer now arguments = given.map .ofConstant ∧
      which.answer now arguments' = given.map .ofConstant := by
  have same : arguments.map Value.shown = arguments'.map Value.shown := by
    rw [← List.forall₂_eq_eq_eq, List.forall₂_map_left_iff, List.forall₂_map_right_iff]
    exact all.imp shown
  exact ⟨which.function now (arguments'.map Value.shown), by rw [Native.answer, same], rfl⟩

theorem Alike.ofConstant (c : Constant) : Alike w (.ofConstant c) (.ofConstant c) := by
  cases c <;> constructor

theorem Alike.same_eq {a b : Value} {a' b' : Value Environment} (left : Alike w a a')
    (right : Alike w b b') : a.same b = a'.same b' := by
  cases left <;> cases right <;> rfl

theorem ClassAlike.method?_eq {c : Class} {d : Class Environment} (alike : ClassAlike w c d)
    (name : String) : c.method? name = d.method? name := by
  simp [Class.method?, alike.methods]

end

end Lox.Lexical
