import Lox.Proofs.Lexical.Update
import Lox.Proofs.Relined.Tree

/-! Programs on other lines run alike. Under lexical scope no number of an occurrence is looked at, and
a line is looked at only to report it, so from machines that hold the same up to lines the same is
printed, and what is reported says the same. `Alongside` has one law for every way actions are put
together. -/
namespace Lox

section

variable (R : Nat → Nat → Prop) {ε : Type}

structure Closure.Relined (f f' : Closure ε) : Prop where
  declaration : f.declaration.Relined R f'.declaration
  scope : f.scope = f'.scope

structure Class.Relined (c c' : Class ε) : Prop where
  name : c.name = c'.name
  methods : FunctionDecl.AllRelined R c.methods c'.methods
  scope : c.scope = c'.scope

inductive Callable.Relined : Callable ε → Callable ε → Prop where
  | native : Relined (.native which) (.native which)
  | closure : Closure.Relined R f f' → Relined (.closure f) (.closure f')
  | ofClass : Class.Relined R c c' → Relined (.ofClass c) (.ofClass c')

/-- The same value, the functions in it written on other lines. -/
inductive Value.Relined : Value ε → Value ε → Prop where
  | nil : Relined .nil .nil
  | boolean : Relined (.boolean b) (.boolean b)
  | number : Relined (.number x) (.number x)
  | string : Relined (.string s) (.string s)
  | callable : what.Relined R what' → Relined (.callable identity what) (.callable identity what')
  | object : c.Relined R c' → Relined (.object i c) (.object i c')

inductive Stop.Relined : Stop ε → Stop ε → Prop where
  | raised : d.Relined R d' → Relined (.raised d) (.raised d')
  | returned : value.Relined R value' → R line line' →
      Relined (.returned value line) (.returned value' line')
  | meaningless : operator.Relined R operator' →
      Relined (.meaningless operator) (.meaningless operator')
  | exhausted : Relined .exhausted .exhausted

end

variable {R : Nat → Nat → Prop} {ε : Type}

theorem FunctionDecl.Relined.parameters {f f' : FunctionDecl} (related : f.Relined R f') :
    List.Forall₂ (Token.Relined R) f.parameters f'.parameters := by
  cases related
  assumption

theorem FunctionDecl.Relined.body {f f' : FunctionDecl} (related : f.Relined R f') :
    Stmt.AllRelined R f.body f'.body := by
  cases related
  assumption

theorem FunctionDecl.AllRelined.forall₂ {list list' : List FunctionDecl}
    (all : FunctionDecl.AllRelined R list list') : List.Forall₂ (FunctionDecl.Relined R) list list' := by
  cases all with
  | nil => exact .nil
  | cons first rest => exact .cons first rest.forall₂

/-- The later of two methods with one name is the same on both sides. -/
theorem Class.Relined.method? {c c' : Class ε} (related : c.Relined R c') (name : String) :
    Option.Rel (FunctionDecl.Relined R) (c.method? name) (c'.method? name) := by
  have backward := List.forall₂_reverse_iff.2 related.methods.forall₂
  rw [Class.method?, Class.method?]
  generalize c.methods.reverse = list, c'.methods.reverse = list' at backward ⊢
  induction backward with
  | nil => exact .none
  | cons first _ ih =>
    rw [List.find?_cons, List.find?_cons, first.name.lexeme]
    split
    · exact .some first
    · exact ih

theorem Callable.Relined.arity_eq {what what' : Callable ε} (related : what.Relined R what') :
    what.arity = what'.arity := by
  cases related with
  | closure f => exact f.declaration.parameters.length_eq
  | native | ofClass => rfl

theorem Callable.Relined.text_eq {what what' : Callable ε} (related : what.Relined R what') :
    what.text = what'.text := by
  cases related with
  | native => rfl
  | closure f => rw [Callable.text, Callable.text, f.declaration.name.lexeme]
  | ofClass c => exact c.name

namespace Value.Relined

variable {a a' b b' : Value ε}

theorem ofConstant (c : Constant) : Value.Relined R (ofConstant c : Value ε) (.ofConstant c) := by
  cases c <;> constructor

theorem truthy_eq (related : a.Relined R a') : a.truthy = a'.truthy := by
  cases related <;> rfl

theorem same_eq (left : a.Relined R a') (right : b.Relined R b') : a.same b = a'.same b' := by
  cases left <;> cases right <;> rfl

theorem text_eq (related : a.Relined R a') : a.text = a'.text := by
  cases related with
  | callable what => exact what.text_eq
  | object c => rw [Value.text, Value.text, c.name]
  | nil | boolean | number | string => rfl

theorem kind_eq (related : a.Relined R a') : a.kind = a'.kind := by
  cases related with
  | callable what => cases what <;> rfl
  | object | nil | boolean | number | string => rfl

theorem shown_eq (related : a.Relined R a') : a.shown = a'.shown := by
  have constants : a.constant? = a'.constant? := by cases related <;> rfl
  rw [shown, shown, related.kind_eq, related.text_eq, constants]

end Value.Relined

theorem decides_eq {operator operator' : Token} {a a' : Value ε} (same : operator.Relined R operator')
    (related : a.Relined R a') : Run.decides operator a = Run.decides operator' a' := by
  rw [Run.decides, Run.decides, same.kind, related.truthy_eq]

namespace Lexical

section

variable (R : Nat → Nat → Prop)

/-- Machines that hold the same, up to the lines of functions. -/
structure Machine.Relined (m m' : Machine) : Prop where
  globals : ∀ name, Option.Rel (Value.Relined R) (m.globals.get? name) (m'.globals.get? name)
  size : m.cells.size = m'.cells.size
  cells : ∀ c, Option.Rel (Value.Relined R) (m.content c) (m'.content c)
  instances : m.objects.size = m'.objects.size
  fields : ∀ (i : ObjectId) (name : String), Option.Rel (Value.Relined R)
    (Bindings.get? name (m.objects[i]?.getD [])) (Bindings.get? name (m'.objects[i]?.getD []))
  depth : m.depth = m'.depth
  identities : m.identities = m'.identities
  readings : m.readings = m'.readings
  sink : m.sink = m'.sink

/-- Both actions come to their end, with results that `V` relates, or both stop for one reason. -/
inductive Together (V : α → α → Prop) : EStateM.Result (Stop Environment) Machine α →
    EStateM.Result (Stop Environment) Machine α → Prop where
  | ok : V a a' → m.Relined R m' → Together V (.ok a m) (.ok a' m')
  | error : s.Relined R s' → m.Relined R m' → Together V (.error s m) (.error s' m')

def Alongside (V : α → α → Prop) (x x' : Run α) : Prop :=
  ∀ ⦃m m' : Machine⦄, m.Relined R m' → Together R V (x m) (x' m')

end

variable {R : Nat → Nat → Prop}

namespace Alongside

variable {V : α → α → Prop} {W : β → β → Prop}

theorem pure (related : V a a') : Alongside R V (pure a) (pure a') := fun _ _ same => .ok related same

theorem throw (related : s.Relined R s') : Alongside R V (throw s) (throw s') :=
  fun _ _ same => .error related same

theorem raise (later : R line line') : Alongside R V (Lox.Run.raise line e) (Lox.Run.raise line' e) :=
  throw (.raised (.runtime later))

theorem bind {x x' : Run α} {f f' : α → Run β} (first : Alongside R V x x')
    (second : ∀ a a', V a a' → Alongside R W (f a) (f' a')) :
    Alongside R W (x >>= f) (x' >>= f') := by
  intro m m' same
  have joined := first same
  simp only [Bind.bind, EStateM.bind]
  generalize x m = r, x' m' = r' at joined ⊢
  cases joined with
  | ok related later => exact second _ _ related later
  | error related later => exact .error related later

/-- Whatever the result is, something fixed is given instead. -/
theorem instead {x x' : Run α} {b b' : β} (first : Alongside R V x x') (related : W b b') :
    Alongside R W (x >>= fun _ => Pure.pure b) (x' >>= fun _ => Pure.pure b') :=
  first.bind fun _ _ _ => pure related

theorem get {f f' : Machine → Run β}
    (second : ∀ m m', m.Relined R m' → Alongside R W (f m) (f' m')) :
    Alongside R W (get >>= f) (get >>= f') := fun m m' same => second m m' same same

theorem counted {x x' : Run α} (related : Alongside R V x x') :
    Alongside R V (Run.counted x) (Run.counted x') := by
  intro m m' same
  have inside : Machine.Relined R { m with depth := m.depth + 1 } { m' with depth := m'.depth + 1 } :=
    { same with cells := same.cells, depth := by rw [same.depth] }
  have joined := related inside
  rw [Run.counted, Run.counted]
  generalize x _ = r, x' _ = r' at joined ⊢
  cases joined with
  | ok both later => exact .ok both { later with cells := later.cells, depth := by rw [later.depth] }
  | error both later => exact .error both { later with cells := later.cells, depth := by rw [later.depth] }

theorem returning {x x' : Run Unit} (related : Alongside R (fun _ _ => True) x x') :
    Alongside R (Value.Relined R) (Lox.Run.returning x) (Lox.Run.returning x') := by
  intro m m' same
  have joined := related same
  rw [Lox.Run.returning, Lox.Run.returning]
  generalize x m = r, x' m' = r' at joined ⊢
  cases joined with
  | ok _ later => exact .ok .nil later
  | error stopped later =>
    cases stopped with
    | returned value _ => exact .ok value later
    | raised report => exact .error (.raised report) later
    | meaningless operator => exact .error (.meaningless operator) later
    | exhausted => exact .error .exhausted later

theorem repeating {condition condition' : Run (Value Environment)} {body body' : Run Unit}
    (tested : Alongside R (Value.Relined R) condition condition')
    (round : Alongside R (fun _ _ => True) body body') (bound : Nat) :
    Alongside R (fun _ _ => True) (Lox.Run.repeating condition body bound)
      (Lox.Run.repeating condition' body' bound) := by
  induction bound with
  | zero => exact throw .exhausted
  | succ bound ih =>
    rw [Lox.Run.repeating, Lox.Run.repeating]
    refine tested.bind fun a a' value => ?_
    rw [value.truthy_eq]
    split
    · exact round.bind fun _ _ _ => ih
    · exact pure trivial

end Alongside

section

open Lox.Run (applyUnary applyBinary numeric add)

variable {a a' b b' value value' : Value Environment} {operator operator' name name' : Token}

theorem applyUnary_relined (same : operator.Relined R operator') (related : a.Relined R a') :
    Alongside R (Value.Relined R) (applyUnary operator a) (applyUnary operator' a') := by
  rw [applyUnary, applyUnary, same.kind]
  split
  · cases related with
    | number => exact .pure .number
    | _ => exact .raise same.line
  · rw [related.truthy_eq]
    exact .pure .boolean
  · exact .throw (.meaningless same)

theorem numeric_relined (same : operator.Relined R operator') (left : a.Relined R a')
    (right : b.Relined R b') {result : Float → Float → Value Environment}
    (refl : ∀ x y, Value.Relined R (result x y) (result x y)) :
    Alongside R (Value.Relined R) (numeric operator a b result) (numeric operator' a' b' result) := by
  cases left with
  | number =>
    cases right with
    | number => exact .pure (refl _ _)
    | nil | boolean | string | callable | object => exact .raise same.line
  | nil | boolean | string | callable | object => exact .raise same.line

theorem add_relined (same : operator.Relined R operator') (left : a.Relined R a')
    (right : b.Relined R b') :
    Alongside R (Value.Relined R) (add operator a b) (add operator' a' b') := by
  cases left with
  | number =>
    cases right with
    | number => exact .pure .number
    | nil | boolean | string | callable | object => exact .raise same.line
  | string =>
    cases right with
    | string => exact .pure .string
    | nil | boolean | number | callable | object => exact .raise same.line
  | nil | boolean | callable | object => exact .raise same.line

theorem applyBinary_relined (same : operator.Relined R operator') (left : a.Relined R a')
    (right : b.Relined R b') :
    Alongside R (Value.Relined R) (applyBinary operator a b) (applyBinary operator' a' b') := by
  rw [applyBinary, applyBinary, same.kind, left.same_eq right]
  split
  any_goals exact numeric_relined same left right fun _ _ => by constructor
  · exact .pure .boolean
  · exact .pure .boolean
  · exact add_relined same left right
  · exact .throw (.meaningless same)

end

end Lexical

end Lox
