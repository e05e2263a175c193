import Lox.Proofs.Relined.Running

/-! Expressions, statements and calls on other lines: by induction on the tree, and for calls on the
bound, since a function's body is executed with a smaller one. -/
namespace Lox.Lexical

open Lox.Lexical.Run

variable {R : Nat → Nat → Prop}

section

variable {a a' value value' object object' : Value Environment} {name name' : Token}

theorem newCell_relined : Alongside R (· = ·) newCell newCell := by
  intro m m' same
  refine .ok same.size { same with
    size := by simp [same.size], fields := same.fields, cells := fun c => ?_ }
  have before := same.cells c
  simp only [Machine.content, Array.getElem?_push, same.size] at before ⊢
  split
  · exact .none
  · exact before

theorem setCell_relined (cell : Cell) (same : value.Relined R value') :
    Alongside R (fun _ _ => True) (setCell cell value) (setCell cell value') := by
  intro m m' related
  refine .ok trivial { related with
    size := by simp [related.size], fields := related.fields, cells := fun c => ?_ }
  have before := related.cells c
  simp only [Machine.content, Array.getElem?_setIfInBounds, related.size] at before ⊢
  split
  · split
    · exact .some same
    · exact .none
  · exact before

theorem setGlobal_relined (name : String) (same : value.Relined R value') :
    Alongside R (fun _ _ => True) (setGlobal name value) (setGlobal name value') :=
  fun _ _ related => .ok trivial
    { related with cells := related.cells, globals := Bindings.rel_put related.globals same }

theorem undefined_relined {V : α → α → Prop} (same : name.Relined R name') :
    Alongside R V (undefined name) (undefined name') := by
  rw [undefined, undefined, same.lexeme]
  exact .raise same.line

theorem isSome_eq_of_rel {P : α → β → Prop} {x : Option α} {y : Option β} (related : Option.Rel P x y) :
    x.isSome = y.isSome := by
  cases related <;> rfl

theorem read_relined (e : Environment) (same : name.Relined R name') :
    Alongside R (Value.Relined R) (read e name) (read e name') := by
  refine .get fun m m' related => ?_
  dsimp only
  rw [same.lexeme]
  cases e.cell? name'.lexeme with
  | none =>
    have known := related.globals name'.lexeme
    dsimp only
    generalize m.globals.get? name'.lexeme = content, m'.globals.get? name'.lexeme = content' at known ⊢
    cases known with
    | none => exact undefined_relined same
    | some value => exact .pure value
  | some cell =>
    have known := related.cells cell
    dsimp only
    generalize m.content cell = content, m'.content cell = content' at known ⊢
    cases known with
    | none => exact undefined_relined same
    | some value => exact .pure value

theorem assign_relined (e : Environment) (same : name.Relined R name') (given : value.Relined R value') :
    Alongside R (fun _ _ => True) (assign e name value) (assign e name' value') := by
  refine .get fun m m' related => ?_
  rw [same.lexeme]
  cases e.cell? name'.lexeme with
  | none =>
    dsimp only
    rw [Bindings.binds, Bindings.binds, isSome_eq_of_rel (related.globals _)]
    split
    · exact setGlobal_relined _ given
    · exact undefined_relined same
  | some cell =>
    dsimp only
    rw [isSome_eq_of_rel (related.cells cell)]
    split
    · exact setCell_relined cell given
    · exact undefined_relined same

theorem declare_relined (e : Environment) (same : name.Relined R name')
    {given given' : Environment → Run (Value Environment)}
    (related : ∀ inside, Alongside R (Value.Relined R) (given inside) (given' inside)) :
    Alongside R (· = ·) (declare e name given) (declare e name' given') := by
  cases e with
  | top =>
    rw [declare, declare, same.lexeme]
    refine (related .top).bind fun _ _ value => ?_
    exact (setGlobal_relined _ value).instead rfl
  | inner names =>
    rw [declare, declare, same.lexeme]
    refine newCell_relined.bind fun cell _ equal => ?_
    subst equal
    refine (related _).bind fun _ _ value => ?_
    exact (setCell_relined cell value).instead rfl

theorem newCallable_relined {what what' : Callable Environment} (related : what.Relined R what') :
    Alongside R (Value.Relined R) (newCallable what) (newCallable what') := by
  intro m m' same
  refine .ok ?_ { same with cells := same.cells, identities := by rw [same.identities] }
  rw [same.identities]
  exact .callable related

theorem newObject_relined {c c' : Class Environment} (related : c.Relined R c') :
    Alongside R (Value.Relined R) (newObject c) (newObject c') := by
  intro m m' same
  refine .ok ?_ { same with
    cells := same.cells, instances := by simp [same.instances]
    fields := Bindings.rel_push same.instances same.fields }
  rw [same.instances]
  exact .object related

theorem field?_relined (i : ObjectId) (name : String) :
    Alongside R (Option.Rel (Value.Relined R)) (field? i name) (field? i name) :=
  fun _ _ same => .ok (same.fields i name) same

theorem setField_relined (i : ObjectId) (name : String) (related : value.Relined R value') :
    Alongside R (fun _ _ => True) (setField i name value) (setField i name value') :=
  fun _ _ same => .ok trivial { same with
    cells := same.cells, instances := by simp [same.instances]
    fields := Bindings.rel_modify same.instances same.fields i related }

theorem write_relined (text : String) : Alongside R (fun _ _ => True) (write text) (write text) := by
  intro m m' same
  rw [write, write, same.sink]
  split
  · exact .error (.raised .sinkClosed) same
  · exact .ok trivial { same with cells := same.cells, sink := rfl }

theorem printLine_relined (related : value.Relined R value') :
    Alongside R (fun _ _ => True) (printLine value) (printLine value') := by
  rw [printLine, printLine, related.text_eq]
  exact (write_relined _).bind fun _ _ _ => write_relined _

theorem clock_relined (host : Host) : Alongside R (· = ·) (clock host) (clock host) := by
  intro m m' same
  refine .ok ?_ { same with cells := same.cells, readings := by rw [same.readings] }
  rw [same.readings]

theorem bindMethod_relined {c c' : Class Environment} {f f' : FunctionDecl}
    (instance' : object.Relined R object') (ofClass : c.Relined R c') (method : f.Relined R f') :
    Alongside R (Value.Relined R) (bindMethod object c f) (bindMethod object' c' f') := by
  rw [bindMethod, bindMethod, ofClass.scope]
  refine newCell_relined.bind fun cell _ equal => ?_
  subst equal
  refine (setCell_relined cell instance').bind fun _ _ _ => ?_
  exact newCallable_relined (.closure ⟨method, rfl⟩)

theorem property_relined (related : object.Relined R object') (same : name.Relined R name') :
    Alongside R (Value.Relined R) (property object name) (property object' name') := by
  cases related with
  | @object i c c' ofClass =>
    rw [property, property, same.lexeme]
    refine (field?_relined _ _).bind fun _ _ field => ?_
    cases field with
    | some value => exact .pure value
    | none =>
      have method := ofClass.method? name'.lexeme
      dsimp only
      generalize c.method? name'.lexeme = f, c'.method? name'.lexeme = f' at method ⊢
      cases method with
      | some method => exact bindMethod_relined (.object ofClass) ofClass method
      | none => exact .raise same.line
  | nil | boolean | number | string | callable =>
    rw [property, property]
    · exact .raise same.line
    all_goals simp

end

/-- Values that correspond are called alike. -/
def CallersRelined (R : Nat → Nat → Prop) (call call' : Caller) : Prop :=
  ∀ {callee callee' arguments arguments' line line'}, callee.Relined R callee' →
    List.Forall₂ (Value.Relined R) arguments arguments' → R line line' →
    Alongside R (Value.Relined R) (call callee arguments line) (call' callee' arguments' line')

section

variable {call call' : Caller}

mutual

theorem evaluate_relined (callers : CallersRelined R call call') (e : Environment) :
    Expr.Relined R x x' →
    Alongside R (Value.Relined R) (evaluate call e x) (evaluate call' e x')
  | .constant => by
    rw [evaluate, evaluate]
    exact .pure (.ofConstant _)
  | .group part => by
    rw [evaluate, evaluate]
    exact evaluate_relined callers e part
  | .unary operator operand => by
    rw [evaluate, evaluate]
    exact (evaluate_relined callers e operand).bind fun _ _ value => applyUnary_relined operator value
  | .binary left operator right => by
    rw [evaluate, evaluate]
    refine (evaluate_relined callers e left).bind fun _ _ first => ?_
    exact (evaluate_relined callers e right).bind fun _ _ second =>
      applyBinary_relined operator first second
  | .logical left operator right => by
    rw [evaluate, evaluate]
    refine (evaluate_relined callers e left).bind fun _ _ first => ?_
    rw [decides_eq operator first]
    split
    · exact .pure first
    · exact evaluate_relined callers e right
  | .read name => by
    rw [evaluate, evaluate]
    exact read_relined e name
  | .assign name value => by
    rw [evaluate, evaluate]
    refine (evaluate_relined callers e value).bind fun _ _ given => ?_
    exact (assign_relined e name given).instead given
  | .call callee closing arguments => by
    rw [evaluate, evaluate]
    refine (evaluate_relined callers e callee).bind fun _ _ called => ?_
    exact (evaluateAll_relined callers e arguments).bind fun _ _ all => callers called all closing.line
  | .get object name => by
    rw [evaluate, evaluate]
    exact (evaluate_relined callers e object).bind fun _ _ value => property_relined value name
  | .set object name value => by
    rw [evaluate, evaluate]
    refine (evaluate_relined callers e object).bind fun _ _ changed => ?_
    cases changed with
    | object _ =>
      refine (evaluate_relined callers e value).bind fun _ _ given => ?_
      rw [name.lexeme]
      exact (setField_relined _ _ given).instead given
    | nil | boolean | number | string | callable => exact .raise name.line
  | .this keyword => by
    rw [evaluate, evaluate]
    exact read_relined e keyword

theorem evaluateAll_relined (callers : CallersRelined R call call') (e : Environment) :
    Expr.AllRelined R list list' →
    Alongside R (List.Forall₂ (Value.Relined R)) (evaluateAll call e list) (evaluateAll call' e list')
  | .nil => by
    rw [evaluateAll, evaluateAll]
    exact .pure .nil
  | .cons first rest => by
    rw [evaluateAll, evaluateAll]
    refine (evaluate_relined callers e first).bind fun _ _ value => ?_
    exact (evaluateAll_relined callers e rest).bind fun _ _ all => .pure (.cons value all)

end

theorem valueOf_relined (callers : CallersRelined R call call') (e : Environment)
    (related : Option.Rel (Expr.Relined R) x x') :
    Alongside R (Value.Relined R) (valueOf call e x) (valueOf call' e x') := by
  cases related with
  | none => exact .pure .nil
  | some value => exact evaluate_relined callers e value

mutual

theorem execute_relined (callers : CallersRelined R call call') (bound : Nat) (e : Environment) :
    Stmt.Relined R s s' →
      Alongside R (· = ·) (execute call bound e s) (execute call' bound e s')
  | .expression value => by
    rw [execute, execute]
    exact (evaluate_relined callers e value).instead rfl
  | .print value => by
    rw [execute, execute]
    refine (evaluate_relined callers e value).bind fun _ _ printed => ?_
    exact (printLine_relined printed).instead rfl
  | .var name value => by
    rw [execute, execute]
    exact declare_relined e name fun inside => valueOf_relined callers inside value
  | .block body => by
    rw [execute, execute]
    exact (executeAll_relined callers bound _ body).instead rfl
  | .branch condition consequent => by
    rw [execute, execute]
    refine (evaluate_relined callers e condition).bind fun _ _ test => ?_
    rw [test.truthy_eq]
    split
    · exact (execute_relined callers bound e consequent).instead rfl
    · exact .pure rfl
  | .branchElse condition consequent alternative => by
    rw [execute, execute]
    refine (evaluate_relined callers e condition).bind fun _ _ test => ?_
    rw [test.truthy_eq]
    split
    · exact (execute_relined callers bound e consequent).instead rfl
    · exact (execute_relined callers bound e alternative).instead rfl
  | .loop condition body => by
    rw [execute, execute]
    have tested := evaluate_relined callers e condition
    have round := execute_relined callers bound e body
    exact (tested.repeating (round.instead trivial) bound).instead rfl
  | .function declaration => by
    rw [execute, execute]
    exact declare_relined e declaration.name fun inside =>
      newCallable_relined (.closure ⟨declaration, rfl⟩)
  | .ret keyword value => by
    rw [execute, execute]
    exact (valueOf_relined callers e value).bind fun _ _ given => .throw (.returned given keyword.line)
  | .classDecl name methods => by
    rw [execute, execute]
    exact declare_relined e name fun inside =>
      newCallable_relined (.ofClass ⟨name.lexeme, methods, rfl⟩)

theorem executeAll_relined (callers : CallersRelined R call call') (bound : Nat) (e : Environment) :
    Stmt.AllRelined R list list' → Alongside R (fun _ _ => True) (executeAll call bound e list)
      (executeAll call' bound e list')
  | .nil => by
    rw [executeAll, executeAll]
    exact .pure trivial
  | .cons first rest => by
    rw [executeAll, executeAll]
    refine (execute_relined callers bound e first).bind fun following _ equal => ?_
    subst equal
    exact executeAll_relined callers bound following rest

end

end

section

variable {arguments arguments' : List (Value Environment)} {line line' : Nat}

theorem bindEach_relined {parameters parameters' : List Token} (e : Environment)
    (names : List.Forall₂ (Token.Relined R) parameters parameters')
    (all : List.Forall₂ (Value.Relined R) arguments arguments') :
    Alongside R (· = ·) (bindEach e parameters arguments) (bindEach e parameters' arguments') := by
  induction names generalizing e arguments arguments' with
  | nil => exact .pure rfl
  | cons name _ ih =>
    cases all with
    | nil => exact .pure rfl
    | cons value rest =>
      rw [bindEach, bindEach, name.lexeme]
      refine newCell_relined.bind fun cell _ equal => ?_
      subst equal
      exact (setCell_relined cell value).bind fun _ _ _ => ih _ rest

theorem enter_relined {f f' : Closure Environment} {body body' : Environment → Run Unit}
    (related : f.Relined R f') (all : List.Forall₂ (Value.Relined R) arguments arguments')
    (inside : ∀ e, Alongside R (fun _ _ => True) (body e) (body' e)) :
    Alongside R (Value.Relined R) (enter f arguments body) (enter f' arguments' body') := by
  rw [enter, enter, related.scope]
  refine (bindEach_relined _ related.declaration.parameters all).bind fun e _ equal => ?_
  subst equal
  exact (inside e).returning

theorem admitted_relined {callee callee' : Value Environment} (limit : Option Nat)
    (related : callee.Relined R callee') (all : List.Forall₂ (Value.Relined R) arguments arguments')
    (at' : R line line') : Alongside R (Callable.Relined R) (admitted limit callee arguments line)
      (admitted limit callee' arguments' line') := by
  cases related with
  | callable what =>
    rw [admitted, admitted]
    simp only [what.arity_eq, all.length_eq]
    split
    · exact (Alongside.raise (V := fun _ _ => True) at').bind fun _ _ _ => .get fun m m' same => by
        rw [same.depth]
        split
        · exact (Alongside.raise (V := fun _ _ => True) at').bind fun _ _ _ => .pure what
        · exact .pure what
    · refine .get fun m m' same => ?_
      rw [same.depth]
      split
      · exact (Alongside.raise (V := fun _ _ => True) at').bind fun _ _ _ => .pure what
      · exact .pure what
  | nil | boolean | number | string | object => exact .raise at'

theorem admitting_relined {limit : Option Nat}
    {invoke invoke' : Callable Environment → List (Value Environment) → (line : Nat) →
      Run (Value Environment)}
    (related : ∀ {what what' arguments arguments' line line'}, what.Relined R what' →
      List.Forall₂ (Value.Relined R) arguments arguments' → R line line' →
      Alongside R (Value.Relined R) (invoke what arguments line) (invoke' what' arguments' line')) :
    CallersRelined R (admitting limit invoke) (admitting limit invoke') := by
  intro callee callee' arguments arguments' line line' called all at'
  refine (admitted_relined limit called all at').bind fun _ _ what => ?_
  exact (related what all at').counted

theorem answer_relined (now : Float) (which : Native)
    (all : List.Forall₂ (Value.Relined R) arguments arguments') (at' : R line line') :
    Alongside R (Value.Relined R) (match which.answer now arguments with
        | .ok value => pure value
        | .error text => Lox.Run.raise line (.native text))
      (match which.answer now arguments' with
        | .ok value => pure value
        | .error text => Lox.Run.raise line' (.native text)) := by
  obtain ⟨given, here, there⟩ := answers_of_shown which now all fun _ _ related => related.shown_eq
  rw [here, there]
  cases given with
  | ok c => exact .pure (.ofConstant c)
  | error text => exact .raise at'

theorem native_relined (host : Host) (which : Native)
    (all : List.Forall₂ (Value.Relined R) arguments arguments') (at' : R line line') (bound : Nat) :
    Alongside R (Value.Relined R) (invoke host bound (.native which) arguments line)
      (invoke host bound (.native which) arguments' line') := by
  cases bound <;> rw [invoke, invoke] <;> refine (clock_relined host).bind fun now _ equal => ?_ <;>
    subst equal <;> exact answer_relined now which all at'

theorem invoke_relined (host : Host) (bound : Nat) {what what' : Callable Environment}
    (related : what.Relined R what') (all : List.Forall₂ (Value.Relined R) arguments arguments')
    (at' : R line line') : Alongside R (Value.Relined R) (invoke host bound what arguments line)
      (invoke host bound what' arguments' line') := by
  induction bound generalizing what what' arguments arguments' line line' with
  | zero =>
    cases related with
    | native => exact native_relined host _ all at' 0
    | closure => exact .throw .exhausted
    | ofClass class' => exact newObject_relined class'
  | succ bound ih =>
    cases related with
    | native => exact native_relined host _ all at' _
    | closure closure =>
      exact enter_relined closure all fun e =>
        executeAll_relined (admitting_relined ih) bound e closure.declaration.body
    | ofClass class' => exact newObject_relined class'

theorem call_relined (host : Host) (bound : Nat) : CallersRelined R (call host bound) (call host bound) :=
  admitting_relined (invoke_relined host bound)

end

end Lox.Lexical
