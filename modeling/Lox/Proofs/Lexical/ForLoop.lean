import Lox.Proofs.Grammar.Placement
import Lox.Proofs.Lexical.Reference

/-! A `for` told as a loop of its own, not by the statements it is read as. Its initializer is executed
once, in a scope that is opened for it. What that leaves is the environment of every round: condition,
body and increment all begin in it, so nothing that a body declares is seen by another part, and all
rounds share the variables of the initializer. -/
namespace Lox.Lexical

open Lox.Run (repeating)

section

variable (call : Caller) (bound : Nat)

/-- What no condition is written for always holds. -/
def holds (e : Environment) : Option Expr → Run Bool
  | none => pure true
  | some condition => do return (← evaluate call e condition).truthy

def advance (e : Environment) : Option Expr → Run Unit
  | none => pure ()
  | some increment => do
    let _ ← evaluate call e increment

/-- At most so many rounds. A round that stops ends the loop before its increment. -/
def rounds (e : Environment) (condition increment : Option Expr) (body : Stmt) :
    (limit : Nat) → Run Unit
  | 0 => throw .exhausted
  | limit + 1 => do
    if ← holds call e condition then
      let _ ← execute call bound e body
      advance call e increment
      rounds e condition increment body limit

def executeFor (e : Environment) (initializer : Option Stmt) (condition increment : Option Expr)
    (body : Stmt) : Run Unit := do
  let inside ← match initializer with
    | none => pure e
    | some initializer => execute call bound e.enter initializer
  rounds call bound inside condition increment body bound

end

variable {call : Caller} {bound : Nat} {e : Environment}

@[simp] theorem Environment.enter_enter (e : Environment) : e.enter.enter = e.enter := by
  cases e <;> rfl

@[simp] theorem Environment.cell?_enter (e : Environment) (name : String) :
    e.enter.cell? name = e.cell? name := by
  cases e <;> rfl

theorem read_enter (name : Token) : Run.read e.enter name = Run.read e name := by
  simp only [Run.read, Environment.cell?_enter]

theorem assign_enter (name : Token) (value : Value Environment) :
    Run.assign e.enter name value = Run.assign e name value := by
  simp only [Run.assign, Environment.cell?_enter]

mutual

/-- An expression sees the same names in a block that declares nothing. -/
theorem evaluate_enter : (x : Expr) → evaluate call e.enter x = evaluate call e x
  | .constant _ => by simp only [evaluate]
  | .group inner | .unary _ inner | .get inner _ => by simp only [evaluate, evaluate_enter inner]
  | .binary left _ right | .logical left _ right => by
    simp only [evaluate, evaluate_enter left, evaluate_enter right]
  | .read _ name | .this _ name => by simp only [evaluate, read_enter]
  | .assign _ name value => by simp only [evaluate, evaluate_enter value, assign_enter]
  | .call callee _ arguments => by
    simp only [evaluate, evaluate_enter callee, evaluateAll_enter arguments]
  | .set object _ value => by simp only [evaluate, evaluate_enter object, evaluate_enter value]

theorem evaluateAll_enter : (list : List Expr) →
    evaluateAll call e.enter list = evaluateAll call e list
  | [] => by simp only [evaluateAll]
  | first :: rest => by simp only [evaluateAll, evaluate_enter first, evaluateAll_enter rest]

end

theorem valueOf_enter (value : Option Expr) : valueOf call e.enter value = valueOf call e value := by
  cases value with
  | none => rfl
  | some value => exact evaluate_enter value

/-- A statement that declares nothing leaves its environment to what follows. -/
theorem execute_stays : (s : Stmt) → s.declares = false →
    execute call bound e s = do
      let _ ← execute call bound e s
      return e
  | .expression _, _ | .print _, _ | .block _, _ | .loop _ _, _ => by simp [execute]
  | .branch condition consequent alternative, _ => by
    simp only [execute, bind_assoc]
    refine bind_congr fun tested => ?_
    split
    · simp
    · cases alternative <;> simp
  | .ret _ _, _ => by
    simp only [execute, bind_assoc]
    rfl
  | .var _ _, bare | .function _, bare | .classDecl _ _, bare => by cases bare

/-- Nor does it matter to it whether it stands in a block of its own. -/
theorem execute_enter : (s : Stmt) → s.declares = false → s.Placed →
    (do let _ ← execute call bound e.enter s) = (do let _ ← execute call bound e s : Run Unit)
  | .expression value, _, _ | .print value, _, _ => by
    simp [execute, evaluate_enter value]
  | .block body, _, _ => by simp [execute]
  | .branch condition consequent none, _, placed => by
    have taken := execute_enter consequent placed.1 placed.2
    simp only [execute, evaluate_enter condition, bind_assoc]
    refine bind_congr fun tested => ?_
    split
    · simpa using taken
    · simp
  | .branch condition consequent (some alternative), _, placed => by
    have taken := execute_enter consequent placed.1.1 placed.1.2
    have otherwise := execute_enter alternative placed.2.1 placed.2.2
    simp only [execute, evaluate_enter condition, bind_assoc]
    refine bind_congr fun tested => ?_
    split
    · simpa using taken
    · simpa using otherwise
  | .loop condition body, _, placed => by
    simp only [execute, evaluate_enter condition, execute_enter body placed.1 placed.2, bind_assoc, pure_bind]
  | .ret keyword value, _, _ => by simp only [execute, valueOf_enter value]
  | .var _ _, bare, _ | .function _, bare, _ | .classDecl _ _, bare, _ => by cases bare

/-- One round: the block around body and increment is not noticed by either. -/
theorem execute_round {body : Stmt} (bare : body.declares = false) (placed : body.Placed)
    (increment : Option Expr) :
    (do let _ ← execute call bound e
          (increment.elim body fun part => .block [body, .expression part])) =
      (do let _ ← execute call bound e body
          advance call e increment : Run Unit) := by
  cases increment with
  | none => rfl
  | some part =>
    have entered : (do let _ ← execute call bound e.enter body) =
        (do let _ ← execute call bound e body : Run Unit) := execute_enter body bare placed
    have split : execute call bound e (.block [body, .expression part]) = (do
        (do let _ ← execute call bound e.enter body : Run Unit)
        let _ ← evaluate call e part
        return e) := by
      simp only [execute, executeAll]
      rw [execute_stays body bare]
      simp only [bind_assoc, pure_bind, evaluate_enter part]
    simp only [Option.elim, split, entered, advance, bind_assoc, pure_bind]

theorem repeating_eq_rounds {body : Stmt} (bare : body.declares = false) (placed : body.Placed)
    (condition increment : Option Expr) (limit : Nat) :
    repeating (evaluate call e (condition.getD (.constant (.boolean true))))
      (do let _ ← execute call bound e
            (increment.elim body fun part => .block [body, .expression part])) limit =
      rounds call bound e condition increment body limit := by
  induction limit with
  | zero => rfl
  | succ limit ih =>
    rw [repeating, rounds, ih, execute_round bare placed]
    cases condition with
    | none => simp [holds, evaluate, Value.ofConstant, Value.truthy]
    | some condition => simp [holds]

/-- A `for` is executed as the statement it is read as. -/
theorem execute_lowered {body : Stmt} (bare : body.declares = false) (placed : body.Placed)
    (initializer : Option Stmt) (condition increment : Option Expr) :
    execute call bound e (Grammar.lowered initializer condition increment body) = (do
      executeFor call bound e initializer condition increment body
      return e) := by
  have loop (inside : Environment) :
      execute call bound inside (Grammar.lowered none condition increment body) = (do
        rounds call bound inside condition increment body bound
        return inside) := by
    rw [← repeating_eq_rounds bare placed]
    cases increment <;> simp only [Grammar.lowered, execute, Option.elim]
  cases initializer with
  | none => rw [loop, executeFor, pure_bind]
  | some initializer =>
    have opened : Grammar.lowered (some initializer) condition increment body =
        .block [initializer, Grammar.lowered none condition increment body] := rfl
    simp only [opened, execute, executeAll, loop, executeFor, bind_assoc, pure_bind]

end Lox.Lexical
