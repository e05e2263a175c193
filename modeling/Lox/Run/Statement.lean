import Lox.Run.Expression

/-! What statements do. As for expressions, calls are left open; `bound` is the number of rounds a
loop may make. -/
namespace Lox

open Run

def Run.valueOf (call : Caller) : Option Expr → Run Value
  | none => pure .nil
  | some e => e.evaluate call

mutual

def Stmt.execute (call : Caller) (bound : Nat) : Stmt → Run Unit
  | .expression value => do let _ ← value.evaluate call
  | .print value => do printLine (← value.evaluate call)
  | .var name initializer => do
    let value ← valueOf call initializer
    define (← get).current name.lexeme value
  | .block body => do
    let scope ← newScope (← get).current
    within scope (Stmt.executeAll call bound body)
  | .branch condition consequent alternative => do
    if (← condition.evaluate call).truthy then consequent.execute call bound
    else match alternative with
      | none => pure ()
      | some alternative => alternative.execute call bound
  | .loop condition body =>
    repeating (condition.evaluate call) (body.execute call bound) bound
  | .function declaration => do
    let current := (← get).current
    define current declaration.name.lexeme (← newCallable (.closure ⟨declaration, current⟩))
  | .ret keyword value => do throw (.returned (← valueOf call value) keyword.line)
  | .classDecl name methods => do
    let current := (← get).current
    define current name.lexeme (← newCallable (.ofClass ⟨name.lexeme, methods, current⟩))

def Stmt.executeAll (call : Caller) (bound : Nat) : List Stmt → Run Unit
  | [] => pure ()
  | s :: rest => do
    s.execute call bound
    Stmt.executeAll call bound rest

end

end Lox
