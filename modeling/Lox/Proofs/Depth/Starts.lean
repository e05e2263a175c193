import Lox.Proofs.Scoping.Trace

/-! The calls a run begins, in the order in which they begin. Arguments come before the call they are
for, so a call in an argument has begun and ended when the call around it begins. -/
namespace Lox

/-- A call that has passed all checks, with the machine it begins in, where it is not counted yet. -/
structure Start where
  what : Callable
  /-- The line of the closing parenthesis. -/
  line : Nat
  machine : Machine

/-- The calls that begin when something is done from a machine on. -/
abbrev Starts := Machine → List Start

/-- The calls in what follows an action, which are none if it stops. -/
def Starts.following (action : Run α) (then' : α → Starts) : Starts := fun m =>
  match action m with
  | .ok a m => then' a m
  | .error _ _ => []

/-- A call of a value begins itself, if it passes all checks, and then those inside it. -/
abbrev CallStarts := (callee : Value) → (arguments : List Value) → (line : Nat) → Starts

open Starts (following)

section

variable (call : Caller) (inside : CallStarts)

mutual

def Expr.starts (e : Expr) : Starts := fun m =>
  match e with
  | .constant _ | .read _ _ | .this _ _ => []
  | .group part | .unary _ part | .assign _ _ part | .get part _ => part.starts m
  | .binary left _ right =>
    left.starts m ++ following (left.evaluate call) (fun _ => right.starts) m
  | .logical left operator right =>
    left.starts m ++ following (left.evaluate call)
      (fun first m => if Run.decides operator first then [] else right.starts m) m
  | .call callee closing arguments =>
    callee.starts m ++ following (callee.evaluate call)
      (fun callee m => Expr.allStarts arguments m ++
        following (Expr.evaluateAll call arguments)
          (fun arguments => inside callee arguments closing.line) m) m
  | .set object _ value =>
    object.starts m ++ following (object.evaluate call)
      (fun object m => match object with
        | .object _ _ => value.starts m
        | _ => []) m

def Expr.allStarts : List Expr → Starts
  | [], _ => []
  | e :: rest, m =>
    e.starts m ++ following (e.evaluate call) (fun _ => Expr.allStarts rest) m

end

def Expr.optionStarts : Option Expr → Starts
  | none => fun _ => []
  | some e => e.starts call inside

/-- The calls in the rounds of a loop. -/
def Starts.rounds (condition : Run Value) (body : Run Unit) (testing doing : Starts) :
    (bound : Nat) → Starts
  | 0, _ => []
  | bound + 1, m =>
    testing m ++ following condition
      (fun tested m => if tested.truthy then
        doing m ++ following body (fun _ => rounds condition body testing doing bound) m
      else []) m

variable (bound : Nat)

mutual

def Stmt.starts (s : Stmt) : Starts := fun m =>
  match s with
  | .expression value | .print value => value.starts call inside m
  | .var _ initializer => Expr.optionStarts call inside initializer m
  | .block body =>
    following (Run.newScope m.current)
      (fun scope m => Stmt.allStarts body { m with current := scope }) m
  | .branch condition consequent none =>
    condition.starts call inside m ++ following (condition.evaluate call)
      (fun tested m => if tested.truthy then consequent.starts m else []) m
  | .branch condition consequent (some alternative) =>
    condition.starts call inside m ++ following (condition.evaluate call)
      (fun tested m => if tested.truthy then consequent.starts m else alternative.starts m) m
  | .loop condition body =>
    Starts.rounds (condition.evaluate call) (body.execute call bound)
      (condition.starts call inside) body.starts bound m
  | .ret _ value => Expr.optionStarts call inside value m
  | .function _ | .classDecl _ _ => []

def Stmt.allStarts : List Stmt → Starts
  | [], _ => []
  | s :: rest, m =>
    s.starts m ++ following (s.execute call bound) (fun _ => Stmt.allStarts rest) m

end

end

namespace Run

def admittingStarts (limit : Option Nat)
    (inside : Callable → List Value → (line : Nat) → Starts) : CallStarts :=
  fun callee arguments line =>
    following (admitted limit callee arguments line) fun what m =>
      ⟨what, line, m⟩ :: inside what arguments line { m with depth := m.depth + 1 }

def invokeStarts (host : Host) : (bound : Nat) → Callable → List Value → (line : Nat) → Starts
  | bound + 1, .closure f, arguments, _ =>
    following (prepare f arguments) fun scope m =>
      Stmt.allStarts (call host bound) (admittingStarts host.callLimit (invokeStarts host bound))
        bound f.declaration.body { m with current := scope }
  | 0, _, _, _ | _, .native _, _, _ | _, .ofClass _, _, _ => fun _ => []

def callStarts (host : Host) (bound : Nat) : CallStarts :=
  admittingStarts host.callLimit (invokeStarts host bound)

end Run

/-- The calls that begin while a program is executed. -/
def Run.programStarts (host : Host) (bound : Nat) (program : List Stmt) : Starts :=
  Stmt.allStarts (Run.call host bound) (Run.callStarts host bound) bound program

end Lox
