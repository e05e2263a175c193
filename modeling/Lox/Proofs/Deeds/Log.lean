import Lox.Proofs.Scoping.Trace

/-! What a run does, in the order in which it is done, with the function whose body does it and the
machine it is done in. A part that comes before a deed, such as the value of an assignment, has come to
its end in that machine. -/
namespace Lox

inductive Deed where
  /-- Before a unit or behind the last one. -/
  | rest
  | execute (s : Stmt)
  | this (id : Occurrence) (keyword : Token)
  /-- A property of a value is read. -/
  | property (object : Value) (name : Token)
  | store (object : ObjectId) (name : Token) (value : Value)
  | assign (id : Occurrence) (name : Token) (value : Value)

/-- Where in a run something is done. -/
structure Site where
  /-- The function of the innermost active call. -/
  active : Option Closure
  /-- The variable whose initializer is evaluated, as far as that call goes. -/
  declaring : Option Token

structure Entry where
  site : Site
  deed : Deed
  machine : Machine

/-- What is done from a machine on. -/
abbrev Log := Machine → List Entry

/-- What is done behind an action, which is nothing if it stops. -/
def Log.following (action : Run α) (then' : α → Log) : Log := fun m =>
  match action m with
  | .ok a m => then' a m
  | .error _ _ => []

/-- What is done inside calls. -/
abbrev CallLog := (callee : Value) → (arguments : List Value) → (line : Nat) → Log

open Log (following)

section

variable (call : Caller) (inside : CallLog)

mutual

def Expr.log (site : Site) (e : Expr) : Log := fun m =>
  match e with
  | .constant _ | .read _ _ => []
  | .group part | .unary _ part => part.log site m
  | .binary left _ right =>
    left.log site m ++ following (left.evaluate call) (fun _ => right.log site) m
  | .logical left operator right =>
    left.log site m ++ following (left.evaluate call)
      (fun first m => if Run.decides operator first then [] else right.log site m) m
  | .assign id name value =>
    value.log site m ++ following (value.evaluate call)
      (fun value m => [⟨site, .assign id name value, m⟩]) m
  | .call callee closing arguments =>
    callee.log site m ++ following (callee.evaluate call)
      (fun callee m => Expr.allLog site arguments m ++
        following (Expr.evaluateAll call arguments)
          (fun arguments => inside callee arguments closing.line) m) m
  | .get object name =>
    object.log site m ++ following (object.evaluate call)
      (fun object m => [⟨site, .property object name, m⟩]) m
  | .set object name value =>
    object.log site m ++ following (object.evaluate call)
      (fun object m => match object with
        | .object id _ =>
          value.log site m ++ following (value.evaluate call)
            (fun value m => [⟨site, .store id name value, m⟩]) m
        | _ => []) m
  | .this id keyword => [⟨site, .this id keyword, m⟩]

def Expr.allLog (site : Site) : List Expr → Log
  | [], _ => []
  | e :: rest, m =>
    e.log site m ++ following (e.evaluate call) (fun _ => Expr.allLog site rest) m

end

def Expr.optionLog (site : Site) : Option Expr → Log
  | none => fun _ => []
  | some e => e.log call inside site

/-- What the rounds of a loop do. -/
def Log.rounds (condition : Run Value) (body : Run Unit) (testing doing : Log) : (bound : Nat) → Log
  | 0, _ => []
  | bound + 1, m =>
    testing m ++ following condition
      (fun tested m => if tested.truthy then
        doing m ++ following body (fun _ => rounds condition body testing doing bound) m
      else []) m

variable (bound : Nat) (active : Option Closure)

mutual

def Stmt.log (s : Stmt) : Log := fun m =>
  ⟨⟨active, none⟩, .execute s, m⟩ :: match s with
    | .expression value | .print value => value.log call inside ⟨active, none⟩ m
    | .var name initializer => Expr.optionLog call inside ⟨active, some name⟩ initializer m
    | .block body =>
      following (Run.newScope m.current)
        (fun scope m => Stmt.allLog body { m with current := scope }) m
    | .branch condition consequent none =>
      condition.log call inside ⟨active, none⟩ m ++ following (condition.evaluate call)
        (fun tested m => if tested.truthy then consequent.log m else []) m
    | .branch condition consequent (some alternative) =>
      condition.log call inside ⟨active, none⟩ m ++ following (condition.evaluate call)
        (fun tested m => if tested.truthy then consequent.log m else alternative.log m) m
    | .loop condition body =>
      Log.rounds (condition.evaluate call) (body.execute call bound)
        (condition.log call inside ⟨active, none⟩) body.log bound m
    | .ret _ value => Expr.optionLog call inside ⟨active, none⟩ value m
    | .function _ | .classDecl _ _ => []

def Stmt.allLog : List Stmt → Log
  | [], _ => []
  | s :: rest, m =>
    s.log m ++ following (s.execute call bound) (fun _ => Stmt.allLog rest) m

end

end

namespace Run

def admittingLog (limit : Option Nat) (inside : Callable → List Value → (line : Nat) → Log) :
    CallLog := fun callee arguments line =>
  following (admitted limit callee arguments line) fun what m =>
    inside what arguments line { m with depth := m.depth + 1 }

def invokeLog (host : Host) : (bound : Nat) → Callable → List Value → (line : Nat) → Log
  | bound + 1, .closure f, arguments, _ =>
    following (prepare f arguments) fun scope m =>
      Stmt.allLog (call host bound) (admittingLog host.callLimit (invokeLog host bound)) bound
        (some f) f.declaration.body { m with current := scope }
  | 0, _, _, _ | _, .native _, _, _ | _, .ofClass _, _, _ => fun _ => []

def callLog (host : Host) (bound : Nat) : CallLog :=
  admittingLog host.callLimit (invokeLog host bound)

end Run

namespace Session

/-- What one unit does, which is nothing if it is refused. -/
def unitLog (host : Host) (bound : Nat) (source : String) (s : Session) : List Entry :=
  match Lox.compile source s.fresh with
  | (.error _, _) => []
  | (.ok program, _) =>
    match (Lox.resolve program).filterMap Finding.error? with
    | [] =>
      Stmt.allLog (Run.call host bound) (Run.callLog host bound) bound none program
        (note (Lox.resolve program) s.machine)
    | _ => []

/-- What units do one after the other. -/
def log (host : Host) (bound : Nat) : List String → Session → List Entry
  | [], s => [⟨⟨none, none⟩, .rest, s.machine⟩]
  | source :: rest, s =>
    ⟨⟨none, none⟩, .rest, s.machine⟩ ::
      (s.unitLog host bound source ++ log host bound rest (s.run host bound source).2)

end Session

/-- The scopes a deed leaves. Only reading a property may add one. -/
def Entry.scopesLeft (e : Entry) : Scopes Value :=
  match e.deed with
  | .property object name =>
    match Run.property object name e.machine with
    | .ok _ m | .error _ m => m.scopes
  | _ => e.machine.scopes

end Lox
