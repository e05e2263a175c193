import Lox.Session

/-! Programs under lexical scope, told without scopes that grow and without distances. A local
declaration takes a cell of its own and extends the map from names to cells; a map never changes. A
function keeps the map of the place it was declared in, its own name included. A name that the map
does not have is a global, which is looked up by name each time. -/
namespace Lox.Lexical

abbrev Cell := Nat

/-- The local names visible at a place in the program. At the top level all names are global. -/
inductive Environment where
  | top
  | inner (names : Bindings Cell)
  deriving Repr

namespace Environment

def cell? : Environment → String → Option Cell
  | .top, _ => none
  | .inner names, name => names.get? name

/-- Inside a block or a function, before anything is declared there. -/
def enter : Environment → Environment
  | .top => .inner []
  | .inner names => .inner names

def extend (e : Environment) (name : String) (cell : Cell) : Environment :=
  match e with
  | .top => .inner [(name, cell)]
  | .inner names => .inner (names.put name cell)

@[simp] theorem cell?_top (name : String) : top.cell? name = none := rfl
@[simp] theorem cell?_inner (names : Bindings Cell) (name : String) :
    (inner names).cell? name = names.get? name := rfl

end Environment

structure Machine where
  globals : Bindings (Value Environment)
  /-- A cell has no content while the initializer of its variable is evaluated. -/
  cells : Array (Option (Value Environment))
  /-- The fields of each instance. -/
  objects : Array (Bindings (Value Environment))
  /-- How many calls have begun and not ended. -/
  depth : Nat
  /-- The next unused identity of a callable. -/
  identities : Nat
  /-- How often the clock was read. -/
  readings : Nat
  sink : Sink

abbrev Run := EStateM (Stop Environment) Machine

def Machine.initial (outputLimit : Option Nat) : Machine where
  globals := [(Native.clock.name, .callable 0 (.native .clock))]
  cells := #[]
  objects := #[]
  depth := 0
  identities := 1
  readings := 0
  sink := ⟨"", 0, outputLimit⟩

def Machine.content (m : Machine) (cell : Cell) : Option (Value Environment) := m.cells[cell]?.join

namespace Run

open Lox.Run (raise)

/-- An unset cell of its own. -/
def newCell : Run Cell :=
  modifyGet fun m => (m.cells.size, { m with cells := m.cells.push none })

def setCell (cell : Cell) (value : Value Environment) : Run Unit :=
  modify fun m => { m with cells := m.cells.setIfInBounds cell (some value) }

def setGlobal (name : String) (value : Value Environment) : Run Unit :=
  modify fun m => { m with globals := m.globals.put name value }

def undefined (name : Token) : Run α := raise name.line (.undefinedVariable name.lexeme)

def read (e : Environment) (name : Token) : Run (Value Environment) := do
  let m ← get
  let content := match e.cell? name.lexeme with
    | some cell => m.content cell
    | none => m.globals.get? name.lexeme
  match content with
  | some value => return value
  | none => undefined name

/-- Only what has a value already can be assigned to. -/
def assign (e : Environment) (name : Token) (value : Value Environment) : Run Unit := do
  let m ← get
  match e.cell? name.lexeme with
  | some cell => if (m.content cell).isSome then setCell cell value else undefined name
  | none => if m.globals.binds name.lexeme then setGlobal name.lexeme value else undefined name

/-- Declares a name and gives it the value that `value` has where the name is declared already. The
environment of what follows is the one the value was found in. -/
def declare (e : Environment) (name : Token) (value : Environment → Run (Value Environment)) :
    Run Environment :=
  match e with
  | .top => do
    setGlobal name.lexeme (← value .top)
    return .top
  | .inner names => do
    let cell ← newCell
    let inside := (Environment.inner names).extend name.lexeme cell
    setCell cell (← value inside)
    return inside

def newCallable (what : Callable Environment) : Run (Value Environment) :=
  modifyGet fun m => (.callable m.identities what, { m with identities := m.identities + 1 })

def newObject (c : Class Environment) : Run (Value Environment) :=
  modifyGet fun m => (.object m.objects.size c, { m with objects := m.objects.push [] })

def field? (id : ObjectId) (name : String) : Run (Option (Value Environment)) :=
  return ((← get).objects[id]?.getD []).get? name

def setField (id : ObjectId) (name : String) (value : Value Environment) : Run Unit :=
  modify fun m => { m with objects := m.objects.modify id (·.put name value) }

def counted (action : Run α) : Run α := fun m =>
  match action { m with depth := m.depth + 1 } with
  | .ok a m => .ok a { m with depth := m.depth - 1 }
  | .error stop m => .error stop { m with depth := m.depth - 1 }

def write (text : String) : Run Unit := fun m =>
  if m.sink.isClosed then .error (.raised .sinkClosed) m
  else .ok () { m with sink := m.sink.accept text }

def printLine (value : Value Environment) : Run Unit := do
  write value.text
  write "\n"

def clock (host : Host) : Run Float :=
  modifyGet fun m => (host.clock m.readings, { m with readings := m.readings + 1 })

/-- A cell for each parameter, with its argument in it. -/
def bindEach (e : Environment) : List Token → List (Value Environment) → Run Environment
  | parameter :: parameters, argument :: arguments => do
    let cell ← newCell
    setCell cell argument
    bindEach (e.extend parameter.lexeme cell) parameters arguments
  | _, _ => return e

/-- A method read from an instance is a function that has `this` as one more name. -/
def bindMethod (object : Value Environment) (c : Class Environment) (method : FunctionDecl) :
    Run (Value Environment) := do
  let cell ← newCell
  setCell cell object
  newCallable (.closure ⟨method, c.scope.enter.extend Keyword.thisWord.spelling cell⟩)

def property (object : Value Environment) (name : Token) : Run (Value Environment) :=
  match object with
  | .object id c => do
    match ← field? id name.lexeme with
    | some value => return value
    | none =>
      match c.method? name.lexeme with
      | some method => bindMethod object c method
      | none => raise name.line (.undefinedProperty name.lexeme)
  | _ => raise name.line .notInstance

end Run

abbrev Caller :=
  (callee : Value Environment) → (arguments : List (Value Environment)) → (line : Nat) →
    Run (Value Environment)

open Lox.Lexical.Run
open Lox.Run (applyUnary applyBinary decides raise repeating returning)

mutual

def evaluate (call : Caller) (e : Environment) : Expr → Run (Value Environment)
  | .constant value => pure (.ofConstant value)
  | .group inner => evaluate call e inner
  | .unary operator operand => do applyUnary operator (← evaluate call e operand)
  | .binary left operator right => do
    let first ← evaluate call e left
    let second ← evaluate call e right
    applyBinary operator first second
  | .logical left operator right => do
    let first ← evaluate call e left
    if decides operator first then return first else evaluate call e right
  | .read _ name => read e name
  | .assign _ name value => do
    let value ← evaluate call e value
    assign e name value
    return value
  | .call callee closing arguments => do
    let callee ← evaluate call e callee
    let arguments ← evaluateAll call e arguments
    call callee arguments closing.line
  | .get object name => do property (← evaluate call e object) name
  | .set object name value => do
    match ← evaluate call e object with
    | .object id _ =>
      let value ← evaluate call e value
      setField id name.lexeme value
      return value
    | _ => raise name.line .notInstanceField
  | .this _ keyword => read e keyword

def evaluateAll (call : Caller) (e : Environment) : List Expr → Run (List (Value Environment))
  | [] => pure []
  | first :: rest => do
    let value ← evaluate call e first
    return value :: (← evaluateAll call e rest)

end

def valueOf (call : Caller) (e : Environment) : Option Expr → Run (Value Environment)
  | none => pure .nil
  | some value => evaluate call e value

mutual

/-- Gives the environment of what follows the statement. -/
def execute (call : Caller) (bound : Nat) (e : Environment) : Stmt → Run Environment
  | .expression value => do
    let _ ← evaluate call e value
    return e
  | .print value => do
    printLine (← evaluate call e value)
    return e
  | .var name initializer => declare e name fun inside => valueOf call inside initializer
  | .block body => do
    executeAll call bound e.enter body
    return e
  | .branch condition consequent alternative => do
    if (← evaluate call e condition).truthy then
      let _ ← execute call bound e consequent
    else match alternative with
      | none => pure ()
      | some alternative =>
        let _ ← execute call bound e alternative
    return e
  | .loop condition body => do
    repeating (evaluate call e condition) (do let _ ← execute call bound e body) bound
    return e
  | .function declaration =>
    declare e declaration.name fun inside => newCallable (.closure ⟨declaration, inside⟩)
  | .ret keyword value => do throw (.returned (← valueOf call e value) keyword.line)
  | .classDecl name methods =>
    declare e name fun inside => newCallable (.ofClass ⟨name.lexeme, methods, inside⟩)

/-- Each statement is executed in the environment that the one before it gives. -/
def executeAll (call : Caller) (bound : Nat) (e : Environment) : List Stmt → Run Unit
  | [] => pure ()
  | s :: rest => do
    let following ← execute call bound e s
    executeAll call bound following rest

end

/-- Calls a function with a cell for each parameter, in the environment it was declared in. -/
def enter (f : Closure Environment) (arguments : List (Value Environment))
    (body : Environment → Run Unit) : Run (Value Environment) := do
  let e ← bindEach f.scope.enter f.declaration.parameters arguments
  returning (body e)

def admitted (limit : Option Nat) (callee : Value Environment)
    (arguments : List (Value Environment)) (line : Nat) : Run (Callable Environment) := do
  match callee with
  | .callable _ what =>
    if arguments.length ≠ what.arity then
      raise line (.arityMismatch what.arity arguments.length)
    let depth := (← get).depth
    if limit.any (· ≤ depth) then raise line .stackOverflow
    return what
  | _ => raise line .notCallable

def admitting (limit : Option Nat)
    (invoke : Callable Environment → List (Value Environment) → (line : Nat) →
      Run (Value Environment)) : Caller := fun callee arguments line => do
  let what ← admitted limit callee arguments line
  counted (invoke what arguments line)

def invoke (host : Host) : (bound : Nat) → Callable Environment → List (Value Environment) →
    (line : Nat) → Run (Value Environment)
  | _, .native which, arguments, line => do
    let now ← clock host
    match which.answer now arguments with
    | .ok value => return value
    | .error text => raise line (.native text)
  | _, .ofClass c, _, _ => newObject c
  | 0, .closure _, _, _ => throw .exhausted
  | bound + 1, .closure f, arguments, _ =>
    enter f arguments fun e =>
      executeAll (admitting host.callLimit (invoke host bound)) bound e f.declaration.body

def call (host : Host) (bound : Nat) : Caller := admitting host.callLimit (invoke host bound)

structure Session where
  machine : Machine
  /-- The next unused identity of an occurrence. -/
  fresh : Occurrence

namespace Session

def start (outputLimit : Option Nat) : Session := ⟨.initial outputLimit, 0⟩

/-- How a unit that came to its end or stopped fared. -/
def outcome : EStateM.Result (Stop Environment) Machine Unit → Outcome × Machine
  | .ok () m => (.completed, m)
  | .error (.raised d) m => (.failed d, m)
  | .error (.returned _ line) m => (.failed (.runtime line .topLevelReturn), m)
  | .error (.meaningless operator) m => (.meaningless operator, m)
  | .error .exhausted m => (.exhausted, m)

/-- Runs a unit of source, unless it is refused as it is without running it. -/
def run (host : Host) (bound : Nat) (source : String) (s : Session) : Outcome × Session :=
  match compile source s.fresh with
  | (.error errors, fresh) => (.rejected errors, { s with fresh := fresh })
  | (.ok program, fresh) =>
    match (resolve program).filterMap Finding.error? with
    | [] =>
      let (outcome, machine) := outcome (executeAll (call host bound) bound .top program s.machine)
      (outcome, ⟨machine, fresh⟩)
    | errors => (.rejected errors, { s with fresh := fresh })

end Session

end Lox.Lexical
