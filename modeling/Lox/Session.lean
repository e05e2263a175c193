import Lox.Program
import Lox.Resolution
import Lox.Run.Call

/-! A session runs one unit of source after the other. Globals, objects and closures stay from unit
to unit; a unit that is refused, or that fails half-way, does not stand in the way of the next one.
-/
namespace Lox

structure Session where
  machine : Machine
  /-- The next unused identity of an occurrence. -/
  fresh : Occurrence

/-- How a unit of source fared. -/
inductive Outcome where
  | completed
  /-- Nothing was executed. -/
  | rejected (errors : List Diagnostic)
  /-- Execution began and stopped at an error. -/
  | failed (d : Diagnostic)
  | meaningless (operator : Token)
  /-- The bound was too small for the unit. -/
  | exhausted
  deriving Repr

namespace Outcome

def diagnostics : Outcome → List Diagnostic
  | .rejected errors => errors
  | .failed d => [d]
  | .completed | .meaningless _ | .exhausted => []

/-- The exit status of a program that fares so. -/
def exitCode : Outcome → Nat
  | .completed => 0
  | .rejected _ => 65
  | .failed _ | .meaningless _ | .exhausted => 70

def summary : Outcome → String
  | .completed => ""
  | .rejected errors => toString errors.length ++ " compile error(s)"
  | .failed d => d.text
  | .meaningless operator => (Stop.meaningless operator : Stop).text
  | .exhausted => (Stop.exhausted : Stop).text

/-- A `return` that reaches the top is an error there. -/
def ofStop : Stop → Outcome
  | .raised d => .failed d
  | .returned _ line => .failed (.runtime line .topLevelReturn)
  | .meaningless operator => .meaningless operator
  | .exhausted => .exhausted

end Outcome

namespace Session

def start (outputLimit : Option Nat) : Session := ⟨.initial outputLimit, 0⟩

/-- The statements of a unit. The identities it used are not used again, even if it is refused. -/
def compile (source : String) : EStateM (List Diagnostic) Session (List Stmt) := fun s =>
  match Lox.compile source s.fresh with
  | (.ok program, fresh) => .ok program { s with fresh := fresh }
  | (.error errors, fresh) => .error errors { s with fresh := fresh }

/-- Keeps in mind how far out the local occurrences refer. -/
def note (findings : List Finding) (m : Machine) : Machine :=
  { m with
    distances := findings.foldl
      (fun known finding => match finding with
        | .reference id _ (some depth) => known.insert id depth
        | .reference _ _ none | .error _ => known)
      m.distances }

/-- Resolves a program. What was found before an error, and behind it, is noted all the same. -/
def resolve (program : List Stmt) : EStateM (List Diagnostic) Session Unit := fun s =>
  let findings := Lox.resolve program
  let s := { s with machine := note findings s.machine }
  let errors := findings.filterMap Finding.error?
  if errors.isEmpty then .ok () s else .error errors s

/-- Runs an action on the session's machine. -/
def act (action : Run α) : EStateM Stop Session α := fun s =>
  match action s.machine with
  | .ok a m => .ok a { s with machine := m }
  | .error stop m => .error stop { s with machine := m }

def execute (host : Host) (bound : Nat) (statement : Stmt) : EStateM Stop Session Unit :=
  act (statement.execute (Run.call host bound) bound)

def evaluate (host : Host) (bound : Nat) (e : Expr) : EStateM Stop Session Value :=
  act (e.evaluate (Run.call host bound))

/-- Executes statements one after the other, up to the first that stops. -/
def interpret (host : Host) (bound : Nat) (program : List Stmt) : Session → Outcome × Session :=
  fun s => match act (Stmt.executeAll (Run.call host bound) bound program) s with
    | .ok () s => (.completed, s)
    | .error stop s => (.ofStop stop, s)

/-- Compiles, resolves and executes one unit of source. -/
def run (host : Host) (bound : Nat) (source : String) : Session → Outcome × Session := fun s =>
  let admitted := do
    let program ← compile source
    resolve program
    return program
  match admitted s with
  | .ok program s => interpret host bound program s
  | .error errors s => (.rejected errors, s)

/-- Why a text has no value. -/
inductive NoValue where
  | rejected (errors : List Diagnostic)
  | notOneExpression
  | stopped (stop : Stop)
  deriving Repr

/-- The value of a text that is an expression, with the semicolon left out. -/
def value (host : Host) (bound : Nat) (text : String) : EStateM NoValue Session Value := do
  match ← (compile (text ++ ";")).adaptExcept .rejected with
  | [.expression e] =>
    (resolve [.expression e]).adaptExcept .rejected
    (evaluate host bound e).adaptExcept .stopped
  | _ => throw .notOneExpression

/-- Gives the session a native function, one that its programs do not know of. -/
def newNative (which : Native) : EStateM NoValue Session Value :=
  (act (Run.newCallable (.native which))).adaptExcept .stopped

/-- Calls from outside of all programs: the arguments are taken as they are, and the call is not
counted. -/
def invoke (host : Host) (bound : Nat) (callee : Callable) (arguments : List Value) (line : Nat) :
    EStateM Stop Session Value :=
  act (Run.invoke host bound callee arguments line)

/-- Takes away what was printed so far. -/
def takeOutput (s : Session) : String × Session :=
  (s.machine.sink.text, { s with machine.sink.text := "" })

end Session

namespace Native

/-! A host's own native functions: one that complains, one that takes any argument and one that takes
numbers only. -/

def fail : Native where
  name := "fail"
  arity := 1
  function
    | _, argument :: _ => .error argument.text
    | _, [] => .error "fail needs an argument"

def typeOf : Native where
  name := "type_of"
  arity := 1
  function
    | _, argument :: _ => .ok (.string argument.kind)
    | _, [] => .error "type_of needs an argument"

def sum : Native where
  name := "sum"
  arity := 2
  function _ arguments :=
    match arguments.map Shown.constant? with
    | some (.number x) :: some (.number y) :: _ => .ok (.number (x + y))
    | _ => .error "sum needs numbers"

/-- What a host can give to a session. -/
def ofName? (name : String) : Option Native :=
  [clock, fail, typeOf, sum].find? (·.name = name)

end Native

end Lox
