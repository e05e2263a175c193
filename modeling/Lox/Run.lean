import Lox.Value
import Std.Data.TreeMap

/-! The state of a running program and the actions that evaluation is made of. An action changes the
state and either gives a result or stops; what it changed before it stopped stays changed. -/
namespace Lox

/-- Where printed text goes. -/
structure Sink where
  /-- What was written since the text was last taken away. -/
  text : String
  /-- How many newlines were written in all. -/
  newlines : Nat
  /-- So many newlines, and it takes nothing more. -/
  limit : Option Nat
  deriving Repr

namespace Sink

def isClosed (sink : Sink) : Bool := sink.limit.any (· ≤ sink.newlines)

def accept (sink : Sink) (text : String) : Sink :=
  { sink with
    text := sink.text ++ text
    newlines := text.foldl (fun count c => if c = '\n' then count + 1 else count) sink.newlines }

end Sink

/-- What a program finds around it. -/
structure Host where
  /-- The `n`-th reading of the clock. -/
  clock : Nat → Float
  /-- At most so many calls within calls. -/
  callLimit : Option Nat

/-- Programs may nest this many calls. -/
def maxCallDepth : Nat := 200

/-- A bound on calls and rounds that no program reaches in practice. -/
def practicalBound : Nat := 1000000000000

structure Machine where
  scopes : Scopes Value
  /-- The fields of each instance. -/
  objects : Array (Bindings Value)
  /-- The scope of the statement that is executed. -/
  current : ScopeId
  /-- How many calls have begun and not ended. -/
  depth : Nat
  /-- How many scopes out an occurrence refers. One that is not here refers to a global. -/
  distances : Std.TreeMap Occurrence Nat
  /-- The next unused identity of a callable. -/
  identities : Nat
  /-- How often the clock was read, which is once in every call of a native function. -/
  readings : Nat
  sink : Sink

/-- Why a statement or expression did not come to its end. -/
inductive Stop (ε : Type := ScopeId) where
  | raised (d : Diagnostic)
  /-- A `return`, which the innermost call takes as its result. -/
  | returned (value : Value ε) (line : Nat)
  /-- An operator that has no meaning where it stands. No program is read as such a tree. -/
  | meaningless (operator : Token)
  /-- The bound on calls within calls and on rounds of a loop was too small. -/
  | exhausted
  deriving Repr

/-- A stop in words. -/
def Stop.text : Stop ε → String
  | .raised d => d.text
  | .returned value _ => "Return signal with value: " ++ value.text
  | .meaningless operator => operator.lexeme ++ " has no meaning here"
  | .exhausted => "not finished"

abbrev Run := EStateM Stop Machine

/-- The outermost scope. -/
def globals : ScopeId := 0

/-- A machine whose only scope is that of the globals, with `clock` in it. -/
def Machine.initial (outputLimit : Option Nat) : Machine where
  scopes := (Scopes.empty.add none).1.define globals Native.clock.name
    (.callable 0 (.native .clock))
  objects := #[]
  current := globals
  depth := 0
  distances := {}
  identities := 1
  readings := 0
  sink := ⟨"", 0, outputLimit⟩

namespace Run

section

variable {ε σ : Type}

def raise (line : Nat) (e : RuntimeError) : EStateM (Stop ε) σ α :=
  throw (.raised (.runtime line e))

def attempt : Except Diagnostic α → EStateM (Stop ε) σ α
  | .ok a => pure a
  | .error d => throw (.raised d)

/-- The value that an action returns, or nothing when it comes to its end. -/
def returning (action : EStateM (Stop ε) σ Unit) : EStateM (Stop ε) σ (Value ε) := fun m =>
  match action m with
  | .ok () m => .ok .nil m
  | .error (.returned value _) m => .ok value m
  | .error stop m => .error stop m

/-- Runs `body` as long as `condition` gives a value that counts as true. -/
def repeating (condition : EStateM (Stop ε) σ (Value ε)) (body : EStateM (Stop ε) σ Unit) :
    (bound : Nat) → EStateM (Stop ε) σ Unit
  | 0 => throw .exhausted
  | bound + 1 => do
    if (← condition).truthy then
      body
      repeating condition body bound

end

/-- An action on the store of scopes. -/
def onScopes (action : EStateM Diagnostic (Scopes Value) α) : Run α := fun m =>
  match action m.scopes with
  | .ok a scopes => .ok a { m with scopes := scopes }
  | .error d scopes => .error (.raised d) { m with scopes := scopes }

def newScope (enclosing : ScopeId) : Run ScopeId := fun m =>
  match m.scopes.add (some enclosing) with
  | (scopes, id) => .ok id { m with scopes := scopes }

def define (scope : ScopeId) (name : String) (value : Value) : Run Unit :=
  modify fun m => { m with scopes := m.scopes.define scope name value }

/-- A value that can be called and is different from all before it. -/
def newCallable (what : Callable) : Run Value :=
  modifyGet fun m => (.callable m.identities what, { m with identities := m.identities + 1 })

/-- An instance without fields, different from all before it. -/
def newObject (c : Class) : Run Value :=
  modifyGet fun m => (.object m.objects.size c, { m with objects := m.objects.push [] })

def field? (id : ObjectId) (name : String) : Run (Option Value) :=
  return ((← get).objects[id]?.getD []).get? name

def setField (id : ObjectId) (name : String) (value : Value) : Run Unit :=
  modify fun m => { m with objects := m.objects.modify id (·.put name value) }

/-- Reads the variable an occurrence refers to. -/
def readVariable (id : Occurrence) (name : Token) : Run Value := do
  let m ← get
  match m.distances[id]? with
  | some distance => attempt (m.scopes.getAt m.current distance name)
  | none => attempt (m.scopes.get globals name)

/-- Assigns to the variable an occurrence refers to. -/
def assignVariable (id : Occurrence) (name : Token) (value : Value) : Run Unit := do
  let current := (← get).current
  match (← get).distances[id]? with
  | some distance => onScopes (Scopes.assignAt current distance name value)
  | none => onScopes (Scopes.assign globals name value)

/-- Runs an action in another scope and comes back, however it ends. -/
def within (scope : ScopeId) (action : Run α) : Run α := fun m =>
  let outside := m.current
  match action { m with current := scope } with
  | .ok a m => .ok a { m with current := outside }
  | .error stop m => .error stop { m with current := outside }

/-- Runs an action as one more call within the calls that are active. -/
def counted (action : Run α) : Run α := fun m =>
  match action { m with depth := m.depth + 1 } with
  | .ok a m => .ok a { m with depth := m.depth - 1 }
  | .error stop m => .error stop { m with depth := m.depth - 1 }

def write (text : String) : Run Unit := fun m =>
  if m.sink.isClosed then .error (.raised .sinkClosed) m
  else .ok () { m with sink := m.sink.accept text }

/-- Writes a value and then ends the line, so either write may be refused. -/
def printLine (value : Value) : Run Unit := do
  write value.text
  write "\n"

def clock (host : Host) : Run Float :=
  modifyGet fun m => (host.clock m.readings, { m with readings := m.readings + 1 })

end Run

end Lox
