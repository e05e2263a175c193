import Lox.Scope
import Lox.Tree

/-! The values of a running program. What can be called and what has fields is told apart by
identity: every function, bound method, class and instance that comes into being has one of its own.
Fields are not here but in the store of the run. What a function keeps of the place it was declared
in is left open; a run keeps the identity of a scope. -/
namespace Lox

/-- What a native function is shown of an argument. -/
structure Shown where
  kind : String
  text : String
  /-- The argument itself, if it is neither a callable nor an object. -/
  constant? : Option Constant

/-- A function that a program does not declare itself. Its answer, or its complaint, depends on the
time and on what it is shown of its arguments. It makes no callables and no objects. -/
structure Native where
  name : String
  arity : Nat
  function : (now : Float) → List Shown → Except String Constant

namespace Native

instance : Repr Native := ⟨fun which _ => repr which.name⟩

/-- The only native function that every program knows. -/
def clock : Native where
  name := "clock"
  arity := 0
  function now _ := .ok (.number now)

end Native

/-- A function with the scope it was declared in. -/
structure Closure (ε : Type := ScopeId) where
  declaration : FunctionDecl
  scope : ε
  deriving Repr

structure Class (ε : Type := ScopeId) where
  name : String
  methods : List FunctionDecl
  /-- The scope the class was declared in, which encloses its methods. -/
  scope : ε
  deriving Repr

variable {ε : Type}

/-- Of two methods with one name the later counts. -/
def Class.method? (c : Class ε) (name : String) : Option FunctionDecl :=
  c.methods.reverse.find? (·.name.lexeme = name)

inductive Callable (ε : Type := ScopeId) where
  | native (which : Native)
  | closure (f : Closure ε)
  /-- A class is called to make an instance. -/
  | ofClass (c : Class ε)
  deriving Repr

namespace Callable

def arity : Callable ε → Nat
  | .native which => which.arity
  | .closure f => f.declaration.parameters.length
  | .ofClass _ => 0

def text : Callable ε → String
  | .native which => "<native fn " ++ which.name ++ ">"
  | .closure f => "<fn " ++ f.declaration.name.lexeme ++ ">"
  | .ofClass c => c.name

end Callable

abbrev ObjectId := Nat

inductive Value (ε : Type := ScopeId) where
  | nil
  | boolean (value : Bool)
  | number (value : Float)
  | string (value : String)
  | callable (identity : Nat) (what : Callable ε)
  | object (id : ObjectId) (ofClass : Class ε)
  deriving Repr

namespace Value

instance : Inhabited (Value ε) := ⟨.nil⟩

def ofConstant : Constant → Value ε
  | .nil => .nil
  | .boolean b => .boolean b
  | .number x => .number x
  | .string s => .string s

/-- All but `nil` and `false` count as true. -/
def truthy : Value ε → Bool
  | .nil => false
  | .boolean b => b
  | _ => true

/-- The language's `==`. -/
def same : Value ε → Value ε → Bool
  | .nil, .nil => true
  | .boolean a, .boolean b => a == b
  | .number x, .number y => x == y
  | .string s, .string t => s == t
  | .callable i _, .callable j _ => i == j
  | .object i _, .object j _ => i == j
  | _, _ => false

/-- What `print` writes. -/
def text : Value ε → String
  | .nil => "nil"
  | .boolean b => toString b
  | .number x => Number.text x
  | .string s => s
  | .callable _ what => what.text
  | .object _ c => c.name ++ " instance"

/-- The name of the value's kind. -/
def kind : Value ε → String
  | .nil => "nil"
  | .boolean _ => "boolean"
  | .number _ => "number"
  | .string _ => "string"
  | .callable _ (.ofClass _) => "class"
  | .callable _ _ => "function"
  | .object _ _ => "instance"

def constant? : Value ε → Option Constant
  | .nil => some .nil
  | .boolean b => some (.boolean b)
  | .number x => some (.number x)
  | .string s => some (.string s)
  | .callable _ _ | .object _ _ => none

def shown (v : Value ε) : Shown := ⟨v.kind, v.text, v.constant?⟩

def arity? : Value ε → Option Nat
  | .callable _ what => some what.arity
  | _ => none

end Value

/-- A native function's answer to its arguments, or its words of complaint. -/
def Native.answer (now : Float) (which : Native) (arguments : List (Value ε)) :
    Except String (Value ε) :=
  (which.function now (arguments.map Value.shown)).map Value.ofConstant

/-- The answer is a constant, whatever the native function is. -/
theorem Native.exists_constant {which : Native} {now : Float} {arguments : List (Value ε)}
    {v : Value ε} (answered : which.answer now arguments = .ok v) :
    ∃ c : Constant, v = .ofConstant c := by
  rw [Native.answer] at answered
  generalize which.function now (arguments.map Value.shown) = given at answered
  cases given with
  | ok c => exact ⟨c, (Except.ok.inj answered).symm⟩
  | error text => cases answered

end Lox
