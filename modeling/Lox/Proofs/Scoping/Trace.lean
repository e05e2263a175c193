import Lox.Session

/-! The points a run goes through: where a unit, a statement or an expression begins, with the machine
it begins in. The points inside a part of a program are told from those of its own parts, each of
which begins where the run of the part before it left the machine. -/
namespace Lox

inductive Doing where
  /-- Before a unit or behind the last one. -/
  | rest
  | unit (program : List Stmt)
  | execute (s : Stmt)
  | evaluate (e : Expr)

structure Point where
  doing : Doing
  machine : Machine

/-- The points of what is done from a machine on. -/
abbrev Points := Machine → List Point

/-- The points of what follows an action, which are none if it stops. -/
def Points.following (action : Run α) (then' : α → Points) : Points := fun m =>
  match action m with
  | .ok a m => then' a m
  | .error _ _ => []

theorem Points.mem_following {action : Run α} {then' : α → Points} {p : Point} :
    p ∈ following action then' m ↔ ∃ v k, action m = .ok v k ∧ p ∈ then' v k := by
  rw [following]
  constructor
  · intro member
    cases ran : action m with
    | ok v k =>
      rw [ran] at member
      exact ⟨v, k, rfl, member⟩
    | error stop k =>
      rw [ran] at member
      cases member
  · rintro ⟨v, k, ran, member⟩
    rw [ran]
    exact member

/-- The points inside calls. -/
abbrev CallPoints := (callee : Value) → (arguments : List Value) → (line : Nat) → Points

open Points (following)

section

variable (call : Caller) (inside : CallPoints)

mutual

def Expr.points (e : Expr) : Points := fun m =>
  ⟨.evaluate e, m⟩ :: match e with
    | .constant _ | .read _ _ | .this _ _ => []
    | .group part | .unary _ part | .assign _ _ part | .get part _ => part.points m
    | .binary left _ right =>
      left.points m ++ following (left.evaluate call) (fun _ => right.points) m
    | .logical left operator right =>
      left.points m ++ following (left.evaluate call)
        (fun first m => if Run.decides operator first then [] else right.points m) m
    | .call callee closing arguments =>
      callee.points m ++ following (callee.evaluate call)
        (fun callee m => Expr.allPoints arguments m ++
          following (Expr.evaluateAll call arguments)
            (fun arguments => inside callee arguments closing.line) m) m
    | .set object _ value =>
      object.points m ++ following (object.evaluate call)
        (fun object m => match object with
          | .object _ _ => value.points m
          | _ => []) m

def Expr.allPoints : List Expr → Points
  | [], _ => []
  | e :: rest, m =>
    e.points m ++ following (e.evaluate call) (fun _ => Expr.allPoints rest) m

end

def Expr.optionPoints : Option Expr → Points
  | none => fun _ => []
  | some e => e.points call inside

/-- The points of the rounds of a loop. -/
def Points.rounds (condition : Run Value) (body : Run Unit) (testing doing : Points) :
    (bound : Nat) → Points
  | 0, _ => []
  | bound + 1, m =>
    testing m ++ following condition
      (fun tested m => if tested.truthy then
        doing m ++ following body (fun _ => rounds condition body testing doing bound) m
      else []) m

variable (bound : Nat)

mutual

def Stmt.points (s : Stmt) : Points := fun m =>
  ⟨.execute s, m⟩ :: match s with
    | .expression value | .print value => value.points call inside m
    | .var _ initializer => Expr.optionPoints call inside initializer m
    | .block body =>
      following (Run.newScope m.current)
        (fun scope m => Stmt.allPoints body { m with current := scope }) m
    | .branch condition consequent none =>
      condition.points call inside m ++ following (condition.evaluate call)
        (fun tested m => if tested.truthy then consequent.points m else []) m
    | .branch condition consequent (some alternative) =>
      condition.points call inside m ++ following (condition.evaluate call)
        (fun tested m => if tested.truthy then consequent.points m else alternative.points m) m
    | .loop condition body =>
      Points.rounds (condition.evaluate call) (body.execute call bound)
        (condition.points call inside) body.points bound m
    | .ret _ value => Expr.optionPoints call inside value m
    | .function _ | .classDecl _ _ => []

def Stmt.allPoints : List Stmt → Points
  | [], _ => []
  | s :: rest, m =>
    s.points m ++ following (s.execute call bound) (fun _ => Stmt.allPoints rest) m

end

end

namespace Run

/-- The scope of a call, with the parameters in it. -/
def prepare (f : Closure) (arguments : List Value) : Run ScopeId := do
  let scope ← newScope f.scope
  defineEach scope f.declaration.parameters arguments
  return scope

/-- A function's body is executed in the scope that was prepared for it. -/
theorem enter_eq (f : Closure) (arguments : List Value) (body : Run Unit) :
    enter f arguments body = prepare f arguments >>= fun scope => returning (within scope body) := by
  simp only [enter, prepare, bind_assoc, pure_bind]

def admittingPoints (limit : Option Nat)
    (inside : Callable → List Value → (line : Nat) → Points) : CallPoints :=
  fun callee arguments line =>
    following (admitted limit callee arguments line) fun what m =>
      inside what arguments line { m with depth := m.depth + 1 }

def invokePoints (host : Host) : (bound : Nat) → Callable → List Value → (line : Nat) → Points
  | bound + 1, .closure f, arguments, _ =>
    following (prepare f arguments) fun scope m =>
      Stmt.allPoints (call host bound) (admittingPoints host.callLimit (invokePoints host bound))
        bound f.declaration.body { m with current := scope }
  | 0, _, _, _ | _, .native _, _, _ | _, .ofClass _, _, _ => fun _ => []

def callPoints (host : Host) (bound : Nat) : CallPoints :=
  admittingPoints host.callLimit (invokePoints host bound)

end Run

namespace Session

/-- The points of one unit, which are none if it is refused. -/
def unitPoints (host : Host) (bound : Nat) (source : String) (s : Session) : List Point :=
  match Lox.compile source s.fresh with
  | (.error _, _) => []
  | (.ok program, _) =>
    match (Lox.resolve program).filterMap Finding.error? with
    | [] =>
      let m := note (Lox.resolve program) s.machine
      ⟨.unit program, m⟩ ::
        Stmt.allPoints (Run.call host bound) (Run.callPoints host bound) bound program m
    | _ => []

/-- The points of units run one after the other. -/
def points (host : Host) (bound : Nat) : List String → Session → List Point
  | [], s => [⟨.rest, s.machine⟩]
  | source :: rest, s =>
    ⟨.rest, s.machine⟩ ::
      (s.unitPoints host bound source ++ points host bound rest (s.run host bound source).2)

end Session

end Lox
