import Lox.Proofs.Exit.Balance

/-! Programs are balanced: expressions by induction on the expression, statements by induction on the
statement, and calls by induction on the bound. A session therefore begins each unit at the top level,
with no call active. -/
namespace Lox

open Run

/-- Calls are balanced and take every `return` as their result. -/
def CallersBalanced (call : Caller) : Prop :=
  ∀ callee arguments line, Balanced false (call callee arguments line)

section

variable {call : Caller}

mutual

theorem Expr.evaluate_balanced (callers : CallersBalanced call) :
    (e : Expr) → Balanced false (e.evaluate call)
  | .constant value => by
    rw [Expr.evaluate]
    exact .pure _
  | .group part => by
    rw [Expr.evaluate]
    exact part.evaluate_balanced callers
  | .unary operator part => by
    rw [Expr.evaluate]
    exact (part.evaluate_balanced callers).bind fun v => applyUnary_balanced operator v
  | .binary left operator right => by
    rw [Expr.evaluate]
    apply (left.evaluate_balanced callers).bind
    intro first
    exact (right.evaluate_balanced callers).bind fun second =>
      applyBinary_balanced operator first second
  | .logical left operator right => by
    rw [Expr.evaluate]
    apply (left.evaluate_balanced callers).bind
    intro first
    by_cases decided : decides operator first
    · rw [if_pos decided]
      exact .pure first
    · rw [if_neg decided]
      exact right.evaluate_balanced callers
  | .read i name | .this i name => by
    rw [Expr.evaluate]
    exact readVariable_balanced i name
  | .assign i name value => by
    rw [Expr.evaluate]
    apply (value.evaluate_balanced callers).bind
    intro v
    exact (assignVariable_balanced i name v).bind fun _ => .pure v
  | .call callee closing arguments => by
    rw [Expr.evaluate]
    apply (callee.evaluate_balanced callers).bind
    intro v
    exact (Expr.evaluateAll_balanced callers arguments).bind fun list => callers v list closing.line
  | .get object name => by
    rw [Expr.evaluate]
    exact (object.evaluate_balanced callers).bind fun v => property_balanced v name
  | .set object name value => by
    rw [Expr.evaluate]
    apply (object.evaluate_balanced callers).bind
    intro o
    cases o with
    | object id c =>
      apply (value.evaluate_balanced callers).bind
      intro v
      exact (setField_balanced id name.lexeme v).bind fun _ => .pure v
    | _ => exact .raise (by simp)

theorem Expr.evaluateAll_balanced (callers : CallersBalanced call) :
    (list : List Expr) → Balanced false (Expr.evaluateAll call list)
  | [] => by
    rw [Expr.evaluateAll]
    exact .pure []
  | e :: rest => by
    rw [Expr.evaluateAll]
    apply (e.evaluate_balanced callers).bind
    intro first
    exact (Expr.evaluateAll_balanced callers rest).bind fun list => .pure (first :: list)

end

theorem Run.valueOf_balanced (callers : CallersBalanced call) (value : Option Expr) :
    Balanced false (valueOf call value) := by
  cases value with
  | none => exact .pure _
  | some e => exact e.evaluate_balanced callers

mutual

theorem Stmt.execute_balanced (callers : CallersBalanced call) (bound : Nat) :
    (s : Stmt) → Balanced s.returns (s.execute call bound)
  | .expression value => by
    rw [Stmt.execute]
    exact (value.evaluate_balanced callers).bind fun _ => .pure ()
  | .print value => by
    rw [Stmt.execute]
    exact (value.evaluate_balanced callers).bind fun v => printLine_balanced v
  | .var name initializer => by
    rw [Stmt.execute]
    apply (valueOf_balanced callers initializer).bind
    intro v
    exact .asking fun m => define_balanced m.current name.lexeme v
  | .block body => by
    rw [Stmt.execute, Stmt.returns]
    apply Balanced.asking
    intro m
    apply (newScope_balanced m.current).bind
    intro scope
    exact .within (Stmt.executeAll_balanced callers bound body)
  | .branch condition consequent none => by
    rw [Stmt.execute, Stmt.returns]
    apply (condition.evaluate_balanced callers).plain.bind
    intro v
    split
    · exact consequent.execute_balanced callers bound
    · exact .pure ()
  | .branch condition consequent (some alternative) => by
    rw [Stmt.execute, Stmt.returns]
    apply (condition.evaluate_balanced callers).plain.bind
    intro v
    split
    · exact (consequent.execute_balanced callers bound).mono fun within => by simp [within]
    · exact (alternative.execute_balanced callers bound).mono fun within => by simp [within]
  | .loop condition body => by
    rw [Stmt.execute, Stmt.returns]
    exact .repeating (condition.evaluate_balanced callers).plain
      (body.execute_balanced callers bound) bound
  | .function declaration => by
    rw [Stmt.execute]
    apply Balanced.asking
    intro m
    exact (newCallable_balanced _).bind fun v => define_balanced _ _ v
  | .ret keyword value => by
    rw [Stmt.execute, Stmt.returns]
    exact (valueOf_balanced callers value).plain.bind fun v => .throw rfl
  | .classDecl name methods => by
    rw [Stmt.execute]
    apply Balanced.asking
    intro m
    exact (newCallable_balanced _).bind fun v => define_balanced _ _ v

theorem Stmt.executeAll_balanced (callers : CallersBalanced call) (bound : Nat) :
    (list : List Stmt) → Balanced (Stmt.anyReturns list) (Stmt.executeAll call bound list)
  | [] => by
    rw [Stmt.executeAll]
    exact .pure ()
  | s :: rest => by
    rw [Stmt.executeAll, Stmt.anyReturns]
    apply ((s.execute_balanced callers bound).mono fun within => by simp [within]).bind
    intro _
    exact (Stmt.executeAll_balanced callers bound rest).mono fun within => by simp [within]

end

end

theorem Run.admitting_balanced {limit : Option Nat}
    {invoke : Callable → List Value → (line : Nat) → Run Value}
    (balanced : ∀ what arguments line, Balanced false (invoke what arguments line)) :
    CallersBalanced (admitting limit invoke) := by
  intro callee arguments line
  apply (admitted_balanced limit callee arguments line).bind
  intro what
  exact .counted (balanced what arguments line)

theorem Run.native_balanced (host : Host) (bound : Nat) (which : Native) (arguments : List Value)
    (line : Nat) : Balanced false (invoke host bound (.native which) arguments line) := by
  rw [invoke]
  apply (clock_balanced host).bind
  intro now
  cases which.answer now arguments with
  | ok value => exact .pure value
  | error text => exact .raise (by simp)

theorem Run.invoke_balanced (host : Host) (bound : Nat) (what : Callable) (arguments : List Value)
    (line : Nat) : Balanced false (invoke host bound what arguments line) := by
  induction bound generalizing what arguments line with
  | zero =>
    cases what with
    | native which => exact native_balanced host 0 which arguments line
    | closure f =>
      rw [invoke]
      exact .throw trivial
    | ofClass c =>
      rw [invoke]
      exact newObject_balanced c
  | succ bound ih =>
    cases what with
    | native which => exact native_balanced host (bound + 1) which arguments line
    | closure f =>
      rw [invoke]
      -- Calls in the body are made with the smaller bound, where the induction has them.
      have callers : CallersBalanced (admitting host.callLimit (invoke host bound)) :=
        admitting_balanced ih
      exact enter_balanced f arguments (Stmt.executeAll_balanced callers bound _)
    | ofClass c =>
      rw [invoke]
      exact newObject_balanced c

theorem Run.call_balanced (host : Host) (bound : Nat) : CallersBalanced (call host bound) :=
  admitting_balanced (invoke_balanced host bound)

namespace Session

theorem note_level (findings : List Finding) (m : Machine) : m.Level (note findings m) := ⟨rfl, rfl⟩

/-- A unit leaves the session at the level it found it at, whether it is refused or fails or not. -/
theorem level_run (host : Host) (bound : Nat) (source : String) (s : Session) :
    s.machine.Level (s.run host bound source).2.machine := by
  rw [run_eq]
  cases Lox.compile source s.fresh with
  | mk result fresh =>
    cases result with
    | error errors => exact .refl _
    | ok program =>
      have noted := note_level (Lox.resolve program) s.machine
      cases clean : (Lox.resolve program).filterMap Finding.error? with
      | cons first rest =>
        simp only [clean]
        exact noted
      | nil =>
        have ended := (Stmt.executeAll_balanced (call_balanced host bound) bound program).level
          (note (Lox.resolve program) s.machine)
        simp only [clean]
        cases ran : Stmt.executeAll (Run.call host bound) bound program
          (note (Lox.resolve program) s.machine) with
        | ok v m =>
          rw [ran] at ended
          exact noted.trans ended
        | error stop m =>
          rw [ran] at ended
          exact noted.trans ended

theorem level_runEach (host : Host) (bound : Nat) (units : List String) (s : Session) :
    s.machine.Level (s.runEach host bound units).2.machine := by
  induction units generalizing s with
  | nil => exact .refl _
  | cons source rest ih => exact (s.level_run host bound source).trans (ih _)

/-- However a statement, an expression or a call ends, it ends in the scope it began in and with as
many calls active, and so does a unit. From the start of a session each unit begins and ends in the
globals, with no call active. -/
theorem ends_level (host : Host) (bound : Nat) :
    (∀ (s : Stmt) (m : Machine), m.Level (reached (s.execute (Run.call host bound) bound m))) ∧
    (∀ (e : Expr) (m : Machine), m.Level (reached (e.evaluate (Run.call host bound) m))) ∧
    (∀ callee arguments line (m : Machine),
      m.Level (reached (Run.call host bound callee arguments line m))) ∧
    (∀ (s : Session) source, s.machine.Level (s.run host bound source).2.machine) ∧
    ∀ outputLimit units,
      ((start outputLimit).runEach host bound units).2.machine.current = globals ∧
      ((start outputLimit).runEach host bound units).2.machine.depth = 0 := by
  have callers := call_balanced host bound
  refine ⟨fun s => (s.execute_balanced callers bound).level,
    fun e => (e.evaluate_balanced callers).level,
    fun callee arguments line => (callers callee arguments line).level,
    fun s source => s.level_run host bound source, ?_⟩
  intro outputLimit units
  have ended := (start outputLimit).level_runEach host bound units
  exact ⟨ended.current, ended.depth⟩

end Session

end Lox
