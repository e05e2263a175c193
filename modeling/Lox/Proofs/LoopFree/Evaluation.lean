import Mathlib.Algebra.Group.Nat.Defs
import Lox.Proofs.LoopFree.Settling
import Lox.Proofs.LoopFree.Size

/-! What is free of loops settles, if calls do: expressions by induction on the expression and statements
by induction on the statement. Each node is one point, and what a call goes through is counted to its
node. -/
namespace Lox

/-- Free of loops and no larger than a bound. -/
structure FunctionDecl.Small (size : Nat) (f : FunctionDecl) : Prop where
  loopFree : f.LoopFree
  size_le : f.size ≤ size

theorem FunctionDecl.small_of_mem {size : Nat} {methods : List FunctionDecl}
    (free : FunctionDecl.AllLoopFree methods) (le : FunctionDecl.allSize methods ≤ size) :
    ∀ f ∈ methods, f.Small size :=
  fun _ member => ⟨free.of_mem member, Nat.le_trans (FunctionDecl.size_le_of_mem member) le⟩

variable {P : FunctionDecl → Prop}

/-- Calls that begin so many calls deep settle, each through so many points. -/
def CallersSettle (P : FunctionDecl → Prop) (depth cost : Nat) (call call' : Caller)
    (inside : CallPoints) : Prop :=
  ∀ {m : Machine} {callee : Value} {arguments : List Value} (line : Nat), m.Holds P →
    m.depth = depth → callee.Holds P → (∀ v ∈ arguments, v.Holds P) →
    Settles P m (call callee arguments line) (call' callee arguments line)
      (inside callee arguments line m) cost (·.Holds P)

section

variable {depth cost : Nat} {call call' : Caller} {inside : CallPoints}

mutual

theorem Expr.settles (callers : CallersSettle P depth cost call call' inside) {m : Machine}
    (holds : m.Holds P) (deep : m.depth = depth) : (e : Expr) →
      Settles P m (e.evaluate call) (e.evaluate call') (e.points call inside m)
        (e.size * (cost + 1)) (·.Holds P)
  | .constant value => by
    rw [Expr.evaluate, Expr.evaluate, Expr.points, Expr.size]
    have alone : Settles P m (pure (Value.ofConstant value)) (pure (Value.ofConstant value)) [] 0
        (fun v : Value => v.Holds P) := .pure holds (Value.holds_ofConstant value)
    exact alone.visit.widen (by omega)
  | .group part => by
    rw [Expr.evaluate, Expr.evaluate, Expr.points, Expr.size, Nat.succ_mul]
    exact (part.settles callers holds deep).visit.widen (by omega)
  | .unary operator part => by
    rw [Expr.evaluate, Expr.evaluate, Expr.points, Expr.size, Nat.succ_mul]
    have all := (part.settles callers holds deep).last fun v k holds _ _ =>
      .applyUnary holds operator v
    exact all.visit.widen (by omega)
  | .binary left operator right => by
    rw [Expr.evaluate, Expr.evaluate, Expr.points, Expr.size, Nat.succ_mul, Nat.add_mul]
    have all := (left.settles callers holds deep).bind fun v k holds same _ =>
      (right.settles callers holds (same.trans deep)).last fun w k holds _ _ =>
        .applyBinary holds operator v w
    exact all.visit.widen (by omega)
  | .logical left operator right => by
    rw [Expr.evaluate, Expr.evaluate, Expr.points, Expr.size, Nat.succ_mul, Nat.add_mul]
    have later : ∀ (v : Value) (k : Machine), k.Holds P → k.depth = m.depth → v.Holds P →
        Settles P k (if Run.decides operator v then pure v else right.evaluate call)
          (if Run.decides operator v then pure v else right.evaluate call')
          (if Run.decides operator v then [] else right.points call inside k)
          (right.size * (cost + 1)) (·.Holds P) := by
      intro v k holds same value
      by_cases decided : Run.decides operator v
      · simp only [decided, if_true]
        exact .pure holds value
      · simp only [decided]
        exact right.settles callers holds (same.trans deep)
    exact ((left.settles callers holds deep).bind later).visit.widen (by omega)
  | .read id name => by
    rw [Expr.evaluate, Expr.evaluate, Expr.points, Expr.size]
    exact (Settles.readVariable holds id name).visit.widen (by omega)
  | .this id keyword => by
    rw [Expr.evaluate, Expr.evaluate, Expr.points, Expr.size]
    exact (Settles.readVariable holds id keyword).visit.widen (by omega)
  | .assign id name value => by
    rw [Expr.evaluate, Expr.evaluate, Expr.points, Expr.size, Nat.succ_mul]
    have all := (value.settles callers holds deep).last fun v k holds _ assigned =>
      (Settles.assignVariable holds id name assigned).last fun _ k holds _ _ =>
        .pure holds assigned
    exact all.visit.widen (by omega)
  | .call callee closing arguments => by
    rw [Expr.evaluate, Expr.evaluate, Expr.points, Expr.size, Nat.succ_mul, Nat.add_mul]
    have all := (callee.settles callers holds deep).bind fun v k holds same called =>
      (Expr.allSettle callers holds (same.trans deep) arguments).bind fun list l holds same' all =>
        callers closing.line holds (same'.trans (same.trans deep)) called all
    exact all.visit.widen (by omega)
  | .get object name => by
    rw [Expr.evaluate, Expr.evaluate, Expr.points, Expr.size, Nat.succ_mul]
    have all := (object.settles callers holds deep).last fun v k holds _ value =>
      Settles.property holds name value
    exact all.visit.widen (by omega)
  | .set object name value => by
    rw [Expr.evaluate, Expr.evaluate, Expr.points, Expr.size, Nat.succ_mul, Nat.add_mul]
    have later : ∀ (v : Value) (k : Machine), k.Holds P → k.depth = m.depth → v.Holds P →
        Settles P k
          (match v with
            | .object i _ => do
              let assigned ← value.evaluate call
              Run.setField i name.lexeme assigned
              return assigned
            | _ => Run.raise name.line .notInstanceField)
          (match v with
            | .object i _ => do
              let assigned ← value.evaluate call'
              Run.setField i name.lexeme assigned
              return assigned
            | _ => Run.raise name.line .notInstanceField)
          (match v with
            | .object _ _ => value.points call inside k
            | _ => []) (value.size * (cost + 1)) (·.Holds P) := by
      intro v k holds same _
      cases v with
      | object i c =>
        apply (value.settles callers holds (same.trans deep)).last
        intro assigned k holds _ value
        apply (Settles.setField holds i name.lexeme value).last
        intro _ k holds _ _
        exact .pure holds value
      | _ => exact .raise holds
    exact ((object.settles callers holds deep).bind later).visit.widen (by omega)

theorem Expr.allSettle (callers : CallersSettle P depth cost call call' inside) {m : Machine}
    (holds : m.Holds P) (deep : m.depth = depth) : (list : List Expr) →
      Settles P m (Expr.evaluateAll call list) (Expr.evaluateAll call' list)
        (Expr.allPoints call inside list m) (Expr.allSize list * (cost + 1))
        fun all => ∀ v ∈ all, v.Holds P
  | [] => by
    rw [Expr.evaluateAll, Expr.evaluateAll, Expr.allPoints]
    exact .pure holds (by simp)
  | e :: rest => by
    rw [Expr.evaluateAll, Expr.evaluateAll, Expr.allPoints, Expr.allSize, Nat.add_mul]
    apply (e.settles callers holds deep).bind
    intro v k holds same value
    apply (Expr.allSettle callers holds (same.trans deep) rest).last
    intro list l holds _ all
    exact .pure holds (List.forall_mem_cons.2 ⟨value, all⟩)

end

theorem Run.valueOf_settles (callers : CallersSettle P depth cost call call' inside) {m : Machine}
    (holds : m.Holds P) (deep : m.depth = depth) (value : Option Expr) :
    Settles P m (valueOf call value) (valueOf call' value) (Expr.optionPoints call inside value m)
      (Expr.optionSize value * (cost + 1)) (·.Holds P) := by
  cases value with
  | none => exact .pure holds trivial
  | some e => exact e.settles callers holds deep

variable {size : Nat} (bound bound' : Nat)

mutual

theorem Stmt.settles (callers : CallersSettle (FunctionDecl.Small size) depth cost call call' inside)
    {m : Machine} (holds : m.Holds (FunctionDecl.Small size)) (deep : m.depth = depth) :
    (s : Stmt) → s.LoopFree → s.size ≤ size →
      Settles (FunctionDecl.Small size) m (s.execute call bound) (s.execute call' bound')
        (s.points call inside bound m) (s.size * (cost + 1)) fun _ => True
  | .expression value, _, _ => by
    rw [Stmt.execute, Stmt.execute, Stmt.points, Stmt.size, Nat.succ_mul]
    have done : ∀ (v : Value) (k : Machine), k.Holds (FunctionDecl.Small size) →
        k.depth = m.depth → v.Holds (FunctionDecl.Small size) →
        Settles (FunctionDecl.Small size) k (pure ()) (pure ()) [] 0 fun _ => True :=
      fun _ _ holds _ _ => .pure holds trivial
    exact ((value.settles callers holds deep).last done).visit.widen (by omega)
  | .print value, _, _ => by
    rw [Stmt.execute, Stmt.execute, Stmt.points, Stmt.size, Nat.succ_mul]
    have all := (value.settles callers holds deep).last fun v k holds _ _ => .printLine holds v
    exact all.visit.widen (by omega)
  | .var name value, _, _ => by
    rw [Stmt.execute, Stmt.execute, Stmt.points, Stmt.size, Nat.succ_mul]
    have all := (Run.valueOf_settles callers holds deep value).last fun v k holds _ value =>
      Settles.asking (.define holds k.current name.lexeme value)
    exact all.visit.widen (by omega)
  | .block body, free, small => by
    rw [Stmt.size] at small
    rw [Stmt.execute, Stmt.execute, Stmt.points, Stmt.size, Nat.succ_mul]
    have all := (Settles.newScope holds m.current).step fun i k holds same _ =>
      (Stmt.allSettle callers (m := { k with current := i }) ⟨holds.values, holds.fields⟩
        (same.trans deep) body free (by omega)).within
    exact all.asking.visit.widen (by omega)
  | .branch condition consequent none, free, small => by
    rw [Stmt.size] at small
    rw [Stmt.execute, Stmt.execute, Stmt.points, Stmt.size, Nat.succ_mul, Nat.add_mul]
    have later : ∀ (v : Value) (k : Machine), k.Holds (FunctionDecl.Small size) →
        k.depth = m.depth → v.Holds (FunctionDecl.Small size) →
        Settles (FunctionDecl.Small size) k
          (if v.truthy then consequent.execute call bound else pure ())
          (if v.truthy then consequent.execute call' bound' else pure ())
          (if v.truthy then consequent.points call inside bound k else [])
          (consequent.size * (cost + 1)) fun _ => True := by
      intro v k holds same _
      by_cases holds' : v.truthy
      · simp only [holds', if_true]
        exact consequent.settles callers holds (same.trans deep) free (by omega)
      · simp only [holds']
        exact .pure holds trivial
    exact ((condition.settles callers holds deep).bind later).visit.widen (by omega)
  | .branch condition consequent (some alternative), free, small => by
    rw [Stmt.size] at small
    rw [Stmt.execute, Stmt.execute, Stmt.points, Stmt.size, Nat.succ_mul, Nat.add_mul, Nat.add_mul]
    have later : ∀ (v : Value) (k : Machine), k.Holds (FunctionDecl.Small size) →
        k.depth = m.depth → v.Holds (FunctionDecl.Small size) →
        Settles (FunctionDecl.Small size) k
          (if v.truthy then consequent.execute call bound else alternative.execute call bound)
          (if v.truthy then consequent.execute call' bound' else alternative.execute call' bound')
          (if v.truthy then consequent.points call inside bound k
            else alternative.points call inside bound k)
          (consequent.size * (cost + 1) + alternative.size * (cost + 1)) fun _ => True := by
      intro v k holds same _
      by_cases holds' : v.truthy
      · simp only [holds', if_true]
        exact (consequent.settles callers holds (same.trans deep) free.1 (by omega)).widen (by omega)
      · simp only [holds']
        exact (alternative.settles callers holds (same.trans deep) free.2 (by omega)).widen (by omega)
    exact ((condition.settles callers holds deep).bind later).visit.widen (by omega)
  | .loop _ _, free, _ => free.elim
  | .function declaration, free, small => by
    rw [Stmt.size] at small
    rw [Stmt.execute, Stmt.execute, Stmt.points, Stmt.size, Nat.succ_mul]
    have made : Callable.Holds (FunctionDecl.Small size) (.closure ⟨declaration, m.current⟩) :=
      ⟨free, Nat.le_of_lt small⟩
    have all := (Settles.newCallable holds made).last fun v k holds _ value =>
      .define holds m.current declaration.name.lexeme value
    exact all.asking.visit.widen (by omega)
  | .ret keyword value, _, _ => by
    rw [Stmt.execute, Stmt.execute, Stmt.points, Stmt.size, Nat.succ_mul]
    have thrown : ∀ (v : Value) (k : Machine), k.Holds (FunctionDecl.Small size) →
        k.depth = m.depth → v.Holds (FunctionDecl.Small size) →
        Settles (FunctionDecl.Small size) k (throw (.returned v keyword.line) : Run Unit)
          (throw (.returned v keyword.line)) [] 0 fun _ => True :=
      fun v k holds _ value => .throw holds value
    exact ((Run.valueOf_settles callers holds deep value).last thrown).visit.widen (by omega)
  | .classDecl name methods, free, small => by
    rw [Stmt.size] at small
    rw [Stmt.execute, Stmt.execute, Stmt.points, Stmt.size, Nat.succ_mul]
    have made : Callable.Holds (FunctionDecl.Small size)
        (.ofClass ⟨name.lexeme, methods, m.current⟩) :=
      FunctionDecl.small_of_mem free (Nat.le_of_lt small)
    have all := (Settles.newCallable holds made).last fun v k holds _ value =>
      .define holds m.current name.lexeme value
    exact all.asking.visit.widen (by omega)

theorem Stmt.allSettle
    (callers : CallersSettle (FunctionDecl.Small size) depth cost call call' inside)
    {m : Machine} (holds : m.Holds (FunctionDecl.Small size)) (deep : m.depth = depth) :
    (list : List Stmt) → Stmt.AllLoopFree list → Stmt.allSize list ≤ size →
      Settles (FunctionDecl.Small size) m (Stmt.executeAll call bound list)
        (Stmt.executeAll call' bound' list) (Stmt.allPoints call inside bound list m)
        (Stmt.allSize list * (cost + 1)) fun _ => True
  | [], _, _ => by
    rw [Stmt.executeAll, Stmt.executeAll, Stmt.allPoints]
    exact .pure holds trivial
  | s :: rest, free, small => by
    rw [Stmt.allSize] at small
    rw [Stmt.executeAll, Stmt.executeAll, Stmt.allPoints, Stmt.allSize, Nat.add_mul]
    apply (s.settles callers holds deep free.1 (by omega)).bind
    intro _ k holds same _
    exact Stmt.allSettle callers holds (same.trans deep) rest free.2 (by omega)

end

end

/-- So many points a call goes through at most, where calls may nest `room` deep and no function is
larger than `size`. -/
def callCost (size : Nat) : (room : Nat) → Nat
  | 0 => 0
  | room + 1 => size * (callCost size room + 1)

theorem callCost_le (size room : Nat) : callCost size room + 1 ≤ (size + 1) ^ room := by
  induction room with
  | zero => exact Nat.le_refl 1
  | succ room ih =>
    have product : (callCost size room + 1) * (size + 1) ≤ (size + 1) ^ (room + 1) :=
      Nat.mul_le_mul_right (size + 1) ih
    rw [callCost, Nat.mul_comm]
    rw [Nat.mul_succ] at product
    omega

namespace Settles

variable {size limit : Nat}

/-- Calls settle if callables do where there is room for one more call. -/
theorem admitting {invoke invoke' : Callable → List Value → (line : Nat) → Run Value}
    {inside : Callable → List Value → (line : Nat) → Points} {depth cost : Nat}
    (settles : depth < limit → ∀ {m : Machine} {what : Callable} {arguments : List Value} (line : Nat),
      m.Holds P → m.depth = depth + 1 → what.Holds P → (∀ v ∈ arguments, v.Holds P) →
      Settles P m (invoke what arguments line) (invoke' what arguments line)
        (inside what arguments line m) cost (·.Holds P)) :
    CallersSettle P depth cost (Run.admitting (some limit) invoke)
      (Run.admitting (some limit) invoke') (Run.admittingPoints (some limit) inside) := by
  intro m callee arguments line holds deep value all
  apply (admitted holds limit value arguments line).step
  intro what k holds same ⟨called, room⟩
  have deeper : k.depth + 1 = depth + 1 := by rw [same, deep]
  apply counted
  exact settles (deep ▸ room) line ⟨holds.values, holds.fields⟩ deeper called all

/-- Where `room` is left below the limit, calls settle whatever the bounds are, if these are no less than
the room: each call takes one of either. -/
theorem call (clock : Nat → Float) (room : Nat) : ∀ {bound bound' depth : Nat}, room ≤ bound →
    room ≤ bound' → depth + room = limit →
      CallersSettle (FunctionDecl.Small size) depth (callCost size room)
        (Run.call ⟨clock, some limit⟩ bound) (Run.call ⟨clock, some limit⟩ bound')
        (Run.callPoints ⟨clock, some limit⟩ bound) := by
  induction room with
  | zero =>
    intro bound bound' depth _ _ full
    exact admitting fun room => by omega
  | succ room ih =>
    intro bound bound' depth enough enough' left
    apply admitting
    intro _ m what arguments line holds deep called all
    cases what with
    | native which =>
      have answered := native holds ⟨clock, some limit⟩ bound bound' which arguments line
      cases bound <;> exact answered.widen (Nat.zero_le _)
    | ofClass c =>
      have made := (newObject holds called).widen (Nat.zero_le (callCost size (room + 1)))
      cases bound <;> cases bound' <;> exact made
    | closure f =>
      obtain ⟨bound, rfl⟩ : ∃ b, bound = b + 1 := ⟨bound - 1, by omega⟩
      obtain ⟨bound', rfl⟩ : ∃ b, bound' = b + 1 := ⟨bound' - 1, by omega⟩
      have callers : CallersSettle (FunctionDecl.Small size) (depth + 1) (callCost size room)
          (Run.call ⟨clock, some limit⟩ bound) (Run.call ⟨clock, some limit⟩ bound')
          (Run.callPoints ⟨clock, some limit⟩ bound) := ih (by omega) (by omega) (by omega)
      have le : Stmt.allSize f.declaration.body ≤ size := f.declaration.size_eq ▸ called.size_le
      rw [Run.invoke, Run.invoke, Run.enter_eq, Run.enter_eq]
      apply (prepare holds all).step
      intro scope k holds same _
      have body := Stmt.allSettle bound bound' callers (m := { k with current := scope })
        ⟨holds.values, holds.fields⟩ (same.trans deep) f.declaration.body
        ((f.declaration.loopFree_iff).1 called.loopFree) le
      exact (body.widen (Nat.mul_le_mul_right _ le)).within.returning

end Settles

end Lox
