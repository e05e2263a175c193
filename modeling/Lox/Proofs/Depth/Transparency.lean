import Lox.Proofs.Depth.Plain
import Lox.Proofs.Depth.Starts
import Lox.Proofs.Exit.Evaluation

/-! A limit on nested calls does nothing until it is reached. An action with the limit and the same
action without are compared along the calls the latter begins: the first of them that begins with as
many calls active as the limit allows is where the former stops, and if there is none both come to
the same. -/
namespace Lox

open Run

/-- The first call that begins with as many calls active as the limit allows. -/
def overflow? (limit : Nat) (starts : List Start) : Option Start :=
  starts.find? (limit ≤ ·.machine.depth)

/-- From `m`, the action `x` with the limit goes the way of the action `y` without, whose calls are
`starts`. At the first of them that is over the limit it stops and is back at the level of `m`. -/
def Transparent (limit : Nat) (m : Machine) (x y : Run α) (starts : List Start) : Prop :=
  match overflow? limit starts with
  | none => x m = y m ∧ ∀ line m', y m ≠ .error (.raised (.runtime line .stackOverflow)) m'
  | some s => s.machine.depth = limit ∧
    x m = .error (.raised (.runtime s.line .stackOverflow))
      { s.machine with current := m.current, depth := m.depth }

namespace Transparent

variable {limit : Nat} {m : Machine} {x y : Run α} {starts : List Start} {a : Bool}

theorem cases (transparent : Transparent limit m x y starts) :
    (overflow? limit starts = none ∧ x m = y m ∧
      ∀ line m', y m ≠ .error (.raised (.runtime line .stackOverflow)) m') ∨
    ∃ s, overflow? limit starts = some s ∧ s.machine.depth = limit ∧
      x m = .error (.raised (.runtime s.line .stackOverflow))
        { s.machine with current := m.current, depth := m.depth } := by
  unfold Transparent at transparent
  cases ahead : overflow? limit starts with
  | none =>
    rw [ahead] at transparent
    exact .inl ⟨rfl, transparent⟩
  | some s =>
    rw [ahead] at transparent
    exact .inr ⟨s, rfl, transparent⟩

theorem of_none (ahead : overflow? limit starts = none) (same : x m = y m)
    (other : ∀ line m', y m ≠ .error (.raised (.runtime line .stackOverflow)) m') :
    Transparent limit m x y starts := by
  unfold Transparent
  rw [ahead]
  exact ⟨same, other⟩

theorem of_some {s : Start} (ahead : overflow? limit starts = some s) (full : s.machine.depth = limit)
    (stopped : x m = .error (.raised (.runtime s.line .stackOverflow))
      { s.machine with current := m.current, depth := m.depth }) :
    Transparent limit m x y starts := by
  unfold Transparent
  rw [ahead]
  exact ⟨full, stopped⟩

theorem plain (plain : Plain y) : Transparent limit m y y [] := by
  apply of_none rfl rfl
  intro line m' stopped
  exact plain stopped line rfl

/-- Behind the calls of an action come those of what follows it. -/
theorem bind {f g : α → Run β} {then' : α → Starts} (first : Transparent limit m x y starts)
    (balanced : Balanced a y) (within : m.depth ≤ limit)
    (second : ∀ v k, k.depth ≤ limit → Transparent limit k (f v) (g v) (then' v k)) :
    Transparent limit m (x >>= f) (y >>= g) (starts ++ Starts.following y then' m) := by
  have joined : overflow? limit (starts ++ Starts.following y then' m) =
      (overflow? limit starts).or (overflow? limit (Starts.following y then' m)) :=
    List.find?_append
  rcases first.cases with ⟨ahead, same, other⟩ | ⟨s, ahead, full, stopped⟩
  · rw [ahead, Option.none_or] at joined
    cases ran : y m with
    | error stop k =>
      rw [ran] at same other
      have none : Starts.following y then' m = [] := by rw [Starts.following, ran]
      apply of_none (joined.trans (by rw [none]; rfl))
      · simp only [Bind.bind, EStateM.bind, same, ran]
      · simp only [Bind.bind, EStateM.bind, ran]
        intro line m' stopped
        cases stopped
        exact other line _ rfl
    | ok v k =>
      rw [ran] at same
      have behind : Starts.following y then' m = then' v k := by rw [Starts.following, ran]
      have level := balanced.level_of_ok ran
      have result : (x >>= f) m = f v k := by simp only [Bind.bind, EStateM.bind, same]
      have result' : (y >>= g) m = g v k := by simp only [Bind.bind, EStateM.bind, ran]
      rw [behind] at joined
      rw [behind]
      rcases (second v k (level.depth ▸ within)).cases with ⟨ahead', same', other'⟩ |
        ⟨s, ahead', full, stopped⟩
      · apply of_none (joined.trans ahead')
        · rw [result, result', same']
        · rwa [result']
      · apply of_some (joined.trans ahead') full
        rw [result, stopped, level.current, level.depth]
  · rw [ahead, Option.some_or] at joined
    apply of_some joined full
    simp only [Bind.bind, EStateM.bind, stopped]

/-- An action without calls comes first. -/
theorem step {f g : α → Run β} {then' : α → Starts} (plain : Plain y) (balanced : Balanced a y)
    (within : m.depth ≤ limit)
    (second : ∀ v k, k.depth ≤ limit → Transparent limit k (f v) (g v) (then' v k)) :
    Transparent limit m (y >>= f) (y >>= g) (Starts.following y then' m) :=
  (Transparent.plain plain).bind balanced within second

/-- An action without calls comes last. -/
theorem last {g : α → Run β} (first : Transparent limit m x y starts) (balanced : Balanced a y)
    (within : m.depth ≤ limit) (later : ∀ v k, Transparent limit k (g v) (g v) []) :
    Transparent limit m (x >>= g) (y >>= g) starts := by
  have both : Transparent limit m (x >>= g) (y >>= g)
      (starts ++ Starts.following y (fun _ _ => []) m) :=
    first.bind balanced within fun v k _ => later v k
  have none : Starts.following y (fun _ _ => []) m = [] := by
    unfold Starts.following
    split <;> rfl
  rwa [none, List.append_nil] at both

theorem asking {f g : Machine → Run α} (transparent : Transparent limit m (f m) (g m) starts) :
    Transparent limit m (get >>= f) (get >>= g) starts := transparent

theorem within {scope : ScopeId}
    (transparent : Transparent limit { m with current := scope } x y starts) :
    Transparent limit m (within scope x) (within scope y) starts := by
  rcases transparent.cases with ⟨ahead, same, other⟩ | ⟨s, ahead, full, stopped⟩
  · apply of_none ahead
    · rw [Run.within, Run.within, same]
    · intro line m' stopped
      rw [Run.within] at stopped
      split at stopped
      · cases stopped
      next stop k ran =>
        cases stopped
        exact other line k ran
  · apply of_some ahead full
    rw [Run.within, stopped]

theorem counted (transparent : Transparent limit { m with depth := m.depth + 1 } x y starts) :
    Transparent limit m (counted x) (counted y) starts := by
  rcases transparent.cases with ⟨ahead, same, other⟩ | ⟨s, ahead, full, stopped⟩
  · apply of_none ahead
    · rw [Run.counted, Run.counted, same]
    · intro line m' stopped
      rw [Run.counted] at stopped
      split at stopped
      · cases stopped
      next stop k ran =>
        cases stopped
        exact other line k ran
  · apply of_some ahead full
    rw [Run.counted, stopped]
    rfl

theorem returning {x y : Run Unit} (transparent : Transparent limit m x y starts) :
    Transparent limit m (returning x) (returning y) starts := by
  rcases transparent.cases with ⟨ahead, same, other⟩ | ⟨s, ahead, full, stopped⟩
  · apply of_none ahead
    · rw [Run.returning, Run.returning, same]
    · intro line m' stopped
      rw [Run.returning] at stopped
      split at stopped
      · cases stopped
      · cases stopped
      next stop k _ ran =>
        cases stopped
        exact other line _ ran
  · apply of_some ahead full
    rw [Run.returning, stopped]

theorem repeating {condition condition' : Run Value} {body body' : Run Unit}
    {testing doing : Starts} (tested : Balanced a condition') (round : Balanced a body')
    (test : ∀ k, k.depth ≤ limit → Transparent limit k condition condition' (testing k))
    (inner : ∀ k, k.depth ≤ limit → Transparent limit k body body' (doing k)) (bound : Nat)
    (within : m.depth ≤ limit) :
    Transparent limit m (repeating condition body bound) (repeating condition' body' bound)
      (Starts.rounds condition' body' testing doing bound m) := by
  induction bound generalizing m with
  | zero =>
    apply of_none rfl rfl
    intro line m' stopped
    cases stopped
  | succ bound ih =>
    rw [Run.repeating, Run.repeating, Starts.rounds]
    apply (test m within).bind tested within
    intro v k within
    by_cases again : v.truthy
    · simp only [again, if_true]
      exact (inner k within).bind round within fun _ _ => ih
    · simp only [again]
      exact .plain (.pure ())

end Transparent

/-- Calls with a limit go the way of calls without. -/
def CallersTransparent (limit : Nat) (call free : Caller) (inside : CallStarts) : Prop :=
  ∀ callee arguments line m, m.depth ≤ limit →
    Transparent limit m (call callee arguments line) (free callee arguments line)
      (inside callee arguments line m)

section

variable {limit : Nat} {call free : Caller} {inside : CallStarts}

mutual

theorem Expr.evaluate_transparent (callers : CallersTransparent limit call free inside)
    (balanced : CallersBalanced free) : (e : Expr) → (m : Machine) → m.depth ≤ limit →
      Transparent limit m (e.evaluate call) (e.evaluate free) (e.starts free inside m)
  | .constant value, m, _ => by
    rw [Expr.evaluate, Expr.evaluate, Expr.starts]
    exact .plain (.pure _)
  | .group part, m, within => by
    rw [Expr.evaluate, Expr.evaluate, Expr.starts]
    exact part.evaluate_transparent callers balanced m within
  | .unary operator part, m, within => by
    rw [Expr.evaluate, Expr.evaluate, Expr.starts]
    exact (part.evaluate_transparent callers balanced m within).last
      (part.evaluate_balanced balanced) within fun v _ => .plain (applyUnary_plain operator v)
  | .binary left operator right, m, within => by
    rw [Expr.evaluate, Expr.evaluate, Expr.starts]
    apply (left.evaluate_transparent callers balanced m within).bind
      (left.evaluate_balanced balanced) within
    intro first k within
    exact (right.evaluate_transparent callers balanced k within).last
      (right.evaluate_balanced balanced) within fun second _ =>
        .plain (applyBinary_plain operator first second)
  | .logical left operator right, m, within => by
    rw [Expr.evaluate, Expr.evaluate, Expr.starts]
    apply (left.evaluate_transparent callers balanced m within).bind
      (left.evaluate_balanced balanced) within
    intro first k within
    by_cases decided : decides operator first
    · simp only [decided, if_true]
      exact .plain (.pure first)
    · simp only [decided]
      exact right.evaluate_transparent callers balanced k within
  | .read i name, m, _ | .this i name, m, _ => by
    rw [Expr.evaluate, Expr.evaluate, Expr.starts]
    exact .plain (readVariable_plain i name)
  | .assign i name value, m, within => by
    rw [Expr.evaluate, Expr.evaluate, Expr.starts]
    apply (value.evaluate_transparent callers balanced m within).last
      (value.evaluate_balanced balanced) within
    intro v _
    exact .plain ((assignVariable_plain i name v).bind fun _ => .pure v)
  | .call callee closing arguments, m, within => by
    rw [Expr.evaluate, Expr.evaluate, Expr.starts]
    apply (callee.evaluate_transparent callers balanced m within).bind
      (callee.evaluate_balanced balanced) within
    intro v k within
    apply (Expr.evaluateAll_transparent callers balanced arguments k within).bind
      (Expr.evaluateAll_balanced balanced arguments) within
    exact fun list => callers v list closing.line
  | .get object name, m, within => by
    rw [Expr.evaluate, Expr.evaluate, Expr.starts]
    exact (object.evaluate_transparent callers balanced m within).last
      (object.evaluate_balanced balanced) within fun v _ => .plain (property_plain v name)
  | .set object name value, m, within => by
    rw [Expr.evaluate, Expr.evaluate, Expr.starts]
    apply (object.evaluate_transparent callers balanced m within).bind
      (object.evaluate_balanced balanced) within
    intro o k within
    cases o with
    | object id c =>
      apply (value.evaluate_transparent callers balanced k within).last
        (value.evaluate_balanced balanced) within
      intro v _
      exact .plain ((setField_plain id name.lexeme v).bind fun _ => .pure v)
    | _ => exact .plain (.raise (by simp))

theorem Expr.evaluateAll_transparent (callers : CallersTransparent limit call free inside)
    (balanced : CallersBalanced free) : (list : List Expr) → (m : Machine) → m.depth ≤ limit →
      Transparent limit m (Expr.evaluateAll call list) (Expr.evaluateAll free list)
        (Expr.allStarts free inside list m)
  | [], _, _ => by
    rw [Expr.evaluateAll, Expr.evaluateAll, Expr.allStarts]
    exact .plain (.pure [])
  | e :: rest, m, within => by
    rw [Expr.evaluateAll, Expr.evaluateAll, Expr.allStarts]
    apply (e.evaluate_transparent callers balanced m within).bind (e.evaluate_balanced balanced) within
    intro first k within
    exact (Expr.evaluateAll_transparent callers balanced rest k within).last
      (Expr.evaluateAll_balanced balanced rest) within fun list _ => .plain (.pure (first :: list))

end

theorem Run.valueOf_transparent (callers : CallersTransparent limit call free inside)
    (balanced : CallersBalanced free) (value : Option Expr) {m : Machine}
    (within : m.depth ≤ limit) :
    Transparent limit m (valueOf call value) (valueOf free value)
      (Expr.optionStarts free inside value m) := by
  cases value with
  | none => exact .plain (.pure _)
  | some e => exact e.evaluate_transparent callers balanced m within

mutual

theorem Stmt.execute_transparent (callers : CallersTransparent limit call free inside)
    (balanced : CallersBalanced free) (bound : Nat) : (s : Stmt) → (m : Machine) → m.depth ≤ limit →
      Transparent limit m (s.execute call bound) (s.execute free bound)
        (s.starts free inside bound m)
  | .expression value, m, within => by
    rw [Stmt.execute, Stmt.execute, Stmt.starts]
    exact (value.evaluate_transparent callers balanced m within).last
      (value.evaluate_balanced balanced) within fun _ _ => .plain (.pure ())
  | .print value, m, within => by
    rw [Stmt.execute, Stmt.execute, Stmt.starts]
    exact (value.evaluate_transparent callers balanced m within).last
      (value.evaluate_balanced balanced) within fun v _ => .plain (printLine_plain v)
  | .var name initializer, m, within => by
    rw [Stmt.execute, Stmt.execute, Stmt.starts]
    apply (valueOf_transparent callers balanced initializer within).last
      (valueOf_balanced balanced initializer) within
    intro v _
    exact .plain (.of_ok _ _ fun _ => rfl)
  | .block body, m, within => by
    rw [Stmt.execute, Stmt.execute, Stmt.starts]
    apply Transparent.asking
    apply Transparent.step (newScope_plain m.current) (newScope_balanced (a := false) m.current) within
    intro scope k within
    exact (Stmt.executeAll_transparent callers balanced bound body { k with current := scope }
      within).within
  | .branch condition consequent none, m, within => by
    rw [Stmt.execute, Stmt.execute, Stmt.starts]
    apply (condition.evaluate_transparent callers balanced m within).bind
      (condition.evaluate_balanced balanced) within
    intro v k within
    by_cases holds : v.truthy
    · simp only [holds, if_true]
      exact consequent.execute_transparent callers balanced bound k within
    · simp only [holds]
      exact .plain (.pure ())
  | .branch condition consequent (some alternative), m, within => by
    rw [Stmt.execute, Stmt.execute, Stmt.starts]
    apply (condition.evaluate_transparent callers balanced m within).bind
      (condition.evaluate_balanced balanced) within
    intro v k within
    by_cases holds : v.truthy
    · simp only [holds, if_true]
      exact consequent.execute_transparent callers balanced bound k within
    · simp only [holds]
      exact alternative.execute_transparent callers balanced bound k within
  | .loop condition body, m, within => by
    rw [Stmt.execute, Stmt.execute, Stmt.starts]
    apply Transparent.repeating (condition.evaluate_balanced balanced).plain
      (body.execute_balanced balanced bound)
    · exact condition.evaluate_transparent callers balanced
    · exact body.execute_transparent callers balanced bound
    · exact within
  | .function declaration, m, _ => by
    rw [Stmt.execute, Stmt.execute, Stmt.starts]
    exact .plain (.of_ok _ _ fun _ => rfl)
  | .ret keyword value, m, within => by
    rw [Stmt.execute, Stmt.execute, Stmt.starts]
    apply (valueOf_transparent callers balanced value within).last
      (valueOf_balanced balanced value) within
    intro v k
    apply Transparent.of_none rfl rfl
    intro line m' stopped
    cases stopped
  | .classDecl name methods, m, _ => by
    rw [Stmt.execute, Stmt.execute, Stmt.starts]
    exact .plain (.of_ok _ _ fun _ => rfl)

theorem Stmt.executeAll_transparent (callers : CallersTransparent limit call free inside)
    (balanced : CallersBalanced free) (bound : Nat) :
    (list : List Stmt) → (m : Machine) → m.depth ≤ limit →
      Transparent limit m (Stmt.executeAll call bound list) (Stmt.executeAll free bound list)
        (Stmt.allStarts free inside bound list m)
  | [], _, _ => by
    rw [Stmt.executeAll, Stmt.executeAll, Stmt.allStarts]
    exact .plain (.pure ())
  | s :: rest, m, within => by
    rw [Stmt.executeAll, Stmt.executeAll, Stmt.allStarts]
    apply (s.execute_transparent callers balanced bound m within).bind
      (s.execute_balanced balanced bound) within
    exact fun _ => Stmt.executeAll_transparent callers balanced bound rest

end

end

end Lox
