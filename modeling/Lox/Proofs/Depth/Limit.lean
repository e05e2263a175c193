import Lox.Proofs.Depth.Transparency
import Lox.Proofs.Exit.Returning

/-! The limit on nested calls. Calls are compared by induction on the bound: a call with the limit
refuses where as many calls are active and otherwise goes the way of the call without. With the limit
no call begins beyond it, so that no more calls are ever active than it allows. -/
namespace Lox

open Run Points

theorem Run.admitted_apply (limit : Option Nat) (callee : Value) (arguments : List Value)
    (line : Nat) (m : Machine) : admitted limit callee arguments line m =
      match callee with
      | .callable _ what =>
        if arguments.length ≠ what.arity then
          .error (.raised (.runtime line (.arityMismatch what.arity arguments.length))) m
        else if limit.any (· ≤ m.depth) then .error (.raised (.runtime line .stackOverflow)) m
        else .ok what m
      | _ => .error (.raised (.runtime line .notCallable)) m := by
  cases callee with
  | callable identity what =>
    rw [admitted]
    by_cases complete : arguments.length = what.arity
    · simp only [complete, ne_eq, not_true_eq_false, if_false, get_bind]
      by_cases deep : limit.any (· ≤ m.depth) = true
      · simp only [deep, if_true]
        rfl
      · simp only [deep]
        rfl
    · simp only [ne_eq, complete, not_false_eq_true, if_true]
      rfl
  | _ => rfl

section

variable {limit : Nat} {invoke free : Callable → List Value → (line : Nat) → Run Value}
  {inside : Callable → List Value → (line : Nat) → Starts}

theorem Run.admitting_transparent
    (inner : ∀ what arguments line m, m.depth ≤ limit →
      Transparent limit m (invoke what arguments line) (free what arguments line)
        (inside what arguments line m)) :
    CallersTransparent limit (admitting (some limit) invoke) (admitting none free)
      (admittingStarts none inside) := by
  intro callee arguments line m within
  have refused {d : Diagnostic} (other : ∀ line, d ≠ .runtime line .stackOverflow)
      (first : admitted (some limit) callee arguments line m = .error (.raised d) m)
      (second : admitted none callee arguments line m = .error (.raised d) m) :
      Transparent limit m (admitting (some limit) invoke callee arguments line)
        (admitting none free callee arguments line) (admittingStarts none inside callee arguments line m) := by
    have none : admittingStarts none inside callee arguments line m = [] := by
      rw [admittingStarts, Starts.following, second]
    rw [none]
    apply Transparent.of_none rfl
    · simp only [admitting, Bind.bind, EStateM.bind, first, second]
    · simp only [admitting, Bind.bind, EStateM.bind, second]
      intro line' m' stopped
      cases stopped
      exact other line' rfl
  cases callee with
  | callable identity what =>
    by_cases complete : arguments.length = what.arity
    · -- Without the limit the call begins, and with it unless the limit is reached.
      have second : admitted none (.callable identity what) arguments line m = .ok what m := by
        simp [admitted_apply, complete]
      have begun : admittingStarts none inside (.callable identity what) arguments line m =
          ⟨what, line, m⟩ :: inside what arguments line { m with depth := m.depth + 1 } := by
        rw [admittingStarts, Starts.following, second]
      rw [begun]
      by_cases full : limit ≤ m.depth
      · have first : admitted (some limit) (.callable identity what) arguments line m =
            .error (.raised (.runtime line .stackOverflow)) m := by
          simp [admitted_apply, complete, full]
        apply Transparent.of_some (s := ⟨what, line, m⟩)
        · simp [overflow?, full]
        · exact Nat.le_antisymm within full
        · simp only [admitting, Bind.bind, EStateM.bind, first]
      · have first : admitted (some limit) (.callable identity what) arguments line m = .ok what m := by
          simp [admitted_apply, complete, full]
        have later := (inner what arguments line { m with depth := m.depth + 1 }
          (Nat.lt_of_not_le full)).counted
        unfold Transparent at later ⊢
        have skipped : overflow? limit
            (⟨what, line, m⟩ :: inside what arguments line { m with depth := m.depth + 1 }) =
            overflow? limit (inside what arguments line { m with depth := m.depth + 1 }) := by
          simp [overflow?, full]
        rw [skipped]
        simp only [admitting, Bind.bind, EStateM.bind, first, second]
        exact later
    · exact refused (d := .runtime line (.arityMismatch what.arity arguments.length)) (by simp)
        (by simp [admitted_apply, complete]) (by simp [admitted_apply, complete])
  | _ => exact refused (d := .runtime line .notCallable) (by simp) rfl rfl

end

/-- What a callable does with the limit it does without, up to the first call over the limit. -/
theorem Run.invoke_transparent (clock : Nat → Float) (limit bound : Nat) (what : Callable)
    (arguments : List Value) (line : Nat) {m : Machine} (within : m.depth ≤ limit) :
    Transparent limit m (invoke ⟨clock, some limit⟩ bound what arguments line)
      (invoke ⟨clock, none⟩ bound what arguments line)
      (invokeStarts ⟨clock, none⟩ bound what arguments line m) := by
  induction bound generalizing what arguments line m with
  | zero =>
    cases what with
    | native which => exact .plain (native_plain ⟨clock, none⟩ 0 which arguments line)
    | ofClass c => exact .plain (newObject_plain c)
    | closure f =>
      apply Transparent.of_none rfl rfl
      intro line' m' stopped
      cases stopped
  | succ bound ih =>
    cases what with
    | native which => exact .plain (native_plain ⟨clock, none⟩ (bound + 1) which arguments line)
    | ofClass c => exact .plain (newObject_plain c)
    | closure f =>
      have callers : CallersTransparent limit (call ⟨clock, some limit⟩ bound)
          (call ⟨clock, none⟩ bound) (callStarts ⟨clock, none⟩ bound) :=
        admitting_transparent fun what arguments line _ within => ih what arguments line within
      rw [invoke, invoke, enter_eq, enter_eq]
      apply Transparent.step (prepare_plain f arguments)
        (prepare_balanced (a := false) f arguments) within
      intro scope k within
      exact (Stmt.executeAll_transparent callers (call_balanced ⟨clock, none⟩ bound) bound
        f.declaration.body { k with current := scope } within).within.returning

theorem Run.call_transparent (clock : Nat → Float) (limit bound : Nat) :
    CallersTransparent limit (call ⟨clock, some limit⟩ bound) (call ⟨clock, none⟩ bound)
      (callStarts ⟨clock, none⟩ bound) :=
  admitting_transparent fun what arguments line _ within =>
    invoke_transparent clock limit bound what arguments line within

namespace Starts

/-- A property of calls holds of all in a list. -/
abbrev All (P : Start → Prop) (starts : List Start) : Prop := ∀ c ∈ starts, P c

variable {P : Start → Prop}

theorem All.none : All P [] := List.forall_mem_nil P

theorem All.append {first second : List Start} (left : All P first) (right : All P second) :
    All P (first ++ second) := List.forall_mem_append.2 ⟨left, right⟩

theorem All.following {action : Run α} {then' : α → Starts} {m : Machine}
    (all : ∀ v k, action m = .ok v k → All P (then' v k)) : All P (following action then' m) := by
  rw [Starts.following]
  cases ran : action m with
  | ok v k => exact all v k ran
  | error stop k => exact .none

theorem All.rounds {condition : Run Value} {body : Run Unit} {testing doing : Starts}
    (test : ∀ m, All P (testing m)) (inner : ∀ m, All P (doing m)) (bound : Nat) (m : Machine) :
    All P (rounds condition body testing doing bound m) := by
  induction bound generalizing m with
  | zero => exact .none
  | succ bound ih =>
    rw [Starts.rounds]
    apply (test m).append
    apply All.following
    intro v k _
    by_cases again : v.truthy
    · simp only [again, if_true]
      exact (inner k).append (.following fun _ l _ => ih l)
    · simp only [again]
      exact .none

end Starts

section

variable {call : Caller} {inside : CallStarts} {P : Start → Prop}

mutual

/-- What holds of every call that a value begins holds of all calls that an expression begins. -/
theorem Expr.starts_all
    (called : ∀ callee arguments line m, Starts.All P (inside callee arguments line m)) :
    (e : Expr) → (m : Machine) → Starts.All P (e.starts call inside m)
  | .constant _, _ | .read _ _, _ | .this _ _, _ => by
    rw [Expr.starts]
    exact .none
  | .group part, m | .unary _ part, m | .assign _ _ part, m | .get part _, m => by
    rw [Expr.starts]
    exact part.starts_all called m
  | .binary left _ right, m => by
    rw [Expr.starts]
    exact (left.starts_all called m).append (.following fun _ k _ => right.starts_all called k)
  | .logical left operator right, m => by
    rw [Expr.starts]
    apply (left.starts_all called m).append
    apply Starts.All.following
    intro v k _
    by_cases decided : decides operator v
    · simp only [decided, if_true]
      exact .none
    · simp only [decided]
      exact right.starts_all called k
  | .call callee closing arguments, m => by
    rw [Expr.starts]
    apply (callee.starts_all called m).append
    apply Starts.All.following
    intro v k _
    exact (Expr.allStarts_all called arguments k).append
      (.following fun list l _ => called v list closing.line l)
  | .set object name value, m => by
    rw [Expr.starts]
    apply (object.starts_all called m).append
    apply Starts.All.following
    intro v k _
    cases v with
    | object id c => exact value.starts_all called k
    | _ => exact .none

theorem Expr.allStarts_all
    (called : ∀ callee arguments line m, Starts.All P (inside callee arguments line m)) :
    (list : List Expr) → (m : Machine) → Starts.All P (Expr.allStarts call inside list m)
  | [], _ => by
    rw [Expr.allStarts]
    exact .none
  | e :: rest, m => by
    rw [Expr.allStarts]
    exact (e.starts_all called m).append (.following fun _ k _ => Expr.allStarts_all called rest k)

end

theorem Expr.optionStarts_all
    (called : ∀ callee arguments line m, Starts.All P (inside callee arguments line m))
    (value : Option Expr) (m : Machine) : Starts.All P (Expr.optionStarts call inside value m) := by
  cases value with
  | none => exact .none
  | some e => exact e.starts_all called m

mutual

theorem Stmt.starts_all
    (called : ∀ callee arguments line m, Starts.All P (inside callee arguments line m)) (bound : Nat) :
    (s : Stmt) → (m : Machine) → Starts.All P (s.starts call inside bound m)
  | .expression value, m | .print value, m => by
    rw [Stmt.starts]
    exact value.starts_all called m
  | .var _ value, m | .ret _ value, m => by
    rw [Stmt.starts]
    exact Expr.optionStarts_all called value m
  | .block body, m => by
    rw [Stmt.starts]
    apply Starts.All.following
    intro scope k _
    exact Stmt.allStarts_all called bound body { k with current := scope }
  | .branch condition consequent none, m => by
    rw [Stmt.starts]
    apply (condition.starts_all called m).append
    apply Starts.All.following
    intro v k _
    by_cases holds : v.truthy
    · simp only [holds, if_true]
      exact consequent.starts_all called bound k
    · simp only [holds]
      exact .none
  | .branch condition consequent (some alternative), m => by
    rw [Stmt.starts]
    apply (condition.starts_all called m).append
    apply Starts.All.following
    intro v k _
    by_cases holds : v.truthy
    · simp only [holds, if_true]
      exact consequent.starts_all called bound k
    · simp only [holds]
      exact alternative.starts_all called bound k
  | .loop condition body, m => by
    rw [Stmt.starts]
    exact .rounds (condition.starts_all called) (body.starts_all called bound) bound m
  | .function _, _ | .classDecl _ _, _ => by
    rw [Stmt.starts]
    exact .none

theorem Stmt.allStarts_all
    (called : ∀ callee arguments line m, Starts.All P (inside callee arguments line m)) (bound : Nat) :
    (list : List Stmt) → (m : Machine) → Starts.All P (Stmt.allStarts call inside bound list m)
  | [], _ => by
    rw [Stmt.allStarts]
    exact .none
  | s :: rest, m => by
    rw [Stmt.allStarts]
    exact (s.starts_all called bound m).append
      (.following fun _ k _ => Stmt.allStarts_all called bound rest k)

end

end

section

variable {limit : Nat}

/-- Who is admitted finds the limit not reached. -/
theorem Run.depth_lt_of_admitted {callee : Value} {arguments : List Value} {line : Nat}
    {m k : Machine} {what : Callable}
    (admits : admitted (some limit) callee arguments line m = .ok what k) : k.depth < limit := by
  rw [admitted_apply] at admits
  split at admits
  · split at admits
    · cases admits
    · split at admits
      · cases admits
      next room =>
        cases admits
        simpa using room
  · cases admits

/-- What a value begins is under the limit, and so is all that begins inside. -/
theorem Run.admittingStarts_under {inside : Callable → List Value → (line : Nat) → Starts}
    (under : ∀ what arguments line m,
      Starts.All (·.machine.depth < limit) (inside what arguments line m))
    (callee : Value) (arguments : List Value) (line : Nat) (m : Machine) :
    Starts.All (·.machine.depth < limit) (admittingStarts (some limit) inside callee arguments line m) := by
  apply Starts.All.following
  intro what k admits
  exact List.forall_mem_cons.2 ⟨depth_lt_of_admitted admits, under what arguments line _⟩

theorem Run.callStarts_under (clock : Nat → Float) (bound : Nat) (callee : Value)
    (arguments : List Value) (line : Nat) (m : Machine) :
    Starts.All (·.machine.depth < limit)
      (callStarts ⟨clock, some limit⟩ bound callee arguments line m) := by
  induction bound generalizing callee arguments line m with
  | zero =>
    apply admittingStarts_under
    intro what arguments line m
    cases what <;> exact .none
  | succ bound ih =>
    apply admittingStarts_under
    intro what arguments line m
    cases what with
    | native which => exact .none
    | ofClass c => exact .none
    | closure f =>
      apply Starts.All.following
      intro scope k _
      exact Stmt.allStarts_all ih bound f.declaration.body { k with current := scope }

/-- No more calls are active at a point than the limit allows, if there were not before. -/
def Points.Limited (limit depth : Nat) (p : Point) : Prop :=
  depth ≤ limit → p.machine.depth ≤ limit

theorem Run.admittingPoints_limited {inside : Callable → List Value → (line : Nat) → Points}
    (limited : ∀ what arguments line m, All (Limited limit) m (inside what arguments line m))
    (callee : Value) (arguments : List Value) (line : Nat) (m : Machine) :
    All (Limited limit) m (admittingPoints (some limit) inside callee arguments line m) := by
  constructor
  intro p member _
  obtain ⟨what, k, admits, later⟩ := mem_following.1 member
  exact (limited what arguments line { k with depth := k.depth + 1 }).holds p later
    (depth_lt_of_admitted admits)

theorem Run.invokePoints_limited (clock : Nat → Float) (bound : Nat) (what : Callable)
    (arguments : List Value) (line : Nat) (m : Machine) :
    All (Limited limit) m (invokePoints ⟨clock, some limit⟩ bound what arguments line m) := by
  induction bound generalizing what arguments line m with
  | zero => cases what <;> exact .none
  | succ bound ih =>
    cases what with
    | native which => exact .none
    | ofClass c => exact .none
    | closure f =>
      apply All.following (prepare_balanced (a := false) f arguments)
      intro scope k
      exact ⟨(Stmt.allPoints_all (call_balanced ⟨clock, some limit⟩ bound) (fun _ _ => id)
        (admittingPoints_limited ih) bound f.declaration.body { k with current := scope }).holds⟩

end

/-- A program that fails for want of room is one whose statements raise that. -/
theorem Session.raised_of_overflowed {host : Host} {bound : Nat} {program : List Stmt} {s : Session}
    (failed : (interpret host bound program s).1 = .failed (.runtime line .stackOverflow)) :
    ∃ m, Stmt.executeAll (call host bound) bound program s.machine =
      .error (.raised (.runtime line .stackOverflow)) m := by
  rw [interpret, act] at failed
  cases ran : Stmt.executeAll (call host bound) bound program s.machine with
  | ok v m => simp [ran] at failed
  | error stop m =>
    cases stop with
    | raised d =>
      simp only [ran, Outcome.ofStop, Outcome.failed.injEq] at failed
      exact ⟨m, by rw [failed]⟩
    | _ => simp [ran, Outcome.ofStop] at failed

/-- Programs have no part in the limit until they reach it. With it no more calls are active than it
allows; a program comes to the same with and without it, except that it stops where without it the
first call would begin with as many active. -/
theorem Session.limit_transparent (clock : Nat → Float) (limit bound : Nat) (program : List Stmt)
    (s : Session) (within : s.machine.depth ≤ limit) :
    (∀ p ∈ Stmt.allPoints (call ⟨clock, some limit⟩ bound) (callPoints ⟨clock, some limit⟩ bound) bound
      program s.machine, p.machine.depth ≤ limit) ∧
    (∀ c ∈ programStarts ⟨clock, some limit⟩ bound program s.machine, c.machine.depth < limit) ∧
    match overflow? limit (programStarts ⟨clock, none⟩ bound program s.machine) with
    | none =>
      interpret ⟨clock, some limit⟩ bound program s = interpret ⟨clock, none⟩ bound program s ∧
      ∀ line, (interpret ⟨clock, some limit⟩ bound program s).1 ≠
        .failed (.runtime line .stackOverflow)
    | some c =>
      c.machine.depth = limit ∧
      interpret ⟨clock, some limit⟩ bound program s =
        (.failed (.runtime c.line .stackOverflow),
          { s with machine :=
            { c.machine with current := s.machine.current, depth := s.machine.depth } }) := by
  constructor
  · intro p member
    exact (Stmt.allPoints_all (call_balanced ⟨clock, some limit⟩ bound) (fun _ _ => id)
      (admittingPoints_limited (invokePoints_limited clock bound)) bound program s.machine).holds p
        member within
  constructor
  · exact Stmt.allStarts_all (callStarts_under clock bound) bound program s.machine
  · rcases (Stmt.executeAll_transparent (call_transparent clock limit bound)
      (call_balanced ⟨clock, none⟩ bound) bound program s.machine within).cases with
      ⟨ahead, same, other⟩ | ⟨c, ahead, full, stopped⟩
    · rw [programStarts, ahead]
      have both : interpret ⟨clock, some limit⟩ bound program s =
          interpret ⟨clock, none⟩ bound program s := by
        rw [interpret, interpret, act, act, same]
      refine ⟨both, fun line failed => ?_⟩
      rw [both] at failed
      obtain ⟨m, ran⟩ := raised_of_overflowed failed
      exact other line m ran
    · rw [programStarts, ahead]
      refine ⟨full, ?_⟩
      rw [interpret, act, stopped]
      rfl

/-- A function that prints and calls itself from its second line, called on the third. -/
def descending : List Stmt :=
  let f : Token := ⟨.identifier, "f", none, 1⟩
  let again (id line : Nat) : Stmt := .expression (.call (.read id f) ⟨.rightParen, ")", none, line⟩ [])
  [.function ⟨f, [], [.print (.constant (.string "down")), again 0 2]⟩, again 1 3]

/-- Two calls fit within the limit, and the third begins in vain after both have printed. -/
theorem Session.limit_transparent_descending :
    0 ≤ 2 ∧ ∃ m, interpret ⟨fun _ => 0, some 2⟩ 4 descending (.start none) =
      (.failed (.runtime 2 .stackOverflow), ⟨m, 0⟩) ∧ m.sink.text = "down\ndown\n" ∧ m.depth = 0 := by
  refine ⟨by decide, ?_⟩
  obtain ⟨-, -, result⟩ := limit_transparent (fun _ => 0) 2 4 descending (.start none) (by decide)
  have third : (overflow? 2 (programStarts ⟨fun _ => 0, none⟩ 4 descending (.initial none))).map
      (fun c => (c.line, c.machine.sink.text)) = some (2, "down\ndown\n") := by decide +kernel
  obtain ⟨c, ahead, same⟩ := Option.map_eq_some_iff.1 third
  obtain ⟨line, text⟩ := Prod.mk.inj same
  rw [start] at result
  rw [ahead] at result
  obtain ⟨-, stopped⟩ := result
  rw [line] at stopped
  exact ⟨{ c.machine with current := globals, depth := 0 }, stopped, text, rfl⟩

end Lox
