import Lox.Proofs.Lexical.Units
import Lox.Proofs.Relined.Evaluation
import Lox.Proofs.Relined.Source

/-! Sessions that hold the same up to lines, whatever numbers are free in them, fare the same with the
same units. A unit that is refused changes nothing but what is free, and the distances of its own
occurrences, so the session goes on as if that unit had never been run. -/
namespace Lox

deriving instance DecidableEq for Outcome

/-- The unit fared the same. What was refused was refused for errors on the same lines. -/
inductive Outcome.Relined (R : Nat → Nat → Prop) : Outcome → Outcome → Prop where
  | completed : Relined R .completed .completed
  | rejected : Relined R (.rejected errors) (.rejected errors)
  | failed : d.Relined R d' → Relined R (.failed d) (.failed d')
  | meaningless : operator.Relined R operator' → Relined R (.meaningless operator) (.meaningless operator')
  | exhausted : Relined R .exhausted .exhausted

theorem Token.Relined.eq {t t' : Token} (same : t.Relined Eq t') : t = t' := by
  cases t
  cases t'
  obtain ⟨kind, lexeme, literal, line⟩ := same
  simp_all

/-- If every line stands for itself alone, the unit fared just the same. -/
theorem Outcome.Relined.eq {o o' : Outcome} (same : o.Relined Eq o') : o = o' := by
  cases same with
  | completed | rejected | exhausted => rfl
  | failed d => rw [d.eq]
  | meaningless operator => rw [operator.eq]

theorem Outcome.Relined.all_eq {outcomes outcomes' : List Outcome}
    (all : List.Forall₂ (Outcome.Relined Eq) outcomes outcomes') : outcomes = outcomes' :=
  List.forall₂_eq_eq_eq ▸ all.imp fun _ _ => Outcome.Relined.eq

theorem Diagnostic.Relined.all_eq {errors errors' : List Diagnostic}
    (all : List.Forall₂ (Diagnostic.Relined Eq) errors errors') : errors = errors' :=
  List.forall₂_eq_eq_eq ▸ all.imp fun _ _ => Diagnostic.Relined.eq

namespace Lexical

variable {R : Nat → Nat → Prop}

namespace Session

theorem outcome_relined {V : Unit → Unit → Prop}
    {r r' : EStateM.Result (Stop Environment) Machine Unit} (together : Together R V r r') :
    (outcome r).1.Relined R (outcome r').1 ∧ (outcome r).2.Relined R (outcome r').2 := by
  cases together with
  | ok _ later => exact ⟨.completed, later⟩
  | error stopped later =>
    cases stopped with
    | raised report => exact ⟨.failed report, later⟩
    | returned _ line => exact ⟨.failed (.runtime line), later⟩
    | meaningless operator => exact ⟨.meaningless operator, later⟩
    | exhausted => exact ⟨.exhausted, later⟩

theorem run_relined (stays : ∀ line, R line line) (host : Host) (bound : Nat) (source : String)
    {s t : Session} (same : s.machine.Relined R t.machine) :
    (s.run host bound source).1.Relined R (t.run host bound source).1 ∧
      (s.run host bound source).2.machine.Relined R (t.run host bound source).2.machine := by
  -- What is reported is compared line by line, what is run only up to `R`.
  have exactly := compile_renumbered (R := Eq) (fun _ => rfl) source s.fresh t.fresh
  have compiled := compile_renumbered stays source s.fresh t.fresh
  rw [run, run]
  generalize compile source s.fresh = r, compile source t.fresh = r' at compiled exactly ⊢
  obtain ⟨result, fresh⟩ := r
  obtain ⟨result', fresh'⟩ := r'
  cases exactly with
  | error errors =>
    rw [Diagnostic.Relined.all_eq errors]
    exact ⟨.rejected, same⟩
  | @ok program program' alike =>
    cases compiled with
    | ok related =>
      have errors := Diagnostic.Relined.all_eq alike.errors
      dsimp only
      rw [errors]
      cases (resolve program').filterMap Finding.error? with
      | cons first rest => exact ⟨.rejected, same⟩
      | nil => exact outcome_relined (executeAll_relined (call_relined host bound) bound .top related same)

theorem runEach_relined (stays : ∀ line, R line line) (host : Host) (bound : Nat)
    (units : List String) {s t : Session} (same : s.machine.Relined R t.machine) :
    List.Forall₂ (Outcome.Relined R) (s.runEach host bound units).1 (t.runEach host bound units).1 ∧
      (s.runEach host bound units).2.machine.Relined R (t.runEach host bound units).2.machine := by
  induction units generalizing s t with
  | nil => exact ⟨.nil, same⟩
  | cons source rest ih =>
    obtain ⟨first, later⟩ := run_relined stays host bound source same
    obtain ⟨others, last⟩ := ih later
    exact ⟨.cons first others, last⟩

end Session

end Lexical

namespace Session

/-- What a refused unit leaves: the machine as it was, but for distances of the unit's own
occurrences. -/
theorem machine_of_rejected {host : Host} {bound : Nat} {source : String} {s : Session}
    {errors : List Diagnostic} (rejected : (s.run host bound source).1 = .rejected errors) :
    (s.run host bound source).2.machine =
      { s.machine with distances := (s.run host bound source).2.machine.distances } := by
  rw [run_eq] at rejected ⊢
  generalize Lox.compile source s.fresh = r at rejected ⊢
  obtain ⟨result, fresh⟩ := r
  cases result with
  | error => rfl
  | ok program =>
    dsimp only at rejected ⊢
    generalize (Lox.resolve program).filterMap Finding.error? = found at rejected ⊢
    cases found with
    | cons => rfl
    | nil =>
      dsimp only at rejected
      generalize Stmt.executeAll _ _ _ _ = ran at rejected
      cases ran with
      | ok => cases rejected
      | error stop => cases stop <;> cases rejected

end Session

namespace Lexical.Session

/-- Under lexical scope a refused unit leaves the machine as it was. -/
theorem machine_of_rejected {host : Host} {bound : Nat} {source : String} {s : Session}
    {errors : List Diagnostic} (rejected : (s.run host bound source).1 = .rejected errors) :
    (s.run host bound source).2.machine = s.machine := by
  rw [run] at rejected ⊢
  generalize compile source s.fresh = r at rejected ⊢
  obtain ⟨result, fresh⟩ := r
  cases result with
  | error => rfl
  | ok program =>
    dsimp only at rejected ⊢
    generalize (resolve program).filterMap Finding.error? = found at rejected ⊢
    cases found with
    | cons => rfl
    | nil =>
      dsimp only at rejected
      generalize executeAll _ _ _ _ _ = ran at rejected
      cases ran with
      | ok => cases rejected
      | error stop => cases stop <;> cases rejected

theorem start_relined (R : Nat → Nat → Prop) (limit : Option Nat) :
    (start limit).machine.Relined R (start limit).machine := by
  refine ⟨fun name => ?_, rfl, fun c => ?_, rfl, fun i name => ?_, rfl, rfl, rfl, rfl⟩
  · by_cases same : Native.clock.name = name
    · simpa [start, Machine.initial, Bindings.get?, same] using Value.Relined.callable .native
    · simp [start, Machine.initial, Bindings.get?, same]
  · simp [start, Machine.initial, Machine.content]
  · simp [start, Machine.initial]

end Lexical.Session

namespace Session

/-- A session and one under lexical scope that stands for it. -/
structure Twin (s : Session) (t : Lexical.Session) : Prop where
  paired : ∃ w, Lexical.Paired w s t
  self : ∀ {R : Nat → Nat → Prop}, (∀ line, R line line) → t.machine.Relined R t.machine

namespace Twin

variable {R : Nat → Nat → Prop} {s s' : Session} {t t' : Lexical.Session}

theorem of_history (host : Host) (bound : Nat) (outputLimit : Option Nat) (before : List String) :
    Twin ((start outputLimit).runEach host bound before).2
      ((Lexical.Session.start outputLimit).runEach host bound before).2 := by
  constructor
  · exact (Lexical.runEach_agrees host bound before (Lexical.start_paired outputLimit)).2
  · intro R stays
    exact (Lexical.Session.runEach_relined stays host bound before
      (Lexical.Session.start_relined R outputLimit)).2

theorem outcome_eq (twin : Twin s t) (host : Host) (bound : Nat) (source : String) :
    (s.run host bound source).1 = (t.run host bound source).1 := by
  obtain ⟨w, paired⟩ := twin.paired
  exact (Lexical.run_agrees host bound source paired).1

theorem run (twin : Twin s t) (host : Host) (bound : Nat) (source : String) :
    Twin (s.run host bound source).2 (t.run host bound source).2 := by
  obtain ⟨w, paired⟩ := twin.paired
  obtain ⟨-, v, -, later⟩ := Lexical.run_agrees host bound source paired
  refine ⟨⟨v, later⟩, fun stays => ?_⟩
  exact (Lexical.Session.run_relined stays host bound source (twin.self stays)).2

theorem sink_eq (twin : Twin s t) : s.machine.sink = t.machine.sink := by
  obtain ⟨w, paired⟩ := twin.paired
  exact paired.matched.sink

/-- Sessions whose twins hold the same fare and print the same. -/
theorem runEach_relined (twin : Twin s t) (twin' : Twin s' t') (stays : ∀ line, R line line)
    (same : t.machine.Relined R t'.machine) (host : Host) (bound : Nat) (units : List String) :
    List.Forall₂ (Outcome.Relined R) (s.runEach host bound units).1 (s'.runEach host bound units).1 ∧
      (s.runEach host bound units).2.machine.sink = (s'.runEach host bound units).2.machine.sink := by
  obtain ⟨w, paired⟩ := twin.paired
  obtain ⟨w', paired'⟩ := twin'.paired
  obtain ⟨fared, v, ended⟩ := Lexical.runEach_agrees host bound units paired
  obtain ⟨fared', v', ended'⟩ := Lexical.runEach_agrees host bound units paired'
  obtain ⟨outcomes, last⟩ := Lexical.Session.runEach_relined stays host bound units same
  rw [fared, fared', ended.matched.sink, ended'.matched.sink]
  exact ⟨outcomes, last.sink⟩

end Twin

/-- A refused unit, whichever phase refused it, prints nothing and cannot be told afterwards: whatever
units came before it and whatever units follow, they fare and print as if it had not been run. -/
theorem rejected_unobservable (host : Host) (bound : Nat) (outputLimit : Option Nat)
    (before after : List String) (source : String) {errors : List Diagnostic}
    (rejected : ((((start outputLimit).runEach host bound before).2).run host bound source).1 =
      .rejected errors) :
    let s := ((start outputLimit).runEach host bound before).2
    let s' := (s.run host bound source).2
    s'.machine = { s.machine with distances := s'.machine.distances } ∧
    (s'.runEach host bound after).1 = (s.runEach host bound after).1 ∧
    (s'.runEach host bound after).2.machine.sink = (s.runEach host bound after).2.machine.sink := by
  intro s s'
  have twin := Twin.of_history host bound outputLimit before
  have twin' := twin.run host bound source
  -- There are no distances under lexical scope, so there nothing at all is left of the unit.
  have unchanged := Lexical.Session.machine_of_rejected
    ((twin.outcome_eq host bound source).symm.trans rejected)
  have same := twin.self (R := Eq) fun _ => rfl
  obtain ⟨outcomes, printed⟩ :=
    twin'.runEach_relined twin (fun _ => rfl) (unchanged ▸ same) host bound after
  exact ⟨machine_of_rejected rejected, Outcome.Relined.all_eq outcomes, printed⟩

/-- A session in which a unit has declared a global. -/
def declaring : Session :=
  ((start none).runEach ⟨fun _ => 0, some maxCallDepth⟩ 8 ["var a = 1;"]).2

/-- A unit that is refused only after the distance of `b` was noted. -/
def strayReturn : Outcome × Session :=
  declaring.run ⟨fun _ => 0, some maxCallDepth⟩ 8 "{ var b = 2; print b; } return;"

theorem rejected_unobservable_strayReturn :
    strayReturn.1 = .rejected [.static 1 (.atLexeme "return") .returnOutsideFunction] ∧
    strayReturn.2.machine.distances[0]? = some 0 ∧ strayReturn.2.fresh ≠ declaring.fresh ∧
    strayReturn.2.machine.sink = declaring.machine.sink ∧
    (strayReturn.2.runEach ⟨fun _ => 0, some maxCallDepth⟩ 8 ["print a;", "print b;"]).1 =
      (declaring.runEach ⟨fun _ => 0, some maxCallDepth⟩ 8 ["print a;", "print b;"]).1 := by
  have rejected : strayReturn.1 =
      .rejected [.static 1 (.atLexeme "return") .returnOutsideFunction] := by
    decide +kernel
  have same := rejected_unobservable ⟨fun _ => 0, some maxCallDepth⟩ 8 none ["var a = 1;"]
    ["print a;", "print b;"] "{ var b = 2; print b; } return;" rejected
  refine ⟨rejected, ?_, ?_, (congrArg Machine.sink same.1 :), same.2.1⟩
  · decide +kernel
  · decide +kernel

end Session

end Lox
