import Lox.Proofs.Joining.Compiling
import Lox.Proofs.Relined.Units

/-! Two units of a session as one. At the top level no statement is seen by those behind it but through
the globals, so that a program is executed to the end of its first part and then on from there; and the
functions that are kept do not tell whether they were declared in one unit or in two. -/
namespace Lox

/-- Where no local scope is open, none has a name after a statement that it had not before. -/
theorem Surroundings.after_eq_self {here : Surroundings} (flat : here.scopes = []) :
    (s : Stmt) → here.after s = here
  | .expression _ | .print _ | .block _ | .ret _ _ => by rw [after]
  | .var name _ | .function ⟨name, _, _⟩ | .classDecl name _ => by
    rw [after, define, hold, flat]
  | .branch _ consequent none => by
    rw [after]
    exact after_eq_self flat consequent
  | .branch _ consequent (some alternative) => by
    rw [after, after_eq_self flat consequent]
    exact after_eq_self flat alternative
  | .loop _ body => by
    rw [after]
    exact after_eq_self flat body

/-- What is found in a program is found in its parts. -/
theorem resolve_append (a b : List Stmt) : resolve (a ++ b) = resolve a ++ resolve b := by
  induction a with
  | nil => rfl
  | cons s rest ih =>
    have same : Surroundings.topLevel.after s = .topLevel := Surroundings.after_eq_self rfl s
    simp only [resolve, List.cons_append, Stmt.allFindings, same, List.append_assoc] at ih ⊢
    rw [ih]

namespace Lexical

/-- If the action comes to its end, it gives `e`. -/
def Gives (e : α) (x : Run α) : Prop := ∀ m a m', x m = .ok a m' → a = e

namespace Gives

variable {e : α}

theorem pure : Gives e (pure e) := by
  rintro m a m' ⟨⟩
  rfl

theorem throw : Gives e (throw s) := fun _ _ _ ran => nomatch ran

theorem bind {x : Run β} {f : β → Run α} (second : ∀ b, Gives e (f b)) : Gives e (x >>= f) := by
  intro m a m' ran
  simp only [Bind.bind, EStateM.bind] at ran
  cases first : x m with
  | ok b between =>
    rw [first] at ran
    exact second b between a m' ran
  | error stop between =>
    rw [first] at ran
    cases ran

end Gives

/-- At the top level no statement opens an environment for those behind it. -/
theorem gives_top (call : Caller) (bound : Nat) (s : Stmt) : Gives .top (execute call bound .top s) := by
  cases s with
  | expression | block | loop =>
    rw [execute]
    exact .bind fun _ => .pure
  | print =>
    rw [execute]
    exact .bind fun _ => .bind fun _ => .pure
  | var | function | classDecl =>
    rw [execute, Run.declare]
    exact .bind fun _ => .bind fun _ => .pure
  | branch condition consequent alternative =>
    rw [execute]
    refine .bind fun _ => ?_
    split
    · exact .bind fun _ => .pure
    · cases alternative with
      | none => exact .pure
      | some => exact .bind fun _ => .pure
  | ret =>
    rw [execute]
    exact .bind fun _ => .throw

/-- A program is executed part by part. -/
theorem executeAll_append (call : Caller) (bound : Nat) (a b : List Stmt) :
    executeAll call bound .top (a ++ b) =
      (do executeAll call bound .top a; executeAll call bound .top b) := by
  induction a with
  | nil => rfl
  | cons s rest ih =>
    rw [List.cons_append, executeAll, executeAll]
    funext m
    simp only [Bind.bind, EStateM.bind]
    cases ran : execute call bound .top s m with
    | error stop m' => rfl
    | ok e m' =>
      have following := congrFun ih m'
      simp only [Bind.bind, EStateM.bind] at following
      rw [gives_top call bound s m e m' ran]
      exact following

end Lexical

/-- The text is a program of its own: no phase before execution has anything to report. -/
def Accepted (source : String) : Prop :=
  ∃ program next, compile source 0 = (.ok program, next) ∧
    (resolve program).filterMap Finding.error? = []

theorem Stmt.AllRelined.errors_eq_nil {program program' : List Stmt}
    (related : Stmt.AllRelined R program program')
    (clean : (resolve program).filterMap Finding.error? = []) :
    (resolve program').filterMap Finding.error? = [] := by
  have errors := related.errors
  rw [clean] at errors
  exact List.forall₂_nil_left_iff.1 errors

instance (source : String) : Decidable (Accepted source) :=
  decidable_of_iff (∃ program ∈ (compile source 0).1.toOption,
    (resolve program).filterMap Finding.error? = []) (by
      rw [Accepted]
      cases compile source 0 with
      | mk result next => cases result <;> simp [Except.toOption])

/-- It is one whatever numbers are free. -/
theorem Accepted.compile {source : String} (accepted : Accepted source) (n : Occurrence) :
    ∃ program m, compile source n = (.ok program, m) ∧
      (resolve program).filterMap Finding.error? = [] := by
  obtain ⟨program, next, compiled, clean⟩ := accepted
  have again := compile_renumbered (R := Eq) (fun _ => rfl) source 0 n
  rw [compiled] at again
  cases found : Lox.compile source n with
  | mk result m =>
    rw [found] at again
    cases again with
    | @ok _ program' related => exact ⟨program', m, rfl, related.errors_eq_nil clean⟩

/-- Two texts that are accepted, and both as one, whatever numbers are free before the first of them. -/
theorem Accepted.compile_both {u₁ u₂ : String} (accepted₁ : Accepted u₁) (accepted₂ : Accepted u₂)
    (n : Occurrence) : ∃ p₁ k p₂ m, Lox.compile u₁ n = (.ok p₁, k) ∧
      Lox.compile (movedDown (u₁.toList.count '\n' + 1) u₂) k = (.ok p₂, m) ∧
      Lox.compile (u₁ ++ "\n" ++ u₂) n = (.ok (p₁ ++ p₂), m) ∧
      (resolve p₁).filterMap Finding.error? = [] ∧ (resolve p₂).filterMap Finding.error? = [] ∧
      (resolve (p₁ ++ p₂)).filterMap Finding.error? = [] := by
  obtain ⟨p₁, k, compiled₁, clean₁⟩ := accepted₁.compile n
  obtain ⟨p, _, compiled, clean⟩ := accepted₂.compile k
  obtain ⟨p₂, m, compiled₂, related⟩ := compile_movedDown compiled (u₁.toList.count '\n' + 1)
  have clean₂ := (related (fun _ _ => True) fun _ => trivial).errors_eq_nil clean
  refine ⟨p₁, k, p₂, m, compiled₁, compiled₂, compile_joined compiled₁ compiled₂, clean₁, clean₂, ?_⟩
  rw [resolve_append, List.filterMap_append, clean₁, clean₂]
  rfl

theorem Accepted.joined {u₁ u₂ : String} (accepted₁ : Accepted u₁) (accepted₂ : Accepted u₂) :
    Accepted (u₁ ++ "\n" ++ u₂) := by
  obtain ⟨p₁, _, p₂, m, -, -, compiled, -, -, clean⟩ := accepted₁.compile_both accepted₂ 0
  exact ⟨p₁ ++ p₂, m, compiled, clean⟩

/-- Of a line of the text that was moved down, and of one that is as it was. -/
def Shifted (far line line' : Nat) : Prop := line' = line ∨ line' = line + far

namespace Lexical.Session

variable {R : Nat → Nat → Prop} {t : Session} (host : Host) (bound : Nat)

theorem run_compiled {source : String} {program : List Stmt} {m : Occurrence}
    (compiled : compile source t.fresh = (.ok program, m))
    (clean : (resolve program).filterMap Finding.error? = []) :
    t.run host bound source =
      let fared := outcome (executeAll (call host bound) bound .top program t.machine)
      (fared.1, ⟨fared.2, m⟩) := by
  rw [run, compiled]
  dsimp only
  rw [clean]

/-- A unit of two parts is the one part and then, if that comes to its end, the other where it stands. -/
theorem run_both {u₁ u₂ : String} (accepted₁ : Accepted u₁) (accepted₂ : Accepted u₂) :
    ((t.run host bound u₁).1 = .completed →
      t.run host bound (u₁ ++ "\n" ++ u₂) =
        (t.run host bound u₁).2.run host bound (movedDown (u₁.toList.count '\n' + 1) u₂)) ∧
    ((t.run host bound u₁).1 ≠ .completed →
      (t.run host bound (u₁ ++ "\n" ++ u₂)).1 = (t.run host bound u₁).1 ∧
      (t.run host bound (u₁ ++ "\n" ++ u₂)).2.machine = (t.run host bound u₁).2.machine) := by
  obtain ⟨p₁, k, p₂, m, compiled₁, compiled₂, joined, clean₁, clean₂, clean⟩ :=
    accepted₁.compile_both accepted₂ t.fresh
  rw [run_compiled host bound joined clean, run_compiled host bound compiled₁ clean₁,
    executeAll_append]
  simp only [Bind.bind, EStateM.bind]
  cases ran : executeAll (call host bound) bound .top p₁ t.machine with
  | ok _ between =>
    refine ⟨fun _ => ?_, fun unfinished => absurd rfl unfinished⟩
    rw [run_compiled host bound compiled₂ clean₂]
    rfl
  | error stop stopped =>
    refine ⟨fun completed => ?_, fun _ => ⟨rfl, rfl⟩⟩
    cases stop <;> cases completed

/-- What is the same text further down fares the same. -/
theorem run_movedDown {far : Nat} (further : ∀ line, R line (line + far)) {source : String}
    (accepted : Accepted source) (same : t.machine.Relined R t.machine) :
    (t.run host bound source).1.Relined R (t.run host bound (movedDown far source)).1 ∧
      (t.run host bound source).2.machine.Relined R
        (t.run host bound (movedDown far source)).2.machine := by
  obtain ⟨program, m, compiled, clean⟩ := accepted.compile t.fresh
  obtain ⟨program', m', moved, related⟩ := compile_movedDown compiled far
  have down := related R further
  rw [run_compiled host bound compiled clean, run_compiled host bound moved (down.errors_eq_nil clean)]
  exact outcome_relined (executeAll_relined (call_relined host bound) bound .top down same)

end Lexical.Session

namespace Session

/-- Two units fared the same and left sessions in which all units to come fare and print the same, but
for lines that `R` takes for each other. -/
structure Indistinct (R : Nat → Nat → Prop) (host : Host) (bound : Nat) (r r' : Outcome × Session) :
    Prop where
  outcome : r.1.Relined R r'.1
  sink : r.2.machine.sink = r'.2.machine.sink
  later : ∀ units, List.Forall₂ (Outcome.Relined R) (r.2.runEach host bound units).1
    (r'.2.runEach host bound units).1
  printed : ∀ units, (r.2.runEach host bound units).2.machine.sink =
    (r'.2.runEach host bound units).2.machine.sink

/-- It is enough that twins of the sessions hold the same. -/
theorem Indistinct.of_twins {R : Nat → Nat → Prop} (stays : ∀ line, R line line) {host : Host}
    {bound : Nat} {r r' : Outcome × Session} {t t' : Lexical.Session} (twin : Twin r.2 t)
    (twin' : Twin r'.2 t') (outcome : r.1.Relined R r'.1) (same : t.machine.Relined R t'.machine) :
    Indistinct R host bound r r' := by
  have together := twin.runEach_relined twin' stays same host bound
  refine ⟨outcome, ?_, fun units => (together units).1, fun units => (together units).2⟩
  rw [twin.sink_eq, twin'.sink_eq]
  exact same.sink

/-- Two texts that are programs of their own make one program, a newline between them. As one unit they
do what the one and then the other do where it stands: nothing tells the two apart. Where the second
one stands its lines are further down than in a unit of its own by the newlines before it, and this is
all that is different. If the first text does not come to its end then nothing of the second is run. -/
theorem run_joined (host : Host) (bound : Nat) (outputLimit : Option Nat) (before : List String)
    {u₁ u₂ : String} (accepted₁ : Accepted u₁) (accepted₂ : Accepted u₂) :
    let s := ((start outputLimit).runEach host bound before).2
    let far := u₁.toList.count '\n' + 1
    Accepted (u₁ ++ "\n" ++ u₂) ∧
    ((s.run host bound u₁).1 = .completed →
      Indistinct Eq host bound
        ((s.run host bound u₁).2.run host bound (movedDown far u₂))
        (s.run host bound (u₁ ++ "\n" ++ u₂)) ∧
      Indistinct (Shifted far) host bound
        ((s.run host bound u₁).2.run host bound u₂)
        (s.run host bound (u₁ ++ "\n" ++ u₂))) ∧
    ((s.run host bound u₁).1 ≠ .completed →
      Indistinct Eq host bound (s.run host bound u₁) (s.run host bound (u₁ ++ "\n" ++ u₂))) ∧
    ∀ n, ∃ program m program' m', Lox.compile u₂ n = (.ok program, m) ∧
      Lox.compile (movedDown far u₂) n = (.ok program', m') ∧
      Stmt.AllRelined (fun line line' => line' = line + far) program program' := by
  intro s far
  -- Numbers of occurrences play no part under lexical scope, so both ways are compared there.
  have twin := Twin.of_history host bound outputLimit before
  generalize ((Lexical.Session.start outputLimit).runEach host bound before).2 = t at twin
  have twin₁ := twin.run host bound u₁
  have twin' := twin.run host bound (u₁ ++ "\n" ++ u₂)
  have fared₁ := twin.outcome_eq host bound u₁
  have fared := twin.outcome_eq host bound (u₁ ++ "\n" ++ u₂)
  obtain ⟨completes, stops⟩ := Lexical.Session.run_both (t := t) host bound
    accepted₁ accepted₂
  refine ⟨accepted₁.joined accepted₂, fun completed => ?_, fun unfinished => ?_, fun n => ?_⟩
  · rw [completes (fared₁ ▸ completed)] at twin' fared
    constructor
    · have stays (line : Nat) : Eq line line := rfl
      obtain ⟨same, last⟩ := Lexical.Session.run_relined stays host bound (movedDown far u₂)
        (twin₁.self stays)
      refine .of_twins stays (twin₁.run host bound (movedDown far u₂)) twin' ?_ last
      rw [fared, twin₁.outcome_eq]
      exact same
    · have stays (line : Nat) : Shifted far line line := .inl rfl
      obtain ⟨same, last⟩ := Lexical.Session.run_movedDown host bound (fun line => .inr rfl)
        accepted₂ (twin₁.self stays)
      refine .of_twins stays (twin₁.run host bound u₂) twin' ?_ last
      rw [fared, twin₁.outcome_eq]
      exact same
  · obtain ⟨same, last⟩ := stops (fared₁ ▸ unfinished)
    have stays (line : Nat) : Eq line line := rfl
    obtain ⟨self, kept⟩ := Lexical.Session.run_relined stays host bound u₁ (twin.self stays)
    refine .of_twins stays twin₁ twin' ?_ ?_
    · rw [fared, fared₁, same]
      exact self
    · rw [last]
      exact kept
  · obtain ⟨program, m, compiled, -⟩ := accepted₂.compile n
    obtain ⟨program', m', moved, related⟩ := compile_movedDown compiled far
    exact ⟨program, m, program', m', compiled, moved, related _ fun _ => rfl⟩

/-- The first unit ends in a comment, the second one fails on its second line. -/
def failingThird : Outcome × Session :=
  (start none).run ⟨fun _ => 0, some maxCallDepth⟩ 8 "var a = 1; // one\nprint a;\nprint b;"

theorem run_joined_failingThird :
    Accepted "var a = 1; // one" ∧ Accepted "print a;\nprint b;" ∧
    failingThird.1 = .failed (.runtime 3 (.undefinedVariable "b")) ∧
    Indistinct (Shifted 1) ⟨fun _ => 0, some maxCallDepth⟩ 8
      (((start none).run ⟨fun _ => 0, some maxCallDepth⟩ 8 "var a = 1; // one").2.run
        ⟨fun _ => 0, some maxCallDepth⟩ 8 "print a;\nprint b;") failingThird := by
  have accepted₁ : Accepted "var a = 1; // one" := by decide +kernel
  have accepted₂ : Accepted "print a;\nprint b;" := by decide +kernel
  have joined := run_joined ⟨fun _ => 0, some maxCallDepth⟩ 8 none [] accepted₁ accepted₂
  have completed : ((start none).run ⟨fun _ => 0, some maxCallDepth⟩ 8 "var a = 1; // one").1 =
      .completed := by
    decide +kernel
  refine ⟨accepted₁, accepted₂, ?_, (joined.2.1 completed).2⟩
  decide +kernel

end Session

end Lox
