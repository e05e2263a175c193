import Lox.Proofs.Order.Resolving
import Lox.Proofs.Order.Statements
import Lox.Proofs.Unit

/-! The order of the errors for which a unit of source is refused. Lexical errors are in the order of
the source. A syntactic error is not, if it is reported of an operator when the operand behind it was
read, nor is a static one, if a tree is not resolved in the order of its tokens. -/
namespace Lox

/-- The errors of the scanner and then those of the reader. -/
theorem compile_rejected {source : String} {errors : List Diagnostic} {first next : Occurrence}
    (rejected : compile source first = (.error errors, next)) :
    ∃ syntactic, errors = (scan source).2 ++ syntactic ∧
      (∀ d ∈ syntactic, ∃ line place e, d = .syntactic line place e) ∧
        syntactic.Pairwise Diagnostic.Precedes := by
  have ascending := (scan_ascending source).1
  rw [compile_eq] at rejected
  generalize scan source = scanned at rejected ascending ⊢
  obtain ⟨tokens, lexical⟩ := scanned
  dsimp only at rejected ascending ⊢
  split at rejected
  · split at rejected <;> cases rejected
    exact ⟨[], by simp, by simp, .nil⟩
  · next syntactic _ read =>
    cases rejected
    exact ⟨syntactic, rfl, parse_ordered ascending read⟩

namespace Session

theorem ofStop_ne_rejected (stop : Stop) (errors : List Diagnostic) :
    Outcome.ofStop stop ≠ .rejected errors := by
  cases stop <;> exact nofun

/-- A unit that was compiled is refused just for the errors that resolution reports. -/
theorem run_resolved (host : Host) (bound : Nat) (s : Session) {source : String} {program : List Stmt}
    {fresh : Occurrence} (compiled : Lox.compile source s.fresh = (.ok program, fresh)) :
    errorsOf (Lox.resolve program) ≠ [] ∧ s.run host bound source =
        (.rejected (errorsOf (Lox.resolve program)), ⟨note (Lox.resolve program) s.machine, fresh⟩) ∨
      errorsOf (Lox.resolve program) = [] ∧ ∀ errors, (s.run host bound source).1 ≠ .rejected errors := by
  rw [run_eq, compiled]
  dsimp only
  split
  · next clean =>
    refine .inr ⟨clean, fun errors => ?_⟩
    split
    · exact nofun
    · exact ofStop_ne_rejected _ _
  · next found => exact .inl ⟨found, rfl⟩

/-- The errors of a unit that is refused, phase by phase. -/
theorem run_rejected_order {host : Host} {bound : Nat} {source : String} {s : Session}
    {errors : List Diagnostic} (rejected : (s.run host bound source).1 = .rejected errors) :
    (∃ syntactic, errors = (scan source).2 ++ syntactic ∧
      (∀ d ∈ (scan source).2, ∃ line e, d = .lexical line e) ∧ Diagnostic.InOrder (scan source).2 ∧
      (∀ d ∈ syntactic, ∃ line place e, d = .syntactic line place e) ∧
        syntactic.Pairwise Diagnostic.Precedes) ∨
    ∃ program, (Lox.compile source s.fresh).1 = .ok program ∧
      (∀ d ∈ errors, ∃ t ∈ (scan source).1, ∃ place e, d = .static t.line place e) ∧
        (Diagnostic.InOrder errors ↔ Stmt.AllOrderly .topLevel program) := by
  cases compiled : Lox.compile source s.fresh with
  | mk result fresh =>
    cases result with
    | error found =>
      rw [run_eq, compiled] at rejected
      obtain rfl := Outcome.rejected.inj rejected
      obtain ⟨syntactic, rfl, all, ordered⟩ := compile_rejected compiled
      obtain ⟨-, inOrder, lexical⟩ := scan_ascending source
      exact .inl ⟨syntactic, rfl, lexical, inOrder, all, ordered⟩
    | ok program =>
      have reports := compile_reports compiled
      rcases run_resolved host bound s compiled with ⟨-, ran⟩ | ⟨-, never⟩
      · rw [ran] at rejected
        obtain rfl := Outcome.rejected.inj rejected
        exact .inr ⟨program, rfl, reports.traced, reports.ordered⟩
      · exact absurd rejected (never errors)

theorem rejected_of_diagnostics {outcome : Outcome} {d e : Diagnostic} {rest : List Diagnostic}
    (told : outcome.diagnostics = d :: e :: rest) : outcome = .rejected (d :: e :: rest) := by
  cases outcome with
  | rejected errors => exact congrArg Outcome.rejected told
  | _ => cases told

/-- Both equals signs have no target, and the second one is reported first. -/
def targets : List Diagnostic :=
  [.syntactic 2 (.atLexeme "=") .invalidTarget, .syntactic 1 (.atLexeme "=") .invalidTarget]

theorem targets_rejected :
    ((start none).run ⟨fun _ => 0, some maxCallDepth⟩ 8 "1 =\n2 = 3;").1 = .rejected targets :=
  rejected_of_diagnostics (by decide +kernel)

theorem targets_order :
    ∃ syntactic, targets = (scan "1 =\n2 = 3;").2 ++ syntactic ∧
      (∀ d ∈ syntactic, ∃ line place e, d = .syntactic line place e) ∧
        syntactic.Pairwise Diagnostic.Precedes := by
  rcases run_rejected_order targets_rejected with
    ⟨syntactic, parts, -, -, all, ordered⟩ | ⟨_, -, traced, -⟩
  · exact ⟨syntactic, parts, all, ordered⟩
  · obtain ⟨t, -, place, e, same⟩ := traced _ List.mem_cons_self
    cases same

/-- The value is resolved before the object. -/
def receivers : List Diagnostic :=
  [.static 2 (.atLexeme "this") .thisOutsideClass, .static 1 (.atLexeme "this") .thisOutsideClass]

/-- Neither the errors of the reader nor those of resolution need be in the order of the source. -/
theorem rejected_out_of_order :
    (((start none).run ⟨fun _ => 0, some maxCallDepth⟩ 8 "1 =\n2 = 3;").1 = .rejected targets ∧
      ¬Diagnostic.InOrder targets) ∧
    ((start none).run ⟨fun _ => 0, some maxCallDepth⟩ 8 "this\n.x = this;").1 = .rejected receivers ∧
      ¬Diagnostic.InOrder receivers := by
  refine ⟨⟨targets_rejected, by decide⟩, rejected_of_diagnostics (by decide +kernel), by decide⟩

end Session

end Lox
