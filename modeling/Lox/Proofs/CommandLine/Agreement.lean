import Lox.CommandLine.Ending
import Lox.Proofs.Deeds.Units
import Lox.Proofs.Order.Reporting

/-! What the commands say of one file. Each of them goes further than the one before: what stops the
one is the end of the next one too, with the same diagnostics first. -/
namespace Lox.Ending

/-- The complaints are these diagnostics, one behind the other. -/
def Tells (e : Ending) (diagnostics : List Diagnostic) : Prop :=
  e.complaints = lines (diagnostics.map Diagnostic.text)

/-- How a program that was read without error ends. -/
inductive Runs (e : Ending) : Prop where
  | refused : e.exitCode = 65 → e.output = "" → errors ≠ [] →
      (∀ d ∈ errors, ∃ line place cause, d = .static line place cause) → e.Tells errors → Runs e
  | failed : e.exitCode = 70 → e.Tells [d] → Runs e
  | completed : e.exitCode = 0 → e.Tells [] → Runs e

variable {source : String}

/-- The forms of a program are written just where a run would begin, and else the same errors. -/
theorem parse_eq (source : String) :
    parse source = match (compile source 0).1 with
      | .ok program => ⟨0, lines (program.map Stmt.form), ""⟩
      | .error errors => ⟨65, "", lines (errors.map Diagnostic.text)⟩ := by
  rw [parse, compile]
  generalize scan source = scanned
  obtain ⟨tokens, lexical⟩ := scanned
  dsimp only
  generalize Lox.parse tokens 0 = parsed
  obtain ⟨read, next⟩ := parsed
  cases read with
  | ok program => cases lexical <;> rfl
  | error syntactic => cases lexical <;> cases syntactic <;> rfl

end Lox.Ending
