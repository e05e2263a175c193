import Lox.Program
import Lox.Proofs.Buffer.Parse
import Lox.Proofs.Grammar.StatementSound
import Lox.Proofs.Grammar.Spelling

/-! An accepted source text is derived from tokens whose words are spelled as their kinds say, and
whether it is accepted or not, no identity is used a second time. -/
namespace Lox

/-- A source text is a program if nothing is wrong with its tokens and nothing with their order. -/
theorem compile_eq (source : String) (first : Occurrence) :
    compile source first = match parse (scan source).1 first with
      | (.ok program, next) =>
        (if (scan source).2.isEmpty then .ok program else .error (scan source).2, next)
      | (.error syntactic, next) => (.error ((scan source).2 ++ syntactic), next) := by
  rw [compile]
  generalize scan source = scanned
  obtain ⟨tokens, lexical⟩ := scanned
  dsimp only
  cases parsed : parse tokens first with
  | mk read next =>
    cases read with
    | ok program => rfl
    | error syntactic => simp [parse_refused parsed]

theorem compile_reads (compiled : compile source first = (.ok program, next)) :
    ∃ ts, Grammar.Declarations .nearest ts first next program ∧ ts <+: (scan source).1 := by
  rw [compile_eq] at compiled
  cases parsed : parse (scan source).1 first with
  | mk result next' =>
    cases result with
    | error errors => simp [parsed] at compiled
    | ok list =>
      simp only [parsed, Prod.mk.injEq] at compiled
      obtain ⟨accepted, rfl⟩ := compiled
      split at accepted
      · cases accepted
        exact ⟨_, Grammar.parse_derived parsed, List.takeWhile_prefix _⟩
      · cases accepted

theorem compile_derived (compiled : compile source first = (.ok program, next)) :
    ∃ ts, Grammar.Declarations .nearest ts first next program ∧ Grammar.AllTokensSpelled ts := by
  obtain ⟨ts, derived, among⟩ := compile_reads compiled
  exact ⟨ts, derived, fun t member => scan_spelled source t (among.subset member)⟩

theorem compile_fresh_le (source : String) (first : Occurrence) :
    first ≤ (compile source first).2 := by
  have advanced := Grammar.parse_fresh_le (scan source).1 first
  rw [compile_eq]
  cases parsed : parse (scan source).1 first with
  | mk result next => cases result <;> simpa [parsed] using advanced

end Lox
