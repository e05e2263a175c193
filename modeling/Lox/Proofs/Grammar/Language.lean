import Lox.Proofs.Grammar.Attachment
import Lox.Proofs.Grammar.StatementComplete
import Lox.Proofs.Grammar.StatementSound
import Mathlib

/-! The language of the reader. Of tokens before the end of a file it accepts just those that are
derived, and gives the one tree in which each `else` belongs to the nearest `if`. -/
namespace Lox.Grammar

theorem start_of_no_end (first : Occurrence) (noEnd : ∀ t ∈ tokens, t.kind ≠ .eof) :
    ∃ last, Cursor.start tokens first = ⟨tokens, last, [], first⟩ := by
  rw [Cursor.start, List.takeWhile_eq_self_iff.2 (by simpa using noEnd)]
  exact ⟨_, rfl⟩

/-- The reader gives a tree and the next unused identity iff they are derived. -/
theorem parse_eq_ok_iff (noEnd : ∀ t ∈ tokens, t.kind ≠ .eof) :
    parse tokens first = (.ok list, next) ↔ Declarations .nearest tokens first next list := by
  obtain ⟨last, start⟩ := start_of_no_end first noEnd
  constructor
  · intro parsed
    have derived := parse_derived parsed
    rwa [start] at derived
  · intro derived
    have ran := reads_program derived (Nat.le_refl _) last []
    rw [List.append_nil, ← start] at ran
    simp [parse, ran, pure, EStateM.pure]

/-- Tokens without an end of file are accepted iff they are a program of the grammar, and the tree
of a program is the one derived with each `else` at the nearest `if`. -/
theorem parse_accepts_language (first : Occurrence) (noEnd : ∀ t ∈ tokens, t.kind ≠ .eof) :
    ((∃ program, (parse tokens first).1 = .ok program) ↔ Derivable tokens first) ∧
    ∀ program, (parse tokens first).1 = .ok program ↔
      ∃ next, Declarations .nearest tokens first next program := by
  have tree (program : List Stmt) : (parse tokens first).1 = .ok program ↔
      ∃ next, Declarations .nearest tokens first next program := by
    constructor
    · intro accepted
      exact ⟨(parse tokens first).2, (parse_eq_ok_iff noEnd).1 (Prod.ext accepted rfl)⟩
    · rintro ⟨next, derived⟩
      rw [(parse_eq_ok_iff noEnd).2 derived]
  refine ⟨?_, tree⟩
  rw [derivable_iff_nearest, exists_comm]
  exact exists_congr tree

/-- `if (a) if (b) c; else d;` -/
def danglingElse : List Token :=
  let name (lexeme : String) : Token := ⟨.identifier, lexeme, none, 1⟩
  let sign (kind : TokenKind) (lexeme : String) : Token := ⟨kind, lexeme, none, 1⟩
  [sign (.keyword .ifWord) "if", sign .leftParen "(", name "a", sign .rightParen ")",
    sign (.keyword .ifWord) "if", sign .leftParen "(", name "b", sign .rightParen ")",
    name "c", sign .semicolon ";", sign (.keyword .elseWord) "else", name "d", sign .semicolon ";"]

theorem danglingElse_language : (∀ t ∈ danglingElse, t.kind ≠ .eof) ∧ Derivable danglingElse 0 ∧
    ∃ next, Declarations .nearest danglingElse 0 next [.branch (.read 0 ⟨.identifier, "a", none, 1⟩)
      (.branch (.read 1 ⟨.identifier, "b", none, 1⟩)
        (.expression (.read 2 ⟨.identifier, "c", none, 1⟩))
        (some (.expression (.read 3 ⟨.identifier, "d", none, 1⟩)))) none] := by
  have noEnd : ∀ t ∈ danglingElse, t.kind ≠ .eof := by decide
  have language := parse_accepts_language 0 noEnd
  refine ⟨noEnd, ?_⟩
  constructor
  · exact language.1.1 ⟨_, by cbv⟩
  · exact (language.2 _).1 (by cbv)

end Lox.Grammar
