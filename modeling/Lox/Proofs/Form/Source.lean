import Lox.Proofs.Form.Reading
import Lox.Proofs.Joining.Compiling

/-! The forms of a program tell it: two source texts whose statements have the same forms are the same
program, but for the identities of occurrences, the lines of tokens and the one name for numbers that
are too large. -/
namespace Lox

namespace Form

/-- Forms in their order are told by their texts. -/
theorem texts_injective {first second : List Form} (plain : AllPlain first)
    (plain' : AllPlain second) (same : first.map text = second.map text) : first = second := by
  induction first generalizing second with
  | nil => exact (List.map_eq_nil_iff.1 same.symm).symm
  | cons f rest ih =>
    obtain ⟨g, rest', rfl, head, tail⟩ := List.map_eq_cons_iff.1 same.symm
    rw [AllPlain] at plain plain'
    rw [text_injective plain.1 plain'.1 head.symm, ih plain.2 plain'.2 tail.symm]

end Form

theorem Stmt.forms_eq_map (list : List Stmt) : Stmt.forms list = list.map Stmt.form := by
  induction list with
  | nil => rw [Stmt.forms, List.map_nil]
  | cons s rest ih => rw [Stmt.forms, List.map_cons, ih]

theorem Stmt.allBare_eq_map (list : List Stmt) : Stmt.allBare list = list.map Stmt.bare := by
  induction list with
  | nil => rw [Stmt.allBare, List.map_nil]
  | cons s rest ih => rw [Stmt.allBare, List.map_cons, ih]

/-- What is derived from genuine tokens is read from its forms. -/
theorem Stmt.allBare_eq_of_forms_eq {list list' : List Stmt}
    (shaped : Stmt.AllShaped Token.Genuine list) (writable : Stmt.AllWritable list)
    (shaped' : Stmt.AllShaped Token.Genuine list') (writable' : Stmt.AllWritable list')
    (same : Stmt.forms list = Stmt.forms list') : Stmt.allBare list = Stmt.allBare list' := by
  have texts : (Stmt.allNested list).map Form.text = (Stmt.allNested list').map Form.text := by
    rw [← Stmt.forms_toList, ← Stmt.forms_toList, same]
  have forms := Form.texts_injective (Stmt.allPlain list shaped writable)
    (Stmt.allPlain list' shaped' writable') texts
  rw [← Stmt.stmts_nested list shaped, ← Stmt.stmts_nested list' shaped', forms]

/-- Two programs have the same forms just if they are the same when bare. -/
theorem compile_form_iff {source source' : String} {n m n' m' : Occurrence}
    {program program' : List Stmt} (accepted : compile source n = (.ok program, m))
    (accepted' : compile source' n' = (.ok program', m')) :
    program.map Stmt.form = program'.map Stmt.form ↔
      program.map Stmt.bare = program'.map Stmt.bare := by
  obtain ⟨ts, derived, genuine⟩ := compile_genuine accepted
  obtain ⟨ts', derived', genuine'⟩ := compile_genuine accepted'
  rw [← Stmt.forms_eq_map, ← Stmt.forms_eq_map, ← Stmt.allBare_eq_map, ← Stmt.allBare_eq_map]
  constructor
  · exact Stmt.allBare_eq_of_forms_eq (derived.shaped genuine) (derived.writable genuine)
      (derived'.shaped genuine') (derived'.writable genuine')
  · intro same
    rw [← Stmt.forms_bare, same, Stmt.forms_bare]

/-- One sum, written on other lines and with a zero more. -/
theorem compile_form_iff_sum : ∃ program m program' m',
    compile "print a + 1.50;" 0 = (.ok program, m) ∧
      compile "print a\n+1.5 ;" 7 = (.ok program', m') ∧
      (program.map Stmt.form = program'.map Stmt.form ↔
        program.map Stmt.bare = program'.map Stmt.bare) ∧
      program.map Stmt.form = ["(print (+ a 1.5))"] ∧
      program'.map Stmt.form = ["(print (+ a 1.5))"] := by
  -- The number is kept from being computed where nothing depends on it.
  obtain ⟨x, value⟩ : ∃ x, x = Piece.numeral ['1', '.', '5'] := ⟨_, rfl⟩
  let sum (id : Occurrence) (line : Nat) : Stmt := .print (.binary
    (.read id ⟨.identifier, "a", none, 1⟩) ⟨.plus, "+", none, line⟩ (.constant (.number x)))
  have scanned : scan "print a + 1.50;" = ([⟨.keyword .printWord, "print", none, 1⟩,
      ⟨.identifier, "a", none, 1⟩, ⟨.plus, "+", none, 1⟩, ⟨.number, "1.50", some (.number x), 1⟩,
      ⟨.semicolon, ";", none, 1⟩, .endOfFile 1], []) := by
    rw [value]
    decide +kernel
  have scanned' : scan "print a\n+1.5 ;" = ([⟨.keyword .printWord, "print", none, 1⟩,
      ⟨.identifier, "a", none, 1⟩, ⟨.plus, "+", none, 2⟩, ⟨.number, "1.5", some (.number x), 2⟩,
      ⟨.semicolon, ";", none, 2⟩, .endOfFile 2], []) := by
    rw [value]
    decide +kernel
  have compiled : compile "print a + 1.50;" 0 = (.ok [sum 0 1], 1) := by
    rw [compile, scanned]
    cbv
  have compiled' : compile "print a\n+1.5 ;" 7 = (.ok [sum 7 2], 8) := by
    rw [compile, scanned']
    cbv
  have text : Number.pointed x = "1.5" := by
    rw [value]
    decide +kernel
  have form (id : Occurrence) (line : Nat) : [sum id line].map Stmt.form = ["(print (+ a 1.5))"] := by
    simp only [sum, List.map_cons, List.map_nil, Stmt.form, Expr.form, Constant.form, text]
    rfl
  exact ⟨_, _, _, _, compiled, compiled', compile_form_iff compiled compiled', form 0 1, form 7 2⟩

end Lox
