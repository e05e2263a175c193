import Lox.Proofs.Grammar.Derivation

/-! Where an `else` belongs decides which tree tokens stand for, and not whether they are a program:
what is derived with an `else` attached to any `if` is also derived with each attached to the nearest
one. An `else` behind an open statement moves into it. -/
namespace Lox.Grammar

theorem Statement.closed_or_open (_ : Statement elses isOpen ts n m s) :
    isOpen = false ∨ isOpen = true := by
  cases isOpen <;> simp

/-- An open statement takes up an `else` behind it. -/
theorem Statement.absorb : Statement .nearest isOpen ts n k s → isOpen = true →
    alternate.kind = .keyword .elseWord → Statement .nearest other us k m alternative →
    ∃ isOpen' s', Statement .nearest isOpen' (ts ++ alternate :: us) n m s'
  | .expression _ _, isOpen, _, _ | .print _ _ _, isOpen, _, _ | .ret _ _ _, isOpen, _, _
  | .block _ _ _, isOpen, _, _ => by cases isOpen
  | .loop isWhile opens condition closes body, isOpen, isElse, alternative => by
    obtain ⟨_, _, derived⟩ := body.absorb isOpen isElse alternative
    exact ⟨_, _, by simpa using .loop isWhile opens condition closes derived⟩
  | .forLoop isFor opens initializer condition ends increment closes body, isOpen, isElse,
      alternative => by
    obtain ⟨_, _, derived⟩ := body.absorb isOpen isElse alternative
    exact ⟨_, _, by
      simpa using .forLoop isFor opens initializer condition ends increment closes derived⟩
  | .branch isIf opens condition closes consequent, _, isElse, alternative => by
    rcases consequent.closed_or_open with closed | isOpen
    · have derived :=
        branchElse isIf opens condition closes consequent (fun _ => closed) isElse alternative
      exact ⟨_, _, by simpa using derived⟩
    · obtain ⟨_, _, derived⟩ := consequent.absorb isOpen isElse alternative
      exact ⟨_, _, by simpa using .branch isIf opens condition closes derived⟩
  | .branchElse isIf opens condition closes consequent closed isElse' last, isOpen, isElse,
      alternative => by
    obtain ⟨_, _, derived⟩ := last.absorb isOpen isElse alternative
    exact ⟨_, _, by
      simpa using .branchElse isIf opens condition closes consequent closed isElse' derived⟩

mutual

theorem Statement.exists_nearest : Statement .any isOpen ts n m s →
    ∃ isOpen' s', Statement .nearest isOpen' ts n m s'
  | .expression phrase ends => ⟨_, _, .expression phrase ends⟩
  | .print isPrint phrase ends => ⟨_, _, .print isPrint phrase ends⟩
  | .ret isReturn value ends => ⟨_, _, .ret isReturn value ends⟩
  | .block opens body closes => by
    obtain ⟨_, derived⟩ := body.exists_nearest
    exact ⟨_, _, .block opens derived closes⟩
  | .loop isWhile opens condition closes body => by
    obtain ⟨_, _, derived⟩ := body.exists_nearest
    exact ⟨_, _, .loop isWhile opens condition closes derived⟩
  | .forLoop isFor opens initializer condition ends increment closes body => by
    obtain ⟨_, _, derived⟩ := body.exists_nearest
    exact ⟨_, _, .forLoop isFor opens initializer condition ends increment closes derived⟩
  | .branch isIf opens condition closes consequent => by
    obtain ⟨_, _, derived⟩ := consequent.exists_nearest
    exact ⟨_, _, .branch isIf opens condition closes derived⟩
  | .branchElse isIf opens condition closes consequent _ isElse alternative => by
    obtain ⟨inner, _, derived⟩ := consequent.exists_nearest
    obtain ⟨_, _, last⟩ := alternative.exists_nearest
    cases inner with
    | false => exact ⟨_, _, .branchElse isIf opens condition closes derived (fun _ => rfl) isElse last⟩
    | true =>
      obtain ⟨_, _, whole⟩ := derived.absorb rfl isElse last
      exact ⟨_, _, .branch isIf opens condition closes whole⟩

theorem Declaration.exists_nearest : Declaration .any ts n m s → ∃ s', Declaration .nearest ts n m s'
  | .classDecl isClass ident opens list closes => by
    obtain ⟨_, derived⟩ := list.exists_nearest
    exact ⟨_, .classDecl isClass ident opens derived closes⟩
  | .function isFun read => by
    obtain ⟨_, derived⟩ := read.exists_nearest
    exact ⟨_, .function isFun derived⟩
  | .variable isVar read => ⟨_, .variable isVar read⟩
  | .statement inner => by
    obtain ⟨_, _, derived⟩ := inner.exists_nearest
    exact ⟨_, .statement derived⟩

theorem Declarations.exists_nearest : Declarations .any ts n m list →
    ∃ list', Declarations .nearest ts n m list'
  | .nil => ⟨_, .nil⟩
  | .cons first later => by
    obtain ⟨_, one⟩ := first.exists_nearest
    obtain ⟨_, others⟩ := later.exists_nearest
    exact ⟨_, .cons one others⟩

theorem Function.exists_nearest : Function .any ts n m f → ∃ f', Function .nearest ts n m f'
  | .intro ident opens list few closes bodyOpens body bodyCloses => by
    obtain ⟨_, derived⟩ := body.exists_nearest
    exact ⟨_, .intro ident opens list few closes bodyOpens derived bodyCloses⟩

theorem Functions.exists_nearest : Functions .any ts n m list →
    ∃ list', Functions .nearest ts n m list'
  | .nil => ⟨_, .nil⟩
  | .cons first later => by
    obtain ⟨_, one⟩ := first.exists_nearest
    obtain ⟨_, others⟩ := later.exists_nearest
    exact ⟨_, .cons one others⟩

end

mutual

theorem Statement.toAny : Statement .nearest isOpen ts n m s → Statement .any isOpen ts n m s
  | .expression phrase ends => .expression phrase ends
  | .print isPrint phrase ends => .print isPrint phrase ends
  | .ret isReturn value ends => .ret isReturn value ends
  | .block opens body closes => .block opens body.toAny closes
  | .loop isWhile opens condition closes body => .loop isWhile opens condition closes body.toAny
  | .forLoop isFor opens initializer condition ends increment closes body =>
    .forLoop isFor opens initializer condition ends increment closes body.toAny
  | .branch isIf opens condition closes consequent =>
    .branch isIf opens condition closes consequent.toAny
  | .branchElse isIf opens condition closes consequent _ isElse alternative =>
    .branchElse isIf opens condition closes consequent.toAny nofun isElse alternative.toAny

theorem Declaration.toAny : Declaration .nearest ts n m s → Declaration .any ts n m s
  | .classDecl isClass ident opens list closes => .classDecl isClass ident opens list.toAny closes
  | .function isFun read => .function isFun read.toAny
  | .variable isVar read => .variable isVar read
  | .statement inner => .statement inner.toAny

theorem Declarations.toAny : Declarations .nearest ts n m list → Declarations .any ts n m list
  | .nil => .nil
  | .cons first later => .cons first.toAny later.toAny

theorem Function.toAny : Function .nearest ts n m f → Function .any ts n m f
  | .intro ident opens list few closes bodyOpens body bodyCloses =>
    .intro ident opens list few closes bodyOpens body.toAny bodyCloses

theorem Functions.toAny : Functions .nearest ts n m list → Functions .any ts n m list
  | .nil => .nil
  | .cons first later => .cons first.toAny later.toAny

end

/-- Tokens are a program iff they are one with each `else` at the nearest `if`. -/
theorem derivable_iff_nearest : Derivable tokens first ↔
    ∃ next program, Declarations .nearest tokens first next program := by
  constructor
  · rintro ⟨next, program, derived⟩
    exact ⟨next, derived.exists_nearest⟩
  · rintro ⟨next, program, derived⟩
    exact ⟨next, program, derived.toAny⟩

end Lox.Grammar
