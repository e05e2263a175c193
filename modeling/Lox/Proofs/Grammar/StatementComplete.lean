import Lox.Proofs.Grammar.ExpressionComplete

/-! The rules for statements and declarations read every derivation that attaches each `else` to the
nearest `if`, wherever no `else` behind a statement could still belong to it. -/
namespace Lox.Grammar

/-- The kinds a declaration that is no statement begins with. -/
def declarationKinds : List TokenKind := [.keyword .classWord, .keyword .funWord, .keyword .varWord]

/-- The kinds a statement begins with. -/
def statementOpening : List TokenKind := Rank.assignment.opening ++ statementKinds

theorem Statement.opens : Statement elses isOpen ts n m s → Opens statementOpening ts
  | .expression phrase _ => by
    obtain ⟨t, us, rfl, member⟩ := phrase.opens
    exact ⟨t, _, rfl, List.mem_append_left _ member⟩
  | .print kind _ _ | .ret kind _ _ | .block kind _ _ | .loop kind _ _ _ _
  | .forLoop kind _ _ _ _ _ _ _ | .branch kind _ _ _ _ | .branchElse kind _ _ _ _ _ _ _ =>
    ⟨_, _, rfl, List.mem_append_right _ (by simp [kind, statementKinds])⟩

theorem Declaration.opens : Declaration elses ts n m s →
    Opens (declarationKinds ++ statementOpening) ts
  | .classDecl kind _ _ _ _ | .function kind _ | .variable kind _ =>
    ⟨_, _, rfl, List.mem_append_left _ (by simp [kind, declarationKinds])⟩
  | .statement inner => by
    obtain ⟨t, us, rfl, member⟩ := inner.opens
    exact ⟨t, us, rfl, List.mem_append_right _ member⟩

theorem Function.opens : Function elses ts n m f → Opens [.identifier] ts
  | .intro ident _ _ _ _ _ _ _ => ⟨_, _, rfl, by simp [ident]⟩

theorem Declarations.follow (later : Declarations elses ts n m list)
    (follow : Stops [.keyword .elseWord] rest) : Stops [.keyword .elseWord] (ts ++ rest) := by
  cases later with
  | nil => exact follow
  | cons first _ => exact first.opens.append.append.stops (by decide)

/-- The rules for what stands inside the statements that are read with the bound. -/
def within : (bound : Nat) → Inner
  | 0 => ⟨throw .exhausted, throw .exhausted⟩
  | bound + 1 => rules bound

theorem rules_eq_around (bound : Nat) : rules bound = (within bound).around bound := by
  cases bound <;> rfl

theorem reads_within_statement
    (read : ∀ b, ts.length ≤ b → Reads (statementRule (within b) b) ts rest n m s)
    (fits : ts.length < c) : Reads (within c).statement ts rest n m s := by
  cases c with
  | zero => omega
  | succ c =>
    show Reads (rules c).statement ts rest n m s
    rw [rules_eq_around]
    exact read c (by omega)

theorem reads_recovering (read : Reads rule ts rest n m a) :
    Reads (recovering rule) ts rest n m (some a) := by
  intro last errors
  rw [recovering, read]
  rfl

theorem reads_within_declaration
    (read : ∀ b, ts.length ≤ b → Reads (declarationRule (within b) b) ts rest n m s)
    (fits : ts.length < c) : Reads (within c).declaration ts rest n m (some s) := by
  cases c with
  | zero => omega
  | succ c =>
    show Reads (rules c).declaration ts rest n m (some s)
    rw [rules_eq_around]
    exact reads_recovering (read c (by omega))

theorem reads_expression (phrase : Phrase .assignment ts n m e) (fits : ts.length ≤ b)
    (stops : Stops Rank.assignment.continuing rest) : Reads (expression b) ts rest n m e := by
  rw [expression_eq_assignment]
  exact phrase.reads fits (Nat.le_refl _) stops

theorem OptionalPhrase.reads (optional : OptionalPhrase ts n m r) (fits : ts.length ≤ b)
    (closes : closing.kind = kind) (apart : kind ∉ Rank.assignment.opening ++ Rank.assignment.continuing) :
    Reads (optionalExpression kind b) ts (closing :: rest) n m r := by
  simp only [List.mem_append, not_or] at apart
  cases optional with
  | none => exact .seen rfl closes .refl
  | some phrase =>
    refine .unseen (phrase.opens.append.stops ?_) (.map (reads_expression phrase fits ?_))
    · rintro kind' member others
      rw [List.mem_singleton.1 others] at member
      exact apart.1 member
    · rw [stops_cons, closes]
      exact apart.2

theorem ParameterList.opens : ParameterList ts list → Opens [.identifier] ts
  | .one ident => ⟨_, _, rfl, by simp [ident]⟩
  | .more ident _ _ => ⟨_, _, rfl, by simp [ident]⟩

theorem ParameterList.reads : ParameterList ts list → ts.length ≤ b →
    index + list.length ≤ maxArity → Stops [.comma] rest →
    Reads (parameters b index) ts rest n n list
  | .one ident, _, few, stops => by
    have under : ¬ maxArity ≤ index := by simp only [List.length_singleton] at few; omega
    rw [parameters.eq_def, if_neg under]
    exact .consume ident (.absent stops .refl)
  | .more ident isComma list, fits, few, stops => by
    simp only [List.length_cons] at fits few
    obtain ⟨b, rfl⟩ : ∃ d, b = d + 1 := ⟨b - 1, by omega⟩
    have under : ¬ maxArity ≤ index := by omega
    rw [parameters.eq_def, if_neg under]
    refine .consume ident (.present (by simp [isComma]) (.bind_nil ?_ .refl))
    exact list.reads (by omega) (by omega) stops

theorem Variable.reads : Variable ts n m s → ts.length ≤ b →
    Reads (varDeclaration b) ts rest n m s
  | .bare ident isSemicolon, _ =>
    .consume ident (.absent (by simp [isSemicolon]) (.consume isSemicolon .refl))
  | .initialized ident isEqual phrase isSemicolon, fits => by
    simp only [List.length_cons, List.length_append] at fits
    refine .consume ident (.present (by simp [isEqual]) ?_)
    refine .bind (.map (reads_expression phrase (by omega) ?_)) (.consume isSemicolon .refl)
    exact stops_cons.2 (by rw [isSemicolon]; decide)

theorem reads_expressionStatement (phrase : Phrase .assignment ts n m e)
    (isSemicolon : semicolon.kind = .semicolon) (fits : ts.length ≤ b) :
    Reads (expressionStatement b) (ts ++ [semicolon]) rest n m (.expression e) := by
  refine .bind (reads_expression phrase fits ?_) (.consume isSemicolon .refl)
  exact stops_cons.2 (by rw [isSemicolon]; decide)

theorem Initializer.reads : Initializer ts n m r → ts.length ≤ b →
    Reads (forInitializer b) ts rest n m r
  | .none isSemicolon, _ => by
    refine .present (by simp [isSemicolon]) ?_
    simp only [isSemicolon, if_true]
    exact .refl
  | .variable isVar read, fits => by
    simp only [List.length_cons] at fits
    refine .present (by simp [isVar]) ?_
    simp only [isVar, reduceCtorEq, if_false]
    exact .map (read.reads (by omega))
  | .expression phrase isSemicolon, fits => by
    simp only [List.length_append] at fits
    exact .absent (phrase.opens.append.append.stops (by decide))
      (.map (reads_expressionStatement phrase isSemicolon (by omega)))

/-- Goes on wherever a declaration begins. -/
def Continues (more : Cursor → Bool) : Prop :=
  ∀ c, Opens (declarationKinds ++ statementOpening) c.upcoming → more c = true

theorem continues_block : Continues fun c => !c.sees .rightBrace := by
  rintro c ⟨t, us, tokens, member⟩
  have other : t.kind ≠ .rightBrace := by
    intro same
    rw [same] at member
    revert member
    decide
  simp [Cursor.sees, tokens, other]

theorem reads_declarations_cons {declaration : Rule (Option Stmt)} (goes : Continues more)
    (opens : Opens (declarationKinds ++ statementOpening) ts)
    (first : Reads declaration ts (us ++ rest) n k (some s))
    (later : Reads (declarations declaration more b) us rest k m list) :
    Reads (declarations declaration more (b + 1)) (ts ++ us) rest n m (s :: list) := by
  have both : Reads (do
      let first ← declaration
      return first.toList ++ (← declarations declaration more b)) (ts ++ us) rest n m (s :: list) :=
    .bind first (.bind_nil later .refl)
  rw [declarations.eq_def]
  refine .atEnd opens.append.append.isEmpty (.get (fun last errors => ?_) both)
  rw [goes ⟨ts ++ us ++ rest, last, errors, n⟩ opens.append.append]
  rfl

theorem reads_methods_cons {declaration : Rule (Option Stmt)} (opens : Opens [.identifier] ts)
    (first : Reads (Grammar.function declaration b .method) ts (us ++ rest) n k f)
    (later : Reads (methods declaration b) us rest k m list) :
    Reads (methods declaration (b + 1)) (ts ++ us) rest n m (f :: list) := by
  rw [methods.eq_def]
  refine .atEnd opens.append.append.isEmpty (.unseen (opens.append.append.stops (by decide)) ?_)
  exact .bind first (.bind_nil later .refl)

theorem reads_body {list : List Stmt} (isClosing : closing.kind = .rightBrace)
    (body : Reads (declarations declaration (fun c => !c.sees .rightBrace) b) ts (closing :: rest)
      n m list) : Reads (block declaration b) (ts ++ [closing]) rest n m list :=
  .bind body (.consume isClosing .refl)

mutual

theorem Statement.reads : Statement .nearest isOpen ts n m s → ts.length ≤ b →
    (isOpen = true → Stops [.keyword .elseWord] rest) →
    Reads (statementRule (within b) b) ts rest n m s
  | .expression phrase isSemicolon, fits, follow => by
    simp only [List.length_append] at fits
    exact .absent (phrase.opens.append.append.stops (by decide))
      (reads_expressionStatement phrase isSemicolon (by omega))
  | .print isPrint phrase isSemicolon, fits, follow => by
    simp only [List.length_cons, List.length_append] at fits
    refine .present (by simp [isPrint, statementKinds]) ?_
    simp only [isPrint]
    refine .bind (reads_expression phrase (by omega) ?_) (.consume isSemicolon .refl)
    exact stops_cons.2 (by rw [isSemicolon]; decide)
  | .ret isReturn value isSemicolon, fits, follow => by
    simp only [List.length_cons, List.length_append] at fits
    refine .present (by simp [isReturn, statementKinds]) ?_
    simp only [isReturn]
    exact .bind (value.reads (by omega) isSemicolon (by decide)) (.consume isSemicolon .refl)
  | .block isOpening body isClosing, fits, follow => by
    simp only [List.length_cons, List.length_append] at fits
    refine .present (by simp [isOpening, statementKinds]) ?_
    simp only [isOpening]
    refine .map (reads_body isClosing (body.reads (by omega) (by omega) continues_block ?_ ?_))
    · simp [Cursor.sees, isClosing]
    · simp [isClosing]
  | .loop isWhile isOpening condition isClosing body, fits, follow => by
    simp only [List.length_cons, List.length_append] at fits
    refine .present (by simp [isWhile, statementKinds]) ?_
    simp only [isWhile]
    refine .consume isOpening (.bind (reads_expression condition (by omega) ?_)
      (.consume isClosing (.bind_nil (reads_within_statement (fun b fits => ?_) (by omega)) .refl)))
    · exact stops_cons.2 (by rw [isClosing]; decide)
    · exact body.reads fits follow
  | .forLoop isFor isOpening initializer condition isSemicolon increment isClosing body, fits,
      follow => by
    simp only [List.length_cons, List.length_append] at fits
    refine .present (by simp [isFor, statementKinds]) ?_
    simp only [isFor]
    refine .consume isOpening (.bind (initializer.reads (by omega)) ?_)
    refine .bind (condition.reads (by omega) isSemicolon (by decide)) (.consume isSemicolon ?_)
    refine .bind (increment.reads (by omega) isClosing (by decide)) (.consume isClosing ?_)
    rw [← lowered_eq_whileForm]
    refine .bind_nil (reads_within_statement (fun b fits => ?_) (by omega)) .refl
    exact body.reads fits follow
  | .branch isIf isOpening condition isClosing consequent, fits, follow => by
    simp only [List.length_cons, List.length_append] at fits
    refine .present (by simp [isIf, statementKinds]) ?_
    simp only [isIf]
    refine .consume isOpening (.bind (reads_expression condition (by omega) ?_)
      (.consume isClosing (.bind_nil (reads_within_statement (fun b fits => ?_) (by omega))
        (.absent (follow rfl) .refl))))
    · exact stops_cons.2 (by rw [isClosing]; decide)
    · exact consequent.reads fits fun _ => follow rfl
  | .branchElse isIf isOpening condition isClosing consequent closed isElse alternative, fits,
      follow => by
    simp only [List.length_cons, List.length_append] at fits
    refine .present (by simp [isIf, statementKinds]) ?_
    simp only [isIf]
    refine .consume isOpening (.bind (reads_expression condition (by omega) ?_) (.consume isClosing
      (.bind (reads_within_statement (fun b fits => consequent.reads fits ?_) (by omega))
        (.present (by simp [isElse]) (.bind_nil (reads_within_statement
          (fun b fits => alternative.reads fits follow) (by omega)) .refl)))))
    · exact stops_cons.2 (by rw [isClosing]; decide)
    · simp [closed]

theorem Declaration.reads : Declaration .nearest ts n m s → ts.length ≤ b →
    Stops [.keyword .elseWord] rest → Reads (declarationRule (within b) b) ts rest n m s
  | .classDecl isClass ident isOpening list isClosing, fits, follow => by
    simp only [List.length_cons, List.length_append] at fits
    refine .present (by simp [isClass]) ?_
    simp only [isClass]
    refine .consume ident (.consume isOpening (.bind ?_ (.consume isClosing .refl)))
    exact list.reads (by omega) (by omega) isClosing
  | .function isFun read, fits, follow => by
    simp only [List.length_cons] at fits
    refine .present (by simp [isFun]) ?_
    simp only [isFun]
    exact .map (read.reads (by omega) (by omega))
  | .variable isVar read, fits, follow => by
    simp only [List.length_cons] at fits
    refine .present (by simp [isVar]) ?_
    simp only [isVar]
    exact read.reads (by omega)
  | .statement inner, fits, follow =>
    .absent (inner.opens.append.stops (by decide)) (inner.reads fits fun _ => follow)

theorem Declarations.reads : Declarations .nearest ts n m list → ts.length ≤ b → ts.length < c →
    Continues more → (∀ last errors, rest = [] ∨ more ⟨rest, last, errors, m⟩ = false) →
    Stops [.keyword .elseWord] rest →
    Reads (declarations (within c).declaration more b) ts rest n m list
  | .nil, fits, under, goes, ended, follow => by
    rw [declarations.eq_def]
    refine .atEnd rfl (.get (fun last errors => ?_) .refl)
    rcases ended last errors with none | ended
    · simp [none]
    · simp [ended]
  | .cons first later, fits, under, goes, ended, follow => by
    have positive := first.opens.length_pos
    simp only [List.length_append] at fits under
    obtain ⟨b, rfl⟩ : ∃ d, b = d + 1 := ⟨b - 1, by omega⟩
    refine reads_declarations_cons goes first.opens (reads_within_declaration
      (fun b fits => first.reads fits (later.follow follow)) (by omega)) ?_
    exact later.reads (by omega) (by omega) goes ended follow

theorem Function.reads : Function .nearest ts n m f → ts.length ≤ b + 1 → ts.length < c →
    Reads (Grammar.function (within c).declaration b kind) ts rest n m f
  | .intro ident isOpening list few isClosing bodyOpens body bodyCloses, fits, under => by
    simp only [List.length_cons, List.length_append] at fits under
    have body : Reads (block (within c).declaration b) _ rest n m _ :=
      reads_body bodyCloses (body.reads (by omega) (by omega) continues_block
        (by simp [Cursor.sees, bodyCloses]) (by simp [bodyCloses]))
    refine .consume ident (.consume isOpening ?_)
    cases list with
    | none =>
      exact .seen rfl isClosing (.consume isClosing (.consume bodyOpens (.bind_nil body .refl)))
    | some list =>
      refine .unseen (list.opens.append.append.stops (by decide)) (.bind ?_
        (.consume isClosing (.consume bodyOpens (.bind_nil body .refl))))
      exact list.reads (by omega) (by simpa using few) (by simp [isClosing])

theorem Functions.reads : Functions .nearest ts n m list → ts.length ≤ b → ts.length < c →
    closing.kind = .rightBrace →
    Reads (Grammar.methods (within c).declaration b) ts (closing :: rest) n m list
  | .nil, fits, under, isClosing => by
    rw [methods.eq_def]
    exact .atEnd rfl (.seen rfl isClosing .refl)
  | .cons first later, fits, under, isClosing => by
    have positive := first.opens.length_pos
    simp only [List.length_append] at fits under
    obtain ⟨b, rfl⟩ : ∃ d, b = d + 1 := ⟨b - 1, by omega⟩
    exact reads_methods_cons first.opens (first.reads (by omega) (by omega))
      (later.reads (by omega) (by omega) isClosing)

end

theorem reads_program (derived : Declarations .nearest ts n m list) (fits : ts.length ≤ bound) :
    Reads (program bound) ts [] n m list := by
  have goes : Continues fun _ => true := fun _ _ => rfl
  exact derived.reads (c := bound + 1) fits (Nat.lt_succ_of_le fits) goes (fun _ _ => .inl rfl) (by simp)

end Lox.Grammar
