import Lox.Proofs.Grammar.StatementComplete
import Lox.Proofs.Recovery.Expression

/-! A statement on one line, and what becomes of it when it cannot be read. Every rule that is tried on
it ends at the semicolon or gives up before, and then reading is resumed right behind the semicolon. -/
namespace Lox.Grammar

variable {s s' : Setting} {q : Position} {k b b' : Nat}

theorem confined_parameters (fits : k ≤ b) (fits' : k ≤ b') (index : Nat) :
    Confined s s' .inside k (parameters b index) (parameters b' index) := by
  induction b generalizing k b' index with
  | zero =>
    rw [parameters.eq_def, parameters.eq_def]
    exact .limited rfl (.consume (by decide) fun _ _ _ _ _ =>
      .accept? (by decide) .pure fun _ _ _ => by omega)
  | succ b ih =>
    rw [parameters.eq_def, parameters.eq_def]
    refine .limited rfl (.consume (by decide) fun parameter i after _ _ =>
      .accept? (by decide) .pure fun _ j more _ _ => ?_)
    obtain ⟨d, rfl, enough⟩ := bound_of_more fits' after
    exact .bind (ih (k := j) (by omega) (by omega) _) fun _ => .pure

/-- A function has a brace, and no line has. -/
theorem confined_function {declaration declaration' : Rule (Option Stmt)} (fits : k ≤ b)
    (fits' : k ≤ b') (kind : FunctionKind) :
    Confined s s' q k (function declaration b kind) (function declaration' b' kind) := by
  refine .consume (by decide) fun name i after _ _ => .consume (by decide) fun _ j more _ _ =>
    .sees fun empty => ?_
  have body (list : List Token) : Confined s s' q j
      (do
        let _ ← consume .rightParen .parameterClosing
        let _ ← consume .leftBrace (.bodyOpening kind)
        return FunctionDecl.mk name list (← block declaration b))
      (do
        let _ ← consume .rightParen .parameterClosing
        let _ ← consume .leftBrace (.bodyOpening kind)
        return ⟨name, list, ← block declaration' b'⟩) :=
    .consume (by decide) fun _ _ _ _ _ => .refused (by decide) rfl
  cases empty with
  | true => exact .bind .pure body
  | false => exact .bind (confined_parameters (by omega) (by omega) 0) body

theorem confined_classDeclaration {declaration declaration' : Rule (Option Stmt)} :
    Confined s s' q k (classDeclaration declaration b) (classDeclaration declaration' b') :=
  .consume (by decide) fun _ _ _ _ _ => .refused (by decide) rfl

theorem confined_varDeclaration (fits : k ≤ b) (fits' : k ≤ b') :
    Confined s s' .behind k (varDeclaration b) (varDeclaration b') := by
  refine .consume (by decide) fun name i _ _ _ => .accept? (by decide) ?_ fun _ j _ _ _ => ?_
  · exact .bind .pure fun value => .finish
  · exact .bind (.map (confined_expression (by omega) (by omega))) fun value => .finish

theorem confined_expressionStatement (fits : k ≤ b) (fits' : k ≤ b') :
    Confined s s' .behind k (expressionStatement b) (expressionStatement b') :=
  .bind (confined_expression fits fits') fun _ => .finish

theorem confined_printStatement (fits : k ≤ b) (fits' : k ≤ b') :
    Confined s s' .behind k (printStatement b) (printStatement b') :=
  .bind (confined_expression fits fits') fun _ => .finish

theorem confined_returnStatement (keyword : Token) (fits : k ≤ b) (fits' : k ≤ b') :
    Confined s s' .behind k (returnStatement keyword b) (returnStatement keyword b') := by
  have value : Confined s s' .inside k (optionalExpression .semicolon b)
      (optionalExpression .semicolon b') := by
    refine .sees fun empty => ?_
    cases empty with
    | true => exact .pure
    | false => exact .map (confined_expression fits fits')
  exact .bind value fun _ => .finish

section

variable {statement statement' : Rule Stmt} (fits : k ≤ b) (fits' : k ≤ b')
  (body : ∀ j < k, Confined s s' .behind j statement statement')
include fits fits' body

theorem confined_ifStatement :
    Confined s s' .behind k (ifStatement statement b) (ifStatement statement' b') := by
  refine .consume (by decide) fun _ i _ _ _ => .bind (confined_expression (by omega) (by omega))
    fun condition => .consume (by decide) fun _ j _ _ _ => ?_
  exact .bind_behind (body j (by omega)) fun consequent _ => .noElse .pure

theorem confined_whileStatement :
    Confined s s' .behind k (whileStatement statement b) (whileStatement statement' b') := by
  refine .consume (by decide) fun _ i _ _ _ => .bind (confined_expression (by omega) (by omega))
    fun condition => .consume (by decide) fun _ j _ _ _ => ?_
  exact .bind_behind (body j (by omega)) fun _ _ => .pure

end

/-- On a line alone stands only an expression statement. -/
theorem confined_statementRule {inner inner' : Inner} (fits : k ≤ b) (fits' : k ≤ b') :
    Confined s s' .behind k (statementRule inner b) (statementRule inner' b') := by
  have separating : ∀ kind ∈ statementKinds, separates kind = true := by decide
  refine .accept? (by decide) (confined_expressionStatement fits fits') fun t _ _ member plain => ?_
  rw [separating _ member] at plain
  cases plain

theorem confined_within_statement (fits : k < b) (fits' : k < b') :
    Confined s s' .behind k (within b).statement (within b').statement := by
  obtain ⟨d, rfl⟩ : ∃ d, b = d + 1 := ⟨b - 1, by omega⟩
  obtain ⟨d', rfl⟩ : ∃ d, b' = d + 1 := ⟨b' - 1, by omega⟩
  show Confined s s' .behind k (rules d).statement (rules d').statement
  rw [rules_eq_around, rules_eq_around]
  exact confined_statementRule (by omega) (by omega)

/-- A line, perhaps behind a word that opens a statement. A `for` has semicolons in it and is none. -/
inductive Sentence : List Token → Prop where
  | line : Line ts → Sentence ts
  | opened : t.kind ∈ [.keyword .classWord, .keyword .funWord, .keyword .varWord, .keyword .ifWord,
      .keyword .whileWord, .keyword .printWord, .keyword .returnWord] → Line ts → Sentence (t :: ts)

theorem Sentence.length_pos (sentence : Sentence ts) : 0 < ts.length := by
  cases sentence with
  | line line => exact line.length_pos
  | opened => simp

theorem Sentence.declarationRule_alike (sentence : Sentence ts) (fits : ts.length ≤ b)
    (fits' : ts.length ≤ b') (n : Occurrence) :
    Alike s s' .behind b (declarationRule (within b) b (s.cursor ts [] n))
      (declarationRule (within b') b' (s'.cursor ts [] n)) := by
  cases sentence with
  | line line =>
    have separating : ∀ kind ∈ declarationKinds, separates kind = true := by decide
    have rule : Confined s s' .behind (ts.length - 1) (declarationRule (within b) b)
        (declarationRule (within b') b') := by
      refine .accept? (by decide) (confined_statementRule (by omega) (by omega))
        fun t _ _ member plain => ?_
      rw [separating _ member] at plain
      cases plain
    exact (rule _ (Nat.le_refl _) ⟨⟨line, by omega⟩, by simp⟩).mono (by omega)
  | @opened ts t member line =>
    have positive := line.length_pos
    simp only [List.length_cons] at fits fits'
    have enough : ts.length - 1 ≤ b := by omega
    have enough' : ts.length - 1 ≤ b' := by omega
    have start {x x' : Rule Stmt} (rule : Confined s s' .behind (ts.length - 1) x x') :
        Alike s s' .behind b (x (s.cursor ts [] n)) (x' (s'.cursor ts [] n)) :=
      (rule _ (Nat.le_refl _) ⟨⟨line, by omega⟩, by simp⟩).mono enough
    have body : ∀ j < ts.length - 1,
        Confined s s' .behind j (within b).statement (within b').statement :=
      fun j under => confined_within_statement (by omega) (by omega)
    simp only [List.mem_cons, List.not_mem_nil, or_false] at member
    -- The opening word is taken by the one rule it belongs to, which starts at the line behind it.
    simp only [declarationRule, statementRule, bind_apply, Setting.accept?_cursor]
    rcases member with kind | kind | kind | kind | kind | kind | kind <;>
      simp only [kind, bind_apply, Setting.accept?_cursor, statementKinds, List.mem_cons,
        List.not_mem_nil, reduceCtorEq, TokenKind.keyword.injEq, or_false, or_true, if_true, if_false]
    · exact start confined_classDeclaration
    · exact start (.map (confined_function enough enough' .function))
    · exact start (confined_varDeclaration enough enough')
    · exact start (confined_ifStatement enough enough' body)
    · exact start (confined_whileStatement enough enough' body)
    · exact start (confined_printStatement enough enough')
    · exact start (confined_returnStatement t enough enough')

/-- Behind the semicolon of a line is the first boundary in it. -/
theorem Line.boundary_eq (line : Line ts) (rest : List Token) (inside : skipped.kind ≠ .semicolon) :
    boundary skipped (ts ++ rest) = rest := by
  induction line generalizing skipped with
  | @ending t isSemicolon =>
    show boundary skipped (t :: rest) = rest
    have apart : opensStatement t.kind = false := by rw [isSemicolon]; rfl
    rw [boundary]
    simp only [inside, apart, decide_false, Bool.or_self, Bool.false_eq_true, if_false]
    cases rest with
    | nil => rfl
    | cons next rest => rw [boundary]; simp [isSemicolon]
  | more plain line ih =>
    rw [List.cons_append, boundary]
    simp only [inside, not_opens plain, decide_false, Bool.or_self, Bool.false_eq_true, if_false]
    exact ih (not_semicolon plain)

/-- Wherever in a line a rule gave up, reading goes on right behind it. -/
theorem Setting.resume_cursor (s : Setting) (line : Line ts) (errors : List Diagnostic)
    (n : Occurrence) : resume (s.cursor ts errors n) = .ok () (s.cursor [] errors n) := by
  -- One token is skipped before a boundary is looked for. It may be the semicolon itself.
  have behind : ∀ t us, ts = t :: us → boundary t (us ++ s.behind) = s.behind := by
    rintro t us rfl
    cases line with
    | ending isSemicolon =>
      cases s.behind with
      | nil => rfl
      | cons next rest => rw [List.nil_append, boundary]; simp [isSemicolon]
    | more plain line => exact line.boundary_eq s.behind (not_semicolon plain)
  cases ts with
  | nil => cases line
  | cons t us =>
    show EStateM.Result.ok () (Cursor.mk (boundary t (us ++ s.behind)) _ _ _) = _
    rw [behind t us rfl]
    rfl

/-- Both readers go on behind the line, with a result or without. An error made them give up iff there
is none. -/
theorem Alike.recovering {x x' : Rule α} (alike : Alike s s' .behind k (x c) (x' c')) :
    ∃ o errors n, Grammar.recovering x c = .ok o (s.cursor [] errors n) ∧
      Grammar.recovering x' c' = .ok o (s'.cursor [] errors n) ∧
      errors.countP (·.unwinds) = if o.isNone then 1 else 0 := by
  have none_unwound {errors : List Diagnostic} (calm : ∀ e ∈ errors, e.unwinds = false) :
      errors.countP (·.unwinds) = 0 := List.countP_eq_zero.2 (by simpa using calm)
  have resumed (s : Setting) {ts : List Token} (line : Line ts) (errors : List Diagnostic)
      (n : Occurrence) : (resume *> pure none : Rule (Option α)) (s.cursor ts errors n) =
        .ok none (s.cursor [] errors n) := by
    show (resume >>= fun _ => pure none : Rule (Option α)) _ = _
    rw [bind_apply, s.resume_cursor line]
    rfl
  rw [Grammar.recovering, Grammar.recovering]
  generalize x c = r, x' c' = r' at alike ⊢
  cases alike with
  | ok both =>
    obtain ⟨left, calm⟩ := both
    cases left
    exact ⟨_, _, _, rfl, rfl, none_unwound calm⟩
  | halted line calm unwound =>
    refine ⟨none, _, _, resumed s line _ _, resumed s' line _ _, ?_⟩
    simp [List.countP_append, none_unwound calm, unwound]

/-- Nothing of a sentence but the sentence decides what is read, what is reported, and what is used. -/
theorem Sentence.reads (sentence : Sentence ts) (n : Occurrence) : ∃ o errors m,
    errors.countP (·.unwinds) = (if o.isNone then 1 else 0) ∧
    ∀ (s : Setting) (b : Nat), ts.length ≤ b →
      (rules b).declaration (s.cursor ts [] n) = .ok o (s.cursor [] errors m) := by
  let alone : Setting := ⟨[], .endOfFile 1, [], stops_nil⟩
  have both (s s' : Setting) (b b' : Nat) (fits : ts.length ≤ b) (fits' : ts.length ≤ b') :
      ∃ o errors m, (rules b).declaration (s.cursor ts [] n) = .ok o (s.cursor [] errors m) ∧
        (rules b').declaration (s'.cursor ts [] n) = .ok o (s'.cursor [] errors m) ∧
        errors.countP (·.unwinds) = if o.isNone then 1 else 0 := by
    rw [rules_eq_around, rules_eq_around]
    exact (sentence.declarationRule_alike fits fits' n).recovering
  -- What the sentence comes to alone is what it comes to in every other setting.
  obtain ⟨o, errors, m, ran, -, few⟩ := both alone alone ts.length ts.length (Nat.le_refl _) (Nat.le_refl _)
  refine ⟨o, errors, m, few, fun s b fits => ?_⟩
  obtain ⟨o', errors', m', here, ranAgain, -⟩ := both s alone b ts.length fits (Nat.le_refl _)
  rw [ran] at ranAgain
  simp only [EStateM.Result.ok.injEq, Setting.cursor, Cursor.mk.injEq] at ranAgain
  obtain ⟨rfl, -, -, same, rfl⟩ := ranAgain
  rw [here, List.append_cancel_left same]

end Lox.Grammar
