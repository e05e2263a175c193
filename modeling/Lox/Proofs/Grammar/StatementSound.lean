import Lox.Proofs.Grammar.ExpressionSound

/-! What the rules for statements and declarations read is derived, each `else` belonging to the
nearest `if` that has none. -/
namespace Lox.Grammar

/-- A statement was read, and no `else` that could belong to it is next. -/
def StatementRead : Reading Stmt := fun ts rest n m s =>
  ∃ isOpen, Statement .nearest isOpen ts n m s ∧ (isOpen = true → Stops [.keyword .elseWord] rest)

/-- A declaration was read. -/
def DeclarationRead : Reading Stmt := fun ts _ n m s => Declaration .nearest ts n m s

theorem sound_recovering {Q : Reading α} (sound : Sound rule Q) :
    Sound (recovering rule) Q.found := by
  intro c
  unfold recovering
  have read := sound c
  cases ran : rule c with
  | ok a c' =>
    rw [ran] at read
    refine ⟨read.1, fun clean => ?_⟩
    obtain ⟨before, ts, split, holds⟩ := read.2 clean
    exact ⟨before, ts, split, a, rfl, holds⟩
  | error halt c' =>
    rw [ran] at read
    cases halt with
    | reported => exact ⟨read.1, fun clean => absurd clean read.2⟩
    | exhausted => exact read

section

variable {statement : Rule Stmt} {declaration : Rule (Option Stmt)}

/-- Where nothing else ends the list it goes on to the last token. -/
theorem sound_declarations (more : Cursor → Bool)
    (sound : Sound declaration DeclarationRead.found) (bound : Nat) :
    Sound (declarations declaration more bound) fun ts rest n m list =>
      Declarations .nearest ts n m list ∧ ((∀ c, more c = true) → rest = []) := by
  have none {b : Bool} {c : Cursor} (ended : (b || !more c) = true) :
      Sound (pure []) fun ts rest n m list => c.upcoming = ts ++ rest → b = (ts ++ rest).isEmpty →
        Declarations .nearest ts n m list ∧ ((∀ c, more c = true) → rest = []) := by
    refine .pure fun rest n _ atEnd => ⟨.nil, fun always => ?_⟩
    simpa [always, atEnd] using ended
  induction bound with
  | zero =>
    rw [declarations.eq_def]
    refine .atEnd fun b => .get fun c => ?_
    split
    next ended => exact none ended
    next => exact .exhausted
  | succ bound ih =>
    rw [declarations.eq_def]
    refine .atEnd fun b => .get fun c => ?_
    split
    next ended => exact none ended
    next =>
      refine .bind sound fun first => .bind ih fun later => .pure ?_
      rintro rest n us k ⟨listed, ended⟩ ts l ⟨s, rfl, derived⟩ - -
      exact ⟨by simpa using Declarations.cons derived listed, ended⟩

theorem sound_block (sound : Sound declaration DeclarationRead.found) (bound : Nat) :
    Sound (block declaration bound) fun ts _ n m list => ∃ us closing, ts = us ++ [closing] ∧
      Declarations .nearest us n m list ∧ closing.kind = .rightBrace := by
  refine .bind (sound_declarations _ sound bound) fun list => .consume fun closing close => .pure ?_
  rintro rest n us k ⟨listed, -⟩
  exact ⟨us, closing, rfl, listed, close⟩

theorem sound_parameters (bound index : Nat) : Sound (parameters bound index) fun ts _ n m list =>
    ParameterList ts list ∧ n = m ∧ index + list.length ≤ maxArity := by
  induction bound generalizing index with
  | zero =>
    rw [parameters.eq_def]
    refine .limited (.consume fun name ident => .accept? (.pure ?_) fun _ _ => .exhausted)
    exact fun rest n _ under => ⟨.one ident, rfl, Nat.lt_of_not_le under⟩
  | succ bound ih =>
    rw [parameters.eq_def]
    refine .limited (.consume fun name ident => .accept? (.pure ?_) fun comma member => ?_)
    · exact fun rest n _ under => ⟨.one ident, rfl, Nat.lt_of_not_le under⟩
    refine .bind (ih (index + 1)) fun list => .pure ?_
    rintro rest n ts k ⟨listed, rfl, fits⟩ under
    refine ⟨?_, rfl, by simp only [List.length_cons]; omega⟩
    simpa using ParameterList.more ident (List.mem_singleton.1 member) listed

theorem sound_function (sound : Sound declaration DeclarationRead.found) (bound : Nat)
    (kind : FunctionKind) : Sound (Grammar.function declaration bound kind) fun ts _ n m f =>
      Function .nearest ts n m f := by
  refine .consume fun name ident => .consume fun opening opens => .sees ?_ ?_
  · refine .bind (sound_parameters bound 0) fun list => ?_
    refine .consume fun closing close => .consume fun bodyOpening bodyOpens => ?_
    refine .bind (sound_block sound bound) fun body => .pure ?_
    rintro rest n us k ⟨vs, bodyClosing, rfl, listed, bodyCloses⟩ ts l ⟨named, rfl, fits⟩ -
    simpa using Function.intro ident opens (.some named) (by simpa using fits) close bodyOpens
      listed bodyCloses
  · refine .consume fun closing close => .consume fun bodyOpening bodyOpens => ?_
    refine .bind (sound_block sound bound) fun body => .pure ?_
    rintro rest n us k ⟨vs, bodyClosing, rfl, listed, bodyCloses⟩
    simpa using Function.intro ident opens .none (Nat.zero_le _) close bodyOpens listed bodyCloses

theorem sound_methods (sound : Sound declaration DeclarationRead.found) (bound : Nat) :
    Sound (methods declaration bound) fun ts _ n m list => Functions .nearest ts n m list := by
  induction bound with
  | zero =>
    rw [methods.eq_def]
    refine .atEnd fun b => .sees ?_ ?_ <;> split
    · exact .pure fun _ _ _ _ => .nil
    · exact .exhausted
    · exact .pure fun _ _ _ => .nil
    · exact .exhausted
  | succ bound ih =>
    have one : Sound (do
        let first ← Grammar.function declaration bound .method
        return first :: (← methods declaration bound)) fun ts _ n m list =>
          Functions .nearest ts n m list := by
      refine .bind (sound_function sound bound .method) fun first => .bind ih fun later => .pure ?_
      intro rest n us k listed ts l derived
      simpa using Functions.cons derived listed
    rw [methods.eq_def]
    refine .atEnd fun b => .sees ?_ ?_ <;> split
    · exact .pure fun _ _ _ _ => .nil
    · exact one.mono fun read _ _ => read
    · exact .pure fun _ _ _ => .nil
    · exact one.mono fun read _ => read

theorem sound_classDeclaration (sound : Sound declaration DeclarationRead.found) (bound : Nat)
    (isClass : keyword.kind = .keyword .classWord) :
    Sound (classDeclaration declaration bound) fun ts _ n m s =>
      Declaration .nearest (keyword :: ts) n m s := by
  refine .consume fun name ident => .consume fun opening opens => ?_
  refine .bind (sound_methods sound bound) fun list => .consume fun closing close => .pure ?_
  intro rest n ts k listed
  exact .classDecl isClass ident opens listed close

theorem sound_varDeclaration (bound : Nat) :
    Sound (varDeclaration bound) fun ts _ n m s => Variable ts n m s := by
  refine .consume fun name ident => .accept? ?_ fun equals member => ?_
  · exact .consume fun semicolon ends => .pure fun _ _ _ => .bare ident ends
  · refine .bind (.map (Q := fun ts _ n m r => ∃ e, r = some e ∧ Phrase .assignment ts n m e) ?_) ?_
    · exact (sound_expression bound).mono fun phrase => ⟨_, rfl, phrase⟩
    · refine fun r => .consume fun semicolon ends => .pure ?_
      rintro rest n ts k ⟨e, rfl, phrase⟩
      exact .initialized ident (List.mem_singleton.1 member) phrase ends

theorem sound_optionalExpression (closing : TokenKind) (bound : Nat) :
    Sound (optionalExpression closing bound) fun ts _ n m r => OptionalPhrase ts n m r := by
  refine .sees ?_ ?_
  · exact .map ((sound_expression bound).mono fun phrase _ => .some phrase)
  · exact .pure fun _ _ => .none

theorem sound_expressionStatement (bound : Nat) : Sound (expressionStatement bound)
    fun ts _ n m s => ∃ us semicolon e, ts = us ++ [semicolon] ∧ s = .expression e ∧
      Phrase .assignment us n m e ∧ semicolon.kind = .semicolon := by
  refine .bind (sound_expression bound) fun e => .consume fun semicolon ends => .pure ?_
  intro rest n ts k phrase
  exact ⟨ts, semicolon, e, rfl, rfl, phrase, ends⟩

theorem sound_forInitializer (bound : Nat) :
    Sound (forInitializer bound) fun ts _ n m r => Initializer ts n m r := by
  refine .accept? (.map ((sound_expressionStatement bound).mono ?_)) fun t member => ?_
  · rintro ts rest n m s ⟨us, semicolon, e, rfl, rfl, phrase, ends⟩ -
    exact .expression phrase ends
  · split
    next ends => exact .pure fun _ _ => .none ends
    next other =>
      have isVar : t.kind = .keyword .varWord := by simpa [other] using member
      exact .map ((sound_varDeclaration bound).mono fun read => .variable isVar read)

/-- What stands behind the word `for`, each clause present or absent. -/
inductive ForParts (isOpen : Bool) : List Token → (first next : Occurrence) → Option Stmt →
    (condition increment : Option Expr) → (body : Stmt) → Prop where
  | intro : opening.kind = .leftParen → Initializer is n k initializer →
      OptionalPhrase cs k l condition → semicolon.kind = .semicolon →
      OptionalPhrase us l j increment → closing.kind = .rightParen →
      Statement .nearest isOpen bs j m body →
      ForParts isOpen (opening :: (is ++ (cs ++ semicolon :: (us ++ closing :: bs)))) n m
        initializer condition increment body

theorem sound_forParts (sound : Sound statement StatementRead) (bound : Nat) :
    Sound (forStatement statement bound) fun ts rest n m s =>
      ∃ isOpen initializer condition increment body,
        ForParts isOpen ts n m initializer condition increment body ∧
        s = lowered initializer condition increment body ∧
        (isOpen = true → Stops [.keyword .elseWord] rest) := by
  refine .consume fun opening opens => .bind (sound_forInitializer bound) fun initializer => ?_
  refine .bind (sound_optionalExpression .semicolon bound) fun condition => ?_
  refine .consume fun semicolon ends => ?_
  refine .bind (sound_optionalExpression .rightParen bound) fun increment => ?_
  refine .consume fun closing close => .bind sound fun body => .pure ?_
  rintro rest n bs i ⟨isOpen, derived, follow⟩ us j incremented cs k checked is l initialized
  refine ⟨isOpen, initializer, condition, increment, body, ?_, rfl, follow⟩
  simpa using ForParts.intro opens initialized checked ends incremented close derived

theorem sound_forStatement (sound : Sound statement StatementRead) (bound : Nat)
    (isFor : keyword.kind = .keyword .forWord) :
    Sound (forStatement statement bound) fun ts => StatementRead (keyword :: ts) := by
  refine (sound_forParts sound bound).mono ?_
  rintro ts rest n m s ⟨isOpen, initializer, condition, increment, body, parts, rfl, follow⟩
  obtain ⟨opens, initialized, checked, ends, incremented, close, derived⟩ := parts
  refine ⟨isOpen, ?_, follow⟩
  rw [lowered_eq_whileForm]
  exact .forLoop isFor opens initialized checked ends incremented close derived

theorem sound_ifStatement (sound : Sound statement StatementRead) (bound : Nat)
    (isIf : keyword.kind = .keyword .ifWord) :
    Sound (ifStatement statement bound) fun ts => StatementRead (keyword :: ts) := by
  refine .consume fun opening opens => .bind (sound_expression bound) fun condition => ?_
  refine .consume fun closing close => .bind sound fun consequent => .accept? (.pure ?_) ?_
  · rintro rest n stops us k ⟨isOpen, derived, -⟩ ts l phrase
    exact ⟨true, by simpa using Statement.branch isIf opens phrase close derived,
      fun _ => by simpa using stops⟩
  · intro alternate member
    have isElse := List.mem_singleton.1 member
    refine .bind sound fun alternative => .pure ?_
    rintro rest n vs i ⟨isOpen, last, follow⟩ us k ⟨inner, derived, closed⟩ ts l phrase
    have closed : inner = false := by
      cases inner with
      | false => rfl
      | true => simpa [isElse] using closed rfl
    refine ⟨isOpen, ?_, follow⟩
    simpa using
      Statement.branchElse isIf opens phrase close derived (fun _ => closed) isElse last

theorem sound_printStatement (bound : Nat) (isPrint : keyword.kind = .keyword .printWord) :
    Sound (printStatement bound) fun ts => StatementRead (keyword :: ts) := by
  refine .bind (sound_expression bound) fun e => .consume fun semicolon ends => .pure ?_
  intro rest n ts k phrase
  exact ⟨false, .print isPrint phrase ends, by simp⟩

theorem sound_returnStatement (bound : Nat) (isReturn : keyword.kind = .keyword .returnWord) :
    Sound (returnStatement keyword bound) fun ts => StatementRead (keyword :: ts) := by
  refine .bind (sound_optionalExpression .semicolon bound) fun value => ?_
  refine .consume fun semicolon ends => .pure ?_
  intro rest n ts k phrase
  exact ⟨false, .ret isReturn phrase ends, by simp⟩

theorem sound_whileStatement (sound : Sound statement StatementRead) (bound : Nat)
    (isWhile : keyword.kind = .keyword .whileWord) :
    Sound (whileStatement statement bound) fun ts => StatementRead (keyword :: ts) := by
  refine .consume fun opening opens => .bind (sound_expression bound) fun condition => ?_
  refine .consume fun closing close => .bind sound fun body => .pure ?_
  rintro rest n us k ⟨isOpen, derived, follow⟩ ts l phrase
  exact ⟨isOpen, by simpa using Statement.loop isWhile opens phrase close derived, follow⟩

end

section

variable {inner : Inner} (statement : Sound inner.statement StatementRead)
  (declaration : Sound inner.declaration DeclarationRead.found)
include statement declaration

theorem sound_statementRule (bound : Nat) : Sound (statementRule inner bound) StatementRead := by
  refine .accept? ((sound_expressionStatement bound).mono ?_) fun t member => ?_
  · rintro ts rest n m s ⟨us, semicolon, e, rfl, rfl, phrase, ends⟩ -
    exact ⟨false, .expression phrase ends, by simp⟩
  split
  next isFor => exact sound_forStatement statement bound isFor
  next isIf => exact sound_ifStatement statement bound isIf
  next isPrint => exact sound_printStatement bound isPrint
  next isReturn => exact sound_returnStatement bound isReturn
  next isWhile => exact sound_whileStatement statement bound isWhile
  next =>
    have opens : t.kind = .leftBrace := by
      simp only [statementKinds, List.mem_cons, List.not_mem_nil, or_false] at member
      simp_all
    refine .map ((sound_block declaration bound).mono ?_)
    rintro ts rest n m list ⟨us, closing, rfl, listed, close⟩
    exact ⟨false, .block opens listed close, by simp⟩

theorem sound_declarationRule (bound : Nat) :
    Sound (declarationRule inner bound) DeclarationRead := by
  refine .accept? ((sound_statementRule statement declaration bound).mono ?_) fun t member => ?_
  · rintro ts rest n m s ⟨isOpen, derived, -⟩ -
    exact .statement derived
  split
  next isClass => exact sound_classDeclaration declaration bound isClass
  next isFun =>
    exact .map ((sound_function declaration bound .function).mono fun read => .function isFun read)
  next =>
    have isVar : t.kind = .keyword .varWord := by
      simp only [List.mem_cons, List.not_mem_nil, or_false] at member
      simp_all
    exact (sound_varDeclaration bound).mono fun read => .variable isVar read

end

theorem sound_rules (bound : Nat) : Sound (rules bound).statement StatementRead ∧
    Sound (rules bound).declaration DeclarationRead.found := by
  induction bound with
  | zero =>
    exact ⟨sound_statementRule .exhausted .exhausted 0,
      sound_recovering (sound_declarationRule .exhausted .exhausted 0)⟩
  | succ bound ih =>
    exact ⟨sound_statementRule ih.1 ih.2 (bound + 1),
      sound_recovering (sound_declarationRule ih.1 ih.2 (bound + 1))⟩

theorem sound_program (bound : Nat) : Sound (program bound) fun ts rest n m list =>
    Declarations .nearest ts n m list ∧ rest = [] :=
  (sound_declarations _ (sound_rules bound).2 bound).mono fun ⟨listed, ended⟩ =>
    ⟨listed, ended fun _ => rfl⟩

/-- An accepted program is derived from the tokens before the end of the file. -/
theorem parse_derived (parsed : parse tokens first = (.ok list, next)) :
    Declarations .nearest (Cursor.start tokens first).upcoming first next list := by
  have sound := sound_program tokens.length (.start tokens first)
  rw [parse] at parsed
  cases ran : program tokens.length (.start tokens first) with
  | error halt c => simp [ran] at parsed
  | ok read c =>
    rw [ran] at sound parsed
    obtain ⟨result, rfl⟩ := Prod.mk.inj parsed
    split at result
    · next clean =>
      obtain ⟨-, ts, split, derived, ended⟩ := sound.2 (List.isEmpty_iff.1 clean)
      rw [ended, List.append_nil] at split
      cases result
      rwa [split]
    · cases result

theorem parse_fresh_le (tokens : List Token) (first : Occurrence) :
    first ≤ (parse tokens first).2 := by
  have sound := sound_program tokens.length (.start tokens first)
  rw [parse]
  cases ran : program tokens.length (.start tokens first) with
  | error halt c =>
    rw [ran] at sound
    exact sound.fresh_le
  | ok read c =>
    rw [ran] at sound
    exact sound.1

end Lox.Grammar
