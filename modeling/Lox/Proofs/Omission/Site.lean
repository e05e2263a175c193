import Lox.Proofs.Grammar.StatementComplete
import Lox.Proofs.Joining.Compiling

/-! Where the semicolons of a program stand: in which statement, behind which heads of statements, and
inside which braces. A site is told by the tokens before the semicolon and the tokens behind it, so it says
what is read when the semicolon is left out. -/
namespace Lox.Grammar

/-- What may stand behind a statement. -/
inductive Sequel : List Token → Prop where
  | ending : Sequel []
  | closing : t.kind ∈ [.rightBrace, .keyword .elseWord] → Sequel (t :: ts)
  | declaration : Declaration .nearest ts n m s → Stops [.keyword .elseWord] us → Sequel (ts ++ us)

/-- A statement with no statement in it, up to its semicolon. -/
inductive Clause : List Token → (first : Occurrence) → Prop where
  | expression : Phrase .assignment ts n m e → Clause ts n
  | print : keyword.kind = .keyword .printWord → Phrase .assignment ts n m e →
      Clause (keyword :: ts) n
  | ret : keyword.kind = .keyword .returnWord → OptionalPhrase ts n m value → Clause (keyword :: ts) n

/-- `IDENT ( "=" expression )?` -/
inductive Binding : List Token → (first : Occurrence) → Prop where
  | bare : name.kind = .identifier → Binding [name] n
  | initialized : name.kind = .identifier → equals.kind = .equal → Phrase .assignment ts n m e →
      Binding (name :: equals :: ts) n

/-- The initializer of a `for`, up to its semicolon. -/
inductive Beginning : List Token → (first : Occurrence) → Prop where
  | none : Beginning [] n
  | declared : keyword.kind = .keyword .varWord → Binding ts n → Beginning (keyword :: ts) n
  | expression : Phrase .assignment ts n m e → Beginning ts n

/-- A statement up to a semicolon of its own, and what follows that. -/
inductive Torn : List Token → (rest : List Token) → (first : Occurrence) → Prop where
  | clause : Clause ts n → Sequel rest → Torn ts rest n
  | initializer : keyword.kind = .keyword .forWord → opening.kind = .leftParen → Beginning is n →
      OptionalPhrase cs k l condition → semicolon.kind = .semicolon →
      OptionalPhrase us l m increment → closing.kind = .rightParen →
      Torn (keyword :: opening :: is) (cs ++ semicolon :: (us ++ closing :: rest)) n
  | condition : keyword.kind = .keyword .forWord → opening.kind = .leftParen →
      Initializer is n k initializer → OptionalPhrase cs k l condition →
      OptionalPhrase us l m increment → closing.kind = .rightParen →
      Torn (keyword :: opening :: (is ++ cs)) (us ++ closing :: rest) n

/-- A statement up to the statement that it ends in. -/
inductive Head : List Token → (first next : Occurrence) → Prop where
  | loop : keyword.kind = .keyword .whileWord → opening.kind = .leftParen →
      Phrase .assignment ts n m condition → closing.kind = .rightParen →
      Head (keyword :: opening :: (ts ++ [closing])) n m
  | forLoop : keyword.kind = .keyword .forWord → opening.kind = .leftParen →
      Initializer is n k initializer → OptionalPhrase cs k l condition →
      semicolon.kind = .semicolon → OptionalPhrase us l m increment →
      closing.kind = .rightParen →
      Head (keyword :: opening :: (is ++ (cs ++ semicolon :: (us ++ [closing])))) n m
  | branch : keyword.kind = .keyword .ifWord → opening.kind = .leftParen →
      Phrase .assignment ts n m condition → closing.kind = .rightParen →
      Head (keyword :: opening :: (ts ++ [closing])) n m
  | alternative : keyword.kind = .keyword .ifWord → opening.kind = .leftParen →
      Phrase .assignment ts n k condition → closing.kind = .rightParen →
      Statement .nearest false us k m consequent → alternate.kind = .keyword .elseWord →
      Head (keyword :: opening :: (ts ++ closing :: (us ++ [alternate]))) n m

/-- Heads of statements, each in the place where the one before it ends. -/
inductive Heads : List Token → (first next : Occurrence) → Prop where
  | nil : Heads [] n n
  | cons : Head ts n k → Heads us k m → Heads (ts ++ us) n m

/-- `IDENT "(" parameters? ")" "{"` -/
inductive Signature : List Token → Prop where
  | intro : name.kind = .identifier → opening.kind = .leftParen → Parameters ts list →
      list.length ≤ maxArity → closing.kind = .rightParen → bodyOpening.kind = .leftBrace →
      Signature (name :: opening :: (ts ++ [closing, bodyOpening]))

/-- Tokens from where a declaration may begin to where another one may begin, which can be inside braces
that are not closed. -/
inductive Place : List Token → (first next : Occurrence) → Prop where
  | here : Declarations .nearest ts n m list → Place ts n m
  | block : Declarations .nearest ts n k list → Heads us k l → opening.kind = .leftBrace →
      Place vs l m → Place (ts ++ (us ++ opening :: vs)) n m
  | function : Declarations .nearest ts n k list → keyword.kind = .keyword .funWord → Signature us →
      Place vs k m → Place (ts ++ keyword :: (us ++ vs)) n m
  | method : Declarations .nearest ts n k list → keyword.kind = .keyword .classWord →
      name.kind = .identifier → opening.kind = .leftBrace → Functions .nearest us k l others →
      Signature vs → Place ws l m →
      Place (ts ++ keyword :: name :: opening :: (us ++ (vs ++ ws))) n m

/-- A declaration up to a semicolon in it that stands in no braces of it, and what follows that. -/
inductive Breach : List Token → (rest : List Token) → (first : Occurrence) → Prop where
  | statement : Heads ts n k → Torn us rest k → Breach (ts ++ us) rest n
  | declared : keyword.kind = .keyword .varWord → Binding ts n → Sequel rest →
      Breach (keyword :: ts) rest n

/-- The tokens before a semicolon, from where a declaration may begin, and what follows it. -/
inductive Site : List Token → (rest : List Token) → (first : Occurrence) → Prop where
  | intro : Place ts n m → Breach us rest m → Site (ts ++ us) rest n

/-- The tokens before a semicolon, from where a statement may begin, and what follows it. -/
inductive Spot : List Token → (rest : List Token) → (first : Occurrence) → Prop where
  | own : Heads ts n k → Torn us rest k → Spot (ts ++ us) rest n
  | inner : Heads ts n k → opening.kind = .leftBrace → Site us rest k →
      Spot (ts ++ opening :: us) rest n

/-- The tokens before a semicolon in a function, from its name on. -/
inductive FunctionSite : List Token → (rest : List Token) → (first : Occurrence) → Prop where
  | intro : Signature ts → Site us rest n → FunctionSite (ts ++ us) rest n

/-- The tokens before a semicolon in a class, from its first method on. -/
inductive MethodSite : List Token → (rest : List Token) → (first : Occurrence) → Prop where
  | intro : Functions .nearest ts n k list → FunctionSite us rest k → MethodSite (ts ++ us) rest n

theorem Spot.behind (head : Head ts n k) : Spot us rest k → Spot (ts ++ us) rest n
  | .own heads torn => by
    rw [← List.append_assoc]
    exact .own (.cons head heads) torn
  | .inner heads isOpening site => by
    rw [← List.append_assoc]
    exact .inner (.cons head heads) isOpening site

theorem Breach.site (breach : Breach ts rest n) : Site ts rest n :=
  show Site ([] ++ ts) rest n from .intro (.here .nil) breach

theorem Torn.spot (torn : Torn ts rest n) : Spot ts rest n :=
  show Spot ([] ++ ts) rest n from .own .nil torn

theorem Spot.site : Spot ts rest n → Site ts rest n
  | .own heads torn => (Breach.statement heads torn).site
  | .inner heads isOpening (.intro place breach) => by
    have inside := Place.block .nil heads isOpening place
    simpa using Site.intro inside breach

/-- What stands before a place stands before it. -/
theorem Place.behind (before : Declarations .nearest ts n k list) :
    Place us k m → Place (ts ++ us) n m
  | .here declarations => .here (before.append declarations)
  | .block declarations heads isOpening place => by
    rw [← List.append_assoc]
    exact .block (before.append declarations) heads isOpening place
  | .function declarations isFun signature place => by
    rw [← List.append_assoc]
    exact .function (before.append declarations) isFun signature place
  | .method declarations isClass ident isOpening methods signature place => by
    rw [← List.append_assoc]
    exact .method (before.append declarations) isClass ident isOpening methods signature place

theorem Site.behind (before : Declarations .nearest ts n k list) :
    Site us rest k → Site (ts ++ us) rest n
  | .intro place breach => by
    rw [← List.append_assoc]
    exact .intro (place.behind before) breach

theorem FunctionSite.site (isFun : keyword.kind = .keyword .funWord) :
    FunctionSite ts rest n → Site (keyword :: ts) rest n
  | .intro signature (.intro place breach) => by
    have inside := Place.function .nil isFun signature place
    simpa using Site.intro inside breach

theorem MethodSite.site (isClass : keyword.kind = .keyword .classWord)
    (ident : name.kind = .identifier) (isOpening : opening.kind = .leftBrace) :
    MethodSite ts rest n → Site (keyword :: name :: opening :: ts) rest n
  | .intro methods (.intro signature (.intro place breach)) => by
    have inside := Place.method .nil isClass ident isOpening methods signature place
    simpa using Site.intro inside breach

theorem MethodSite.behind (first : Function .nearest ts n k f) :
    MethodSite us rest k → MethodSite (ts ++ us) rest n
  | .intro methods site => by
    rw [← List.append_assoc]
    exact .intro (.cons first methods) site

/-- It holds of the tokens before and behind each semicolon. -/
def EachSemicolon (P : List Token → List Token → Prop) (ts : List Token) : Prop :=
  ∀ before semicolon after, ts = before ++ semicolon :: after → semicolon.kind = .semicolon →
    P before after

namespace EachSemicolon

variable {P : List Token → List Token → Prop}

theorem plain (none : ∀ t ∈ ts, t.kind ≠ .semicolon) : EachSemicolon P ts := by
  rintro before semicolon after rfl isSemicolon
  exact absurd isSemicolon (none semicolon (by simp))

theorem append (first : EachSemicolon (fun before after => P before (after ++ us)) ts)
    (second : EachSemicolon (fun before after => P (ts ++ before) after) us) :
    EachSemicolon P (ts ++ us) := by
  intro before semicolon after split isSemicolon
  rcases List.append_eq_append_iff.1 split with ⟨vs, rfl, there⟩ | ⟨vs, there, rest⟩
  · exact second vs semicolon after there isSemicolon
  · cases vs with
    | nil =>
      have here : P (ts ++ []) after := second [] semicolon after rest.symm isSemicolon
      rwa [List.append_nil, there, List.append_nil] at here
    | cons t vs =>
      obtain ⟨rfl, rfl⟩ := List.cons.inj rest
      exact first before semicolon vs there isSemicolon

theorem behind (none : ∀ t ∈ ts, t.kind ≠ .semicolon)
    (later : EachSemicolon (fun before after => P (ts ++ before) after) us) :
    EachSemicolon P (ts ++ us) := append (plain none) later

theorem cons (other : t.kind ≠ .semicolon)
    (later : EachSemicolon (fun before after => P (t :: before) after) ts) :
    EachSemicolon P (t :: ts) :=
  show EachSemicolon P ([t] ++ ts) from behind (by simpa using other) later

/-- The first token may be one, and others may follow it. -/
theorem first (here : P [] ts) (later : EachSemicolon (fun before after => P (t :: before) after) ts) :
    EachSemicolon P (t :: ts) := by
  rintro (_ | ⟨u, before⟩) semicolon after split isSemicolon
  · cases split
    exact here
  · cases split
    exact later before semicolon after rfl isSemicolon

theorem before (first : EachSemicolon (fun before after => P before (after ++ us)) ts)
    (none : ∀ t ∈ us, t.kind ≠ .semicolon) : EachSemicolon P (ts ++ us) := append first (plain none)

theorem imp {Q : List Token → List Token → Prop} (each : EachSemicolon P ts)
    (weaker : ∀ before after, P before after → Q before after) : EachSemicolon Q ts :=
  fun before semicolon after split isSemicolon =>
    weaker before after (each before semicolon after split isSemicolon)

end EachSemicolon

mutual

theorem Phrase.whole : Phrase r ts n m e → ∀ t ∈ ts, t.kind ≠ .semicolon
  | .assign ident isEqual value => by simpa [ident, isEqual] using value.whole
  | .set object isDot ident isEqual value => by
    simpa [isDot, ident, isEqual, or_imp, forall_and] using ⟨object.whole, value.whole⟩
  | .operation inner => inner.whole
  | .binary operand operations => List.forall_mem_append.2 ⟨operand.whole, operations.whole⟩
  | .unary among operand => by
    refine List.forall_mem_cons.2 ⟨fun same => ?_, operand.whole⟩
    simp [same] at among
  | .plain inner => inner.whole
  | .call callee suffixes => List.forall_mem_append.2 ⟨callee.whole, suffixes.whole⟩
  | .constant among => by
    refine List.forall_mem_singleton.2 fun same => ?_
    simp [same] at among
  | .literal among => by
    refine List.forall_mem_singleton.2 fun same => ?_
    simp [same] at among
  | .this kind | .read kind => by simp [kind]
  | .group isOpening inner isClosing => by
    simpa [isOpening, isClosing, or_imp, forall_and] using inner.whole

theorem Operations.whole : Operations p left ts n m e → ∀ t ∈ ts, t.kind ≠ .semicolon
  | .done => by simp
  | .more among operand operations => by
    refine List.forall_mem_cons.2 ⟨fun same => ?_,
      List.forall_mem_append.2 ⟨operand.whole, operations.whole⟩⟩
    rw [same] at among
    cases p <;> simp [Precedence.operators] at among

theorem Suffixes.whole : Suffixes callee ts n m e → ∀ t ∈ ts, t.kind ≠ .semicolon
  | .done => by simp
  | .call isOpening list isClosing _ later => by
    simpa [isOpening, isClosing, or_imp, forall_and] using ⟨list.whole, later.whole⟩
  | .get isDot ident later => by simpa [isDot, ident] using later.whole

theorem Arguments.whole : Arguments ts n m list → ∀ t ∈ ts, t.kind ≠ .semicolon
  | .none => by simp
  | .some list => list.whole

theorem ArgumentList.whole : ArgumentList ts n m list → ∀ t ∈ ts, t.kind ≠ .semicolon
  | .one e => e.whole
  | .more e isComma list => by
    simpa [isComma, or_imp, forall_and] using ⟨e.whole, list.whole⟩

end

theorem OptionalPhrase.whole : OptionalPhrase ts n m r → ∀ t ∈ ts, t.kind ≠ .semicolon
  | .none => by simp
  | .some phrase => phrase.whole

theorem ParameterList.whole : ParameterList ts list → ∀ t ∈ ts, t.kind ≠ .semicolon
  | .one ident => by simp [ident]
  | .more ident isComma later => by simpa [ident, isComma] using later.whole

theorem Parameters.whole : Parameters ts list → ∀ t ∈ ts, t.kind ≠ .semicolon
  | .none => by simp
  | .some list => list.whole

/-- The only semicolon of a binding is its last token. -/
theorem Variable.each {P : List Token → List Token → Prop}
    (ends : ∀ ⦃ts⦄, Binding ts n → P ts []) : Variable ts n m s → EachSemicolon P ts
  | .bare ident _ =>
    .cons (by simp [ident]) (.first (ends (.bare ident)) (.plain (by simp)))
  | .initialized ident isEqual phrase _ => by
    refine .cons (by simp [ident]) (.cons (by simp [isEqual]) (.behind phrase.whole ?_))
    exact .first (by simpa using ends (.initialized ident isEqual phrase)) (.plain (by simp))

/-- The only semicolon of an initializer is its last token. -/
theorem Initializer.each {P : List Token → List Token → Prop}
    (ends : ∀ ⦃ts⦄, Beginning ts n → P ts []) : Initializer ts n m r → EachSemicolon P ts
  | .none _ => .first (ends .none) (.plain (by simp))
  | .variable isVar read =>
    .cons (by simp [isVar]) (read.each fun _ binding => ends (.declared isVar binding))
  | .expression phrase _ =>
    .behind phrase.whole (.first (by simpa using ends (.expression phrase)) (.plain (by simp)))

theorem Declarations.sequel (later : Declarations .nearest ts n m list) (follows : Sequel rest)
    (noElse : Stops [.keyword .elseWord] rest) : Sequel (ts ++ rest) := by
  cases later with
  | nil => exact follows
  | cons first others =>
    rw [List.append_assoc]
    exact .declaration first (others.follow noElse)

/-- What may stand behind declarations. -/
def Over (ts : List Token) : Prop := ∀ t ∈ ts.head?, t.kind = .rightBrace

theorem Over.sequel (past : Over ts) : Sequel ts := by
  cases ts with
  | nil => exact .ending
  | cons t ts => exact .closing (by simp [past t rfl])

theorem Over.noElse (past : Over ts) : Stops [.keyword .elseWord] ts :=
  fun t next => by simp [past t next]

theorem over_cons (isClosing : closing.kind = .rightBrace) (ts : List Token) : Over (closing :: ts) := by
  simp [Over, isClosing]

mutual

theorem Statement.spots : Statement .nearest isOpen ts n m s →
    EachSemicolon (fun before after => ∀ us, Sequel us → Spot before (after ++ us) n) ts
  | .expression phrase _ =>
    .behind phrase.whole (.first (fun us sequel =>
      by simpa using (Torn.clause (.expression phrase) sequel).spot) (.plain (by simp)))
  | .print isPrint phrase _ =>
    .cons (by simp [isPrint]) (.behind phrase.whole (.first (fun us sequel =>
      by simpa using (Torn.clause (.print isPrint phrase) sequel).spot) (.plain (by simp))))
  | .ret isReturn value _ =>
    .cons (by simp [isReturn]) (.behind value.whole (.first (fun us sequel =>
      by simpa using (Torn.clause (.ret isReturn value) sequel).spot) (.plain (by simp))))
  | .block isOpening body isClosing => by
    refine .cons (by simp [isOpening]) (.before (body.sites.imp fun before after site us sequel => ?_) ?_)
    · exact .inner .nil isOpening (by simpa using site _ (over_cons isClosing us))
    · simp [isClosing]
  | .loop isWhile isOpening condition isClosing body => by
    refine .cons (by simp [isWhile]) (.cons (by simp [isOpening]) (.behind condition.whole ?_))
    refine .cons (by simp [isClosing]) (body.spots.imp fun before after spot us sequel => ?_)
    simpa using (spot us sequel).behind (.loop isWhile isOpening condition isClosing)
  | .forLoop isFor isOpening initializer condition isSemicolon increment isClosing body => by
    refine .cons (by simp [isFor]) (.cons (by simp [isOpening]) (.append ?_ ?_))
    · refine initializer.each fun ts beginning us sequel => ?_
      simpa using
        (Torn.initializer isFor isOpening beginning condition isSemicolon increment isClosing).spot
    refine .behind condition.whole (.first (fun us sequel => ?_) ?_)
    · simpa using (Torn.condition isFor isOpening initializer condition increment isClosing).spot
    refine .behind increment.whole (.cons (by simp [isClosing]) ?_)
    refine body.spots.imp fun before after spot us sequel => ?_
    simpa using (spot us sequel).behind
      (.forLoop isFor isOpening initializer condition isSemicolon increment isClosing)
  | .branch isIf isOpening condition isClosing consequent => by
    refine .cons (by simp [isIf]) (.cons (by simp [isOpening]) (.behind condition.whole ?_))
    refine .cons (by simp [isClosing]) (consequent.spots.imp fun before after spot us sequel => ?_)
    simpa using (spot us sequel).behind (.branch isIf isOpening condition isClosing)
  | .branchElse isIf isOpening condition isClosing consequent closed
      isElse alternative => by
    have whole := closed rfl ▸ consequent
    refine .cons (by simp [isIf]) (.cons (by simp [isOpening]) (.behind condition.whole ?_))
    refine .cons (by simp [isClosing]) (.append ?_ (.cons (by simp [isElse]) ?_))
    · refine consequent.spots.imp fun before after spot us sequel => ?_
      simpa using (spot _ (.closing (by simp [isElse]))).behind (.branch isIf isOpening condition isClosing)
    · refine alternative.spots.imp fun before after spot us sequel => ?_
      simpa using (spot us sequel).behind
        (.alternative isIf isOpening condition isClosing whole isElse)

theorem Declaration.sites : Declaration .nearest ts n m s →
    EachSemicolon (fun before after => ∀ us, Sequel us → Site before (after ++ us) n) ts
  | .classDecl isClass ident isOpening list isClosing => by
    refine .cons (by simp [isClass]) (.cons (by simp [ident]) (.cons (by simp [isOpening]) ?_))
    refine .before (list.sites.imp fun before after site us sequel => ?_) (by simp [isClosing])
    simpa using (site (_ :: us)).site isClass ident isOpening
  | .function isFun read =>
    .cons (by simp [isFun]) (read.sites.imp fun before after site us sequel => (site us).site isFun)
  | .variable isVar read =>
    .cons (by simp [isVar]) (read.each fun ts binding us sequel =>
      (Breach.declared isVar binding sequel).site)
  | .statement inner => inner.spots.imp fun before after spot us sequel => (spot us sequel).site

theorem Declarations.sites : Declarations .nearest ts n m list →
    EachSemicolon (fun before after => ∀ us, Over us → Site before (after ++ us) n) ts
  | .nil => .plain (by simp)
  | .cons first later => by
    have before := Declarations.cons first .nil
    rw [List.append_nil] at before
    refine .append (first.sites.imp fun before after site us past => ?_)
      (later.sites.imp fun _ after site us past => (site us past).behind before)
    rw [List.append_assoc]
    exact site _ (later.sequel past.sequel past.noElse)

theorem Function.sites : Function .nearest ts n m f →
    EachSemicolon (fun before after => ∀ us, FunctionSite before (after ++ us) n) ts
  | .intro ident isOpening list few isClosing bodyOpens body bodyCloses => by
    refine .cons (by simp [ident]) (.cons (by simp [isOpening]) (.behind list.whole ?_))
    refine .cons (by simp [isClosing]) (.cons (by simp [bodyOpens]) ?_)
    refine .before (body.sites.imp fun before after site us => ?_) (by simp [bodyCloses])
    have site := site _ (over_cons bodyCloses us)
    simpa using FunctionSite.intro (.intro ident isOpening list few isClosing bodyOpens) site

theorem Functions.sites : Functions .nearest ts n m list →
    EachSemicolon (fun before after => ∀ us, MethodSite before (after ++ us) n) ts
  | .nil => .plain (by simp)
  | .cons first later => by
    refine .append (first.sites.imp fun before after site us => ?_)
      (later.sites.imp fun before after site us => ?_)
    · rw [List.append_assoc]
      exact .intro .nil (site _)
    · exact (site us).behind first

end

end Lox.Grammar
