import Lox.Proofs.Omission.Outcome
import Lox.Proofs.Omission.Repeating

/-! Two readers that are at one place of one text and have different tokens before them. If they come to
the same there, but for what was reported, then they come to the same at the end of the file. -/
namespace Lox.Grammar

theorem within_statement (bound : Nat) :
    (within (bound + 1)).statement = statementRule (within bound) bound := by
  show (rules bound).statement = _
  rw [rules_eq_around]
  rfl

theorem within_declaration (bound : Nat) :
    (within (bound + 1)).declaration = recovering (declarationRule (within bound) bound) := by
  show (rules bound).declaration = _
  rw [rules_eq_around]
  rfl

theorem Leads.andThen {x y : Rule α} (leads : Leads x y ts rest n m) (f : α → Rule β) :
    Leads (x >>= f) (y >>= f) ts rest n m := by
  intro last errors
  rw [bind_apply, bind_apply, leads]

/-- What is left to do behind the statement that a head stands before: nothing but to look for an `else`. -/
structure Tail (tail : Stmt → Rule Stmt) : Prop where
  steady : ∀ E F s s', Accord E F Unseen (tail s) (tail s')
  quiet : ∀ {s us n}, Stops [.keyword .elseWord] us → Passes (tail s) us us n []

namespace Tail

theorem pure (g : Stmt → Stmt) : Tail fun s => pure (g s) where
  steady _ _ _ _ := .pure trivial
  quiet _ := .pure

theorem bind {f g : Stmt → Rule Stmt} (inner : Tail f) (outer : Tail g) : Tail fun s => f s >>= g where
  steady E F s s' := .bind (inner.steady E F s s') fun _ _ _ => outer.steady E F _ _
  quiet stops := (inner.quiet stops).bind fun _ _ => outer.quiet stops

end Tail

/-- Perhaps an alternative, and the branch. -/
def branchTail (condition : Expr) (statement : Rule Stmt) (consequent : Stmt) : Rule Stmt := do
  match ← accept? [.keyword .elseWord] with
  | none => return .branch condition consequent none
  | some _ => return .branch condition consequent (some (← statement))

theorem tail_branch (condition : Expr) {statement : Rule Stmt} (steady : ∀ E F, Steady E F statement) :
    Tail (branchTail condition statement) where
  steady E F s s' := by
    refine .accept? fun o => ?_
    cases o with
    | none => exact .pure trivial
    | some _ => exact .bind (steady E F) fun _ _ _ => .pure trivial
  quiet stops := .of_reads (.absent stops .refl)

theorem Head.leads (head : Head ts n m) (fits : ts.length ≤ b + 1) : ∃ tail, Tail tail ∧
    ∀ rest, Leads (statementRule (within (b + 1)) (b + 1)) (statementRule (within b) b >>= tail)
      ts rest n m := by
  rw [← within_statement b]
  cases head with
  | @loop _ _ _ condition _ _ _ isWhile isOpening read isClosing =>
    simp only [List.length_cons, List.length_append] at fits
    refine ⟨_, .pure (.loop condition), fun rest => (leads_while isWhile).trans ?_⟩
    refine .consume isOpening (.bind (reads_expression read (by omega) ?_) ?_)
    · exact stops_cons.2 (by rw [isClosing]; decide)
    · exact .consume isClosing .refl
  | @forLoop _ _ _ begins _ _ checks _ _ steps _ _ _ _ isFor isOpening initializer condition isSemicolon
      increment isClosing =>
    simp only [List.length_cons, List.length_append] at fits
    refine ⟨_, .pure (lowered begins checks steps), fun rest => (leads_for isFor).trans ?_⟩
    refine .consume isOpening (.bind (initializer.reads (by omega)) ?_)
    refine .bind (condition.reads (by omega) isSemicolon (by decide)) (.consume isSemicolon ?_)
    refine .bind (increment.reads (by omega) isClosing (by decide)) (.consume isClosing .refl)
  | @branch _ _ _ condition _ _ _ isIf isOpening read isClosing =>
    simp only [List.length_cons, List.length_append] at fits
    refine ⟨branchTail condition (within (b + 1)).statement, tail_branch _ fun _ _ => (steady_within _).1,
      fun rest => (leads_if isIf).trans ?_⟩
    refine .consume isOpening (.bind (reads_expression read (by omega) ?_) ?_)
    · exact stops_cons.2 (by rw [isClosing]; decide)
    · exact .consume isClosing .refl
  | @alternative _ _ _ check _ _ first _ _ _ _ isIf isOpening condition isClosing consequent isElse =>
    simp only [List.length_cons, List.length_append] at fits
    refine ⟨_, .pure fun s => .branch check first (some s), fun rest => (leads_if isIf).trans ?_⟩
    refine .consume isOpening (.bind (reads_expression condition (by omega) ?_) (.consume isClosing
      (.bind (reads_within_statement (fun b fits => consequent.reads fits (by simp)) (by omega))
        (.present (by simp [isElse]) .refl))))
    exact stops_cons.2 (by rw [isClosing]; decide)

theorem Head.opens (head : Head ts n m) :
    Opens [.keyword .whileWord, .keyword .forWord, .keyword .ifWord] ts := by
  cases head with
  | loop kind | forLoop kind | branch kind | alternative kind => exact ⟨_, _, rfl, by simp [kind]⟩

theorem Heads.leads (heads : Heads ts n m) (fits : ts.length ≤ b) :
    ∃ d tail, b ≤ d + ts.length ∧ Tail tail ∧
      ∀ rest, Leads (statementRule (within b) b) (statementRule (within d) d >>= tail) ts rest n m := by
  induction heads generalizing b with
  | nil => exact ⟨b, _, Nat.le_refl b, .pure id, fun rest last errors => by simp⟩
  | cons head heads ih =>
    have positive := head.opens.length_pos
    rw [List.length_append] at fits
    obtain ⟨b, rfl⟩ : ∃ d, b = d + 1 := ⟨b - 1, by omega⟩
    obtain ⟨outer, tailed, first⟩ := head.leads (b := b) (by omega)
    obtain ⟨d, inner, left, tailed', later⟩ := ih (b := b) (by omega)
    refine ⟨d, _, by rw [List.length_append]; omega, tailed'.bind tailed, fun rest => ?_⟩
    have whole := (first _).trans ((later rest).andThen outer)
    simpa only [bind_assoc] using whole

/-- The two ways in which declarations are repeated: up to the end of the file, and up to a brace. -/
inductive Repeats : (Cursor → Bool) → Prop where
  | file : Repeats fun _ => true
  | block : Repeats fun c => !c.sees .rightBrace

namespace Repeats

variable {more : Cursor → Bool} {E F : List Diagnostic}

theorem continues : Repeats more → Continues more
  | .file => fun _ _ => rfl
  | .block => continues_block

theorem same (beside : Beside E F c c') : Repeats more → more c = more c'
  | .file => rfl
  | .block => by simp only [beside.sees_eq]

theorem agrees : Repeats more → ∃ closing : Option TokenKind, ∀ c, more c = !closing.any c.sees
  | .file => ⟨none, fun _ => rfl⟩
  | .block => ⟨some .rightBrace, fun _ => rfl⟩

end Repeats

/-- The kinds of tokens that a declaration begins with. -/
def openingKinds : List TokenKind := declarationKinds ++ statementOpening

theorem leads_step {declaration : Rule (Option Stmt)} (goes : Continues more)
    (opens : Opens openingKinds ts) : Leads (declarations declaration more (b + 1)) (do
      let first ← declaration
      return first.toList ++ (← declarations declaration more b)) [] ts n n := by
  rw [declarations.eq_def]
  refine .atEnd opens.isEmpty (.get (fun last errors => ?_) .refl)
  rw [goes _ (by exact opens)]
  rfl

theorem Declarations.leads (goes : Continues more) : Declarations .nearest ts n m list →
    ts.length < d → Stops [.keyword .elseWord] rest →
    Leads (declarations (within d).declaration more (b + list.length))
      ((list ++ ·) <$> declarations (within d).declaration more b) ts rest n m
  | .nil, _, _ => fun last errors => by simp
  | .cons (s := s) first later, under, follow => by
    rw [List.length_append] at under
    have one : Reads (within d).declaration _ _ _ _ (some s) :=
      reads_within_declaration (fun b fits => first.reads fits (later.follow follow)) (by omega)
    have others := (later.leads (b := b) (d := d) goes (by omega) follow).andThen fun list => pure ([s] ++ list)
    have joined (list : List Stmt) : (((list ++ ·) <$> declarations (within d).declaration more b) >>= fun list =>
        pure ([s] ++ list)) = ((s :: list) ++ ·) <$> declarations (within d).declaration more b := by
      simp
    rw [joined] at others
    exact (leads_step goes first.opens.append.append).trans (.bind one others)

theorem Declarations.length_le : Declarations .nearest ts n m list → ts.length ≤ b → list.length ≤ b
  | .nil, _ => Nat.zero_le b
  | .cons first later, fits => by
    have positive := first.opens.length_pos
    have fewer := later.length_le (Nat.le_refl _)
    simp only [List.length_cons, List.length_append] at fits ⊢
    omega

section

variable (E F : List Diagnostic) (last : Token)

/-- From both texts the rule comes to the same, but for what was reported. -/
def Rejoins (x : Rule α) (us vs : List Token) (n : Occurrence) : Prop :=
  Akin E F Unseen (x ⟨us, last, [], n⟩) (x ⟨vs, last, [], n⟩)

end

variable {E F : List Diagnostic} {last : Token}

namespace Rejoins

variable {x y : Rule α}

theorem leads (leads : Leads x y ts us n m) (leads' : Leads x y ts vs n m)
    (inside : Rejoins E F last y us vs m) : Rejoins E F last x (ts ++ us) (ts ++ vs) n := by
  rw [Rejoins, leads, leads']
  exact inside

theorem bind {f : α → Rule β} (inside : Rejoins E F last x us vs n)
    (steady : ∀ a a', Accord E F Unseen (f a) (f a')) : Rejoins E F last (x >>= f) us vs n :=
  Akin.bind inside fun a a' _ => steady a a'

theorem map {g : α → β} (inside : Rejoins E F last x us vs n) : Rejoins E F last (g <$> x) us vs n := by
  rw [map_eq_pure_bind]
  exact inside.bind fun _ _ => .pure trivial

theorem recovering (inside : Rejoins E F last x us vs n) :
    Rejoins E F last (recovering x) us vs n := Akin.recovering inside

theorem block {d : Nat} (inside : Rejoins E F last
      (declarations (within d).declaration (fun c => !c.sees .rightBrace) b) us vs n) :
    Rejoins E F last (block (within d).declaration b) us vs n :=
  inside.bind fun _ _ => .consume fun _ => .pure trivial

/-- Behind a declaration the repetition goes on. -/
theorem declarations {d : Nat} (repeats : Repeats more) (opens : Opens openingKinds us)
    (opens' : Opens openingKinds vs) (inside : Rejoins E F last (within d).declaration us vs n) :
    Rejoins E F last (declarations (within d).declaration more (b + 1)) us vs n := by
  refine Rejoins.leads (leads_step repeats.continues opens) (leads_step repeats.continues opens')
    (inside.bind ?_)
  exact fun _ _ => .bind (steady_declarations (steady_within d).2 (fun _ _ beside => repeats.same beside) b)
    fun _ _ _ => .pure trivial

end Rejoins

theorem Signature.leads (signature : Signature ts) (declaration : Rule (Option Stmt)) (kind : FunctionKind)
    (fits : ts.length ≤ b) : ∃ g : List Stmt → FunctionDecl, ∀ rest n,
    Leads (function declaration b kind) (do return g (← block declaration b)) ts rest n n := by
  cases signature with
  | @intro _ list name _ _ _ ident isOpening parameters few isClosing bodyOpens =>
    simp only [List.length_cons, List.length_append] at fits
    refine ⟨fun body => ⟨name, list, body⟩, fun rest n => .consume ident (.consume isOpening ?_)⟩
    cases parameters with
    | none =>
      rw [List.nil_append]
      exact .seen rfl isClosing (.consume isClosing (.consume bodyOpens .refl))
    | some parameters =>
      refine .unseen (parameters.opens.append.append.stops (by decide)) (.bind ?_
        (.consume isClosing (.consume bodyOpens .refl)))
      exact parameters.reads (by omega) (by simpa using few) (by simp [isClosing])

theorem Signature.opens (signature : Signature ts) : Opens [.identifier] ts := by
  cases signature with
  | intro ident => exact ⟨_, _, rfl, by simp [ident]⟩

theorem leads_method {declaration : Rule (Option Stmt)} (opens : Opens [.identifier] ts) :
    Leads (methods declaration (b + 1)) (do
      let first ← function declaration b .method
      return first :: (← methods declaration b)) [] ts n n := by
  rw [methods.eq_def]
  exact .atEnd opens.isEmpty (.unseen (opens.stops (by decide)) .refl)

/-- The methods before another one. -/
theorem Functions.leads : Functions .nearest ts n m list → ts.length < b → b ≤ d →
    ∃ (k : Nat) (g : List FunctionDecl → List FunctionDecl), b ≤ k + ts.length ∧
      ∀ rest, Opens [.identifier] rest → Leads (methods (within d).declaration b) (do
        return g (← methods (within d).declaration k)) ts rest n m
  | .nil, _, _ => ⟨b, id, Nat.le_refl b, fun _ _ last errors => by simp⟩
  | .cons (f := f) first later, fits, under => by
    rw [List.length_append] at fits
    have positive := first.opens.length_pos
    obtain ⟨b, rfl⟩ : ∃ c, b = c + 1 := ⟨b - 1, by omega⟩
    obtain ⟨k, g, left, others⟩ := later.leads (b := b) (d := d) (by omega) (by omega)
    refine ⟨k, fun list => f :: g list, by rw [List.length_append]; omega, fun rest opens => ?_⟩
    have one {us} : Reads (Grammar.function (within d).declaration b .method) _ us _ _ f :=
      first.reads (by omega) (by omega)
    have more := (others rest opens).andThen fun list => Pure.pure (f :: list)
    simp only [bind_assoc, pure_bind] at more
    exact (leads_method first.opens.append.append).trans (.bind one more)

theorem Opens.mono (opens : Opens kinds ts) (more : ∀ kind ∈ kinds, kind ∈ others) : Opens others ts := by
  obtain ⟨t, us, rfl, member⟩ := opens
  exact ⟨t, us, rfl, more _ member⟩

theorem Heads.opens (heads : Heads ts n m) (isOpening : opening.kind = .leftBrace) (us : List Token) :
    Opens openingKinds (ts ++ opening :: us) := by
  cases heads with
  | nil => exact ⟨opening, us, rfl, by rw [isOpening]; decide⟩
  | cons head _ => exact (head.opens.mono (by decide)).append.append

theorem Heads.leads_block (heads : Heads ts n m) (isOpening : opening.kind = .leftBrace)
    (fits : ts.length ≤ b) : ∃ d tail, b ≤ d + ts.length ∧ Tail tail ∧
    ∀ rest, Leads (declarationRule (within b) b) (.block <$> block (within d).declaration d >>= tail)
      (ts ++ [opening]) rest n m := by
  obtain ⟨d, tail, left, tailed, leads⟩ := heads.leads fits
  refine ⟨d, tail, left, tailed, fun rest => ?_⟩
  have apart : Stops declarationKinds (ts ++ [opening] ++ rest) := by
    cases heads with
    | nil => simp [isOpening, declarationKinds]
    | cons head _ => exact head.opens.append.append.append.stops (by decide)
  exact .absent apart ((leads _).trans ((Grammar.leads_block isOpening).andThen tail))

theorem leads_function {inner : Inner} (isFun : keyword.kind = .keyword .funWord) :
    Leads (declarationRule inner b) (.function <$> function inner.declaration b .function) [keyword] rest
      n n := by
  refine .present (by simp [isFun]) ?_
  simp only [isFun]
  exact .refl

/-- What follows the opening brace of a class. -/
def classRest (name : Token) (declaration : Rule (Option Stmt)) (bound : Nat) : Rule Stmt := do
  let list ← methods declaration bound
  let _ ← consume .rightBrace .classClosing
  return .classDecl name list

theorem leads_class {inner : Inner} (isClass : keyword.kind = .keyword .classWord)
    (ident : name.kind = .identifier) (isOpening : opening.kind = .leftBrace) :
    Leads (declarationRule inner b) (classRest name inner.declaration b) [keyword, name, opening] rest
      n n := by
  refine .present (by simp [isClass]) ?_
  simp only [isClass]
  exact .consume ident (.consume isOpening .refl)

theorem Rejoins.behind {d : Nat} (before : Declarations .nearest ts n k list) (repeats : Repeats more)
    (fits : ts.length ≤ b) (under : ts.length < d) (opens : Opens openingKinds us)
    (opens' : Opens openingKinds vs) (inside : ∀ {b'}, b ≤ b' + ts.length →
      Rejoins E F last (Grammar.declarations (within d).declaration more b') us vs k) :
    Rejoins E F last (Grammar.declarations (within d).declaration more b) (ts ++ us) (ts ++ vs) n := by
  have fewer := before.length_le (Nat.le_refl _)
  obtain ⟨b, rfl⟩ : ∃ b', b = b' + list.length := ⟨b - list.length, by omega⟩
  exact .leads (before.leads repeats.continues under (opens.stops (by decide)))
    (before.leads repeats.continues under (opens'.stops (by decide))) (inside (by omega)).map

section

variable {us vs : List Token} {size : Nat} (opens : Opens openingKinds us) (opens' : Opens openingKinds vs)
include opens opens'

/-- What is the same inside, from a place on, is the same outside. -/
theorem Place.rejoins (place : Place ts n m) (inside : ∀ {b d more}, Repeats more → size ≤ b → size < d →
      Rejoins E F last (declarations (within d).declaration more b) us vs m) :
    ∀ {b d more}, Repeats more → ts.length + size ≤ b → ts.length + size < d →
      Rejoins E F last (declarations (within d).declaration more b) (ts ++ us) (ts ++ vs) n := by
  induction place with
  | here before =>
    intro b d more repeats fits under
    exact .behind before repeats (by omega) (by omega) opens opens' fun enough =>
      inside repeats (by omega) (by omega)
  | @block ts _ _ _ heads _ rest _ opening before headed isOpening place ih =>
    intro b d more repeats fits under
    simp only [List.length_append, List.length_cons] at fits under
    rw [List.append_assoc ts, List.append_assoc ts]
    have begins (us : List Token) : Opens openingKinds (heads ++ opening :: rest ++ us) :=
      (headed.opens isOpening rest).append
    refine .behind (b := b) (d := d) before repeats (by omega) (by omega) (begins us) (begins vs)
      fun {b'} enough => ?_
    obtain ⟨b', rfl⟩ : ∃ c, b' = c + 1 := ⟨b' - 1, by omega⟩
    obtain ⟨d, rfl⟩ : ∃ c, d = c + 1 := ⟨d - 1, by omega⟩
    refine .declarations repeats (begins us) (begins vs) ?_
    rw [within_declaration]
    obtain ⟨e, tail, left, tailed, leads⟩ := headed.leads_block isOpening (b := d) (by omega)
    have body := Rejoins.block (ih inside .block (b := e) (d := e) (by omega) (by omega))
    have whole := Rejoins.leads (leads _) (leads _) (body.map.bind fun s s' => tailed.steady E F s s')
    simpa using whole.recovering
  | @function ts _ _ _ head rest _ keyword before isFun signature place ih =>
    intro b d more repeats fits under
    simp only [List.length_append, List.length_cons] at fits under
    rw [List.append_assoc ts, List.append_assoc ts]
    have begins (us : List Token) : Opens openingKinds (keyword :: (head ++ rest) ++ us) :=
      ⟨keyword, _, rfl, by rw [isFun]; decide⟩
    refine .behind (b := b) (d := d) before repeats (by omega) (by omega) (begins us) (begins vs)
      fun {b'} enough => ?_
    obtain ⟨b', rfl⟩ : ∃ c, b' = c + 1 := ⟨b' - 1, by omega⟩
    obtain ⟨d, rfl⟩ : ∃ c, d = c + 1 := ⟨d - 1, by omega⟩
    refine .declarations repeats (begins us) (begins vs) ?_
    rw [within_declaration]
    obtain ⟨g, leads⟩ := signature.leads (within d).declaration .function (b := d) (by omega)
    have body := Rejoins.block (ih inside .block (b := d) (d := d) (by omega) (by omega))
    have named := Rejoins.leads (leads _ _) (leads _ _) (body.bind fun _ _ => .pure trivial)
    have whole := Rejoins.leads (leads_function isFun) (leads_function isFun) named.map
    simpa using whole.recovering
  | @method ts _ _ _ others _ _ head rest _ keyword name opening before isClass ident isOpening list signature
      place ih =>
    intro b d more repeats fits under
    simp only [List.length_append, List.length_cons] at fits under
    rw [List.append_assoc ts, List.append_assoc ts]
    have begins (us : List Token) :
        Opens openingKinds (keyword :: name :: opening :: (others ++ (head ++ rest)) ++ us) :=
      ⟨keyword, _, rfl, by rw [isClass]; decide⟩
    refine .behind (b := b) (d := d) before repeats (by omega) (by omega) (begins us) (begins vs)
      fun {b'} enough => ?_
    obtain ⟨b', rfl⟩ : ∃ c, b' = c + 1 := ⟨b' - 1, by omega⟩
    obtain ⟨d, rfl⟩ : ∃ c, d = c + 1 := ⟨d - 1, by omega⟩
    refine .declarations repeats (begins us) (begins vs) ?_
    rw [within_declaration]
    obtain ⟨k, g, left, further⟩ := list.leads (b := d) (d := d) (by omega) (by omega)
    obtain ⟨k, rfl⟩ : ∃ c, k = c + 1 := ⟨k - 1, by omega⟩
    obtain ⟨h, leads⟩ := signature.leads (within d).declaration .method (b := k) (by omega)
    have body := Rejoins.block (ih inside .block (b := k) (d := d) (by omega) (by omega))
    have named := Rejoins.leads (leads _ _) (leads _ _) (body.bind fun _ _ => .pure trivial)
    have opened (us : List Token) : Opens [.identifier] (head ++ us) := signature.opens.append
    have first := Rejoins.leads (leads_method (opened _)) (leads_method (opened _))
      (named.bind fun _ _ => .bind (steady_methods (steady_within d).2 k) fun _ _ _ => .pure trivial)
    have methods := Rejoins.leads (further _ (opened _)) (further _ (opened _))
      (first.bind fun _ _ => .pure trivial)
    have rest : Rejoins E F last (classRest name (within d).declaration d) _ _ _ :=
      methods.bind fun _ _ => .consume fun _ => .pure trivial
    have whole := Rejoins.leads (leads_class isClass ident isOpening) (leads_class isClass ident isOpening)
      rest
    simpa using whole.recovering

end

end Lox.Grammar
