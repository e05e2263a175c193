import Lox.Proofs.Omission.Rejoining

/-! The errors of a program without one of its semicolons. Where the next declaration cannot be read with
the one before it, one error says so, and the others are those of a program in which nothing stands between
the beginning of the declaration and the place where reading goes on. -/
namespace Lox

namespace Grammar

variable {ts us rest : List Token} {semicolon : Token}

theorem Head.statement (head : Head ts n k) (inner : Statement .nearest isOpen us k m s) :
    ∃ isOpen' s', Statement .nearest isOpen' (ts ++ us) n m s' := by
  cases head with
  | loop isWhile isOpening condition isClosing =>
    exact ⟨_, _, by simpa using Statement.loop isWhile isOpening condition isClosing inner⟩
  | forLoop isFor isOpening initializer condition isSemicolon increment isClosing =>
    have whole := Statement.forLoop isFor isOpening initializer condition isSemicolon increment isClosing inner
    exact ⟨_, _, by simpa using whole⟩
  | branch isIf isOpening condition isClosing =>
    exact ⟨_, _, by simpa using Statement.branch isIf isOpening condition isClosing inner⟩
  | alternative isIf isOpening condition isClosing consequent isElse =>
    have closed : Attachment.nearest = .nearest → false = false := fun _ => rfl
    have whole := Statement.branchElse isIf isOpening condition isClosing consequent closed isElse inner
    exact ⟨_, _, by simpa using whole⟩

theorem Heads.statement (heads : Heads ts n k) (inner : Statement .nearest isOpen us k m s) :
    ∃ isOpen' s', Statement .nearest isOpen' (ts ++ us) n m s' := by
  induction heads with
  | nil => exact ⟨_, _, inner⟩
  | cons head _ ih =>
    obtain ⟨_, _, later⟩ := ih inner
    rw [List.append_assoc]
    exact head.statement later

theorem Clause.statement (clause : Clause ts n) (isSemicolon : semicolon.kind = .semicolon) :
    ∃ m s, Statement .nearest false (ts ++ [semicolon]) n m s := by
  cases clause with
  | expression phrase => exact ⟨_, _, .expression phrase isSemicolon⟩
  | print isPrint phrase => exact ⟨_, _, .print isPrint phrase isSemicolon⟩
  | ret isReturn value => exact ⟨_, _, .ret isReturn value isSemicolon⟩

theorem Binding.variable (binding : Binding ts n) (isSemicolon : semicolon.kind = .semicolon) :
    ∃ m s, Variable (ts ++ [semicolon]) n m s := by
  cases binding with
  | bare ident => exact ⟨_, _, .bare ident isSemicolon⟩
  | initialized ident isEqual phrase => exact ⟨_, _, .initialized ident isEqual phrase isSemicolon⟩

theorem Torn.opens (torn : Torn ts rest n) : Opens statementOpening ts := by
  cases torn with
  | clause clause =>
    have isSemicolon : (Token.mk .semicolon ";" none 0).kind = .semicolon := rfl
    obtain ⟨_, _, inner⟩ := clause.statement isSemicolon
    refine inner.opens.first ?_
    cases clause with
    | expression phrase => exact phrase.opens.length_pos
    | print | ret => exact Nat.succ_pos _
  | initializer isFor | condition isFor => exact ⟨_, _, rfl, by rw [isFor]; decide⟩

theorem Breach.opens (breach : Breach ts rest n) : Opens openingKinds ts := by
  cases breach with
  | statement heads torn =>
    cases heads with
    | nil => exact torn.opens.mono fun _ => List.mem_append_right _
    | cons head _ => exact (head.opens.mono (by decide)).append.append
  | declared isVar => exact ⟨_, _, rfl, by rw [isVar]; decide⟩

theorem leads_variable {inner : Inner} (isVar : keyword.kind = .keyword .varWord) :
    Leads (declarationRule inner b) (varDeclaration b) [keyword] rest n n := by
  refine .present (by simp [isVar]) ?_
  simp only [isVar]
  exact .refl

/-- With a semicolon the tokens are a declaration. -/
def Closable (ts : List Token) (n : Occurrence) : Prop :=
  ∀ ⦃semicolon⦄, semicolon.kind = .semicolon → ∃ m s, Declaration .nearest (ts ++ [semicolon]) n m s

theorem Breach.outcome (breach : Breach ts rest n) (fits : ts.length + rest.length ≤ b) :
    Outcome (Closable ts n) (declarationRule (within b) b) ts rest n := by
  cases breach with
  | @statement us _ k vs _ heads torn =>
    rw [List.length_append] at fits
    obtain ⟨d, tail, left, tailed, leads⟩ := heads.leads (b := b) (by omega)
    have apart : Stops declarationKinds (us ++ (vs ++ rest)) := by
      cases heads with
      | nil => exact torn.opens.append.stops (by decide)
      | cons head _ => exact head.opens.append.append.stops (by decide)
    have statement : Leads (declarationRule (within b) b) (statementRule (within b) b) []
      (us ++ (vs ++ rest)) n n := .absent apart .refl
    have closable (clause : Clause vs k) : Closable (us ++ vs) n := by
      intro semicolon isSemicolon
      obtain ⟨_, _, inner⟩ := clause.statement isSemicolon
      obtain ⟨_, _, whole⟩ := heads.statement inner
      rw [List.append_assoc]
      exact ⟨_, _, .statement whole⟩
    have outcome : Outcome (Clause vs k) (statementRule (within d) d) vs rest k := torn.outcome (by omega)
    exact (outcome.bind fun _ _ _ => tailed.quiet).leads (statement.trans (leads _)) closable
  | declared isVar binding sequel =>
    simp only [List.length_cons] at fits
    refine (binding.outcome sequel (by omega)).leads (leads_variable isVar) fun _ _ isSemicolon => ?_
    obtain ⟨_, _, whole⟩ := binding.variable isSemicolon
    exact ⟨_, _, .variable isVar whole⟩

/-- What is left when reading goes on behind an error. -/
def resumption : List Token → List Token
  | [] => []
  | t :: rest => boundary t rest

theorem resumption_sublist (ts : List Token) : (resumption ts).Sublist ts := by
  cases ts with
  | nil => exact .slnil
  | cons t rest => exact ((boundary_suffix t rest).sublist).cons t

theorem recovering_of_error {rule : Rule α} (ran : rule c = .error .reported ⟨left, last, errors, n⟩) :
    recovering rule c = .ok none ⟨resumption left, last, errors, n⟩ := by
  rw [recovering, ran]
  cases left <;> rfl

/-- A block without declarations. -/
def emptyBlock : List Token := [⟨.leftBrace, "\x7b", none, 1⟩, ⟨.rightBrace, "\x7d", none, 1⟩]

theorem opens_emptyBlock (ts : List Token) : Opens openingKinds (emptyBlock ++ ts) := ⟨_, _, rfl, by decide⟩

/-- An `else` behind it is left. -/
theorem reads_emptyBlock (fits : 2 ≤ d) (rest : List Token) (n : Occurrence) :
    Reads (within (d + 1)).declaration emptyBlock rest n n (some (.block [])) := by
  have block : Statement .nearest false emptyBlock n n (.block []) := .block rfl .nil rfl
  refine reads_within_declaration (fun b fits => ?_) (by simp [emptyBlock]; omega)
  exact .absent (by simp [emptyBlock]) (block.reads fits (by simp))

/-- Bounds that are enough make no difference to a repetition of declarations. -/
theorem Repeats.bound {more : Cursor → Bool} (repeats : Repeats more) {ts : List Token} {last : Token}
    (noEnd : ∀ t ∈ ts, t.kind ≠ .eof) (ends : last.kind = .eof) (fits : ts.length ≤ b)
    (fits' : ts.length ≤ c) (deep : ts.length < d) (deep' : ts.length < e) (n : Occurrence) :
    declarations (within d).declaration more b ⟨ts, last, [], n⟩ =
      declarations (within e).declaration more c ⟨ts, last, [], n⟩ := by
  obtain ⟨closing, agree⟩ := repeats.agrees
  obtain ⟨d, rfl⟩ : ∃ i, d = i + 1 := ⟨d - 1, by omega⟩
  obtain ⟨e, rfl⟩ : ∃ i, e = i + 1 := ⟨e - 1, by omega⟩
  exact declarations_bound agree noEnd ends fits fits' (by omega) (by omega) [] n

theorem Beside.fresh (E : List Diagnostic) (ts : List Token) (last : Token) (n m : Occurrence) :
    Beside E [] ⟨ts, last, E, n⟩ ⟨ts, last, [], m⟩ := by
  have beside : Beside E [] ⟨ts, last, E ++ [], n⟩ ⟨ts, last, [] ++ [], m⟩ := .intro
  simpa using beside

section

variable {more : Cursor → Bool} (repeats : Repeats more) {last : Token}
include repeats

/-- The first of the declarations, if it can be read, and the others. -/
theorem declarations_first (opens : Opens openingKinds ts)
    (ran : (within d).declaration ⟨ts, last, errors, n⟩ = .ok first ⟨left, last, E, m⟩) :
    declarations (within d).declaration more (b + 1) ⟨ts, last, errors, n⟩ =
      (do return first.toList ++ (← declarations (within d).declaration more b) : Rule (List Stmt))
        ⟨left, last, E, m⟩ := by
  have step : Leads (declarations (within d).declaration more (b + 1)) _ [] ts n n :=
    leads_step repeats.continues opens
  have step := step last errors
  rw [List.nil_append] at step
  rw [step, bind_apply, ran]

theorem steady_repeated (E F : List Diagnostic) (d b : Nat) :
    Steady E F (declarations (within d).declaration more b) :=
  steady_declarations (steady_within d).2 (fun _ _ beside => repeats.same beside) b

/-- After a declaration that was given up the rest is read as after an empty block. -/
theorem akin_of_givesUp (fits : 2 ≤ d) (opens : Opens openingKinds ts)
    (ran : declarationRule (within d) d ⟨ts, last, [], n⟩ = .error .reported ⟨left, last, E, m⟩) :
    Akin E [] Unseen (declarations (within (d + 1)).declaration more (b + 1) ⟨ts, last, [], n⟩)
      (declarations (within (d + 1)).declaration more (b + 1)
        ⟨emptyBlock ++ resumption left, last, [], n⟩) := by
  have dropped : (within (d + 1)).declaration ⟨ts, last, [], n⟩ =
      .ok none ⟨resumption left, last, E, m⟩ := by
    rw [within_declaration]
    exact recovering_of_error ran
  rw [declarations_first repeats opens dropped,
    declarations_first repeats (opens_emptyBlock _) (reads_emptyBlock fits _ n last [])]
  exact Accord.bind (steady_repeated repeats E [] (d + 1) b) (fun _ _ _ => .pure trivial)
    (.fresh E _ last m n)

/-- A declaration that is read with the one behind it is followed by what follows them both. -/
theorem akin_of_passes (closable : Closable ts n) (isSemicolon : semicolon.kind = .semicolon)
    (declared : Declared us) (noElse : Stops [.keyword .elseWord] left) (opens : Opens openingKinds ts)
    (under : ts.length + us.length < d)
    (ran : declarationRule (within d) d ⟨ts ++ (us ++ left), last, [], n⟩ = .ok a ⟨left, last, E, m⟩) :
    Akin E [] Unseen
      (declarations (within (d + 1)).declaration more (b + 1) ⟨ts ++ (us ++ left), last, [], n⟩)
      (declarations (within (d + 1)).declaration more (b + 2)
        ⟨ts ++ semicolon :: (us ++ left), last, [], n⟩) := by
  obtain ⟨k, s, first⟩ := closable isSemicolon
  obtain ⟨l, s', second⟩ := declared k
  have both : Declarations .nearest (ts ++ [semicolon] ++ us) n l [s, s'] := by
    simpa using Declarations.cons first (.cons second .nil)
  have leads := both.leads (d := d + 1) (b := b) repeats.continues (by simp; omega) noElse last []
  rw [show ts ++ [semicolon] ++ us ++ left = ts ++ semicolon :: (us ++ left) by simp] at leads
  have kept : (within (d + 1)).declaration ⟨ts ++ (us ++ left), last, [], n⟩ =
      .ok (some a) ⟨left, last, E, m⟩ := by
    rw [within_declaration, recovering, ran]
  rw [declarations_first repeats opens.append kept, show b + 2 = b + [s, s'].length from rfl, leads,
    map_eq_pure_bind]
  exact Accord.bind (steady_repeated repeats E [] (d + 1) b) (fun _ _ _ => .pure trivial)
    (.fresh E _ last m l)

end

/-- Without its semicolon a declaration is followed by what follows it and the one behind it, or by what
follows an empty block where reading goes on. -/
inductive Resolution (ts rest : List Token) (semicolon : Token) (n : Occurrence) : Prop where
  | joined : InPassing reports → rest ≠ [] →
      (∀ {last b d more}, last.kind = .eof → Repeats more → ts.length + rest.length + 2 ≤ b →
        ts.length + rest.length + 2 < d →
        Rejoins reports [] last (declarations (within d).declaration more b) (ts ++ rest)
          (ts ++ semicolon :: rest) n) → Resolution ts rest semicolon n
  | dropped (expected : Expected) : InPassing reports → rest = taken ++ left →
      (taken ≠ [] → Opens [.rightParen] left) →
      (∀ {last b d more}, last.kind = .eof → Repeats more → ts.length + rest.length + 2 ≤ b →
        ts.length + rest.length + 2 < d →
        Rejoins (reports ++ [unexpected expected left last]) [] last
          (declarations (within d).declaration more b) (ts ++ rest) (emptyBlock ++ resumption left) n) →
      Resolution ts rest semicolon n

/-- What is the same with bounds that are just enough is the same with all that are. -/
theorem Rejoins.of_bounds {more : Cursor → Bool} (repeats : Repeats more) (ends : last.kind = .eof)
    (noEnd : ∀ t ∈ us, t.kind ≠ .eof) (noEnd' : ∀ t ∈ vs, t.kind ≠ .eof) (few : us.length ≤ size)
    (few' : vs.length ≤ size) (one : Akin E F Unseen
      (Grammar.declarations (within (size + 1)).declaration more (size + i) ⟨us, last, [], n⟩)
      (Grammar.declarations (within (size + 1)).declaration more (size + j) ⟨vs, last, [], n⟩))
    (fits : size ≤ b) (under : size < d) :
    Rejoins E F last (Grammar.declarations (within d).declaration more b) us vs n := by
  rw [Rejoins, repeats.bound noEnd ends (c := size + i) (by omega) (by omega) (by omega)
      (e := size + 1) (by omega) n,
    repeats.bound noEnd' ends (c := size + j) (by omega) (by omega) (by omega) (e := size + 1)
      (by omega) n]
  exact one

theorem Breach.resolution (breach : Breach ts rest n) (isSemicolon : semicolon.kind = .semicolon)
    (noEnd : ∀ t ∈ ts ++ rest, t.kind ≠ .eof) : Resolution ts rest semicolon n := by
  have whole : (ts ++ rest).length ≤ ts.length + rest.length + 2 := by simp
  cases breach.outcome (b := ts.length + rest.length + 2) (by omega) with
  | @passes _ _ left closable passed split declared noElse passes =>
    obtain ⟨a, m, ran⟩ := passes
    have inhabited : rest ≠ [] := by
      obtain ⟨_, _, derived⟩ := declared 0
      have positive := derived.opens.length_pos
      rintro rfl
      simp [(List.append_eq_nil_iff.1 split.symm).1] at positive
    refine .joined passed inhabited fun {last _ _ _} ends repeats => ?_
    have noEnd' : ∀ t ∈ ts ++ semicolon :: rest, t.kind ≠ .eof := by
      simp only [List.forall_mem_append, List.forall_mem_cons] at noEnd ⊢
      exact ⟨noEnd.1, by simp [isSemicolon], noEnd.2⟩
    have one := akin_of_passes repeats (b := ts.length + rest.length + 2) closable isSemicolon
      declared noElse breach.opens (by rw [List.length_append]; omega) (split ▸ ran last [])
    rw [← split, List.nil_append] at one
    exact .of_bounds repeats ends noEnd noEnd' whole (by simp; omega) one
  | @givesUp _ _ left passed split stopped givesUp =>
    obtain ⟨expected, m, ran⟩ := givesUp
    refine .dropped expected passed split stopped fun {last _ _ _} ends repeats => ?_
    have kept := resumption_sublist left
    have noEnd' : ∀ t ∈ emptyBlock ++ resumption left, t.kind ≠ .eof := by
      simp only [List.forall_mem_append] at noEnd ⊢
      refine ⟨by simp [emptyBlock], fun t member => noEnd.2 t ?_⟩
      rw [split]
      exact List.mem_append_right _ (kept.subset member)
    have one := akin_of_givesUp repeats (b := ts.length + rest.length + 2) (by omega) breach.opens.append
      (ran last [])
    have shorter := kept.length_le
    exact .of_bounds repeats ends noEnd noEnd' whole (by simp [emptyBlock, split]; omega) one

/-- Nothing behind the first end of the file is read. -/
theorem start_of_end (ended : ∃ t ∈ ts, t.kind = .eof) (us vs : List Token) (n : Occurrence) :
    Cursor.start (ts ++ us) n = Cursor.start (ts ++ vs) n := by
  obtain ⟨last, found⟩ : ∃ last, ts.find? (·.kind = .eof) = some last := by
    simpa [← Option.isSome_iff_exists, List.find?_isSome] using ended
  obtain ⟨ends, front, beyond, rfl, plain⟩ := List.find?_eq_some_iff_append.1 found
  let l : Buffer.Layout := ⟨front, last, [], fun t member => by simpa using plain t member, by simpa using ends⟩
  rw [List.append_assoc, List.append_assoc, List.cons_append, List.cons_append]
  exact (l.start_eq _ n).trans (l.start_eq _ n).symm

theorem start_of_last (noEnd : ∀ t ∈ ts, t.kind ≠ .eof) (ends : last.kind = .eof) (n : Occurrence) :
    Cursor.start (ts ++ [last]) n = ⟨ts, last, [], n⟩ :=
  Buffer.Layout.start_eq ⟨ts, last, [], noEnd, ends⟩ [] n

/-- A program in which an empty block stands for a declaration, up to where reading goes on. -/
theorem start_resumed (noEnd : ∀ t ∈ ts ++ left, t.kind ≠ .eof) (ends : last.kind = .eof) (n : Occurrence) :
    Cursor.start (ts ++ emptyBlock ++ resumption left ++ [last]) n =
      ⟨ts ++ (emptyBlock ++ resumption left), last, [], n⟩ := by
  have noEnd' : ∀ t ∈ ts ++ (emptyBlock ++ resumption left), t.kind ≠ .eof := by
    simp only [List.forall_mem_append] at noEnd ⊢
    exact ⟨noEnd.1, by decide, fun t member => noEnd.2 t ((resumption_sublist left).subset member)⟩
  rw [List.append_assoc ts]
  exact start_of_last noEnd' ends n

theorem start_append (noEnd : ∀ t ∈ ts, t.kind ≠ .eof) (us : List Token) (n : Occurrence) :
    ∃ last, last.kind = .eof ∧
      Cursor.start (ts ++ us) n = ⟨ts ++ us.takeWhile (·.kind ≠ .eof), last, [], n⟩ := by
  obtain ⟨l, -, starts⟩ := Buffer.exists_layout (ts ++ us)
  have upcoming : l.front = ts ++ us.takeWhile (·.kind ≠ .eof) := by
    rw [← List.takeWhile_append_of_pos (by simpa using noEnd)]
    exact (congrArg Cursor.upcoming (starts n)).symm
  exact ⟨l.last, l.ends, by rw [starts n, Buffer.Layout.cursor, upcoming]⟩

/-- The end of a file is told by what stands at the end, and one token before is nothing to it. -/
theorem last_without (noEnd : ∀ t ∈ ts, t.kind ≠ .eof) (plain : t.kind ≠ .eof) (inhabited : us ≠ [])
    (n : Occurrence) : (Cursor.start (ts ++ t :: us) n).last = (Cursor.start (ts ++ us) n).last := by
  have first : ts.find? (·.kind = .eof) = none := List.find?_eq_none.2 (by simpa using noEnd)
  obtain ⟨u, us, rfl⟩ := List.exists_cons_of_ne_nil inhabited
  simp [Cursor.start, first, plain, List.getLast?_append, List.getLast?_cons_cons]

end Grammar

namespace Part

open Grammar

/-- What is read to the same end, but for what was reported, has the same other errors. -/
theorem errors_of_rejoins {p q : Part} (start : Cursor.start p.tokens p.fresh = ⟨us, last, [], n⟩)
    (start' : Cursor.start q.tokens q.fresh = ⟨vs, last, [], n⟩) (fits : us.length ≤ b)
    (fits' : vs.length ≤ b) (rejoins : Rejoins E F last (program b) us vs n) :
    ∃ more, p.errors = E ++ more ∧ q.errors = F ++ more := by
  obtain ⟨list, c, ran, errors⟩ := p.errors_of_program (b := b) (by rw [start]; exact fits)
  obtain ⟨list', c', ran', errors'⟩ := q.errors_of_program (b := b) (by rw [start']; exact fits')
  rw [start] at ran
  rw [start'] at ran'
  rw [Rejoins, ran, ran'] at rejoins
  cases rejoins with
  | ok _ beside =>
    obtain ⟨⟩ := beside
    exact ⟨_, errors, errors'⟩

/-- What is read to the same end from a place on, but for what was reported, has the same other errors. -/
theorem errors_of_place {p q : Part} (place : Grammar.Place ts p.fresh n)
    (start : Cursor.start p.tokens p.fresh = ⟨ts ++ us, last, [], p.fresh⟩)
    (start' : Cursor.start q.tokens q.fresh = ⟨ts ++ vs, last, [], p.fresh⟩)
    (opens : Opens openingKinds us) (opens' : Opens openingKinds vs) (fits : us.length ≤ b)
    (fits' : vs.length ≤ b) (inside : ∀ {c d more}, Repeats more → b ≤ c → b < d →
      Rejoins E F last (declarations (within d).declaration more c) us vs n) :
    ∃ more, p.errors = E ++ more ∧ q.errors = F ++ more := by
  have outside := place.rejoins opens opens' inside .file (Nat.le_refl _) (Nat.lt_succ_self _)
  exact errors_of_rejoins start start' (by simpa using fits) (by simpa using fits') outside

theorem few_errors_iff {p q : Part} (total : p.errors = reports ++ e :: q.errors) :
    p.errors.length ≤ 1 ↔ reports = [] ∧ q.Accepted := by
  rw [total, List.length_append, List.length_cons, q.accepted_iff, ← List.length_eq_zero_iff,
    ← List.length_eq_zero_iff]
  omega

theorem errors_of_start {p q : Part}
    (same : Cursor.start p.tokens p.fresh = Cursor.start q.tokens q.fresh) : p.errors = q.errors := by
  obtain ⟨_, _, ran', errors'⟩ := q.errors_of_program (Nat.le_refl _)
  obtain ⟨_, _, ran, errors⟩ := p.errors_of_program (b := (Cursor.start q.tokens q.fresh).upcoming.length)
    (by rw [same])
  rw [same, ran'] at ran
  cases ran
  rw [errors, errors']

end Part

/-- The place of a semicolon in a program that is accepted, and what is read without it. -/
theorem Part.Accepted.site {fresh : Occurrence}
    (accepted : (Part.mk (before ++ semicolon :: after) fresh).Accepted)
    (isSemicolon : semicolon.kind = .semicolon) (noEnd : ∀ t ∈ before, t.kind ≠ .eof) :
    ∃ rest last, Grammar.Site before rest fresh ∧ last.kind = .eof ∧ (∀ t ∈ rest, t.kind ≠ .eof) ∧
      Grammar.Cursor.start (before ++ after) fresh = ⟨before ++ rest, last, [], fresh⟩ ∧
      (rest ≠ [] → Grammar.Cursor.start (before ++ semicolon :: after) fresh =
        ⟨before ++ semicolon :: rest, last, [], fresh⟩) := by
  obtain ⟨program, parsed⟩ := accepted
  obtain ⟨last, ends, here⟩ := Grammar.start_append noEnd after fresh
  obtain ⟨last', -, there⟩ := Grammar.start_append noEnd (semicolon :: after) fresh
  have derived := Grammar.parse_derived (Prod.ext parsed rfl)
  have plain : ∀ t ∈ after.takeWhile (·.kind ≠ .eof), t.kind ≠ .eof := fun t member => by
    simpa using List.mem_takeWhile_imp member
  rw [List.takeWhile_cons_of_pos (by simp [isSemicolon])] at there
  rw [there] at derived
  have site := derived.sites before semicolon _ rfl isSemicolon [] (by simp [Grammar.Over])
  rw [List.append_nil] at site
  refine ⟨_, last, site, ends, plain, here, fun inhabited => ?_⟩
  have behind : after ≠ [] := by
    rintro rfl
    exact inhabited rfl
  have same : last' = last := by
    simpa [there, here] using Grammar.last_without (t := semicolon) noEnd (by simp [isSemicolon]) behind fresh
  rw [there, same]

/-- A program without one of its semicolons is accepted or has one error that is reported in passing, or
else a rule gives up: right where the semicolon is missing, or, in the parentheses of a `for`, at the end of
them. Then at most one error was reported in passing before, and all other errors are those of the program in
which an empty block stands for the declaration, up to where reading goes on. -/
theorem parse_without_semicolon (before after : List Token) (semicolon : Token) (fresh : Occurrence)
    (isSemicolon : semicolon.kind = .semicolon)
    (accepted : (Part.mk (before ++ semicolon :: after) fresh).Accepted) :
    let without : Part := ⟨before ++ after, fresh⟩
    let start := Grammar.Cursor.start without.tokens fresh
    (without.errors.length ≤ 1 ∧ ∀ e ∈ without.errors, e.unwinds = false) ∨
    ∃ place begun taken left n reports expected,
      before = place ++ begun ∧ Grammar.Place place fresh n ∧ Grammar.Breach begun (taken ++ left) n ∧
      start.upcoming = before ++ taken ++ left ∧ (taken ≠ [] → Grammar.Opens [.rightParen] left) ∧
      reports.length ≤ 1 ∧ (∀ e ∈ reports, e.unwinds = false) ∧
      let kept : Part :=
        ⟨place ++ Grammar.emptyBlock ++ Grammar.resumption left ++ [start.last], fresh⟩
      without.errors = reports ++ Grammar.unexpected expected left start.last :: kept.errors ∧
      (without.errors.length ≤ 1 ↔ reports = [] ∧ kept.Accepted) := by
  intro without
  by_cases ended : ∃ t ∈ before, t.kind = .eof
  · left
    have same : without.errors = (Part.mk (before ++ semicolon :: after) fresh).errors :=
      Part.errors_of_start (Grammar.start_of_end ended after (semicolon :: after) fresh)
    rw [same, accepted.errors_eq_nil]
    exact ⟨Nat.zero_le 1, by simp⟩
  have noEnd : ∀ t ∈ before, t.kind ≠ .eof := by simpa using ended
  obtain ⟨rest, last, site, ends, plain, start, start'⟩ := accepted.site isSemicolon noEnd
  cases site with
  | @intro place _ n begun _ placed breach =>
    have noEnd' := List.forall_mem_append.1 noEnd
    have opens (us : List Token) : Grammar.Opens Grammar.openingKinds (begun ++ us) := breach.opens.append
    have start : Grammar.Cursor.start without.tokens fresh = ⟨place ++ (begun ++ rest), last, [], fresh⟩ := by
      rw [← List.append_assoc]
      exact start
    cases breach.resolution isSemicolon (List.forall_mem_append.2 ⟨noEnd'.2, plain⟩) with
    | @joined reports few inhabited rejoins =>
      left
      have start' := start' inhabited
      rw [List.append_assoc place begun (semicolon :: rest)] at start'
      obtain ⟨more, errors, errors'⟩ := Part.errors_of_place (p := without)
        (q := ⟨place ++ begun ++ semicolon :: after, fresh⟩) (b := begun.length + rest.length + 2) placed
        start start' (opens rest) (opens (semicolon :: rest)) (by simp) (by simp; omega)
        fun repeats fits under => rejoins ends repeats fits under
      rw [accepted.errors_eq_nil] at errors'
      obtain rfl : more = [] := by simpa using errors'.symm
      rw [errors, List.append_nil]
      exact ⟨few.few, few.passed⟩
    | @dropped reports taken left expected few split stopped rejoins =>
      right
      subst split
      have shorter := (Grammar.resumption_sublist left).length_le
      have resumed : ∀ t ∈ place ++ left, t.kind ≠ .eof :=
        List.forall_mem_append.2 ⟨noEnd'.1, (List.forall_mem_append.1 plain).2⟩
      let kept : Part := ⟨place ++ Grammar.emptyBlock ++ Grammar.resumption left ++ [last], fresh⟩
      obtain ⟨more, errors, errors'⟩ := Part.errors_of_place (p := without) (q := kept)
        (b := begun.length + (taken ++ left).length + 2) placed start
        (Grammar.start_resumed resumed ends fresh) (opens _) (Grammar.opens_emptyBlock _) (by simp)
        (by simp [Grammar.emptyBlock]; omega) fun repeats fits under => rejoins ends repeats fits under
      have total : without.errors = reports ++ Grammar.unexpected expected left last :: kept.errors := by
        simp [errors, errors']
      refine ⟨place, begun, taken, left, n, reports, expected, rfl, placed, breach, ?_, stopped, few.few,
        few.passed, ?_⟩
      · rw [start, List.append_assoc, List.append_assoc]
      · rw [start]
        exact ⟨total, Part.few_errors_iff total⟩

/-- `{ print a`, without a semicolon. -/
def openBlock : List Token :=
  [⟨.leftBrace, "\x7b", none, 1⟩, ⟨.keyword .printWord, "print", none, 1⟩, ⟨.identifier, "a", none, 1⟩]

/-- `}` and the end of the file. -/
def blockEnd : List Token := [⟨.rightBrace, "\x7d", none, 1⟩, ⟨.eof, "", none, 1⟩]

/-- The semicolon between them. -/
def printEnd : Token := ⟨.semicolon, ";", none, 1⟩

/-- The brace where the semicolon is missing is skipped, and then it is missing, too. -/
theorem openBlock_errors : (Part.mk (openBlock ++ blockEnd) 0).errors =
    [.syntactic 1 (.atLexeme "\x7d") (.expected .printEnd),
      .syntactic 1 .atEnd (.expected .blockClosing)] := by cbv

theorem openBlock_cascades : (Part.mk (openBlock ++ printEnd :: blockEnd) 0).Accepted ∧
    ¬(Part.mk (openBlock ++ blockEnd) 0).errors.length ≤ 1 := by
  refine ⟨⟨_, by cbv⟩, ?_⟩
  rw [openBlock_errors]
  decide

theorem parse_without_semicolon_openBlock : printEnd.kind = .semicolon ∧
    (Part.mk (openBlock ++ printEnd :: blockEnd) 0).Accepted ∧ ∃ kept : Part, ¬kept.Accepted ∧
      (Part.mk (openBlock ++ blockEnd) 0).errors =
        .syntactic 1 (.atLexeme "\x7d") (.expected .printEnd) :: kept.errors := by
  have accepted : (Part.mk (openBlock ++ printEnd :: blockEnd) 0).Accepted := ⟨_, by cbv⟩
  refine ⟨rfl, accepted, ?_⟩
  have two := openBlock_errors
  rcases parse_without_semicolon openBlock blockEnd printEnd 0 rfl accepted with
    ⟨few, -⟩ | ⟨_, _, _, _, _, reports, _, -, -, -, -, -, -, passed, total, few⟩
  · rw [two] at few
    exact absurd few (by decide)
  · rw [two] at total few
    have none : reports = [] := by
      cases reports with
      | nil => rfl
      | cons e reports =>
        -- the first error is not one that is reported in passing
        have first := passed e List.mem_cons_self
        rw [← (List.cons.inj total).1] at first
        cases first
    refine ⟨_, fun whole => absurd (few.2 ⟨none, whole⟩) (by decide), ?_⟩
    rw [none, List.nil_append] at total
    exact two.trans (total.trans (congrArg (· :: _) (List.cons.inj total).1.symm))

end Lox
