import Lox.Proofs.Omission.Errors

/-! One semicolon that is missing at the end of the innermost of nested blocks. The braces that close the
blocks are skipped, from the one where the semicolon is missing on, and then each block misses its own: the
errors are not bounded. -/
namespace Lox

namespace Grammar

/-- The rule takes all tokens and makes so many reports. -/
def Spends (rule : Rule α) (ts : List Token) (n : Occurrence) (count : Nat) : Prop :=
  ∀ last errors, ∃ a reports m,
    rule ⟨ts, last, errors, n⟩ = .ok a ⟨[], last, errors ++ reports, m⟩ ∧ reports.length = count

/-- The rule gives up with so many reports, where reading goes on at the end of the tokens. -/
def Drops (rule : Rule α) (ts : List Token) (n : Occurrence) (count : Nat) : Prop :=
  ∀ last errors, ∃ left reports m,
    rule ⟨ts, last, errors, n⟩ = .error .reported ⟨left, last, errors ++ reports, m⟩ ∧
      resumption left = [] ∧ reports.length = count

theorem boundary_braces (isClosing : closing.kind = .rightBrace) (closes : ∀ t ∈ ts, t.kind = .rightBrace) :
    boundary closing ts = [] := by
  induction ts generalizing closing with
  | nil => rfl
  | cons t ts ih =>
    obtain ⟨here, later⟩ := List.forall_mem_cons.1 closes
    rw [boundary, isClosing, here]
    exact ih here later

/-- No brace that closes is kept. -/
theorem resumption_braces (closes : ∀ t ∈ ts, t.kind = .rightBrace) : resumption ts = [] := by
  cases ts with
  | nil => rfl
  | cons t ts =>
    obtain ⟨here, later⟩ := List.forall_mem_cons.1 closes
    exact boundary_braces here later

theorem GivesUp.drops {rule : Rule α} (givesUp : GivesUp rule ts left n []) (ended : resumption left = []) :
    Drops rule ts n 1 := by
  obtain ⟨expected, m, ran⟩ := givesUp
  exact fun last errors => ⟨left, [unexpected expected left last], m, by simp [ran], ended, rfl⟩

theorem Drops.spends {more : Cursor → Bool} (drops : Drops (declarationRule (within d) d) ts n count)
    (repeats : Repeats more) (opens : Opens openingKinds ts) :
    Spends (declarations (within (d + 1)).declaration more (b + 1)) ts n count := by
  intro last errors
  obtain ⟨left, reports, m, ran, ended, counted⟩ := drops last errors
  have dropped : (within (d + 1)).declaration ⟨ts, last, errors, n⟩ =
      .ok none ⟨[], last, errors ++ reports, m⟩ := by
    rw [within_declaration, recovering_of_error ran, ended]
  have finished : Reads (declarations (within (d + 1)).declaration more b) [] [] m m [] :=
    Declarations.nil.reads (Nat.zero_le b) (Nat.succ_pos d) repeats.continues (fun _ _ => .inl rfl) stops_nil
  refine ⟨[], reports, m, ?_, counted⟩
  have finished := finished last (errors ++ reports)
  rw [List.nil_append] at finished
  rw [declarations_first repeats opens dropped, bind_apply, finished]
  rfl

/-- What takes all tokens leaves none to close the block. -/
theorem Spends.drops (isOpening : opening.kind = .leftBrace)
    (spends : Spends (declarations (within d).declaration (fun c => !c.sees .rightBrace) d) ts n count) :
    Drops (declarationRule (within d) d) (opening :: ts) n (count + 1) := by
  intro last errors
  have leads : Leads (declarationRule (within d) d) (.block <$> block (within d).declaration d) [opening] ts
      n n := .absent (by simp [isOpening]) (leads_block isOpening)
  obtain ⟨body, reports, m, ran, counted⟩ := spends last errors
  have missing : GivesUp (consume .rightBrace .blockClosing >>= fun _ => pure body : Rule (List Stmt)) [] [] m
      [] := .consume stops_nil
  obtain ⟨expected, k, missed⟩ := missing
  refine ⟨[], reports ++ [unexpected expected [] last], k, ?_, rfl, by simp [counted]⟩
  rw [← List.singleton_append, leads last errors, map_apply, block, bind_apply, ran]
  simp [missed]

/-- An expression at the end of the innermost of nested blocks, without a semicolon. -/
theorem drops_nested (phrase : Phrase .assignment ts n m e) (opens : ∀ t ∈ openings, t.kind = .leftBrace)
    (closes : ∀ t ∈ closings, t.kind = .rightBrace) (fits : openings.length + ts.length ≤ d) :
    Opens openingKinds (openings ++ (ts ++ closings)) ∧
      Drops (declarationRule (within d) d) (openings ++ (ts ++ closings)) n (openings.length + 1) := by
  induction openings generalizing d with
  | nil =>
    have apart : Stops (.semicolon :: Rank.assignment.continuing) closings := fun t next => by
      rw [closes t (List.mem_of_mem_head? next)]
      decide
    have read : Reads (expression d) ts closings n m e :=
      reads_expression phrase (by simpa using fits) apart.tail
    have begun : Opens openingKinds (ts ++ closings) := (phrase.opens.mono (by decide)).append
    have statement : Leads (declarationRule (within d) d) (expressionStatement d) [] (ts ++ closings) n n :=
      .absent (phrase.opens.append.stops (by decide))
        (leads_expressionStatement (phrase.opens.append.stops (by decide)))
    have givesUp : GivesUp (expressionStatement d) (ts ++ closings) closings n [] :=
      (Passes.of_reads read).bind_givesUp fun _ _ => .consume (apart.mono (by simp))
    exact ⟨begun, (statement.givesUp givesUp).drops (resumption_braces closes)⟩
  | cons opening openings ih =>
    simp only [List.forall_mem_cons, List.length_cons] at opens fits
    obtain ⟨d, rfl⟩ : ∃ b, d = b + 1 := ⟨d - 1, by omega⟩
    obtain ⟨begun, drops⟩ := ih opens.2 (d := d) (by omega)
    exact ⟨⟨opening, _, rfl, by rw [opens.1]; decide⟩, (drops.spends .block begun).drops opens.1⟩

/-- With the semicolon it is a statement, if the braces are paired. -/
theorem statement_nested (phrase : Phrase .assignment ts n m e) (isSemicolon : semicolon.kind = .semicolon)
    (opens : ∀ t ∈ openings, t.kind = .leftBrace) (closes : ∀ t ∈ closings, t.kind = .rightBrace)
    (paired : openings.length = closings.length) :
    ∃ s, Statement .nearest false (openings ++ (ts ++ semicolon :: closings)) n m s := by
  induction openings generalizing closings with
  | nil =>
    obtain rfl := List.length_eq_zero_iff.1 paired.symm
    exact ⟨_, .expression phrase isSemicolon⟩
  | cons opening openings ih =>
    rcases List.eq_nil_or_concat closings with rfl | ⟨closings, closing, rfl⟩
    · cases paired
    · simp only [List.forall_mem_cons, List.forall_mem_append, List.concat_eq_append] at opens closes
      obtain ⟨s, inner⟩ := ih opens.2 closes.1 (by simpa using paired)
      have body : Declarations .nearest (openings ++ (ts ++ semicolon :: closings)) n m [s] := by
        simpa using Declarations.cons (.statement inner) .nil
      exact ⟨_, by simpa using Statement.block opens.1 body closes.2.1⟩

end Grammar

/-- In nested blocks there is one error for the semicolon and one for each block. -/
theorem nested_without_semicolon (phrase : Grammar.Phrase .assignment ts n m e)
    (plain : ∀ t ∈ ts, t.kind ≠ .eof) (isSemicolon : semicolon.kind = .semicolon)
    (opens : ∀ t ∈ openings, t.kind = .leftBrace) (closes : ∀ t ∈ closings, t.kind = .rightBrace)
    (paired : openings.length = closings.length) :
    (Part.mk (openings ++ (ts ++ semicolon :: closings)) n).Accepted ∧
      (Part.mk (openings ++ (ts ++ closings)) n).errors.length = openings.length + 1 := by
  have noEnd : ∀ t ∈ openings ++ (ts ++ closings), t.kind ≠ .eof := by
    simp only [List.forall_mem_append]
    exact ⟨fun t member => by simp [opens t member], plain, fun t member => by simp [closes t member]⟩
  constructor
  · obtain ⟨s, statement⟩ := Grammar.statement_nested phrase isSemicolon opens closes paired
    have program : Grammar.Declarations .nearest (openings ++ (ts ++ semicolon :: closings)) n m [s] := by
      simpa using Grammar.Declarations.cons (.statement statement) .nil
    have noEnd' : ∀ t ∈ openings ++ (ts ++ semicolon :: closings), t.kind ≠ .eof := by
      simp only [List.forall_mem_append, List.forall_mem_cons] at noEnd ⊢
      exact ⟨noEnd.1, noEnd.2.1, by simp [isSemicolon], noEnd.2.2⟩
    exact ⟨_, congrArg Prod.fst ((Grammar.parse_eq_ok_iff noEnd').2 program)⟩
  · let p : Part := ⟨openings ++ (ts ++ closings), n⟩
    obtain ⟨last, start⟩ := Grammar.start_of_no_end n noEnd
    obtain ⟨list, c, ran, errors⟩ := p.errors_of_program (b := p.tokens.length + 1) (by
      show (Grammar.Cursor.start _ n).upcoming.length ≤ _
      rw [start]
      exact Nat.le_succ _)
    obtain ⟨begun, drops⟩ := Grammar.drops_nested phrase opens closes (d := p.tokens.length + 1)
      (by simp [p]; omega)
    obtain ⟨_, reports, _, ran', counted⟩ := drops.spends (b := p.tokens.length) .file begun last []
    have same := ran.symm.trans ((congrArg (Grammar.program _) start).trans ran')
    obtain ⟨-, rfl⟩ := EStateM.Result.ok.inj same
    rw [errors, List.nil_append]
    exact counted

end Lox
