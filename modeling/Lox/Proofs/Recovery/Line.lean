import Lox.Proofs.Grammar.Rule

/-! One line of a program that stands in two settings. Before the end of its line a rule sees nothing of
what stands behind it, so it does the same in both: it reads as far, it reports the same, and of its
reports only the last can be one that it gives up with. `Confined` has one law for every way rules are
put together. -/
namespace Lox

/-- The errors that a rule gives up with. The others are reported in passing. -/
def SyntaxError.unwinds : SyntaxError → Bool
  | .expected _ | .missingLeftOperand _ => true
  | .invalidTarget | .tooManyParameters | .tooManyArguments => false

def Diagnostic.unwinds : Diagnostic → Bool
  | .syntactic _ _ e => e.unwinds
  | _ => false

namespace Grammar

/-- The kinds that stand in no line but at one of its ends. -/
def separates (kind : TokenKind) : Bool :=
  kind ∈ [.semicolon, .leftBrace, .rightBrace, .eof] || opensStatement kind

/-- The tokens up to a semicolon, with it. -/
inductive Line : List Token → Prop where
  | ending : t.kind = .semicolon → Line [t]
  | more : separates t.kind = false → Line ts → Line (t :: ts)

theorem line_of_plain (isSemicolon : t.kind = .semicolon)
    (plain : ∀ u ∈ us, separates u.kind = false) : Line (us ++ [t]) := by
  induction us with
  | nil => exact .ending isSemicolon
  | cons u us ih =>
    simp only [List.forall_mem_cons] at plain
    exact .more plain.1 (ih plain.2)

theorem Line.length_pos (line : Line ts) : 0 < ts.length := by cases line <;> simp

theorem not_semicolon (plain : separates kind = false) : kind ≠ .semicolon := by
  rintro rfl
  cases plain

theorem not_opens (plain : separates kind = false) : opensStatement kind = false := by
  simp only [separates, Bool.or_eq_false_iff] at plain
  exact plain.2

/-- What stands around a line: the tokens behind it and the end of their file, and what was reported
before it. No `else` stands right behind it. -/
structure Setting where
  behind : List Token
  last : Token
  before : List Diagnostic
  noElse : Stops [.keyword .elseWord] behind

/-- The place where so many tokens of the line are left and so much was reported in it. -/
def Setting.cursor (s : Setting) (ts : List Token) (errors : List Diagnostic) (n : Occurrence) : Cursor :=
  ⟨ts ++ s.behind, s.last, s.before ++ errors, n⟩

theorem Setting.accept?_cursor (s : Setting) (kinds : List TokenKind) (t : Token) (ts : List Token)
    (errors : List Diagnostic) (n : Occurrence) :
    accept? kinds (s.cursor (t :: ts) errors n) = if t.kind ∈ kinds then
      .ok (some t) (s.cursor ts errors n) else .ok none (s.cursor (t :: ts) errors n) := rfl

theorem Setting.report_cursor (s : Setting) (t : Token) (e : SyntaxError) (ts : List Token)
    (errors : List Diagnostic) (n : Occurrence) : report t e (s.cursor ts errors n) =
      .ok () (s.cursor ts (errors ++ [.syntactic t.line t.place e]) n) := by
  show EStateM.Result.ok () (Cursor.mk _ _ (s.before ++ errors ++ [_]) _) = _
  rw [List.append_assoc]
  rfl

/-- Within a line or behind its end. -/
inductive Position where
  | inside
  | behind

/-- What is left of the line there. Inside of it at most `limit` tokens stand before its end. -/
def Position.Leaves : Position → (limit : Nat) → List Token → Prop
  | .inside, limit, ts => Line ts ∧ ts.length ≤ limit + 1
  | .behind, _, ts => ts = []

section

variable (s s' : Setting)

/-- Both readers are at one place of the line. They reported the same in it and did not give up. -/
inductive Abreast (p : Position) (limit : Nat) : Cursor → Cursor → Prop where
  | intro : p.Leaves limit ts → (∀ e ∈ errors, e.unwinds = false) →
      Abreast p limit (s.cursor ts errors n) (s'.cursor ts errors n)

/-- Both rules succeed with one result and at one place, or both give up inside of the line and for the
same reason. -/
inductive Alike (p : Position) (limit : Nat) :
    EStateM.Result Halt Cursor α → EStateM.Result Halt Cursor α → Prop where
  | ok : Abreast s s' p limit c c' → Alike p limit (.ok a c) (.ok a c')
  | halted : Line ts → (∀ e ∈ errors, e.unwinds = false) → final.unwinds = true →
      Alike p limit (.error .reported (s.cursor ts (errors ++ [final]) n))
        (.error .reported (s'.cursor ts (errors ++ [final]) n))

/-- From one place of the line to another. -/
def Coupled (p q : Position) (limit : Nat) (x x' : Rule α) : Prop :=
  ∀ ⦃c c'⦄, Abreast s s' p limit c c' → Alike s s' q limit (x c) (x' c')

/-- From any place inside of the line with at most `limit` tokens before its end. -/
def Confined (q : Position) (limit : Nat) (x x' : Rule α) : Prop :=
  ∀ j ≤ limit, Coupled s s' .inside q j x x'

end

variable {s s' : Setting} {p q : Position}

theorem Abreast.mono (both : Abreast s s' p j c c') (fewer : j ≤ k) : Abreast s s' p k c c' := by
  obtain ⟨left, calm⟩ := both
  refine ⟨?_, calm⟩
  cases p with
  | inside => exact ⟨left.1, Nat.le_trans left.2 (Nat.succ_le_succ fewer)⟩
  | behind => exact left

theorem Alike.mono {r r' : EStateM.Result Halt Cursor α} (alike : Alike s s' p j r r')
    (fewer : j ≤ k) : Alike s s' p k r r' := by
  cases alike with
  | ok both => exact .ok (both.mono fewer)
  | halted line calm final => exact .halted line calm final

/-- Both readers look at the same token of the line. -/
theorem Abreast.head?_eq (both : Abreast s s' .inside j c c') :
    ∃ t, c.upcoming.head? = some t ∧ c'.upcoming.head? = some t := by
  obtain ⟨⟨line, -⟩, -⟩ := both
  cases line with
  | ending | more => exact ⟨_, rfl, rfl⟩

theorem Abreast.peek_eq (both : Abreast s s' .inside j c c') : c.peek = c'.peek := by
  obtain ⟨t, here, there⟩ := both.head?_eq
  rw [Cursor.peek, Cursor.peek, here, there]
  rfl

theorem Abreast.sees_eq (both : Abreast s s' .inside j c c') (kind : TokenKind) :
    c.sees kind = c'.sees kind := by
  obtain ⟨t, here, there⟩ := both.head?_eq
  rw [Cursor.sees, Cursor.sees, here, there]

theorem Coupled.pure : Coupled s s' p p j (pure a) (pure a) := fun _ _ both => .ok both

theorem Coupled.bind {x x' : Rule α} {f f' : α → Rule β} (first : Coupled s s' p q j x x')
    (second : ∀ a, Coupled s s' q r j (f a) (f' a)) : Coupled s s' p r j (x >>= f) (x' >>= f') := by
  intro c c' both
  rw [bind_apply, bind_apply]
  have alike := first both
  generalize x c = r, x' c' = r' at alike ⊢
  cases alike with
  | ok later => exact second _ later
  | halted line calm final => exact .halted line calm final

/-- No `else` belongs to what stands before the end of the line. -/
theorem Coupled.noElse {x x' : Rule α} {y y' : Token → Rule α}
    (absent : Coupled s s' .behind q j x x') :
    Coupled s s' .behind q j
      (do match ← accept? [.keyword .elseWord] with
        | none => x
        | some t => y t)
      (do match ← accept? [.keyword .elseWord] with
        | none => x'
        | some t => y' t) := by
  have missing (s : Setting) (errors : List Diagnostic) (n : Occurrence) :
      accept? [.keyword .elseWord] (s.cursor [] errors n) = .ok none (s.cursor [] errors n) := by
    rcases accept?_cases [.keyword .elseWord] (s.cursor [] errors n) with
      ⟨ran, -⟩ | ⟨t, rest, tokens, member, -⟩
    · exact ran
    · exact absurd member (s.noElse t (by simp [show s.behind = t :: rest from tokens]))
  intro c c' both
  obtain ⟨left, calm⟩ := both
  cases left
  rw [bind_apply, bind_apply, missing, missing]
  exact absent ⟨rfl, calm⟩

namespace Confined

variable {j k : Nat}

theorem mono {x x' : Rule α} (confined : Confined s s' q k x x') (fewer : j ≤ k) :
    Confined s s' q j x x' := fun i under => confined i (Nat.le_trans under fewer)

theorem pure : Confined s s' .inside k (pure a) (pure a) := fun _ _ => .pure

theorem bind {x x' : Rule α} {f f' : α → Rule β} (first : Confined s s' .inside k x x')
    (second : ∀ a, Confined s s' q k (f a) (f' a)) : Confined s s' q k (x >>= f) (x' >>= f') :=
  fun j under => .bind (first j under) fun a => second a j under

/-- What follows the end of the line does nothing in the line. -/
theorem bind_behind {x x' : Rule α} {f f' : α → Rule β} (first : Confined s s' .behind k x x')
    (second : ∀ a j, Coupled s s' .behind .behind j (f a) (f' a)) :
    Confined s s' .behind k (x >>= f) (x' >>= f') :=
  fun j under => .bind (first j under) fun a => second a j

theorem map {x x' : Rule α} {g : α → β} (confined : Confined s s' q k x x') :
    Confined s s' q k (g <$> x) (g <$> x') := fun j under => by
  have behind : Coupled s s' .inside q j (x >>= fun a => Pure.pure (g a))
      (x' >>= fun a => Pure.pure (g a)) := .bind (confined j under) fun _ => .pure
  exact behind

theorem get {f f' : Cursor → Rule β}
    (second : ∀ c c', c.peek = c'.peek → Confined s s' q k (f c) (f' c')) :
    Confined s s' q k (get >>= f) (get >>= f') :=
  fun j under c c' both => second c c' both.peek_eq j under both

theorem sees {f f' : Bool → Rule β} (second : ∀ b, Confined s s' q k (f b) (f' b)) :
    Confined s s' q k (sees kind >>= f) (sees kind >>= f') := by
  intro j under c c' both
  show Alike s s' q j (f (c.sees kind) c) (f' (c'.sees kind) c')
  rw [both.sees_eq]
  exact second _ j under both

theorem fresh {f f' : Occurrence → Rule β} (second : ∀ i, Confined s s' q k (f i) (f' i)) :
    Confined s s' q k (freshOccurrence >>= f) (freshOccurrence >>= f') := by
  intro j under c c' both
  obtain ⟨left, calm⟩ := both
  exact second _ j under ⟨left, calm⟩

theorem report {f f' : Unit → Rule β} (passing : e.unwinds = false)
    (second : Confined s s' q k (f ()) (f' ())) :
    Confined s s' q k (report t e >>= f) (report t e >>= f') := by
  intro j under c c' both
  obtain ⟨left, calm⟩ := both
  rw [bind_apply, bind_apply, s.report_cursor, s'.report_cursor]
  refine second j under ⟨left, fun d member => ?_⟩
  rcases List.mem_append.1 member with earlier | here
  · exact calm d earlier
  · rw [List.mem_singleton.1 here]
    exact passing

theorem fail (final : e.unwinds = true) :
    Confined s s' q k (fail t e : Rule α) (Grammar.fail t e) := by
  intro j under c c' both
  obtain ⟨⟨line, -⟩, calm⟩ := both
  rw [Grammar.fail, bind_apply, bind_apply, s.report_cursor, s'.report_cursor]
  exact .halted line calm final

theorem failHere (final : e.unwinds = true) :
    Confined s s' q k (do Grammar.fail (← MonadState.get).peek e : Rule α)
      (do Grammar.fail (← MonadState.get).peek e) := by
  refine .get fun c c' same => ?_
  rw [same]
  exact .fail final

/-- What is over a limit is reported in passing. -/
theorem limited {beyond : Prop} [Decidable beyond] {f f' : Unit → Rule β}
    (passing : e.unwinds = false) (second : Confined s s' q k (f ()) (f' ())) :
    Confined s s' q k
      (if beyond then do
          let c ← MonadState.get
          let r ← Grammar.report (Cursor.peek c) e
          f r
        else f ())
      (if beyond then do
          let c ← MonadState.get
          let r ← Grammar.report (Cursor.peek c) e
          f' r
        else f' ()) := by
  split
  · refine .get fun c c' same => ?_
    rw [same]
    exact .report passing second
  · exact second

/-- A token is taken only before the end of the line, and then fewer are left. -/
theorem accept? {x x' : Rule β} {y y' : Token → Rule β} (apart : .semicolon ∉ kinds)
    (absent : Confined s s' q k x x')
    (present : ∀ t j, k = j + 1 → t.kind ∈ kinds → separates t.kind = false →
      Confined s s' q j (y t) (y' t)) :
    Confined s s' q k
      (do match ← accept? kinds with
        | none => x
        | some t => y t)
      (do match ← Grammar.accept? kinds with
        | none => x'
        | some t => y' t) := by
  intro i under c c' both
  obtain ⟨⟨line, few⟩, calm⟩ := both
  rw [bind_apply, bind_apply]
  cases line with
  | ending isSemicolon =>
    rw [← isSemicolon] at apart
    rw [s.accept?_cursor, s'.accept?_cursor, if_neg apart, if_neg apart]
    exact absent i under ⟨⟨.ending isSemicolon, few⟩, calm⟩
  | @more ts t plain line =>
    rw [s.accept?_cursor, s'.accept?_cursor]
    by_cases member : t.kind ∈ kinds
    · -- The line behind the token has its semicolon at least, so one token less stands before that.
      have positive := line.length_pos
      simp only [List.length_cons] at few
      obtain ⟨j, rfl⟩ : ∃ j, k = j + 1 := ⟨k - 1, by omega⟩
      rw [if_pos member, if_pos member]
      have later : Confined s s' q j (y t) (y' t) := present t j rfl member plain
      exact (later (i - 1) (by omega) ⟨⟨line, by omega⟩, calm⟩).mono (by omega)
    · rw [if_neg member, if_neg member]
      exact absent i under ⟨⟨.more plain line, few⟩, calm⟩

theorem consume {f f' : Token → Rule β} (apart : kind ≠ .semicolon)
    (second : ∀ t j, k = j + 1 → t.kind = kind → separates t.kind = false →
      Confined s s' q j (f t) (f' t)) :
    Confined s s' q k (consume kind expected >>= f) (Grammar.consume kind expected >>= f') := by
  have whole {f : Token → Rule β} : Grammar.consume kind expected >>= f = (do
      match ← Grammar.accept? [kind] with
        | none => Grammar.fail (← MonadState.get).peek (.expected expected)
        | some t => f t) := by
    funext c
    rw [Grammar.consume, bind_apply, bind_apply, bind_apply]
    rcases accept?_cases [kind] c with ⟨ran, -⟩ | ⟨t, rest, -, -, ran⟩ <;> rw [ran] <;> rfl
  rw [whole, whole]
  refine .accept? (by simpa using apart.symm) (.failHere rfl) fun t j more member plain => ?_
  exact second t j more (by simpa using member) plain

/-- No line goes on behind a separating token but its semicolon. -/
theorem refused {f f' : Token → Rule β} (apart : kind ≠ .semicolon) (separating : separates kind = true) :
    Confined s s' q k (Grammar.consume kind expected >>= f) (Grammar.consume kind expected >>= f') := by
  refine .consume apart fun t j _ same plain => ?_
  rw [same, separating] at plain
  cases plain

/-- At its semicolon the line ends. -/
theorem finish {f : Token → α} :
    Confined s s' .behind k (do return f (← Grammar.consume .semicolon expected))
      (do return f (← Grammar.consume .semicolon expected)) := by
  intro j under c c' both
  obtain ⟨⟨line, few⟩, calm⟩ := both
  rw [bind_apply, bind_apply, Grammar.consume, bind_apply, bind_apply]
  cases line with
  | ending isSemicolon =>
    rw [s.accept?_cursor, s'.accept?_cursor]
    simp only [isSemicolon, List.mem_singleton, if_true]
    exact .ok ⟨rfl, calm⟩
  | more plain line =>
    rw [s.accept?_cursor, s'.accept?_cursor]
    simp only [List.mem_singleton, not_semicolon plain, if_false]
    have gaveUp : Confined s s' .behind j
        (do Grammar.fail (← MonadState.get).peek (.expected expected) : Rule α)
        (do Grammar.fail (← MonadState.get).peek (.expected expected)) := .failHere rfl
    exact gaveUp j (Nat.le_refl j) ⟨⟨.more plain line, few⟩, calm⟩

end Confined

end Grammar

end Lox
