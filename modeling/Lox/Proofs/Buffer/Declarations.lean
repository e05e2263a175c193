import Lox.Proofs.Order.Statements
import Lox.Proofs.Recovery.Expression
import Lox.Proofs.Buffer.Tracking

/-! Declarations in a buffer, one after another. A declaration is only asked for before the end of the file
and goes on from where it begins, also where it gives up at the end or with nothing consumed. So the token
before the position is there when a boundary is looked for. -/
namespace Lox.Buffer

open Grammar (Cursor Rule boundary opensStatement bound_of_more)

variable {l : Layout} {c : Cursor} {r : State} {t : Token} {j k b b' : Nat}

/-- From before the end both rules go on and have one result. -/
def Proceeds (l : Layout) (k : Nat) (x : Rule α) (y : Reading α) : Prop :=
  ∀ ⦃c r⦄, At l c r → c.upcoming ≠ [] → c.upcoming.length ≤ k →
    ∃ a c' r', x c = .ok a c' ∧ y r = .ok a r' ∧ At l c' r' ∧ c'.upcoming.length < c.upcoming.length

theorem Proceeds.mono {x : Rule α} {y : Reading α} (proceeds : Proceeds l k x y) (fewer : j ≤ k) :
    Proceeds l j x y := fun _ _ both some few => proceeds both some (Nat.le_trans few fewer)

namespace At

theorem upcoming_eq (both : At l c r) (same : ts = c.upcoming) : At l { c with upcoming := ts } r :=
  same ▸ both

theorem skip (both : At l c r) (behind : Behind l t r) (fits : c.upcoming.length ≤ b) :
    ∃ r', Buffer.skip b r = .ok () r' ∧ At l { c with upcoming := boundary t c.upcoming } r' := by
  induction b generalizing c r t with
  | zero =>
    have none : c.upcoming = [] := List.length_eq_zero_iff.1 (Nat.le_zero.1 fits)
    obtain ⟨r₁, asked, both₁⟩ := both.atEnd
    rw [Buffer.skip.eq_def, bind_apply, asked, none]
    exact ⟨r₁, rfl, both₁.upcoming_eq none.symm⟩
  | succ b ih =>
    obtain ⟨r₁, asked, both₁⟩ := both.atEnd
    rw [Buffer.skip.eq_def, bind_apply, asked]
    cases next : c.upcoming with
    | nil => exact ⟨r₁, rfl, both₁.upcoming_eq next.symm⟩
    | cons u rest =>
      obtain ⟨r₂, looked, both₂⟩ := both₁.previous (both.behind_same both₁ behind)
      obtain ⟨r₃, found, both₃⟩ := both₂.peek
      obtain ⟨r₄, advanced, both₄⟩ := both₃.advance next
      have here : c.peek = u := by rw [Cursor.peek, next]; rfl
      simp only [List.isEmpty_cons, Bool.false_eq_true, if_false]
      rw [bind_apply, looked]
      by_cases isSemicolon : t.kind = .semicolon
      · refine ⟨r₂, ?_, both₂.upcoming_eq ?_⟩
        · simp only [isSemicolon, if_true]
          rfl
        · simp [boundary, isSemicolon, next]
      simp only [isSemicolon, if_false]
      rw [bind_apply, found, here]
      by_cases opens : opensStatement u.kind
      · refine ⟨r₃, ?_, both₃.upcoming_eq ?_⟩
        · simp only [opens, if_true]
          rfl
        · simp [boundary, opens, next]
      simp only [opens, Bool.false_eq_true, if_false]
      rw [bind_apply, advanced]
      have fewer : rest.length ≤ b := by simpa [next] using fits
      obtain ⟨r₅, skipped, both₅⟩ := ih both₄ (both₃.behind next both₄) fewer
      refine ⟨r₅, skipped, ?_⟩
      have further : boundary t (u :: rest) = boundary u rest := by
        simp [boundary, isSemicolon, opens]
      rw [further]
      exact both₅

theorem synchronize (both : At l c r) (moved : c.upcoming = [] → 0 < r.position)
    (fits : c.upcoming.length ≤ b) :
    ∃ c' r', Grammar.resume c = .ok () c' ∧ Buffer.synchronize b r = .ok () r' ∧ At l c' r' ∧
      c'.upcoming.length ≤ c.upcoming.length - 1 := by
  rw [Buffer.synchronize, bind_apply]
  cases next : c.upcoming with
  | nil =>
    obtain ⟨t, r₁, advanced, both₁, behind⟩ := both.advance_end next (moved next)
    obtain ⟨r₂, skipped, both₂⟩ := both₁.skip behind fits
    rw [advanced]
    refine ⟨_, r₂, rfl, skipped, ?_, ?_⟩
    · simpa [next, boundary] using both₂
    · simp [next]
  | cons t rest =>
    obtain ⟨r₁, advanced, both₁⟩ := both.advance next
    have fewer : rest.length ≤ b := by simp only [next, List.length_cons] at fits; omega
    obtain ⟨r₂, skipped, both₂⟩ := both₁.skip (both.behind next both₁) fewer
    rw [advanced]
    refine ⟨_, r₂, rfl, skipped, ?_, ?_⟩
    · simpa [next] using both₂
    · simpa [next] using (Grammar.boundary_suffix t rest).length_le

/-- Whether the declarations of a block or of a file end here. -/
theorem closes (both : At l c r) (closing : Option TokenKind) :
    ∃ r', closing.elim (pure false) Buffer.sees r = .ok (closing.any c.sees) r' ∧ At l c r' := by
  cases closing with
  | none => exact ⟨r, rfl, both⟩
  | some kind => exact both.sees kind

end At

/-- Where a rule gives up a token at least is skipped, or all were consumed. -/
theorem recovering_ok {x : Rule Stmt} {y : Reading Stmt} (rule : Tracks l true k x y) (fits : k ≤ b)
    (both : At l c r) (some : c.upcoming ≠ []) (few : c.upcoming.length ≤ k) :
    ∃ a c' r', Grammar.recovering x c = .ok a c' ∧ recovering b y r = .ok a r' ∧ At l c' r' ∧
      c'.upcoming.length < c.upcoming.length := by
  have positive := List.length_pos_iff.2 some
  have together := rule both few
  rw [Grammar.recovering, recovering]
  generalize x c = u, y r = v at together ⊢
  cases together with
  | ok both' taken => exact ⟨_, _, _, rfl, rfl, both', taken⟩
  | @reported _ c' r' both' less =>
    -- At the end everything was consumed, and there was something to consume.
    have moved (none : c'.upcoming = []) : 0 < r'.position := by
      have position := both.position_eq
      have position' := both'.position_eq
      rw [none, List.length_nil] at position'
      omega
    have enough : c'.upcoming.length ≤ b := Nat.le_trans less (Nat.le_trans few fits)
    obtain ⟨c'', r'', resumed, skipped, both'', fewer⟩ := both'.synchronize moved enough
    refine ⟨none, c'', r'', ?_, ?_, both'', by omega⟩
    · show (Grammar.resume >>= fun _ => pure none : Rule (Option Stmt)) c' = _
      rw [Grammar.bind_apply, resumed]
      rfl
    · show (Buffer.synchronize b >>= fun _ => pure none : Reading (Option Stmt)) r' = _
      rw [bind_apply, skipped]
      rfl

theorem proceeds_declaring {x : Rule Stmt} {y : Reading Stmt} (rule : Tracks l true k x y)
    (fits : k ≤ b) : Proceeds l k (Grammar.recovering x) (declaring b y) := by
  intro c r both some few
  obtain ⟨r₁, looked, both₁⟩ := both.peek
  obtain ⟨a, c', r', here, there, both', less⟩ := recovering_ok rule fits both₁ some few
  have position := both.position_eq
  have position' := both'.position_eq
  refine ⟨a, c', _, here, ?_, both'.keep (e := .declared r.position r'.position) ?_, less⟩
  · show (Buffer.peek >>= fun _ => recovering b y >>= fun read => _ : Reading (Option Stmt)) r = _
    rw [bind_apply, looked]
    dsimp only
    rw [bind_apply, there]
    rfl
  · exact ⟨by omega, both'.within⟩

section

variable {x : Rule (Option Stmt)} {y : Reading (Option Stmt)} {more : Cursor → Bool}
  {closing : Option TokenKind} (agree : ∀ c, more c = !closing.any c.sees)
include agree

theorem declarations_over (both : At l c r) (ended : c.upcoming = [] ∨ more c = false) :
    ∃ r', Grammar.declarations x more b c = .ok [] c ∧ declarations y closing b' r = .ok [] r' ∧
      At l c r' := by
  obtain ⟨r₁, asked, both₁⟩ := both.atEnd
  obtain ⟨r₂, closed, both₂⟩ := both₁.closes closing
  rw [agree] at ended
  have ended : (c.upcoming.isEmpty || closing.any c.sees) = true := by
    rcases ended with none | closes
    · simp [none]
    · simp only [Bool.not_eq_false'] at closes
      rw [closes, Bool.or_true]
  refine ⟨r₂, ?_, ?_, both₂⟩
  · rw [Grammar.declarations.eq_def]
    show (if (c.upcoming.isEmpty || !more c) = true then _ else _ : Rule (List Stmt)) c = _
    rw [agree, Bool.not_not, ended]
    rfl
  · rw [declarations.eq_def, bind_apply, asked]
    dsimp only
    rw [bind_apply, closed]
    dsimp only
    rw [ended]
    rfl

theorem declarations_further (both : At l c r) (some : c.upcoming ≠ []) (goes : more c = true) :
    ∃ r', Grammar.declarations x more (b + 1) c = (do
        let first ← x
        return first.toList ++ (← Grammar.declarations x more b) : Rule (List Stmt)) c ∧
      declarations y closing (b' + 1) r = (do
        let first ← y
        return first.toList ++ (← declarations y closing b') : Reading (List Stmt)) r' ∧
      At l c r' := by
  obtain ⟨r₁, asked, both₁⟩ := both.atEnd
  obtain ⟨r₂, closed, both₂⟩ := both₁.closes closing
  rw [agree] at goes
  have further : (c.upcoming.isEmpty || closing.any c.sees) = false := by
    simpa using ⟨some, by simpa using goes⟩
  refine ⟨r₂, ?_, ?_, both₂⟩
  · rw [Grammar.declarations.eq_def]
    show (if (c.upcoming.isEmpty || !more c) = true then _ else _ : Rule (List Stmt)) c = _
    rw [agree, Bool.not_not, further]
    rfl
  · rw [declarations.eq_def, bind_apply, asked]
    dsimp only
    rw [bind_apply, closed]
    dsimp only
    rw [further]
    rfl

/-- As every declaration goes on, as many as there are tokens are enough. -/
theorem declarations_ok (declaration : Proceeds l k x y) (fits : k ≤ b) (fits' : k ≤ b')
    (both : At l c r) (few : c.upcoming.length ≤ k) :
    ∃ list c' r', Grammar.declarations x more b c = .ok list c' ∧ declarations y closing b' r = .ok list r' ∧
      At l c' r' ∧ c'.upcoming.length ≤ c.upcoming.length ∧ (c'.upcoming = [] ∨ more c' = false) := by
  induction b generalizing k b' c r with
  | zero =>
    have none : c.upcoming = [] := List.length_eq_zero_iff.1 (by omega)
    obtain ⟨r', here, there, both'⟩ := declarations_over agree both (.inl none)
    exact ⟨[], c, r', here, there, both', Nat.le_refl _, .inl none⟩
  | succ b ih =>
    by_cases ended : c.upcoming = [] ∨ more c = false
    · obtain ⟨r', here, there, both'⟩ := declarations_over agree both ended
      exact ⟨[], c, r', here, there, both', Nat.le_refl _, ended⟩
    · simp only [not_or, Bool.not_eq_false] at ended
      obtain ⟨some, goes⟩ := ended
      have positive := List.length_pos_iff.2 some
      obtain ⟨d, rfl, enough⟩ := bound_of_more fits' (j := k - 1) (by omega)
      obtain ⟨r₁, here, there, both₁⟩ := declarations_further agree both some goes
      obtain ⟨first, c₂, r₂, ran, ran', both₂, less⟩ := declaration both₁ some few
      obtain ⟨list, c₃, r₃, later, later', both₃, less', ended⟩ :=
        ih (declaration.mono (Nat.sub_le k 1)) (by omega) enough both₂ (by omega)
      refine ⟨first.toList ++ list, c₃, r₃, ?_, ?_, both₃, by omega, ended⟩
      · rw [here, Grammar.bind_apply, ran]
        dsimp only
        rw [Grammar.bind_apply, later]
        rfl
      · rw [there, bind_apply, ran']
        dsimp only
        rw [bind_apply, later']
        rfl

theorem tracks_declarations (declaration : Proceeds l k x y) (fits : k ≤ b) (fits' : k ≤ b') :
    Tracks l false k (Grammar.declarations x more b) (declarations y closing b') := by
  intro c r both few
  obtain ⟨list, c', r', here, there, both', less, -⟩ :=
    declarations_ok agree declaration fits fits' both few
  rw [here, there]
  exact .ok both' less

end

end Lox.Buffer
