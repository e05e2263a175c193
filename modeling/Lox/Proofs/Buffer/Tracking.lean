import Lox.Proofs.Buffer.Place

/-! The two readers, step for step. From one place both come to one place, with the same result or the
same reports, and neither runs out of its bound or looks where there is no token. `Tracks` has one law for
every way rules are put together. -/
namespace Lox.Buffer

open Grammar (Cursor Rule)

/-- With so many tokens left, both rules succeed with one result, behind a token at least if they are
`strict`, or both give up with a report. -/
inductive Together (l : Layout) (strict : Bool) (left : Nat) :
    EStateM.Result Grammar.Halt Cursor α → EStateM.Result Halt State α → Prop where
  | ok : At l c r → c.upcoming.length + strict.toNat ≤ left → Together l strict left (.ok a c) (.ok a r)
  | reported : At l c r → c.upcoming.length ≤ left →
      Together l strict left (.error .reported c) (.error .reported r)

/-- From any place with at most `k` tokens before the end. -/
def Tracks (l : Layout) (strict : Bool) (k : Nat) (x : Rule α) (y : Reading α) : Prop :=
  ∀ ⦃c r⦄, At l c r → c.upcoming.length ≤ k → Together l strict c.upcoming.length (x c) (y r)

variable {l : Layout} {strict : Bool} {c : Cursor} {t : Token} {kind : TokenKind}
  {kinds : List TokenKind} {j k : Nat}

namespace Together

variable {u : EStateM.Result Grammar.Halt Cursor α} {v : EStateM.Result Halt State α}

theorem later (together : Together l strict j u v) (fewer : j ≤ k) : Together l strict k u v := by
  cases together with
  | ok both taken => exact .ok both (Nat.le_trans taken fewer)
  | reported both less => exact .reported both (Nat.le_trans less fewer)

/-- A token that was taken counts. -/
theorem behind (together : Together l false j u v) (fewer : j + 1 ≤ k) : Together l strict k u v := by
  cases together with
  | ok both less =>
    exact .ok both (Nat.le_trans (Nat.add_le_add less (Bool.toNat_le strict)) fewer)
  | reported both less => exact .reported both (Nat.le_trans less (Nat.le_of_succ_le fewer))

theorem weaken (together : Together l true k u v) : Together l strict k u v := by
  cases together with
  | ok both taken => exact .ok both (Nat.le_trans (Nat.add_le_add_left (Bool.toNat_le strict) _) taken)
  | reported both less => exact .reported both less

end Together

namespace Tracks

theorem mono {x : Rule α} {y : Reading α} (tracks : Tracks l strict k x y) (fewer : j ≤ k) :
    Tracks l strict j x y := fun _ _ both few => tracks both (Nat.le_trans few fewer)

theorem weaken {x : Rule α} {y : Reading α} (tracks : Tracks l true k x y) : Tracks l strict k x y :=
  fun _ _ both few => (tracks both few).weaken

theorem pure {a : α} : Tracks l false k (pure a) (pure a) := fun _ _ both _ => .ok both (Nat.le_refl _)

theorem bind {x : Rule α} {y : Reading α} {f : α → Rule β} {g : α → Reading β}
    (first : Tracks l false k x y) (second : ∀ a, Tracks l strict k (f a) (g a)) :
    Tracks l strict k (x >>= f) (y >>= g) := by
  intro c r both few
  rw [Grammar.bind_apply, bind_apply]
  have together := first both few
  generalize x c = u, y r = v at together ⊢
  cases together with
  | ok both' less => exact (second _ both' (Nat.le_trans less few)).later less
  | reported both' less => exact .reported both' less

/-- Behind a rule that takes a token fewer are left. -/
theorem behind {x : Rule α} {y : Reading α} {f : α → Rule β} {g : α → Reading β}
    (first : Tracks l true k x y) (second : ∀ a j, k = j + 1 → Tracks l false j (f a) (g a)) :
    Tracks l strict k (x >>= f) (y >>= g) := by
  intro c r both few
  rw [Grammar.bind_apply, bind_apply]
  have together := first both few
  generalize x c = u, y r = v at together ⊢
  cases together with
  | ok both' taken =>
    rw [Bool.toNat_true] at taken
    obtain ⟨j, rfl⟩ : ∃ j, k = j + 1 := ⟨k - 1, by omega⟩
    exact (second _ j rfl both' (by omega)).behind taken
  | reported both' less => exact .reported both' less

theorem map {x : Rule α} {y : Reading α} {g : α → β} (tracks : Tracks l strict k x y) :
    Tracks l strict k (g <$> x) (g <$> y) := by
  intro c r both few
  have together := tracks both few
  rw [Grammar.map_apply, show (g <$> y) r = (y >>= fun a => Pure.pure (g a)) r from rfl, bind_apply]
  generalize x c = u, y r = v at together ⊢
  cases together with
  | ok both' taken => exact .ok both' taken
  | reported both' less => exact .reported both' less

/-- The token at the position is what the list begins with. -/
theorem peek {f : Cursor → Rule β} {g : Token → Reading β}
    (second : ∀ c, Tracks l strict k (f c) (g c.peek)) :
    Tracks l strict k (get >>= f) (Buffer.peek >>= g) := by
  intro c r both few
  obtain ⟨r', looked, both'⟩ := both.peek
  rw [bind_apply, looked]
  exact second c both' few

/-- Before the end a token at least is left. -/
theorem atEnd {f : Bool → Rule β} {g : Bool → Reading β} (ended : Tracks l strict k (f true) (g true))
    (more : ∀ j, k = j + 1 → Tracks l strict k (f false) (g false)) :
    Tracks l strict k (Grammar.atEnd >>= f) (Buffer.atEnd >>= g) := by
  intro c r both few
  obtain ⟨r', asked, both'⟩ := both.atEnd
  rw [bind_apply, asked]
  show Together l strict _ (f c.upcoming.isEmpty c) _
  cases next : c.upcoming with
  | nil => simpa [next] using ended both' few
  | cons t rest =>
    have left := few
    rw [next, List.length_cons] at left
    simpa [next] using more (k - 1) (by omega) both' few

theorem sees {f : Bool → Rule β} {g : Bool → Reading β}
    (second : ∀ b, Tracks l strict k (f b) (g b)) :
    Tracks l strict k (Grammar.sees kind >>= f) (Buffer.sees kind >>= g) := by
  intro c r both few
  obtain ⟨r', asked, both'⟩ := both.sees kind
  rw [bind_apply, asked]
  exact second _ both' few

theorem fresh {f : Occurrence → Rule β} {g : Occurrence → Reading β}
    (second : ∀ i, Tracks l strict k (f i) (g i)) :
    Tracks l strict k (Grammar.freshOccurrence >>= f) (freshOccurrence >>= g) := by
  intro c r both few
  have later := second c.fresh both.used few
  show Together l strict _ (f c.fresh { c with fresh := c.fresh + 1 })
    (g r.fresh { r with fresh := r.fresh + 1 })
  rw [both.fresh] at later ⊢
  exact later

theorem report {e : SyntaxError} {f : Unit → Rule β} {g : Unit → Reading β}
    (second : Tracks l strict k (f ()) (g ())) :
    Tracks l strict k (Grammar.report t e >>= f) (Buffer.report t e >>= g) := by
  intro c r both few
  have later := second (both.reported (.syntactic t.line t.place e)) few
  exact later

theorem fail {e : SyntaxError} : Tracks l strict k (Grammar.fail t e : Rule α) (Buffer.fail t e) := by
  intro c r both few
  exact .reported (both.reported _) (Nat.le_refl _)

theorem failHere {e : SyntaxError} :
    Tracks l strict k (do Grammar.fail (← get).peek e : Rule α) (do Buffer.fail (← Buffer.peek) e) :=
  .peek fun _ => .fail

/-- What is over a limit is reported in passing. -/
theorem limited {beyond : Prop} [Decidable beyond] {e : SyntaxError} {f : Unit → Rule β}
    {g : Unit → Reading β} (second : Tracks l strict k (f ()) (g ())) :
    Tracks l strict k
      (if beyond then do
          let c ← MonadState.get
          let u ← Grammar.report (Cursor.peek c) e
          f u
        else f ())
      (if beyond then do
          let t ← Buffer.peek
          let u ← Buffer.report t e
          g u
        else g ()) := by
  split
  · exact .peek fun _ => .report second
  · exact second

/-- A token is taken only before the end, and then fewer are left. -/
theorem accept? {x : Rule β} {x' : Reading β} {y : Token → Rule β} {y' : Token → Reading β}
    (absent : Tracks l strict k x x')
    (present : ∀ t j, k = j + 1 → t.kind ∈ kinds → Tracks l false j (y t) (y' t)) :
    Tracks l strict k
      (do match ← Grammar.accept? kinds with
        | none => x
        | some t => y t)
      (do match ← Buffer.accept? kinds with
        | none => x'
        | some t => y' t) := by
  intro c r both few
  rw [Grammar.bind_apply, bind_apply]
  rcases both.accept? kinds with ⟨here, r', there, both'⟩ | ⟨t, rest, r', member, next, here, there, both'⟩
  · rw [here, there]
    exact absent both' few
  · rw [here, there]
    rw [next, List.length_cons] at few ⊢
    obtain ⟨j, rfl⟩ : ∃ j, k = j + 1 := ⟨k - 1, by omega⟩
    exact (present t j rfl member both' (Nat.le_of_succ_le_succ few)).behind (Nat.le_refl _)

theorem consume {expected : Expected} {f : Token → Rule β} {g : Token → Reading β}
    (second : ∀ t j, k = j + 1 → t.kind = kind → Tracks l false j (f t) (g t)) :
    Tracks l strict k (Grammar.consume kind expected >>= f) (Buffer.consume kind expected >>= g) := by
  intro c r both few
  rw [Grammar.bind_apply, bind_apply]
  rcases both.consume kind expected with
    ⟨t, rest, r', same, next, here, there, both'⟩ | ⟨c', r', here, there, both', same⟩
  · rw [here, there]
    rw [next, List.length_cons] at few ⊢
    obtain ⟨j, rfl⟩ : ∃ j, k = j + 1 := ⟨k - 1, by omega⟩
    exact (second t j rfl same both' (Nat.le_of_succ_le_succ few)).behind (Nat.le_refl _)
  · rw [here, there]
    exact .reported both' (Nat.le_of_eq (congrArg List.length same))

end Tracks

end Lox.Buffer
