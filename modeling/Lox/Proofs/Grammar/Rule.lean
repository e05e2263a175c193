import Lox.Grammar.Statement

/-! Two judgments on grammar rules, each with one law for every way rules are put together. `Sound`
says what a rule has read when nothing was reported; `Reads` says what a rule does with given tokens,
whatever else the cursor holds. A rule is shown sound, and shown to read a derivation, by following
its text with these laws. -/
namespace Lox.Grammar

/-- What a rule took, what it left, the identities it used and its result. -/
abbrev Reading (α : Type) := (ts rest : List Token) → (first next : Occurrence) → α → Prop

/-- What was read is there. -/
def Reading.found (Q : Reading α) : Reading (Option α) :=
  fun ts rest n m result => ∃ a, result = some a ∧ Q ts rest n m a

/-- The cursor moved from `c` to `c'` by a reading without an error on record. -/
def Moves (c c' : Cursor) (Q : Reading α) (a : α) : Prop :=
  c.errors = [] ∧ ∃ ts, c.upcoming = ts ++ c'.upcoming ∧ Q ts c'.upcoming c.fresh c'.fresh a

/-- Identities are not used again, whatever a rule comes to. -/
def Ends (c : Cursor) (Q : Reading α) : EStateM.Result Halt Cursor α → Prop
  | .ok a c' => c.fresh ≤ c'.fresh ∧ (c'.errors = [] → Moves c c' Q a)
  | .error .reported c' => c.fresh ≤ c'.fresh ∧ c'.errors ≠ []
  | .error .exhausted c' => c.fresh ≤ c'.fresh

/-- If no error is on record in the end then none was before, and what was read is as told. A rule
that gives up leaves an error. -/
def Sound (rule : Rule α) (Q : Reading α) : Prop := ∀ c, Ends c Q (rule c)

/-- From the tokens `ts` and more the rule goes on as `later` does from behind them. -/
def Leads (rule later : Rule α) (ts rest : List Token) (first next : Occurrence) : Prop :=
  ∀ last errors, rule ⟨ts ++ rest, last, errors, first⟩ = later ⟨rest, last, errors, next⟩

/-- From the tokens `ts` and more the rule takes just these, reports nothing and gives `a`. -/
abbrev Reads (rule : Rule α) (ts rest : List Token) (first next : Occurrence) (a : α) : Prop :=
  Leads rule (pure a) ts rest first next

/-- The next token, if any, is of none of the kinds. -/
def Stops (kinds : List TokenKind) (ts : List Token) : Prop := ∀ t ∈ ts.head?, t.kind ∉ kinds

@[simp] theorem stops_nil : Stops kinds [] := by simp [Stops]
@[simp] theorem stops_cons : Stops kinds (t :: ts) ↔ t.kind ∉ kinds := by simp [Stops]

theorem Stops.mono (stops : Stops kinds ts) (fewer : ∀ kind ∈ others, kind ∈ kinds) :
    Stops others ts := fun t next member => stops t next (fewer _ member)

theorem Stops.tail (stops : Stops (kind :: kinds) ts) : Stops kinds ts :=
  stops.mono fun _ => List.mem_cons_of_mem _

theorem Stops.append (first : Stops kinds ts) (second : Stops kinds us) : Stops kinds (ts ++ us) := by
  cases ts with
  | nil => exact second
  | cons t ts => exact stops_cons.2 (stops_cons.1 first)

theorem bind_apply (x : Rule α) (f : α → Rule β) (c : Cursor) :
    (x >>= f) c = match x c with
      | .ok a c => f a c
      | .error halt c => .error halt c := by
  simp only [bind, EStateM.bind]
  split <;> rename_i h <;> rw [h]

theorem map_apply (g : α → β) (x : Rule α) (c : Cursor) :
    (g <$> x) c = match x c with
      | .ok a c => .ok (g a) c
      | .error halt c => .error halt c := by
  simp only [Functor.map, EStateM.map]
  split <;> rename_i h <;> rw [h]

theorem accept?_cases (kinds : List TokenKind) (c : Cursor) :
    (accept? kinds c = .ok none c ∧ Stops kinds c.upcoming) ∨
    ∃ t rest, c.upcoming = t :: rest ∧ t.kind ∈ kinds ∧
      accept? kinds c = .ok (some t) { c with upcoming := rest } := by
  unfold accept?
  cases tokens : c.upcoming with
  | nil => simp
  | cons t rest =>
    by_cases member : t.kind ∈ kinds
    · exact .inr ⟨t, rest, rfl, member, by simp [member]⟩
    · exact .inl ⟨by simp [member], by simpa using member⟩

theorem consume_cases (kind : TokenKind) (expected : Expected) (c : Cursor) :
    (∃ t rest, c.upcoming = t :: rest ∧ t.kind = kind ∧
      consume kind expected c = .ok t { c with upcoming := rest }) ∨
    ∃ c', consume kind expected c = .error .reported c' ∧ c'.errors ≠ [] ∧
      c'.fresh = c.fresh := by
  unfold consume
  rw [bind_apply]
  rcases accept?_cases [kind] c with ⟨ran, -⟩ | ⟨t, rest, tokens, member, ran⟩ <;> rw [ran]
  · exact .inr ⟨_, rfl, by simp, rfl⟩
  · exact .inl ⟨t, rest, tokens, by simpa using member, rfl⟩

theorem Ends.imp {P Q : Reading α} (ends : Ends c P r) (earlier : d.fresh ≤ c.fresh)
    (moves : ∀ a c', c'.errors = [] → Moves c c' P a → Moves d c' Q a) : Ends d Q r := by
  cases r with
  | ok a c' => exact ⟨Nat.le_trans earlier ends.1, fun clean => moves a c' clean (ends.2 clean)⟩
  | error halt c' =>
    cases halt with
    | reported => exact ⟨Nat.le_trans earlier ends.1, ends.2⟩
    | exhausted => exact Nat.le_trans earlier ends

theorem Ends.fresh_le {Q : Reading α} (ends : Ends c Q (.error halt c')) : c.fresh ≤ c'.fresh := by
  cases halt with
  | reported => exact ends.1
  | exhausted => exact ends

namespace Sound

theorem mono {P Q : Reading α} (sound : Sound rule P)
    (weaker : ∀ {ts rest n m a}, P ts rest n m a → Q ts rest n m a) : Sound rule Q := by
  intro c
  refine (sound c).imp (Nat.le_refl _) ?_
  rintro a c' - ⟨before, ts, split, holds⟩
  exact ⟨before, ts, split, weaker holds⟩

theorem pure {Q : Reading α} (holds : ∀ rest n, Q [] rest n n a) : Sound (pure a) Q :=
  fun _ => ⟨Nat.le_refl _, fun clean => ⟨clean, [], rfl, holds _ _⟩⟩

theorem bind {P : Reading α} {Q : Reading β} (first : Sound x P)
    (second : ∀ a, Sound (f a) fun us rest k m b =>
      ∀ {ts n}, P ts (us ++ rest) n k a → Q (ts ++ us) rest n m b) : Sound (x >>= f) Q := by
  intro c
  rw [bind_apply]
  have read := first c
  cases ran : x c with
  | error halt c' =>
    rw [ran] at read
    cases halt <;> exact read
  | ok a c' =>
    rw [ran] at read
    refine (second a c').imp read.1 ?_
    rintro b c'' - ⟨between, us, splitOn, holdsOn⟩
    obtain ⟨before, ts, split, holds⟩ := read.2 between
    refine ⟨before, ts ++ us, by rw [split, splitOn, List.append_assoc], holdsOn ?_⟩
    rwa [← splitOn]

theorem map {Q : Reading β} {g : α → β} (sound : Sound x fun ts rest n m a => Q ts rest n m (g a)) :
    Sound (g <$> x) Q := by
  intro c
  rw [map_apply]
  have read := sound c
  cases ran : x c with
  | ok a c' => rw [ran] at read; exact read
  | error halt c' => rw [ran] at read; cases halt <;> exact read

theorem accept? {Q : Reading β} {x : Rule β} {y : Token → Rule β}
    (absent : Sound x fun ts rest n m b => Stops kinds (ts ++ rest) → Q ts rest n m b)
    (present : ∀ t, t.kind ∈ kinds → Sound (y t) fun ts rest n m b => Q (t :: ts) rest n m b) :
    Sound (do match ← Grammar.accept? kinds with
      | none => x
      | some t => y t) Q := by
  intro c
  rw [bind_apply]
  rcases accept?_cases kinds c with ⟨ran, stops⟩ | ⟨t, rest, tokens, member, ran⟩ <;> rw [ran]
  · refine (absent c).imp (Nat.le_refl _) ?_
    rintro a c' - ⟨before, ts, split, holds⟩
    exact ⟨before, ts, split, holds (split ▸ stops)⟩
  · refine (present t member { c with upcoming := rest }).imp (Nat.le_refl _) ?_
    rintro a c' - ⟨before, ts, split, holds⟩
    exact ⟨before, t :: ts, tokens.trans (congrArg _ split), holds⟩

theorem get {Q : Reading β} {f : Cursor → Rule β}
    (sound : ∀ c, Sound (f c) fun ts rest n m b => c.upcoming = ts ++ rest → Q ts rest n m b) :
    Sound (get >>= f) Q := by
  intro c
  refine (sound c c).imp (Nat.le_refl _) ?_
  rintro a c' - ⟨before, ts, split, holds⟩
  exact ⟨before, ts, split, holds split⟩

theorem atEnd {Q : Reading β} {f : Bool → Rule β}
    (sound : ∀ b, Sound (f b) fun ts rest n m a => b = (ts ++ rest).isEmpty → Q ts rest n m a) :
    Sound (atEnd >>= f) Q := by
  intro c
  refine (sound c.upcoming.isEmpty c).imp (Nat.le_refl _) ?_
  rintro a c' - ⟨before, ts, split, holds⟩
  exact ⟨before, ts, split, holds (by rw [split])⟩

theorem fail {Q : Reading α} : Sound (fail t e) Q := by
  intro c
  refine ⟨Nat.le_refl _, ?_⟩
  show c.errors ++ _ ≠ []
  simp

theorem exhausted {Q : Reading α} : Sound (throw .exhausted) Q := fun _ => Nat.le_refl _

/-- Behind a report nothing is claimed. -/
theorem report {P Q : Reading β} {f : Unit → Rule β} (sound : Sound (f ()) P) :
    Sound (report t e >>= f) Q := by
  intro c
  refine (sound { c with errors := c.errors ++ [.syntactic t.line t.place e] }).imp (Nat.le_refl _) ?_
  rintro a c' - ⟨before, -⟩
  simp at before

/-- What is over a limit is reported. -/
theorem limited {beyond : Prop} [Decidable beyond] {Q : Reading β} {f : Unit → Rule β}
    (sound : Sound (f ()) fun ts rest n m b => ¬ beyond → Q ts rest n m b) :
    Sound (if beyond then do
        let c ← MonadState.get
        let r ← Grammar.report (Cursor.peek c) e
        f r
      else f ()) Q := by
  split
  next => exact .get fun _ => .report sound
  next under => exact sound.mono fun holds => holds under

theorem fresh {Q : Reading β} {f : Occurrence → Rule β}
    (sound : ∀ i, Sound (f i) fun ts rest n m b => n = i + 1 → Q ts rest i m b) :
    Sound (freshOccurrence >>= f) Q := by
  intro c
  refine (sound c.fresh { c with fresh := c.fresh + 1 }).imp (Nat.le_succ _) ?_
  rintro a c' - ⟨before, ts, split, holds⟩
  exact ⟨before, ts, split, holds rfl⟩

/-- A token that has to stand next. -/
theorem consume {Q : Reading β} {f : Token → Rule β}
    (sound : ∀ t, t.kind = kind → Sound (f t) fun ts rest n m b => Q (t :: ts) rest n m b) :
    Sound (consume kind expected >>= f) Q := by
  intro c
  rw [bind_apply]
  rcases consume_cases kind expected c with ⟨t, rest, tokens, fits, ran⟩ | ⟨c', ran, left, same⟩ <;>
    rw [ran]
  · refine (sound t fits { c with upcoming := rest }).imp (Nat.le_refl _) ?_
    rintro a c' - ⟨before, ts, split, holds⟩
    exact ⟨before, t :: ts, tokens.trans (congrArg _ split), holds⟩
  · exact ⟨Nat.le_of_eq same.symm, left⟩

theorem sees {Q : Reading β} {f : Bool → Rule β}
    (absent : Sound (f false) fun ts rest n m b => Stops [kind] (ts ++ rest) → Q ts rest n m b)
    (present : Sound (f true) Q) : Sound (sees kind >>= f) Q := by
  intro c
  show Ends c Q (f (c.sees kind) c)
  cases seen : c.sees kind with
  | true => exact present c
  | false =>
    refine (absent c).imp (Nat.le_refl _) ?_
    rintro a c' - ⟨before, ts, split, holds⟩
    refine ⟨before, ts, split, holds ?_⟩
    rw [← split]
    intro t next member
    simp [Cursor.sees, Option.mem_def.1 next, List.mem_singleton.1 member] at seen

end Sound

namespace Leads

theorem refl : Leads rule rule [] rest n n := fun _ _ => rfl

theorem trans (first : Leads x y ts (us ++ rest) n k) (second : Leads y z us rest k m) :
    Leads x z (ts ++ us) rest n m := by
  intro last errors
  rw [List.append_assoc, first]
  exact second last errors

theorem bind (first : Reads x ts (us ++ rest) n k a) (second : Leads (f a) y us rest k m) :
    Leads (x >>= f) y (ts ++ us) rest n m := by
  intro last errors
  rw [bind_apply, List.append_assoc, first]
  exact second last errors

/-- The last step of a rule that takes no more tokens. -/
theorem bind_nil (first : Reads x ts rest n k a) (second : Leads (f a) y [] rest k m) :
    Leads (x >>= f) y ts rest n m := by
  intro last errors
  rw [bind_apply, first]
  exact second last errors

theorem map (read : Reads x ts rest n m a) : Reads (g <$> x) ts rest n m (g a) := by
  intro last errors
  rw [map_apply, read]
  rfl

theorem absent {x : Rule α} {y : Token → Rule α} (stops : Stops kinds (ts ++ rest))
    (leads : Leads x z ts rest n m) : Leads (do match ← accept? kinds with
      | none => x
      | some t => y t) z ts rest n m := by
  intro last errors
  rw [bind_apply]
  rcases accept?_cases kinds ⟨ts ++ rest, last, errors, n⟩ with ⟨ran, -⟩ | ⟨t, us, tokens, member, -⟩
  · rw [ran]; exact leads last errors
  · exact absurd member (stops t (by simp [show ts ++ rest = t :: us from tokens]))

theorem present {x : Rule α} {y : Token → Rule α} (member : t.kind ∈ kinds)
    (leads : Leads (y t) z ts rest n m) : Leads (do match ← accept? kinds with
      | none => x
      | some t => y t) z (t :: ts) rest n m := by
  intro last errors
  rw [bind_apply]
  simp only [accept?, List.cons_append, if_pos member]
  exact leads last errors

theorem consume {f : Token → Rule α} (fits : t.kind = kind) (leads : Leads (f t) z ts rest n m) :
    Leads (Grammar.consume kind expected >>= f) z (t :: ts) rest n m := by
  intro last errors
  have ran : Grammar.consume kind expected ⟨t :: ts ++ rest, last, errors, n⟩ =
      .ok t ⟨ts ++ rest, last, errors, n⟩ := by
    simp [Grammar.consume, accept?, bind_apply, fits, Pure.pure, EStateM.pure]
  rw [bind_apply, ran]
  exact leads last errors

theorem get {f : Cursor → Rule α} (same : ∀ last errors, f ⟨ts ++ rest, last, errors, n⟩ = x)
    (leads : Leads x z ts rest n m) : Leads (MonadState.get >>= f) z ts rest n m := by
  intro last errors
  rw [← leads, ← same last errors]
  rfl

theorem atEnd {f : Bool → Rule α} (same : (ts ++ rest).isEmpty = b)
    (leads : Leads (f b) z ts rest n m) : Leads (Grammar.atEnd >>= f) z ts rest n m := by
  intro last errors
  rw [← leads, ← same]
  rfl

theorem fresh (leads : Leads (f n) z ts rest (n + 1) m) :
    Leads (freshOccurrence >>= f) z ts rest n m := fun last errors => leads last errors

theorem unseen (stops : Stops [kind] (ts ++ rest)) (leads : Leads (f false) z ts rest n m) :
    Leads (Grammar.sees kind >>= f) z ts rest n m := by
  intro last errors
  have missing : Cursor.sees ⟨ts ++ rest, last, errors, n⟩ kind = false := by
    cases next : (ts ++ rest).head? with
    | none => simp [Cursor.sees, next]
    | some t => simpa [Cursor.sees, next] using stops t next
  show f (Cursor.sees ⟨ts ++ rest, last, errors, n⟩ kind) _ = _
  rw [missing]
  exact leads last errors

theorem seen (next : t ∈ (ts ++ rest).head?) (fits : t.kind = kind)
    (leads : Leads (f true) z ts rest n m) : Leads (Grammar.sees kind >>= f) z ts rest n m := by
  intro last errors
  have there : Cursor.sees ⟨ts ++ rest, last, errors, n⟩ kind = true := by
    simp [Cursor.sees, Option.mem_def.1 next, fits]
  show f (Cursor.sees ⟨ts ++ rest, last, errors, n⟩ kind) _ = _
  rw [there]
  exact leads last errors

end Leads

end Lox.Grammar
