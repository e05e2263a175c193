import Lox.Proofs.Buffer.Reading
import Lox.Proofs.Grammar.Rule

/-! The reader of a buffer beside the reader of a list, at one place: the list has the tokens from the
position up to the first end of the file. So no token behind that is looked up, and none before the buffer
where one was consumed. -/
namespace Lox.Buffer

open Grammar (Cursor Stops)

/-- A buffer, cut at its first end of the file. -/
structure Layout where
  front : List Token
  last : Token
  beyond : List Token
  plain : ∀ t ∈ front, t.kind ≠ .eof
  ends : last.kind = .eof

namespace Layout

def tokens (l : Layout) : List Token := l.front ++ l.last :: l.beyond

/-- The index of the first end of the file. -/
def stop (l : Layout) : Nat := l.front.length

end Layout

/-- Nothing happens behind the first end of the file, and a declaration goes on from where it begins. -/
def Event.Inside (stop : Nat) : Event → Prop
  | .looked index => index ≤ stop
  | .moved position => position ≤ stop
  | .declared before behind => before < behind ∧ behind ≤ stop

/-- Both readers are at one place and have reported the same. -/
structure At (l : Layout) (c : Cursor) (r : State) : Prop where
  tokens : r.tokens = l.tokens
  within : r.position ≤ l.stop
  upcoming : c.upcoming = l.front.drop r.position
  last : c.last = l.last
  errors : r.errors = c.errors
  fresh : r.fresh = c.fresh
  inside : ∀ e ∈ r.events, e.Inside l.stop

/-- The token was consumed last. -/
def Behind (l : Layout) (t : Token) (r : State) : Prop :=
  0 < r.position ∧ l.front[r.position - 1]? = some t

variable {l : Layout} {c : Cursor} {r r' : State} {t : Token} {rest : List Token}
  {kind : TokenKind} {kinds : List TokenKind}

theorem bind_apply (x : Reading α) (f : α → Reading β) (r : State) :
    (x >>= f) r = match x r with
      | .ok a r => f a r
      | .error halt r => .error halt r := by
  simp only [bind, EStateM.bind]
  split <;> rename_i h <;> rw [h]

theorem sees_of_stops (stops : Stops [kind] c.upcoming) : c.sees kind = false := by
  cases next : c.upcoming with
  | nil => simp [Cursor.sees, next]
  | cons t rest =>
    rw [next, Grammar.stops_cons] at stops
    simpa [Cursor.sees, next] using stops

theorem sees_of_next (next : c.upcoming = t :: rest) (same : t.kind = kind) : c.sees kind = true := by
  simp [Cursor.sees, next, same]

namespace At

theorem position_eq (both : At l c r) : r.position + c.upcoming.length = l.stop := by
  rw [both.upcoming, List.length_drop]
  exact Nat.add_sub_cancel' both.within

theorem keep (both : At l c r) {e : Event} (inside : e.Inside l.stop) :
    At l c { r with events := r.events ++ [e] } :=
  { both with
    inside := List.forall_mem_append.2 ⟨both.inside, fun _ member => List.mem_singleton.1 member ▸ inside⟩ }

theorem used (both : At l c r) :
    At l { c with fresh := c.fresh + 1 } { r with fresh := r.fresh + 1 } :=
  { both with fresh := congrArg Nat.succ both.fresh }

theorem reported (both : At l c r) (d : Diagnostic) :
    At l { c with errors := c.errors ++ [d] } { r with errors := r.errors ++ [d] } :=
  { both with errors := congrArg (fun errors => errors ++ [d]) both.errors }

theorem look (both : At l c r) {index : Nat} (found : l.tokens[index]? = some t)
    (under : index ≤ l.stop) : ∃ r', Buffer.look index r = .ok t r' ∧ At l c r' := by
  refine ⟨_, ?_, both.keep (e := .looked index) under⟩
  rw [Buffer.look, both.tokens, found]

/-- At the position stands what comes first, or the end of the file. -/
theorem found (both : At l c r) : l.tokens[r.position]? = some c.peek := by
  rw [Layout.tokens, Cursor.peek, both.upcoming, both.last, List.head?_drop]
  by_cases before : r.position < l.front.length
  · rw [List.getElem?_append_left before, List.getElem?_eq_getElem before]
    rfl
  · have same : r.position = l.front.length := Nat.le_antisymm both.within (Nat.le_of_not_lt before)
    rw [same, List.getElem?_append_right (Nat.le_refl _), List.getElem?_eq_none (Nat.le_refl _)]
    simp

theorem peek (both : At l c r) : ∃ r', Buffer.peek r = .ok c.peek r' ∧ At l c r' :=
  both.look both.found both.within

theorem position_same (both : At l c r) (both' : At l c r') : r'.position = r.position :=
  Nat.add_right_cancel (both'.position_eq.trans both.position_eq.symm)

theorem behind_same (both : At l c r) (both' : At l c r') (behind : Behind l t r) : Behind l t r' := by
  rwa [Behind, both.position_same both']

theorem previous (both : At l c r) (behind : Behind l t r) :
    ∃ r', Buffer.previous r = .ok t r' ∧ At l c r' := by
  obtain ⟨moved, here⟩ := behind
  obtain ⟨before, same⟩ := Nat.exists_eq_succ_of_ne_zero (Nat.ne_of_gt moved)
  rw [same, Nat.succ_sub_one] at here
  obtain ⟨under, -⟩ := List.getElem?_eq_some_iff.1 here
  have found : l.tokens[before]? = some t := by
    rw [Layout.tokens, List.getElem?_append_left under, here]
  obtain ⟨r', looked, both'⟩ := both.look found (Nat.le_of_lt under)
  have asked : Buffer.previous r = Buffer.look before r := by
    cases r
    cases same
    rfl
  exact ⟨r', asked.trans looked, both'⟩

/-- There is a token before the position, if anything was consumed. -/
theorem consumed (both : At l c r) (moved : 0 < r.position) : ∃ t, Behind l t r := by
  have within : r.position ≤ l.front.length := both.within
  exact ⟨_, moved, List.getElem?_eq_getElem (by omega)⟩

theorem atEnd (both : At l c r) :
    ∃ r', Buffer.atEnd r = .ok c.upcoming.isEmpty r' ∧ At l c r' := by
  obtain ⟨r', looked, both'⟩ := both.peek
  refine ⟨r', ?_, both'⟩
  have answer : decide (c.peek.kind = .eof) = c.upcoming.isEmpty := by
    cases next : c.upcoming with
    | nil => simp [Cursor.peek, next, both.last, l.ends]
    | cons t rest =>
      have among : t ∈ l.front := by
        refine List.mem_of_mem_drop (i := r.position) ?_
        rw [← both.upcoming, next]
        exact List.mem_cons_self ..
      simp [Cursor.peek, next, l.plain t among]
  rw [Buffer.atEnd, bind_apply, looked, ← answer]
  rfl

theorem sees (both : At l c r) (kind : TokenKind) :
    ∃ r', Buffer.sees kind r = .ok (c.sees kind) r' ∧ At l c r' := by
  obtain ⟨r₁, asked, both₁⟩ := both.atEnd
  rw [Buffer.sees, bind_apply, asked]
  cases next : c.upcoming with
  | nil => exact ⟨r₁, by simp [Cursor.sees, next]; rfl, both₁⟩
  | cons t rest =>
    obtain ⟨r₂, looked, both₂⟩ := both₁.peek
    refine ⟨r₂, ?_, both₂⟩
    simp only [List.isEmpty_cons, Bool.false_eq_true, if_false]
    rw [bind_apply, looked]
    simp only [Cursor.peek, Cursor.sees, next, List.head?_cons, Option.getD_some, Option.any_some]
    rfl

/-- One token further. -/
theorem move (both : At l c r) (next : c.upcoming = t :: rest) :
    ∃ r', Buffer.move r = .ok () r' ∧ At l { c with upcoming := rest } r' := by
  have under : r.position + 1 ≤ l.stop := by
    have position := both.position_eq
    rw [next, List.length_cons] at position
    omega
  have left : l.front.drop r.position = t :: rest := both.upcoming ▸ next
  refine ⟨_, rfl, { both with
    within := under
    upcoming := ?_
    inside := (both.keep (e := .moved (r.position + 1)) under).inside }⟩
  show rest = l.front.drop (r.position + 1)
  rw [← List.tail_drop, left]
  rfl

theorem behind (both : At l c r) (next : c.upcoming = t :: rest)
    (later : At l { c with upcoming := rest } r') : Behind l t r' := by
  have position := both.position_eq
  have position' := later.position_eq
  simp only [next, List.length_cons] at position position'
  have same : r'.position = r.position + 1 := by omega
  rw [Behind, same, Nat.add_sub_cancel, ← List.head?_drop, ← both.upcoming, next]
  exact ⟨Nat.succ_pos _, rfl⟩

theorem advance (both : At l c r) (next : c.upcoming = t :: rest) :
    ∃ r', Buffer.advance r = .ok t r' ∧ At l { c with upcoming := rest } r' := by
  obtain ⟨r₁, asked, both₁⟩ := both.atEnd
  obtain ⟨r₂, moved, both₂⟩ := both₁.move next
  obtain ⟨r₃, looked, both₃⟩ := both₂.previous (both₁.behind next both₂)
  refine ⟨r₃, ?_, both₃⟩
  rw [Buffer.advance, bind_apply, asked]
  simp only [next, List.isEmpty_cons, Bool.not_false, if_true]
  rw [bind_apply, moved]
  exact looked

/-- At the end of the file the position stays, and there is a token before it if one was consumed. -/
theorem advance_end (both : At l c r) (none : c.upcoming = []) (moved : 0 < r.position) :
    ∃ t r', Buffer.advance r = .ok t r' ∧ At l c r' ∧ Behind l t r' := by
  obtain ⟨r₁, asked, both₁⟩ := both.atEnd
  obtain ⟨t, behind⟩ := both₁.consumed (both.position_same both₁ ▸ moved)
  obtain ⟨r₂, looked, both₂⟩ := both₁.previous behind
  refine ⟨t, r₂, ?_, both₂, both₁.behind_same both₂ behind⟩
  rw [Buffer.advance, bind_apply, asked]
  simp only [none, List.isEmpty_nil, Bool.not_true, Bool.false_eq_true, if_false]
  exact looked

/-- The next token is of no such kind, or there is none. -/
theorem accepts_false (both : At l c r) (stops : Stops [kind] c.upcoming) :
    ∃ r', Buffer.accepts kind r = .ok false r' ∧ At l c r' := by
  obtain ⟨r', asked, both'⟩ := both.sees kind
  refine ⟨r', ?_, both'⟩
  rw [Buffer.accepts, bind_apply, asked, sees_of_stops stops]
  rfl

theorem accepts_true (both : At l c r) (next : c.upcoming = t :: rest) (same : t.kind = kind) :
    ∃ r', Buffer.accepts kind r = .ok true r' ∧ At l { c with upcoming := rest } r' := by
  obtain ⟨r₁, asked, both₁⟩ := both.sees kind
  obtain ⟨r₂, moved, both₂⟩ := both₁.advance next
  refine ⟨r₂, ?_, both₂⟩
  rw [Buffer.accepts, bind_apply, asked, sees_of_next next same]
  simp only [if_true]
  rw [bind_apply, moved]
  rfl

theorem acceptsOne_false (both : At l c r) (stops : Stops kinds c.upcoming) :
    ∃ r', Buffer.acceptsOne kinds r = .ok false r' ∧ At l c r' := by
  induction kinds generalizing r with
  | nil => exact ⟨r, rfl, both⟩
  | cons kind kinds ih =>
    have first : Stops [kind] c.upcoming := stops.mono (by simp)
    obtain ⟨r₁, asked, both₁⟩ := both.accepts_false first
    obtain ⟨r₂, others, both₂⟩ := ih both₁ stops.tail
    refine ⟨r₂, ?_, both₂⟩
    rw [Buffer.acceptsOne, bind_apply, asked]
    exact others

theorem acceptsOne_true (both : At l c r) (next : c.upcoming = t :: rest) (member : t.kind ∈ kinds) :
    ∃ r', Buffer.acceptsOne kinds r = .ok true r' ∧ At l { c with upcoming := rest } r' := by
  induction kinds generalizing r with
  | nil => cases member
  | cons kind kinds ih =>
    rw [Buffer.acceptsOne, bind_apply]
    by_cases same : t.kind = kind
    · obtain ⟨r', asked, both'⟩ := both.accepts_true next same
      rw [asked]
      exact ⟨r', rfl, both'⟩
    · have stops : Stops [kind] c.upcoming := by simpa [next] using same
      obtain ⟨r₁, asked, both₁⟩ := both.accepts_false stops
      rw [asked]
      exact ih both₁ (List.mem_of_ne_of_mem same member)

/-- The token that is consumed is looked up again behind it. -/
theorem accept? (both : At l c r) (kinds : List TokenKind) :
    (Grammar.accept? kinds c = .ok none c ∧ ∃ r', Buffer.accept? kinds r = .ok none r' ∧ At l c r') ∨
    ∃ t rest r', t.kind ∈ kinds ∧ c.upcoming = t :: rest ∧
      Grammar.accept? kinds c = .ok (some t) { c with upcoming := rest } ∧
      Buffer.accept? kinds r = .ok (some t) r' ∧ At l { c with upcoming := rest } r' := by
  rw [Buffer.accept?, bind_apply]
  rcases Grammar.accept?_cases kinds c with ⟨ran, stops⟩ | ⟨t, rest, next, member, ran⟩
  · obtain ⟨r', asked, both'⟩ := both.acceptsOne_false stops
    rw [asked]
    exact .inl ⟨ran, r', rfl, both'⟩
  · obtain ⟨r₁, asked, both₁⟩ := both.acceptsOne_true next member
    obtain ⟨r₂, looked, both₂⟩ := both₁.previous (both.behind next both₁)
    refine .inr ⟨t, rest, r₂, member, next, ran, ?_, both₂⟩
    rw [asked]
    simp only [if_true]
    show (Buffer.previous >>= fun t => pure (some t) : Reading (Option Token)) r₁ = _
    rw [bind_apply, looked]
    rfl

theorem consume (both : At l c r) (kind : TokenKind) (expected : Expected) :
    (∃ t rest r', t.kind = kind ∧ c.upcoming = t :: rest ∧
      Grammar.consume kind expected c = .ok t { c with upcoming := rest } ∧
      Buffer.consume kind expected r = .ok t r' ∧ At l { c with upcoming := rest } r') ∨
    ∃ c' r', Grammar.consume kind expected c = .error .reported c' ∧
      Buffer.consume kind expected r = .error .reported r' ∧ At l c' r' ∧ c'.upcoming = c.upcoming := by
  rw [Grammar.consume, Grammar.bind_apply, Buffer.consume, bind_apply]
  obtain ⟨r₁, asked, both₁⟩ := both.sees kind
  rw [asked]
  rcases Grammar.accept?_cases [kind] c with ⟨ran, stops⟩ | ⟨t, rest, next, member, ran⟩
  · obtain ⟨r₂, looked, both₂⟩ := both₁.peek
    rw [ran, sees_of_stops stops]
    refine .inr ⟨_, _, rfl, ?_, both₂.reported _, rfl⟩
    simp only [Bool.false_eq_true, if_false]
    rw [bind_apply, looked]
    rfl
  · have same : t.kind = kind := List.mem_singleton.1 member
    obtain ⟨r₂, moved, both₂⟩ := both₁.advance next
    rw [ran, sees_of_next next same]
    exact .inl ⟨t, rest, r₂, same, next, rfl, moved, both₂⟩

end At

end Lox.Buffer
