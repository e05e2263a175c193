import Lox.Proofs.Buffer.Statement

/-! Every list of tokens is read to its first end of the file, and no further. -/
namespace Lox

namespace Buffer

open Grammar (Cursor)

variable {l : Layout} {tokens : List Token} {fresh : Occurrence} {b b' : Nat}

namespace Layout

/-- The place before the first token of the front, for a reader of a list. -/
def cursor (l : Layout) (fresh : Occurrence) : Cursor := ⟨l.front, l.last, [], fresh⟩

/-- The same place for a reader of the buffer. -/
def state (l : Layout) (fresh : Occurrence) : State := ⟨l.tokens, 0, [], fresh, []⟩

/-- What stands behind the first end of the file is not even listed. -/
theorem start_eq (l : Layout) (behind : List Token) (fresh : Occurrence) :
    Cursor.start (l.front ++ l.last :: behind) fresh = l.cursor fresh := by
  have plain (t : Token) (member : t ∈ l.front) : decide (t.kind ≠ .eof) = true := by
    simpa using l.plain t member
  have front : (l.front ++ l.last :: behind).takeWhile (·.kind ≠ .eof) = l.front := by
    rw [List.takeWhile_append_of_pos plain, List.takeWhile_cons]
    simp [l.ends]
  have last : (l.front ++ l.last :: behind).find? (·.kind = .eof) = some l.last := by
    rw [List.find?_append, List.find?_eq_none.2 (by simpa using l.plain), List.find?_cons]
    simp [l.ends]
  rw [Cursor.start, front, last]
  rfl

theorem findIdx?_tokens (l : Layout) : l.tokens.findIdx? (·.kind = .eof) = some l.stop := by
  have before : l.front.findIdx? (·.kind = .eof) = none := by
    simpa [List.findIdx?_eq_none_iff] using l.plain
  rw [Layout.tokens, List.findIdx?_append, before]
  simp [l.ends, List.findIdx?_cons, Layout.stop]

/-- The first end of the file is the last token that is needed. -/
theorem take_tokens (l : Layout) : l.tokens.take (l.stop + 1) = l.front ++ [l.last] := by
  rw [Layout.tokens, Layout.stop, List.take_length_add_append, List.take_succ_cons, List.take_zero]

theorem stop_le {l : Layout} (starts : Cursor.start tokens fresh = l.cursor fresh) :
    l.stop ≤ tokens.length := by
  have cut : tokens.takeWhile (·.kind ≠ .eof) = l.front := congrArg Cursor.upcoming starts
  rw [Layout.stop, ← cut]
  exact (List.takeWhile_prefix _).length_le

end Layout

theorem closed_cases (tokens : List Token) :
    (∃ t ∈ tokens, t.kind = .eof) ∧ closed tokens = tokens ∨
      closed tokens = tokens ++ [.endOfFile ((tokens.getLast?.map (·.line)).getD 1)] := by
  rw [closed]
  cases final : tokens.getLast? with
  | none => exact .inr (by simp [List.getLast?_eq_none_iff.1 final])
  | some last =>
    dsimp only
    split
    next ends => exact .inl ⟨⟨last, List.mem_of_getLast? final, ends⟩, rfl⟩
    next => exact .inr rfl

/-- Every list of tokens is cut where the reader of a list cuts it. -/
theorem exists_layout (tokens : List Token) :
    ∃ l : Layout, l.tokens = closed tokens ∧ ∀ fresh, Cursor.start tokens fresh = l.cursor fresh := by
  cases found : tokens.find? (·.kind = .eof) with
  | some last =>
    obtain ⟨ends, front, behind, rfl, plain⟩ := List.find?_eq_some_iff_append.1 found
    have plain (t : Token) (member : t ∈ front) : t.kind ≠ .eof := by simpa using plain t member
    have ends : last.kind = .eof := by simpa using ends
    have cut (extra : List Token) : ∀ fresh, Cursor.start (front ++ last :: behind) fresh =
        Layout.cursor ⟨front, last, behind ++ extra, plain, ends⟩ fresh :=
      Layout.start_eq ⟨front, last, behind ++ extra, plain, ends⟩ behind
    rcases closed_cases (front ++ last :: behind) with ⟨-, same⟩ | same
    · exact ⟨_, by rw [same, Layout.tokens, List.append_nil], cut []⟩
    · exact ⟨_, by rw [same, Layout.tokens, List.append_assoc, List.cons_append], cut _⟩
  | none =>
    have plain (t : Token) (member : t ∈ tokens) : t.kind ≠ .eof := by
      simpa using List.find?_eq_none.1 found t member
    refine ⟨⟨tokens, .endOfFile ((tokens.getLast?.map (·.line)).getD 1), [], plain, rfl⟩, ?_, fun fresh => ?_⟩
    · rcases closed_cases tokens with ⟨⟨t, member, ends⟩, -⟩ | same
      · exact absurd ends (plain t member)
      · exact same.symm
    · rw [Cursor.start, found, List.takeWhile_eq_self_iff.2 (by simpa using plain)]
      rfl

theorem At.start (l : Layout) (fresh : Occurrence) :
    At l (l.cursor fresh) (l.state fresh) where
  tokens := rfl
  within := Nat.zero_le _
  upcoming := rfl
  last := rfl
  errors := rfl
  fresh := rfl
  inside := fun _ member => absurd member List.not_mem_nil

/-- With bounds that are enough both readers come to the first end of the file. -/
theorem program_ok (l : Layout) (fresh : Occurrence) (fits : l.stop ≤ b) (fits' : l.stop ≤ b') :
    ∃ list c r, Grammar.program b (l.cursor fresh) = .ok list c ∧
      program b' (l.state fresh) = .ok list r ∧ At l c r ∧ r.position = l.stop := by
  have declaration : Proceeds l l.stop (Grammar.rules b).declaration (rules b').declaration :=
    (follows_rules fits fits').declaration
  have endless (c : Cursor) : true = !(Option.none : Option TokenKind).any c.sees := rfl
  obtain ⟨list, c, r, here, there, both, -, ended⟩ :=
    declarations_ok endless declaration fits fits' (.start l fresh) (Nat.le_refl _)
  have none : c.upcoming = [] := by simpa using ended
  refine ⟨list, c, r, here, there, both, ?_⟩
  have position := both.position_eq
  rwa [none, List.length_nil, Nat.add_zero] at position

/-- What the reader of a list makes of it is what the reader of the buffer does, whatever the bound. -/
theorem parse_eq (starts : Cursor.start tokens fresh = l.cursor fresh) (fits : l.stop ≤ b) :
    ∃ list r, program b (l.state fresh) = .ok list r ∧ r.position = l.stop ∧
      (∀ e ∈ r.events, e.Inside l.stop) ∧
      parse tokens fresh = (if r.errors.isEmpty then .ok list else .error r.errors, r.fresh) := by
  obtain ⟨list, c, r, here, there, both, ended⟩ := program_ok l fresh (l.stop_le starts) fits
  refine ⟨list, r, there, ended, both.inside, ?_⟩
  rw [parse, starts, here, both.errors, both.fresh]

end Buffer

/-- Whatever is not read has an error. -/
theorem parse_refused {tokens : List Token} {fresh next : Occurrence} {errors : List Diagnostic}
    (refused : parse tokens fresh = (.error errors, next)) : errors ≠ [] := by
  obtain ⟨l, -, starts⟩ := Buffer.exists_layout tokens
  obtain ⟨list, r, -, -, -, parsed⟩ := Buffer.parse_eq (starts fresh) (l.stop_le (starts fresh))
  rw [parsed] at refused
  obtain ⟨result, -⟩ := Prod.mk.inj refused
  split at result
  · cases result
  · next found =>
    cases result
    exact fun none => found (List.isEmpty_iff.2 none)

/-- Reading comes to an end with every bound from the number of tokens on. The position stops at the first
end of the file; no token is looked up behind that or before the buffer, and every declaration that is
asked for goes on from where it begins. Nothing behind the first end of the file makes a difference. -/
theorem parse_stays_in_buffer (tokens : List Token) (fresh : Occurrence) (more : Nat) :
    ∃ list r, Buffer.program (tokens.length + more) (Buffer.start tokens fresh) = .ok list r ∧
      (Buffer.closed tokens).findIdx? (·.kind = .eof) = some r.position ∧
      (∀ e ∈ r.events, e.Inside r.position) ∧
      parse tokens fresh = (if r.errors.isEmpty then .ok list else .error r.errors, r.fresh) ∧
      parse tokens fresh = parse ((Buffer.closed tokens).take (r.position + 1)) fresh := by
  obtain ⟨l, closed, starts⟩ := Buffer.exists_layout tokens
  have fits : l.stop ≤ tokens.length + more := Nat.le_add_right_of_le (l.stop_le (starts fresh))
  obtain ⟨list, r, ran, ended, inside, parsed⟩ := Buffer.parse_eq (starts fresh) fits
  obtain ⟨list', r', ran', -, -, parsed'⟩ := Buffer.parse_eq (l.start_eq [] fresh) fits
  refine ⟨list, r, ?_, ?_, ?_, parsed, ?_⟩
  · rw [Buffer.start, ← closed]
    exact ran
  · rw [← closed, ended]
    exact l.findIdx?_tokens
  · rw [ended]
    exact inside
  · rw [ran] at ran'
    cases ran'
    rw [← closed, ended, l.take_tokens, parsed, parsed']

/-- A parenthesis that closes nothing is given up with nothing consumed, right before the first end of the file.
The keyword behind that is not read. -/
example :
    let tokens := [⟨.rightParen, ")", none, 1⟩, .endOfFile 1, ⟨.keyword .varWord, "var", none, 2⟩]
    (match Buffer.program tokens.length (Buffer.start tokens 0) with
      | .ok list r => some (list.length, r.position, r.errors.length)
      | .error _ _ => none) = some (0, 1, 1) := by
  decide +kernel

end Lox
