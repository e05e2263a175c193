import Lox.Proofs.Lexical.Update

/-! An action and its counterpart agree if from matching stores both come to an end or both stop, and
again leave matching stores, in a world that has grown. There is one law for each way actions are put
together, and one for each action that evaluation is made of. -/
namespace Lox.Lexical

/-- Results that belong together. `Q` is about the values when both actions came to their end. -/
def Joined (w : World) (current : ScopeId) (changing : List ScopeId) (Q : World → α → β → Prop) :
    EStateM.Result Stop Lox.Machine α → EStateM.Result (Stop Environment) Machine β → Prop
  | .ok a m, .ok b r => ∃ v, w.Grows changing v ∧ Matches v current m r ∧ Q v a b
  | .error s m, .error t r => ∃ v, w.Grows changing v ∧ Matches v current m r ∧ StopAlike v s t
  | .ok _ _, .error _ _ | .error _ _, .ok _ _ => False

/-- The two actions agree when they begin in the scope `current`, and give names to no scope that was
there but the listed ones. -/
def Agrees (w : World) (current : ScopeId) (changing : List ScopeId) (x : Lox.Run α) (y : Run β)
    (Q : World → α → β → Prop) : Prop :=
  ∀ m r, Matches w current m r → Joined w current changing Q (x m) (y r)

namespace Joined

variable {w v : World} {current : ScopeId} {changing fewer : List ScopeId}
  {a : EStateM.Result Stop Lox.Machine α} {b : EStateM.Result (Stop Environment) Machine β}

theorem cases {Q : World → α → β → Prop} (joined : Joined w current changing Q a b) :
    (∃ value m value' r v, a = .ok value m ∧ b = .ok value' r ∧ w.Grows changing v ∧
      Matches v current m r ∧ Q v value value') ∨
    ∃ s m t r v, a = .error s m ∧ b = .error t r ∧ w.Grows changing v ∧
      Matches v current m r ∧ StopAlike v s t := by
  cases a <;> cases b
  · obtain ⟨v, grows, matched, holds⟩ := joined
    exact .inl ⟨_, _, _, _, v, rfl, rfl, grows, matched, holds⟩
  · exact joined.elim
  · exact joined.elim
  · obtain ⟨v, grows, matched, alike⟩ := joined
    exact .inr ⟨_, _, _, _, v, rfl, rfl, grows, matched, alike⟩

/-- What is joined in a later world is joined in an earlier one. -/
theorem rebase {P Q : World → α → β → Prop} (joined : Joined v current fewer P a b)
    (earlier : ∀ {u}, v.Grows fewer u → w.Grows changing u)
    (weaker : ∀ {u a b}, v.Grows fewer u → P u a b → Q u a b) : Joined w current changing Q a b := by
  rcases joined.cases with ⟨_, _, _, _, u, rfl, rfl, grows, matched, holds⟩ |
    ⟨_, _, _, _, u, rfl, rfl, grows, matched, alike⟩
  · exact ⟨u, earlier grows, matched, weaker grows holds⟩
  · exact ⟨u, earlier grows, matched, alike⟩

end Joined

namespace Agrees

variable {w : World} {current : ScopeId} {changing fewer : List ScopeId}

theorem pure {Q : World → α → β → Prop} (holds : Q w a b) :
    Agrees w current changing (pure a) (pure b) Q :=
  fun _ _ matched => ⟨w, .refl w, matched, holds⟩

theorem throw {Q : World → α → β → Prop} (alike : StopAlike w s t) :
    Agrees w current changing (throw s) (throw t) Q :=
  fun _ _ matched => ⟨w, .refl w, matched, alike⟩

theorem raise {Q : World → α → β → Prop} :
    Agrees w current changing (Lox.Run.raise line e) (Lox.Run.raise line e) Q :=
  throw .raised

theorem mono {P Q : World → α → β → Prop} (agrees : Agrees w current fewer x y P)
    (listed : ∀ i ∈ fewer, i ∈ changing)
    (weaker : ∀ {v a b}, w.Grows fewer v → P v a b → Q v a b) :
    Agrees w current changing x y Q :=
  fun m r matched => (agrees m r matched).rebase (·.weaken listed) weaker

/-- Later steps may start from any world that the first one can lead to. -/
theorem bind {P : World → α → β → Prop} {Q : World → γ → δ → Prop} {x : Lox.Run α} {y : Run β}
    {f : α → Lox.Run γ} {g : β → Run δ} (first : Agrees w current fewer x y P)
    (listed : ∀ i ∈ fewer, i ∈ changing)
    (second : ∀ v a b, w.Grows fewer v → P v a b → Agrees v current changing (f a) (g b) Q) :
    Agrees w current changing (x >>= f) (y >>= g) Q := by
  intro m r matched
  simp only [Bind.bind, EStateM.bind]
  rcases (first m r matched).cases with ⟨_, _, _, _, v, left, right, grows, later, holds⟩ |
    ⟨_, _, _, _, v, left, right, grows, later, alike⟩ <;> rw [left, right]
  · exact (second v _ _ grows holds _ _ later).rebase ((grows.weaken listed).trans ·) fun _ h => h
  · exact ⟨v, grows.weaken listed, later, alike⟩

/-- A first step that gives names to no scope that was there. -/
theorem step {P : World → α → β → Prop} {Q : World → γ → δ → Prop} {x : Lox.Run α} {y : Run β}
    {f : α → Lox.Run γ} {g : β → Run δ} (first : Agrees w current [] x y P)
    (second : ∀ v a b, w.Grows [] v → P v a b → Agrees v current changing (f a) (g b) Q) :
    Agrees w current changing (x >>= f) (y >>= g) Q :=
  first.bind (by simp) second

/-- Behind an error nothing is done. -/
theorem raise_bind {Q : World → γ → δ → Prop} {f : α → Lox.Run γ} {g : β → Run δ} :
    Agrees w current changing (Lox.Run.raise line e >>= f) (Lox.Run.raise line e >>= g) Q :=
  fun _ _ matched => ⟨w, .refl w, matched, .raised⟩

/-- The second action gives something more in the end. -/
theorem thenPure {P : World → α → β → Prop} {Q : World → α → γ → Prop} {x : Lox.Run α} {y : Run β}
    {g : β → γ} (agrees : Agrees w current fewer x y P) (listed : ∀ i ∈ fewer, i ∈ changing)
    (holds : ∀ v a b, w.Grows fewer v → P v a b → Q v a (g b)) :
    Agrees w current changing x (do return g (← y)) Q := by
  intro m r matched
  simp only [Bind.bind, EStateM.bind]
  rcases (agrees m r matched).cases with ⟨_, _, _, _, v, left, right, grows, later, met⟩ |
    ⟨_, _, _, _, v, left, right, grows, later, alike⟩ <;> rw [left, right]
  · exact ⟨v, grows.weaken listed, later, holds v _ _ grows met⟩
  · exact ⟨v, grows.weaken listed, later, alike⟩

/-- The first action asks which scope it is executed in. -/
theorem asking {Q : World → α → β → Prop} {f : Lox.Machine → Lox.Run α}
    (same : ∀ m, m.current = current → f m = x) (agrees : Agrees w current changing x y Q) :
    Agrees w current changing (get >>= f) y Q := by
  intro m r matched
  have joined := agrees m r matched
  rwa [← same m matched.current] at joined

/-- The second action begins with a step of its own. -/
theorem ofRight {Q : World → α → β → Prop} {x : Lox.Run α} {y : Run γ} {g : γ → Run β}
    (ready : ∀ m r, Matches w current m r → ∃ v c r', y r = .ok c r' ∧ w.Grows changing v ∧
      Matches v current m r' ∧ Agrees v current changing x (g c) Q) :
    Agrees w current changing x (y >>= g) Q := by
  intro m r matched
  obtain ⟨v, c, r', ran, grows, later, agrees⟩ := ready m r matched
  simp only [Bind.bind, EStateM.bind, ran]
  exact (agrees m r' later).rebase (grows.trans ·) fun _ h => h

/-- The first action begins with a scope of its own, which only it may give names to. -/
theorem newScope {Q : World → α → β → Prop} {f : ScopeId → Lox.Run α} {i : ScopeId}
    (known : i = globals ∨ (w.outer i).isSome)
    (agrees : ∀ v scope, w.Grows [] v → v.outer scope = some i → (∀ name, v.cell scope name = none) →
      Agrees v current (scope :: changing) (f scope) y Q) :
    Agrees w current changing (Lox.Run.newScope i >>= f) y Q := by
  intro m r matched
  have below : i < m.scopes.list.size := by
    rcases known with rfl | old
    · exact matched.inhabited
    · exact matched.lt_size old
  have new := matched.outer_new
  have grows : w.Grows [] (w.withScope m.scopes.list.size i) := World.grows_withScope new
  have joined := agrees _ m.scopes.list.size grows (by simp) (fun name => by
    simpa using matched.cell_new new name) _ r (matched.newScope below)
  exact joined.rebase (fun further => ((grows.weaken (by simp)).trans further).of_new new)
    fun _ h => h

/-- An action of another scope, which is left again however the action ends. -/
theorem within {Q : World → α → β → Prop} (agrees : Agrees w scope changing x y Q) :
    Agrees w current changing (Lox.Run.within scope x) y Q := by
  intro m r matched
  have inside : Matches w scope { m with current := scope } r := { matched with current := rfl }
  simp only [Lox.Run.within]
  rcases (agrees _ r inside).cases with ⟨_, _, _, _, v, left, right, grows, later, holds⟩ |
    ⟨_, _, _, _, v, left, right, grows, later, alike⟩ <;> rw [left, right]
  · exact ⟨v, grows, { later with current := matched.current }, holds⟩
  · exact ⟨v, grows, { later with current := matched.current }, alike⟩

theorem counted {Q : World → α → β → Prop} (agrees : Agrees w current changing x y Q) :
    Agrees w current changing (Lox.Run.counted x) (Run.counted y) Q := by
  intro m r matched
  have inside : Matches w current { m with depth := m.depth + 1 } { r with depth := r.depth + 1 } :=
    { matched with depth := by simp [matched.depth] }
  simp only [Lox.Run.counted, Run.counted]
  rcases (agrees _ _ inside).cases with ⟨_, _, _, _, v, left, right, grows, later, holds⟩ |
    ⟨_, _, _, _, v, left, right, grows, later, alike⟩ <;> rw [left, right]
  · exact ⟨v, grows, { later with depth := by simp [later.depth] }, holds⟩
  · exact ⟨v, grows, { later with depth := by simp [later.depth] }, alike⟩

theorem returning {Q : World → Unit → Unit → Prop} (agrees : Agrees w current changing x y Q) :
    Agrees w current changing (Lox.Run.returning x) (Lox.Run.returning y) Alike := by
  intro m r matched
  simp only [Lox.Run.returning]
  rcases (agrees m r matched).cases with ⟨_, _, _, _, v, left, right, grows, later, holds⟩ |
    ⟨_, _, _, _, v, left, right, grows, later, alike⟩ <;> rw [left, right]
  · exact ⟨v, grows, later, .nil⟩
  · cases alike with
    | returned alike => exact ⟨v, grows, later, alike⟩
    | raised => exact ⟨v, grows, later, .raised⟩
    | meaningless => exact ⟨v, grows, later, .meaningless⟩
    | exhausted => exact ⟨v, grows, later, .exhausted⟩

/-- Rounds of a loop, each of which may start in any later world that keeps what `I` says. -/
theorem repeating {I : World → Prop} {Q : World → Unit → Unit → Prop}
    {condition : Lox.Run Value} {condition' : Run (Value Environment)}
    {body : Lox.Run Unit} {body' : Run Unit} (holds : I w)
    (tested : ∀ v, I v → Agrees v current [] condition condition' fun u a b => I u ∧ Alike u a b)
    (round : ∀ v, I v → Agrees v current changing body body' fun u _ _ => I u)
    (ended : ∀ {v}, I v → Q v () ()) (bound : Nat) :
    Agrees w current changing (Lox.Run.repeating condition body bound)
      (Lox.Run.repeating condition' body' bound) Q := by
  induction bound generalizing w with
  | zero => exact throw .exhausted
  | succ bound ih =>
    refine (tested w holds).step fun v a b grows both => ?_
    obtain ⟨kept, alike⟩ := both
    rw [alike.truthy_eq]
    split
    · refine (round v kept).bind (fun _ h => h) fun u _ _ _ kept => ih kept
    · exact pure (ended kept)

end Agrees

end Lox.Lexical
