import Lox.Proofs.Grammar.Placement
import Lox.Proofs.Grammar.Spelling
import Lox.Proofs.Scoping.Chain
import Lox.Proofs.Scoping.Lookup
import Lox.Proofs.Scoping.Trace

/-! A sound machine: every function and class in its store was declared where the chain of scopes it
keeps covers the static scopes, and what resolution found there is noted. An action visits sound points
if it leads from a sound machine to a sound one and what is visited on the way is in order. -/
namespace Lox

section

variable (found : List Finding) (s : Scopes Value)

structure Closure.Fits (f : Closure) : Prop where
  placed : f.declaration.Placed
  spelled : f.declaration.Spelled
  covered : ∃ here : Surroundings, Covers s here.scopes f.scope ∧ f.declaration.findings here ⊆ found

structure Class.Fits (c : Class) : Prop where
  placed : FunctionDecl.AllPlaced c.methods
  spelled : FunctionDecl.AllSpelled c.methods
  covered : ∃ here : Surroundings, Covers s here.scopes c.scope ∧
    FunctionDecl.allFindings here.inMethods c.methods ⊆ found

def Callable.Fits : Callable → Prop
  | .native _ => True
  | .closure f => f.Fits found s
  | .ofClass c => c.Fits found s

def Value.Fits : Value → Prop
  | .callable _ what => what.Fits found s
  | .object _ c => c.Fits found s
  | _ => True

def Stop.Fits : Stop → Prop
  | .returned value _ => value.Fits found s
  | _ => True

end

structure Machine.Sound (found : List Finding) (m : Machine) : Prop where
  rooted : m.scopes.Rooted
  noted : ∀ f ∈ found, ∃ i name depth, f = .reference i name depth ∧ m.distances[i]? = depth
  values : ∀ i name v, (m.scopes.bindings i).get? name = some v → v.Fits found m.scopes
  fields : ∀ (i : ObjectId) name v, Bindings.get? name (m.objects[i]?.getD []) = some v →
    v.Fits found m.scopes

/-- The occurrence that is read at a point. -/
def Point.reading? (p : Point) : Option (Occurrence × Token) :=
  match p.doing with
  | .evaluate (.read i name) | .evaluate (.this i name) => some (i, name)
  | _ => none

structure Point.Sound (found : List Finding) (p : Point) : Prop where
  current : p.machine.current < p.machine.scopes.list.size
  rooted : p.machine.scopes.Rooted
  read : ∀ i name, p.reading? = some (i, name) →
    ∃ depth, .reference i name.lexeme depth ∈ found ∧ p.machine.distances[i]? = depth ∧
      ∀ distance, depth = some distance → ∃ j,
        p.machine.scopes.ancestor? p.machine.current distance = some j ∧
        (p.machine.scopes.bindings j).binds name.lexeme = true

/-- Points on the way from one store of scopes to a later one. -/
structure Passes (found : List Finding) (s : Scopes Value) (points : List Point) (t : Scopes Value) :
    Prop where
  le : s ≤ t
  sound : ∀ p ∈ points, p.Sound found
  between : ∀ p ∈ points, s ≤ p.machine.scopes ∧ p.machine.scopes ≤ t
  ordered : points.Pairwise fun p q => p.machine.scopes ≤ q.machine.scopes

structure After (found : List Finding) (m : Machine) (points : List Point) (m' : Machine) : Prop where
  sound : m'.Sound found
  current : m'.current = m.current
  distances : m'.distances = m.distances
  passes : Passes found m.scopes points m'.scopes

/-- `Q` is about the scopes and the value when the action came to its end. -/
def Visits (found : List Finding) (m : Machine) (x : Run α) (points : List Point)
    (Q : Scopes Value → α → Prop) : Prop :=
  match x m with
  | .ok a m' => After found m points m' ∧ Q m'.scopes a
  | .error stop m' => After found m points m' ∧ stop.Fits found m'.scopes

variable {found : List Finding} {s t u : Scopes Value} {m m' : Machine} {a b points : List Point}

theorem Closure.Fits.mono {f : Closure} (le : s ≤ t) (fits : f.Fits found s) : f.Fits found t := by
  obtain ⟨here, covers, among⟩ := fits.covered
  exact ⟨fits.placed, fits.spelled, here, covers.mono le, among⟩

theorem Class.Fits.mono {c : Class} (le : s ≤ t) (fits : c.Fits found s) : c.Fits found t := by
  obtain ⟨here, covers, among⟩ := fits.covered
  exact ⟨fits.placed, fits.spelled, here, covers.mono le, among⟩

theorem Value.Fits.mono {v : Value} (le : s ≤ t) (fits : v.Fits found s) : v.Fits found t := by
  cases v with
  | callable identity what =>
    cases what with
    | native which => trivial
    | closure f => exact Closure.Fits.mono le fits
    | ofClass c => exact Class.Fits.mono le fits
  | object id c => exact Class.Fits.mono le fits
  | _ => trivial

theorem Value.ofConstant_fits (c : Constant) : (Value.ofConstant c : Value).Fits found s := by
  cases c <;> trivial

namespace Passes

theorem nil (le : s ≤ t) : Passes found s [] t := ⟨le, by simp, by simp, .nil⟩

theorem append (first : Passes found s a t) (second : Passes found t b u) :
    Passes found s (a ++ b) u := by
  refine ⟨Scopes.le_trans first.le second.le, fun p member => ?_, fun p member => ?_, ?_⟩
  · rcases List.mem_append.1 member with left | right
    · exact first.sound p left
    · exact second.sound p right
  · rcases List.mem_append.1 member with left | right
    · obtain ⟨above, below⟩ := first.between p left
      exact ⟨above, Scopes.le_trans below second.le⟩
    · obtain ⟨above, below⟩ := second.between p right
      exact ⟨Scopes.le_trans first.le above, below⟩
  · refine List.pairwise_append.2 ⟨first.ordered, second.ordered, fun p left q right => ?_⟩
    exact Scopes.le_trans (first.between p left).2 (second.between q right).1

theorem cons {p : Point} (sound : p.Sound found) (passes : Passes found p.machine.scopes a t) :
    Passes found p.machine.scopes (p :: a) t := by
  have alone : Passes found p.machine.scopes [p] p.machine.scopes := by
    refine ⟨Scopes.le_refl _, fun q member => ?_, fun q member => ?_, List.pairwise_singleton _ _⟩
    · exact List.mem_singleton.1 member ▸ sound
    · obtain rfl := List.mem_singleton.1 member
      exact ⟨Scopes.le_refl _, Scopes.le_refl _⟩
  exact alone.append passes

end Passes

theorem After.trans {k : Machine} (first : After found m a k) (second : After found k b m') :
    After found m (a ++ b) m' :=
  ⟨second.sound, second.current.trans first.current, second.distances.trans first.distances,
    first.passes.append second.passes⟩

/-- Nothing is visited while the machine stays what it is. -/
theorem After.refl (sound : m.Sound found) : After found m [] m :=
  ⟨sound, rfl, rfl, .nil (Scopes.le_refl _)⟩

namespace Visits

variable {P Q : Scopes Value → α → Prop} {R : Scopes Value → β → Prop} {x : Run α}

theorem pure {v : α} (sound : m.Sound found) (holds : Q m.scopes v) :
    Visits found m (pure v) [] Q := ⟨.refl sound, holds⟩

theorem throw {stop : Stop} (sound : m.Sound found) (fits : stop.Fits found m.scopes) :
    Visits found m (throw stop) [] Q := ⟨.refl sound, fits⟩

theorem raise (sound : m.Sound found) : Visits found m (Run.raise line e) [] Q :=
  throw sound trivial

theorem cases (visits : Visits found m x points Q) :
    (∃ v m', x m = .ok v m' ∧ After found m points m' ∧ Q m'.scopes v) ∨
    ∃ stop m', x m = .error stop m' ∧ After found m points m' ∧ stop.Fits found m'.scopes := by
  unfold Visits at visits
  split at visits
  next v m' ran => exact .inl ⟨v, m', ran, visits⟩
  next stop m' ran => exact .inr ⟨stop, m', ran, visits⟩

theorem mono (visits : Visits found m x points P)
    (weaker : ∀ t v, m.scopes ≤ t → P t v → Q t v) : Visits found m x points Q := by
  unfold Visits
  rcases visits.cases with ⟨v, m', ran, after, holds⟩ | ⟨stop, m', ran, after, fits⟩ <;> rw [ran]
  · exact ⟨after, weaker _ v after.passes.le holds⟩
  · exact ⟨after, fits⟩

/-- What follows an action is visited after what the action visits. -/
theorem bind {f : α → Run β} {then' : α → Points} (first : Visits found m x points P)
    (second : ∀ v m', m'.Sound found → m'.current = m.current → m.scopes ≤ m'.scopes →
      P m'.scopes v → Visits found m' (f v) (then' v m') R) :
    Visits found m (x >>= f) (points ++ Points.following x then' m) R := by
  unfold Visits Points.following
  simp only [Bind.bind, EStateM.bind]
  rcases first.cases with ⟨v, m', ran, after, holds⟩ | ⟨stop, m', ran, after, fits⟩ <;>
    simp only [ran]
  · rcases (second v m' after.sound after.current after.passes.le holds).cases with
      ⟨_, _, ran', after', holds'⟩ | ⟨_, _, ran', after', fits'⟩ <;> simp only [ran']
    · exact ⟨after.trans after', holds'⟩
    · exact ⟨after.trans after', fits'⟩
  · exact ⟨by simpa using after, fits⟩

/-- An action that visits nothing comes first. -/
theorem step {f : α → Run β} {then' : α → Points} (first : Visits found m x [] P)
    (second : ∀ v m', m'.Sound found → m'.current = m.current → m.scopes ≤ m'.scopes →
      P m'.scopes v → Visits found m' (f v) (then' v m') R) :
    Visits found m (x >>= f) (Points.following x then' m) R := first.bind second

/-- An action that visits nothing comes last. -/
theorem last {f : α → Run β} (first : Visits found m x points P)
    (second : ∀ v m', m'.Sound found → m'.current = m.current → m.scopes ≤ m'.scopes →
      P m'.scopes v → Visits found m' (f v) [] R) : Visits found m (x >>= f) points R := by
  have both : Visits found m (x >>= f) (points ++ Points.following x (fun _ _ => []) m) R :=
    first.bind second
  have none : Points.following x (fun _ _ => []) m = [] := by
    rw [Points.following]
    split <;> rfl
  rwa [none, List.append_nil] at both

theorem asking {f : Machine → Run α} (visits : Visits found m (f m) points Q) :
    Visits found m (get >>= f) points Q := visits

theorem visit {p : Point} (here : p.machine = m) (sound : p.Sound found)
    (visits : Visits found m x points Q) : Visits found m x (p :: points) Q := by
  obtain rfl := here
  unfold Visits
  rcases visits.cases with ⟨v, m', ran, after, holds⟩ | ⟨stop, m', ran, after, fits⟩ <;> rw [ran]
  · exact ⟨⟨after.sound, after.current, after.distances, .cons sound after.passes⟩, holds⟩
  · exact ⟨⟨after.sound, after.current, after.distances, .cons sound after.passes⟩, fits⟩

theorem within {scope : ScopeId}
    (visits : Visits found { m with current := scope } x points Q) :
    Visits found m (Run.within scope x) points Q := by
  unfold Visits Run.within
  rcases visits.cases with ⟨v, m', ran, after, holds⟩ | ⟨stop, m', ran, after, fits⟩ <;>
    simp only [ran]
  · exact ⟨⟨{ after.sound with }, rfl, after.distances, after.passes⟩, holds⟩
  · exact ⟨⟨{ after.sound with }, rfl, after.distances, after.passes⟩, fits⟩

theorem counted (visits : Visits found { m with depth := m.depth + 1 } x points Q) :
    Visits found m (Run.counted x) points Q := by
  unfold Visits Run.counted
  rcases visits.cases with ⟨v, m', ran, after, holds⟩ | ⟨stop, m', ran, after, fits⟩ <;>
    simp only [ran]
  · exact ⟨⟨{ after.sound with }, after.current, after.distances, after.passes⟩, holds⟩
  · exact ⟨⟨{ after.sound with }, after.current, after.distances, after.passes⟩, fits⟩

theorem returning {x : Run Unit} {Q : Scopes Value → Unit → Prop}
    (visits : Visits found m x points Q) :
    Visits found m (Run.returning x) points fun t v => v.Fits found t := by
  unfold Visits Run.returning
  rcases visits.cases with ⟨v, m', ran, after, holds⟩ | ⟨stop, m', ran, after, fits⟩ <;>
    simp only [ran]
  · exact ⟨after, trivial⟩
  · cases stop with
    | returned value line => exact ⟨after, fits⟩
    | _ => exact ⟨after, trivial⟩

/-- Each round begins in a machine that the rounds before it have left. -/
theorem repeating {condition : Run Value} {body : Run Unit} {testing doing : Points}
    {Q : Scopes Value → Unit → Prop}
    (sound : m.Sound found)
    (tested : ∀ k : Machine, k.Sound found → k.current = m.current → m.scopes ≤ k.scopes →
      Visits found k condition (testing k) fun _ _ => True)
    (round : ∀ k : Machine, k.Sound found → k.current = m.current → m.scopes ≤ k.scopes →
      Visits found k body (doing k) fun _ _ => True)
    (ended : ∀ t, m.scopes ≤ t → Q t ()) (bound : Nat) :
    Visits found m (Run.repeating condition body bound)
      (Points.rounds condition body testing doing bound m) Q := by
  suffices rounds : ∀ k : Machine, k.Sound found → k.current = m.current → m.scopes ≤ k.scopes →
      Visits found k (Run.repeating condition body bound)
        (Points.rounds condition body testing doing bound k) Q from
    rounds m sound rfl (Scopes.le_refl _)
  induction bound with
  | zero => exact fun k sound _ _ => throw sound trivial
  | succ bound ih =>
    intro k sound same le
    rw [Run.repeating, Points.rounds]
    refine (tested k sound same le).bind fun v k' sound' same' le' _ => ?_
    split
    · refine (round k' sound' (same'.trans same) (Scopes.le_trans le le')).bind ?_
      intro _ l sound'' same'' le'' _
      exact ih l sound'' (same''.trans (same'.trans same)) (Scopes.le_trans (Scopes.le_trans le le') le'')
    · exact pure sound' (ended _ (Scopes.le_trans le le'))

end Visits

end Lox
