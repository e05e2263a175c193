import Lox.Proofs.Deeds.Place
import Lox.Proofs.Grammar.Shape

/-! A sane machine: the functions and classes in its store come from source texts and were declared
where the chain of scopes they keep goes along with the static scopes. An action tells a log if it leads
from a sane machine to a sane one and each entry of the log is in order. -/
namespace Lox

section

variable (found : List Finding) (s : Scopes Value)

structure Closure.Sane (f : Closure) : Prop where
  placed : f.declaration.Placed
  shaped : f.declaration.Shaped Token.Spelled
  declared : ∃ here : Surroundings, Follows s here.scopes f.scope ∧ here.Classed ∧
    f.declaration.findings here ⊆ found

structure Class.Sane (c : Class) : Prop where
  placed : FunctionDecl.AllPlaced c.methods
  shaped : FunctionDecl.AllShaped Token.Spelled c.methods
  declared : ∃ here : Surroundings, Follows s here.scopes c.scope ∧
    FunctionDecl.allFindings here.inMethods c.methods ⊆ found

def Callable.Sane : Callable → Prop
  | .native _ => True
  | .closure f => f.Sane found s
  | .ofClass c => c.Sane found s

def Value.Sane : Value → Prop
  | .callable _ what => what.Sane found s
  | .object _ c => c.Sane found s
  | _ => True

/-- No operator stands where it has no meaning. -/
def Stop.Sane : Stop → Prop
  | .returned value _ => value.Sane found s
  | .meaningless _ => False
  | .raised _ | .exhausted => True

end

structure Machine.Sane (found : List Finding) (m : Machine) : Prop where
  rooted : m.scopes.Rooted
  noted : ∀ f ∈ found, ∃ i name depth, f = .reference i name depth ∧ m.distances[i]? = depth
  values : ∀ i name v, (m.scopes.bindings i).get? name = some v → v.Sane found m.scopes
  fields : ∀ (i : ObjectId) name v, Bindings.get? name (m.objects[i]?.getD []) = some v →
    v.Sane found m.scopes

/-- What is true of an entry on its own. A variable that is assigned to is bound where it was found,
unless it is just being declared. -/
structure Entry.Sane (e : Entry) : Prop where
  known : e.machine.current < e.machine.scopes.list.size
  agrees : Agrees e.machine.scopes e.site.active e.machine.current
  this : ∀ id keyword, e.deed = .this id keyword → ∃ value,
    e.machine.scopes.self? e.machine.current = some value ∧
    Run.readVariable id keyword e.machine = .ok value e.machine
  assign : ∀ id name value distance, e.deed = .assign id name value →
    e.machine.distances[id]? = some distance →
    ∃ j, e.machine.scopes.ancestor? e.machine.current distance = some j ∧
      ((e.machine.scopes.bindings j).binds name.lexeme = true ↔
        e.site.declaring.map (·.lexeme) ≠ some name.lexeme)

/-- Entries on the way from one store of scopes to a later one. -/
structure Spans (changing : Option ScopeId) (s : Scopes Value) (log : List Entry) (t : Scopes Value) :
    Prop where
  keeps : s.Keeps changing t
  sane : ∀ e ∈ log, e.Sane
  between : ∀ e ∈ log, s.Preserves e.machine.scopes ∧ e.scopesLeft.Preserves t
  ordered : log.Pairwise fun e f => e.scopesLeft.Preserves f.machine.scopes

structure Told (found : List Finding) (changing : Option ScopeId) (m : Machine) (log : List Entry)
    (m' : Machine) : Prop where
  sane : m'.Sane found
  current : m'.current = m.current
  distances : m'.distances = m.distances
  spans : Spans changing m.scopes log m'.scopes

/-- `Q` is about the scopes and the value when the action came to its end. -/
def Tells (found : List Finding) (changing : Option ScopeId) (m : Machine) (x : Run α)
    (log : List Entry) (Q : Scopes Value → α → Prop) : Prop :=
  match x m with
  | .ok a m' => Told found changing m log m' ∧ Q m'.scopes a
  | .error stop m' => Told found changing m log m' ∧ stop.Sane found m'.scopes

variable {found : List Finding} {changing inner : Option ScopeId} {s t u : Scopes Value}
  {m m' k : Machine} {a b log : List Entry}

theorem Entry.Sane.of_agrees {e : Entry} (known : e.machine.current < e.machine.scopes.list.size)
    (agrees : Agrees e.machine.scopes e.site.active e.machine.current)
    (this : ∀ id keyword, e.deed ≠ .this id keyword)
    (assign : ∀ id name value, e.deed ≠ .assign id name value) : e.Sane :=
  ⟨known, agrees, fun id keyword same => absurd same (this id keyword),
    fun id name value _ same => absurd same (assign id name value)⟩

theorem Closure.Sane.mono {f : Closure} (preserves : s.Preserves t) (sane : f.Sane found s) :
    f.Sane found t := by
  obtain ⟨here, follows, rest⟩ := sane.declared
  exact ⟨sane.placed, sane.shaped, here, follows.mono preserves, rest⟩

theorem Class.Sane.mono {c : Class} (preserves : s.Preserves t) (sane : c.Sane found s) :
    c.Sane found t := by
  obtain ⟨here, follows, among⟩ := sane.declared
  exact ⟨sane.placed, sane.shaped, here, follows.mono preserves, among⟩

theorem Value.Sane.mono {v : Value} (preserves : s.Preserves t) (sane : v.Sane found s) :
    v.Sane found t := by
  cases v with
  | callable identity what =>
    cases what with
    | native which => trivial
    | closure f => exact Closure.Sane.mono preserves sane
    | ofClass c => exact Class.Sane.mono preserves sane
  | object id c => exact Class.Sane.mono preserves sane
  | _ => trivial

theorem Value.ofConstant_sane (c : Constant) : (Value.ofConstant c : Value).Sane found s := by
  cases c <;> trivial

namespace Spans

theorem nil (keeps : s.Keeps changing t) : Spans changing s [] t := ⟨keeps, by simp, by simp, .nil⟩

theorem widen (spans : Spans inner s a t) (admits : Scopes.Admits changing s inner) :
    Spans changing s a t := { spans with keeps := spans.keeps.widen admits }

theorem append (first : Spans changing s a t) (second : Spans inner t b u)
    (admits : Scopes.Admits changing s inner) : Spans changing s (a ++ b) u := by
  refine ⟨first.keeps.trans second.keeps admits, fun e member => ?_, fun e member => ?_, ?_⟩
  · rcases List.mem_append.1 member with left | right
    · exact first.sane e left
    · exact second.sane e right
  · rcases List.mem_append.1 member with left | right
    · obtain ⟨above, below⟩ := first.between e left
      exact ⟨above, below.trans second.keeps.preserves⟩
    · obtain ⟨above, below⟩ := second.between e right
      exact ⟨first.keeps.preserves.trans above, below⟩
  · refine List.pairwise_append.2 ⟨first.ordered, second.ordered, fun e left f right => ?_⟩
    exact (first.between e left).2.trans (second.between f right).1

theorem single {e : Entry} (sane : e.Sane) (keeps : e.machine.scopes.Keeps changing t)
    (left : e.scopesLeft.Preserves t) : Spans changing e.machine.scopes [e] t := by
  refine ⟨keeps, fun f member => ?_, fun f member => ?_, List.pairwise_singleton _ _⟩
  · exact List.mem_singleton.1 member ▸ sane
  · obtain rfl := List.mem_singleton.1 member
    exact ⟨.refl _, left⟩

theorem cons {e : Entry} (sane : e.Sane) (left : e.scopesLeft = e.machine.scopes)
    (spans : Spans changing e.machine.scopes a t) : Spans changing e.machine.scopes (e :: a) t := by
  have alone : Spans changing e.machine.scopes [e] e.machine.scopes :=
    single sane (.refl _) (left ▸ .refl _)
  exact alone.append spans .refl

end Spans

/-- Nothing is done while the machine stays what it is. -/
theorem Told.refl (sane : m.Sane found) : Told found changing m [] m :=
  ⟨sane, rfl, rfl, .nil (.refl _)⟩

theorem Told.widen (told : Told found inner m a m')
    (admits : Scopes.Admits changing m.scopes inner) : Told found changing m a m' :=
  { told with spans := told.spans.widen admits }

theorem Told.trans (first : Told found changing m a k) (second : Told found inner k b m')
    (admits : Scopes.Admits changing m.scopes inner) : Told found changing m (a ++ b) m' :=
  ⟨second.sane, second.current.trans first.current, second.distances.trans first.distances,
    first.spans.append second.spans admits⟩

namespace Tells

variable {P Q : Scopes Value → α → Prop} {R : Scopes Value → β → Prop} {x : Run α}

theorem pure {v : α} (sane : m.Sane found) (holds : Q m.scopes v) :
    Tells found changing m (pure v) [] Q := ⟨.refl sane, holds⟩

theorem throw {stop : Stop} (sane : m.Sane found) (fits : stop.Sane found m.scopes) :
    Tells found changing m (throw stop) [] Q := ⟨.refl sane, fits⟩

theorem raise (sane : m.Sane found) : Tells found changing m (Run.raise line e) [] Q :=
  throw sane trivial

theorem cases (tells : Tells found changing m x log Q) :
    (∃ v m', x m = .ok v m' ∧ Told found changing m log m' ∧ Q m'.scopes v) ∨
    ∃ stop m', x m = .error stop m' ∧ Told found changing m log m' ∧ stop.Sane found m'.scopes := by
  unfold Tells at tells
  split at tells
  next v m' ran => exact .inl ⟨v, m', ran, tells⟩
  next stop m' ran => exact .inr ⟨stop, m', ran, tells⟩

theorem mono (tells : Tells found changing m x log P)
    (weaker : ∀ t v, m.scopes.Keeps changing t → P t v → Q t v) : Tells found changing m x log Q := by
  unfold Tells
  rcases tells.cases with ⟨v, m', ran, told, holds⟩ | ⟨stop, m', ran, told, fits⟩ <;> rw [ran]
  · exact ⟨told, weaker _ v told.spans.keeps holds⟩
  · exact ⟨told, fits⟩

theorem widen (tells : Tells found inner m x log Q)
    (admits : Scopes.Admits changing m.scopes inner) : Tells found changing m x log Q := by
  unfold Tells
  rcases tells.cases with ⟨v, m', ran, told, holds⟩ | ⟨stop, m', ran, told, fits⟩ <;> rw [ran]
  · exact ⟨told.widen admits, holds⟩
  · exact ⟨told.widen admits, fits⟩

/-- What follows an action is done after what the action does. -/
theorem seq {first second : Option ScopeId} {f : α → Run β} {then' : α → Log}
    (tells : Tells found first m x log P)
    (tells' : ∀ v m', m'.Sane found → m'.current = m.current → m.scopes.Keeps first m'.scopes →
      P m'.scopes v → Tells found second m' (f v) (then' v m') R)
    (admits : Scopes.Admits changing m.scopes first)
    (admits' : Scopes.Admits changing m.scopes second) :
    Tells found changing m (x >>= f) (log ++ Log.following x then' m) R := by
  unfold Tells Log.following
  simp only [Bind.bind, EStateM.bind]
  rcases tells.cases with ⟨v, m', ran, told, holds⟩ | ⟨stop, m', ran, told, stopped⟩ <;>
    simp only [ran]
  · rcases (tells' v m' told.sane told.current told.spans.keeps holds).cases with
      ⟨_, _, ran', told', holds'⟩ | ⟨_, _, ran', told', stopped'⟩ <;> simp only [ran']
    · exact ⟨(told.widen admits).trans told' admits', holds'⟩
    · exact ⟨(told.widen admits).trans told' admits', stopped'⟩
  · exact ⟨by simpa using told.widen admits, stopped⟩

/-- An action that changes no scope there was comes first. -/
theorem bind {f : α → Run β} {then' : α → Log} (first : Tells found none m x log P)
    (second : ∀ v m', m'.Sane found → m'.current = m.current → m.scopes.Keeps none m'.scopes →
      P m'.scopes v → Tells found changing m' (f v) (then' v m') R) :
    Tells found changing m (x >>= f) (log ++ Log.following x then' m) R :=
  first.seq second .none .refl

/-- An action that tells nothing comes first. -/
theorem step {first second : Option ScopeId} {f : α → Run β} {then' : α → Log}
    (tells : Tells found first m x [] P)
    (tells' : ∀ v m', m'.Sane found → m'.current = m.current → m.scopes.Keeps first m'.scopes →
      P m'.scopes v → Tells found second m' (f v) (then' v m') R)
    (admits : Scopes.Admits changing m.scopes first)
    (admits' : Scopes.Admits changing m.scopes second) :
    Tells found changing m (x >>= f) (Log.following x then' m) R := tells.seq tells' admits admits'

/-- An action that tells nothing comes last. -/
theorem tail {first second : Option ScopeId} {f : α → Run β} (tells : Tells found first m x log P)
    (tells' : ∀ v m', m'.Sane found → m'.current = m.current → m.scopes.Keeps first m'.scopes →
      P m'.scopes v → Tells found second m' (f v) [] R)
    (admits : Scopes.Admits changing m.scopes first)
    (admits' : Scopes.Admits changing m.scopes second) :
    Tells found changing m (x >>= f) log R := by
  have both : Tells found changing m (x >>= f) (log ++ Log.following x (fun _ _ => []) m) R :=
    tells.seq tells' admits admits'
  have none : Log.following x (fun _ _ => []) m = [] := by
    rw [Log.following]
    split <;> rfl
  rwa [none, List.append_nil] at both

theorem last {f : α → Run β} (first : Tells found none m x log P)
    (second : ∀ v m', m'.Sane found → m'.current = m.current → m.scopes.Keeps none m'.scopes →
      P m'.scopes v → Tells found changing m' (f v) [] R) :
    Tells found changing m (x >>= f) log R := first.tail second .none .refl

theorem asking {f : Machine → Run α} (tells : Tells found changing m (f m) log Q) :
    Tells found changing m (get >>= f) log Q := tells

theorem entry {e : Entry} (here : e.machine = m) (left : e.scopesLeft = e.machine.scopes)
    (sane : e.Sane) (tells : Tells found changing m x log Q) :
    Tells found changing m x (e :: log) Q := by
  obtain rfl := here
  unfold Tells
  rcases tells.cases with ⟨v, m', ran, told, holds⟩ | ⟨stop, m', ran, told, fits⟩ <;> rw [ran]
  · exact ⟨⟨told.sane, told.current, told.distances, .cons sane left told.spans⟩, holds⟩
  · exact ⟨⟨told.sane, told.current, told.distances, .cons sane left told.spans⟩, fits⟩

theorem within {scope : ScopeId}
    (tells : Tells found changing { m with current := scope } x log Q) :
    Tells found changing m (Run.within scope x) log Q := by
  unfold Tells Run.within
  rcases tells.cases with ⟨v, m', ran, told, holds⟩ | ⟨stop, m', ran, told, fits⟩ <;>
    simp only [ran]
  · exact ⟨⟨{ told.sane with }, rfl, told.distances, told.spans⟩, holds⟩
  · exact ⟨⟨{ told.sane with }, rfl, told.distances, told.spans⟩, fits⟩

theorem counted (tells : Tells found changing { m with depth := m.depth + 1 } x log Q) :
    Tells found changing m (Run.counted x) log Q := by
  unfold Tells Run.counted
  rcases tells.cases with ⟨v, m', ran, told, holds⟩ | ⟨stop, m', ran, told, fits⟩ <;>
    simp only [ran]
  · exact ⟨⟨{ told.sane with }, told.current, told.distances, told.spans⟩, holds⟩
  · exact ⟨⟨{ told.sane with }, told.current, told.distances, told.spans⟩, fits⟩

theorem returning {x : Run Unit} {Q : Scopes Value → Unit → Prop}
    (tells : Tells found changing m x log Q) :
    Tells found changing m (Run.returning x) log fun t v => v.Sane found t := by
  unfold Tells Run.returning
  rcases tells.cases with ⟨v, m', ran, told, holds⟩ | ⟨stop, m', ran, told, fits⟩ <;>
    simp only [ran]
  · exact ⟨told, trivial⟩
  · cases stop with
    | returned value line => exact ⟨told, fits⟩
    | _ => exact ⟨told, fits⟩

/-- Each round begins in a machine that the rounds before it have left, and `I` holds between them. -/
theorem repeating {condition : Run Value} {body : Run Unit} {testing doing : Log}
    {I : Scopes Value → Prop} (sane : m.Sane found) (begins : I m.scopes)
    (tested : ∀ k : Machine, k.Sane found → k.current = m.current → I k.scopes →
      Tells found none k condition (testing k) fun t _ => I t)
    (round : ∀ k : Machine, k.Sane found → k.current = m.current → I k.scopes →
      Tells found changing k body (doing k) fun t _ => I t) (bound : Nat) :
    Tells found changing m (Run.repeating condition body bound)
      (Log.rounds condition body testing doing bound m) fun t _ => I t := by
  suffices rounds : ∀ k : Machine, k.Sane found → k.current = m.current → I k.scopes →
      Tells found changing k (Run.repeating condition body bound)
        (Log.rounds condition body testing doing bound k) fun t _ => I t from
    rounds m sane rfl begins
  induction bound with
  | zero => exact fun k sane _ _ => throw sane trivial
  | succ bound ih =>
    intro k sane same holds
    rw [Run.repeating, Log.rounds]
    refine (tested k sane same holds).bind fun v k' sane' same' _ holds' => ?_
    split
    · refine (round k' sane' (same'.trans same) holds').seq (fun _ l sane'' same'' _ holds'' => ?_)
        .refl .refl
      exact ih l sane'' (same''.trans (same'.trans same)) holds''
    · exact pure sane' holds'

end Tells

end Lox
