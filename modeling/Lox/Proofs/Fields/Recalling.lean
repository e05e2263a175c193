import Lox.Proofs.Fields.History

/-! An action recalls a log and the calls it begins if the fields behind it are what the stores of the log
have left, each entry finds what the stores before it have left, and the instances behind it are those
before it and one for each class that is called. -/
namespace Lox

/-- What lies between two machines. -/
structure Recorded (made : List Class) (m : Machine) (log : List Entry) (starts : List Start)
    (m' : Machine) : Prop where
  populated : m'.Populated (starts.foldl madeBehind made)
  identities : m.identities ≤ m'.identities
  contents : m'.contents = log.foldl Contents.behind m.contents
  finds : Along (fun f e => e.machine.contents = f) Contents.behind m.contents log
  begins : Along (fun made s => s.machine.Populated made) madeBehind made starts
  known : ∀ e ∈ log, e.Known (starts.foldl madeBehind made)

/-- What lies between two machines in which the same is known of occurrences. -/
structure Remembers (made : List Class) (m : Machine) (log : List Entry) (starts : List Start)
    (m' : Machine) : Prop extends Recorded made m log starts m' where
  distances : m'.distances = m.distances

/-- `Q` is about the instances, the machine and the value when the action came to its end. -/
def Recalls (made : List Class) (m : Machine) (x : Run α) (log : List Entry) (starts : List Start)
    (Q : List Class → Machine → α → Prop) : Prop :=
  match x m with
  | .ok v m' => Remembers made m log starts m' ∧ Q (starts.foldl madeBehind made) m' v
  | .error stop m' => Remembers made m log starts m' ∧
      stop.Known (starts.foldl madeBehind made) m'

variable {made made' : List Class} {m m' k : Machine} {a b log : List Entry} {c d starts : List Start}

theorem prefix_foldl_madeBehind (made : List Class) (starts : List Start) :
    made <+: starts.foldl madeBehind made := by
  rw [foldl_madeBehind]
  exact List.prefix_append _ _

namespace Recorded

theorem refl (populated : m.Populated made) : Recorded made m [] [] m :=
  ⟨populated, Nat.le_refl _, rfl, trivial, trivial, by simp⟩

theorem later (recorded : Recorded made m log starts m') :
    Later made m (starts.foldl madeBehind made) m' :=
  ⟨prefix_foldl_madeBehind made starts, recorded.identities⟩

theorem trans (first : Recorded made m a c k) (second : Recorded (c.foldl madeBehind made) k b d m') :
    Recorded made m (a ++ b) (c ++ d) m' := by
  constructor
  · rw [List.foldl_append]
    exact second.populated
  · exact Nat.le_trans first.identities second.identities
  · rw [List.foldl_append, ← first.contents]
    exact second.contents
  · exact first.finds.append (first.contents ▸ second.finds)
  · exact first.begins.append second.begins
  · intro e member
    rw [List.foldl_append]
    rcases List.mem_append.1 member with left | right
    · obtain ⟨now, among, known⟩ := first.known e left
      exact ⟨now, among.trans (prefix_foldl_madeBehind _ d), known⟩
    · exact second.known e right

/-- An entry that stores nothing comes first. -/
theorem cons {e : Entry} (populated : e.machine.Populated made) (known : e.deed.Known made e.machine)
    (quiet : ∀ f : Contents, f.behind e = f) (recorded : Recorded made e.machine log starts m') :
    Recorded made e.machine (e :: log) starts m' := by
  have alone : Recorded made e.machine [e] [] e.machine :=
    { refl populated with
      contents := (quiet _).symm
      finds := ⟨rfl, trivial⟩
      known := fun f member => List.mem_singleton.1 member ▸ ⟨made, List.prefix_rfl, populated, known⟩ }
  exact alone.trans recorded

end Recorded

namespace Remembers

theorem refl (populated : m.Populated made) : Remembers made m [] [] m := ⟨.refl populated, rfl⟩

/-- Instances and their fields are left alone. -/
theorem of_scopes (populated : m.Populated made) (objects : m'.objects = m.objects)
    (identities : m.identities ≤ m'.identities) (distances : m'.distances = m.distances)
    (values : ∀ i name v, (m'.scopes.bindings i).get? name = some v → v.Known made m') :
    Remembers made m [] [] m' :=
  ⟨⟨populated.of_scopes objects identities values, identities, Machine.contents_congr objects, trivial,
    trivial, by simp⟩, distances⟩

theorem trans (first : Remembers made m a c k)
    (second : Remembers (c.foldl madeBehind made) k b d m') :
    Remembers made m (a ++ b) (c ++ d) m' :=
  ⟨first.toRecorded.trans second.toRecorded, second.distances.trans first.distances⟩

end Remembers

namespace Recalls

variable {P Q : List Class → Machine → α → Prop} {R : List Class → Machine → β → Prop} {x : Run α}

theorem pure {v : α} (populated : m.Populated made) (holds : Q made m v) :
    Recalls made m (pure v) [] [] Q := ⟨.refl populated, holds⟩

theorem throw {stop : Stop} (populated : m.Populated made) (known : stop.Known made m) :
    Recalls made m (throw stop) [] [] Q := ⟨.refl populated, known⟩

theorem raise (populated : m.Populated made) : Recalls made m (Run.raise line e) [] [] Q :=
  throw populated trivial

theorem cases (recalls : Recalls made m x log starts Q) :
    (∃ v m', x m = .ok v m' ∧ Remembers made m log starts m' ∧
      Q (starts.foldl madeBehind made) m' v) ∨
    ∃ stop m', x m = .error stop m' ∧ Remembers made m log starts m' ∧
      stop.Known (starts.foldl madeBehind made) m' := by
  unfold Recalls at recalls
  split at recalls
  next v m' ran => exact .inl ⟨v, m', ran, recalls⟩
  next stop m' ran => exact .inr ⟨stop, m', ran, recalls⟩

/-- What follows an action comes behind it in both lists. -/
theorem bind {f : α → Run β} {then' : α → Log} {begun' : α → Starts}
    (first : Recalls made m x log starts P)
    (second : ∀ v made' k, Later made m made' k → k.Populated made' → P made' k v →
      Recalls made' k (f v) (then' v k) (begun' v k) R) :
    Recalls made m (x >>= f) (log ++ Log.following x then' m)
      (starts ++ Starts.following x begun' m) R := by
  unfold Recalls Log.following Starts.following
  simp only [Bind.bind, EStateM.bind]
  rcases first.cases with ⟨v, k, ran, told, holds⟩ | ⟨stop, k, ran, told, known⟩ <;> simp only [ran]
  · have later := second v _ k told.later told.populated holds
    rcases later.cases with ⟨w, m', ran', told', holds'⟩ | ⟨stop, m', ran', told', known'⟩ <;>
      simp only [ran', List.foldl_append]
    · exact ⟨told.trans told', holds'⟩
    · exact ⟨told.trans told', known'⟩
  · exact ⟨by simpa using told, by simpa using known⟩

/-- What begins no calls follows. -/
theorem quietly {f : α → Run β} {then' : α → Log} (first : Recalls made m x log starts P)
    (second : ∀ v made' k, Later made m made' k → k.Populated made' → P made' k v →
      Recalls made' k (f v) (then' v k) [] R) :
    Recalls made m (x >>= f) (log ++ Log.following x then' m) starts R := by
  have both : Recalls made m (x >>= f) (log ++ Log.following x then' m)
      (starts ++ Starts.following x (fun _ _ => []) m) R := first.bind second
  have none : Starts.following x (fun _ _ => []) m = [] := by
    rw [Starts.following]
    split <;> rfl
  rwa [none, List.append_nil] at both

/-- What has no entries and begins no calls follows. -/
theorem last {f : α → Run β} (first : Recalls made m x log starts P)
    (second : ∀ v made' k, Later made m made' k → k.Populated made' → P made' k v →
      Recalls made' k (f v) [] [] R) : Recalls made m (x >>= f) log starts R := by
  have both : Recalls made m (x >>= f) (log ++ Log.following x (fun _ _ => []) m) starts R :=
    first.quietly second
  have none : Log.following x (fun _ _ => []) m = [] := by
    rw [Log.following]
    split <;> rfl
  rwa [none, List.append_nil] at both

/-- An action without entries and calls comes first. -/
theorem step {f : α → Run β} {then' : α → Log} {begun' : α → Starts}
    (first : Recalls made m x [] [] P)
    (second : ∀ v made' k, Later made m made' k → k.Populated made' → P made' k v →
      Recalls made' k (f v) (then' v k) (begun' v k) R) :
    Recalls made m (x >>= f) (Log.following x then' m) (Starts.following x begun' m) R :=
  first.bind second

theorem asking {f : Machine → Run α} (recalls : Recalls made m (f m) log starts Q) :
    Recalls made m (get >>= f) log starts Q := recalls

theorem entry {e : Entry} (here : e.machine = m) (populated : m.Populated made)
    (known : e.deed.Known made m) (quiet : ∀ f : Contents, f.behind e = f)
    (recalls : Recalls made m x log starts Q) : Recalls made m x (e :: log) starts Q := by
  obtain rfl := here
  unfold Recalls
  rcases recalls.cases with ⟨v, m', ran, told, holds⟩ | ⟨stop, m', ran, told, known'⟩ <;> rw [ran]
  · exact ⟨⟨.cons populated known quiet told.toRecorded, told.distances⟩, holds⟩
  · exact ⟨⟨.cons populated known quiet told.toRecorded, told.distances⟩, known'⟩

theorem within {scope : ScopeId}
    (recalls : Recalls made { m with current := scope } x log starts fun _ _ _ => True) :
    Recalls made m (Run.within scope x) log starts fun _ _ _ => True := by
  unfold Recalls Run.within
  rcases recalls.cases with ⟨v, m', ran, told, -⟩ | ⟨stop, m', ran, told, known⟩ <;> simp only [ran]
  · exact ⟨{ told with populated := { told.populated with } }, trivial⟩
  · refine ⟨{ told with populated := { told.populated with } }, ?_⟩
    cases stop with
    | returned value line => exact known.mono ⟨List.prefix_rfl, Nat.le_refl _⟩
    | _ => trivial

theorem counted {x : Run Value}
    (recalls : Recalls made { m with depth := m.depth + 1 } x log starts Value.Known) :
    Recalls made m (Run.counted x) log starts Value.Known := by
  unfold Recalls Run.counted
  rcases recalls.cases with ⟨v, m', ran, told, holds⟩ | ⟨stop, m', ran, told, known⟩ <;>
    simp only [ran]
  · exact ⟨{ told with populated := { told.populated with } },
      holds.mono ⟨List.prefix_rfl, Nat.le_refl _⟩⟩
  · refine ⟨{ told with populated := { told.populated with } }, ?_⟩
    cases stop with
    | returned value line => exact known.mono ⟨List.prefix_rfl, Nat.le_refl _⟩
    | _ => trivial

theorem returning {x : Run Unit} (recalls : Recalls made m x log starts fun _ _ _ => True) :
    Recalls made m (Run.returning x) log starts Value.Known := by
  unfold Recalls Run.returning
  rcases recalls.cases with ⟨v, m', ran, told, -⟩ | ⟨stop, m', ran, told, known⟩ <;> simp only [ran]
  · exact ⟨told, trivial⟩
  · cases stop with
    | returned value line => exact ⟨told, known⟩
    | _ => exact ⟨told, trivial⟩

theorem repeating {condition : Run Value} {body : Run Unit} {testing doing : Log}
    {testing' doing' : Starts} (populated : m.Populated made)
    (tested : ∀ made' k, k.Populated made' →
      Recalls made' k condition (testing k) (testing' k) Value.Known)
    (round : ∀ made' k, k.Populated made' →
      Recalls made' k body (doing k) (doing' k) fun _ _ _ => True) (bound : Nat) :
    Recalls made m (Run.repeating condition body bound)
      (Log.rounds condition body testing doing bound m)
      (Starts.rounds condition body testing' doing' bound m) fun _ _ _ => True := by
  induction bound generalizing made m with
  | zero => exact throw populated trivial
  | succ bound ih =>
    rw [Run.repeating, Log.rounds, Starts.rounds]
    refine (tested made m populated).bind fun v made' k _ populated' _ => ?_
    split
    · exact (round made' k populated').bind fun _ made'' l _ populated'' _ => ih populated''
    · exact pure populated' trivial

end Recalls

end Lox
