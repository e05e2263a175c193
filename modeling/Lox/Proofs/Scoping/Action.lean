import Lox.Proofs.Scoping.Visits

/-! The actions that evaluation is made of visit no points, keep machines sound, and give values that
fit. -/
namespace Lox

variable {found : List Finding} {s t : Scopes Value} {m : Machine} {here : Surroundings}
  {i : ScopeId} {name : Token}

/-- Every name that is found at a place and may be read there is bound so many scopes out. -/
structure Readable (s : Scopes Value) (here : Surroundings) (i : ScopeId) : Prop where
  known : i < s.list.size
  binds : ∀ (name : Token) distance,
    here.isPending name = false ∨ name.lexeme = Keyword.thisWord.spelling →
    here.depth? name = some distance →
    ∃ j, s.ancestor? i distance = some j ∧ (s.bindings j).binds name.lexeme = true

theorem Scopes.Extends.ancestor? (le : s ≤ t) {distance : Nat} {j : ScopeId}
    (out : s.ancestor? i distance = some j) : t.ancestor? i distance = some j := by
  induction distance generalizing i with
  | zero => exact out
  | succ distance ih =>
    obtain ⟨o, linked, further⟩ := Option.bind_eq_some_iff.1 out
    rw [Scopes.ancestor?, le.enclosing i (Scopes.lt_size_of_enclosing? linked), linked]
    exact ih further

namespace Readable

theorem mono (le : s ≤ t) (readable : Readable s here i) : Readable t here i := by
  refine ⟨Nat.lt_of_lt_of_le readable.known le.size, fun name distance ready depth => ?_⟩
  obtain ⟨j, out, bound⟩ := readable.binds name distance ready depth
  exact ⟨j, Scopes.Extends.ancestor? le out, le.binds j _ bound⟩

theorem of_covers (rooted : s.Rooted) (covers : Covers s here.scopes i) : Readable s here i :=
  ⟨covers.lt_size rooted, fun _ _ _ depth => covers.found depth⟩

/-- A name that is being declared is found, but pending. -/
theorem declare (rooted : s.Rooted) (covers : Covers s here.scopes i)
    (free : here.holds name = false) (variable' : name.lexeme ≠ Keyword.thisWord.spelling) :
    Readable s (here.declare name) i := by
  refine ⟨covers.lt_size rooted, fun other distance ready depth => ?_⟩
  rw [Surroundings.declare, if_neg (by simp [free])] at ready depth
  cases scopes : here.scopes with
  | nil => simp [Surroundings.hold, scopes, Surroundings.depth?] at depth
  | cons innermost outer =>
    simp only [Surroundings.hold, scopes, Surroundings.isPending, List.head?_cons, Option.any_some,
      decide_eq_false_iff_not] at ready
    have different : other.lexeme ≠ name.lexeme := by
      intro same
      rcases ready with ready | this
      · rw [same, Bindings.get?_put_same] at ready
        exact ready rfl
      · exact variable' (same ▸ this)
    have outer' : here.scopes.findIdx? (·.binds other.lexeme) = some distance := by
      rw [scopes, ← depth]
      simp only [Surroundings.depth?, Surroundings.hold, scopes, List.findIdx?_cons,
        Bindings.binds_put, different, decide_false, Bool.false_or]
    exact covers.found outer'

end Readable

namespace Visits

variable {Q : Scopes Value → α → Prop} {v : Value}

theorem applyUnary (sound : m.Sound found) (operator : Token) (operand : Value) :
    Visits found m (Run.applyUnary operator operand) [] fun t v => v.Fits found t := by
  unfold Run.applyUnary
  split
  · cases operand with
    | number x => exact .pure sound trivial
    | _ => exact .raise sound
  · exact .pure sound trivial
  · exact .throw sound trivial

theorem numeric (sound : m.Sound found) (operator : Token) (left right : Value)
    {result : Float → Float → Value} (fits : ∀ x y t, (result x y).Fits found t) :
    Visits found m (Run.numeric operator left right result) [] fun t v => v.Fits found t := by
  unfold Run.numeric
  split
  · exact .pure sound (fits _ _ _)
  · exact .raise sound

theorem applyBinary (sound : m.Sound found) (operator : Token) (left right : Value) :
    Visits found m (Run.applyBinary operator left right) [] fun t v => v.Fits found t := by
  unfold Run.applyBinary
  split
  any_goals exact numeric sound operator left right fun _ _ _ => trivial
  · exact .pure sound trivial
  · exact .pure sound trivial
  · unfold Run.add
    split
    · exact .pure sound trivial
    · exact .pure sound trivial
    · exact .raise sound
  · exact .throw sound trivial

theorem readVariable (sound : m.Sound found) (id : Occurrence) :
    Visits found m (Run.readVariable id name) [] fun t v => v.Fits found t := by
  unfold Visits
  rw [Run.readVariable_apply]
  cases bound : (m.scopeOf id name).bind fun i => (m.scopes.bindings i).get? name.lexeme with
  | none => exact ⟨.refl sound, trivial⟩
  | some v =>
    obtain ⟨i, -, held⟩ := Option.bind_eq_some_iff.1 bound
    exact ⟨.refl sound, sound.values i _ v held⟩

/-- The value may be of use only in the scopes that have it. -/
theorem define (sound : m.Sound found) (i : ScopeId) (name : String)
    (fits : v.Fits found (m.scopes.define i name v)) :
    Visits found m (Run.define i name v) [] fun t _ => t = m.scopes.define i name v := by
  have le := m.scopes.le_define i name v
  refine ⟨⟨?_, rfl, rfl, .nil le⟩, rfl⟩
  refine { sound with
    rooted := sound.rooted.define i name v
    values := fun j other v' held => ?_
    fields := fun j other v' held => (sound.fields j other v' held).mono le }
  simp only [Scopes.bindings_define] at held
  split at held
  next here =>
    by_cases same : other = name
    · rw [same, Bindings.get?_put_same] at held
      cases held
      exact fits
    · rw [Bindings.get?_put_other _ same] at held
      exact (sound.values i other v' held).mono le
  next => exact (sound.values j other v' held).mono le

theorem assignVariable (sound : m.Sound found) (id : Occurrence) (fits : v.Fits found m.scopes) :
    Visits found m (Run.assignVariable id name v) [] fun _ _ => True := by
  unfold Visits
  rw [Run.assignVariable_apply]
  cases (m.scopeOf id name).filter fun i => (m.scopes.bindings i).binds name.lexeme with
  | none => exact ⟨.refl sound, trivial⟩
  | some i =>
    have le := m.scopes.le_define i name.lexeme v
    exact (define sound i name.lexeme (fits.mono le)).mono fun _ _ _ _ => trivial

theorem newScope (sound : m.Sound found) (known : i < m.scopes.list.size) :
    Visits found m (Run.newScope i) [] fun t j => t.enclosing? j = some i := by
  have le := m.scopes.le_add (some i)
  refine ⟨⟨?_, rfl, rfl, .nil le⟩, ?_⟩
  · exact { sound with
      rooted := sound.rooted.add known
      values := fun j other v held => by
        have same : (m.scopes.add (some i)).1.bindings j = m.scopes.bindings j := Scopes.bindings_add j
        exact (sound.values j other v (same ▸ held)).mono le
      fields := fun j other v held => (sound.fields j other v held).mono le }
  · simp [Scopes.enclosing?, known]

theorem newCallable (sound : m.Sound found) (what : Callable) :
    Visits found m (Run.newCallable what) [] fun t v =>
      t = m.scopes ∧ ∃ identity, v = .callable identity what :=
  ⟨⟨{ sound with }, rfl, rfl, .nil (Scopes.le_refl _)⟩, rfl, _, rfl⟩

theorem newObject (sound : m.Sound found) {c : Class} (fits : c.Fits found m.scopes) :
    Visits found m (Run.newObject c) [] fun t v => v.Fits found t := by
  refine ⟨⟨{ sound with fields := fun j other v held => ?_ }, rfl, rfl, .nil (Scopes.le_refl _)⟩, fits⟩
  rw [Array.getElem?_push] at held
  split at held
  · cases held
  · exact sound.fields j other v held

theorem field? (sound : m.Sound found) (id : ObjectId) (name : String) :
    Visits found m (Run.field? id name) [] fun t r => ∀ v ∈ r, v.Fits found t :=
  ⟨.refl sound, fun v held => sound.fields id name v held⟩

theorem setField (sound : m.Sound found) (id : ObjectId) (name : String)
    (fits : v.Fits found m.scopes) :
    Visits found m (Run.setField id name v) [] fun _ _ => True := by
  refine ⟨⟨{ sound with fields := fun j other v' held => ?_ }, rfl, rfl, .nil (Scopes.le_refl _)⟩, trivial⟩
  rw [Array.getElem?_modify] at held
  split at held
  next same =>
    cases before : m.objects[j]? with
    | none =>
      rw [before] at held
      cases held
    | some list =>
      simp only [before, Option.map_some, Option.getD_some] at held
      by_cases equal : other = name
      · rw [equal, Bindings.get?_put_same] at held
        cases held
        exact fits
      · rw [Bindings.get?_put_other _ equal] at held
        exact sound.fields j other v' (by rwa [before])
  next => exact sound.fields j other v' held

theorem write (sound : m.Sound found) (text : String) :
    Visits found m (Run.write text) [] fun _ _ => True := by
  unfold Visits Run.write
  by_cases closed : m.sink.isClosed
  · simp only [closed, if_true]
    exact ⟨.refl sound, trivial⟩
  · simp only [closed]
    exact ⟨⟨{ sound with }, rfl, rfl, .nil (Scopes.le_refl _)⟩, trivial⟩

theorem printLine (sound : m.Sound found) (v : Value) :
    Visits found m (Run.printLine v) [] fun _ _ => True :=
  (write sound v.text).last fun _ _ sound' _ _ _ => write sound' "\n"

theorem clock (sound : m.Sound found) (host : Host) :
    Visits found m (Run.clock host) [] fun _ _ => True :=
  ⟨⟨{ sound with }, rfl, rfl, .nil (Scopes.le_refl _)⟩, trivial⟩

theorem bindMethod (sound : m.Sound found) {c : Class} {method : FunctionDecl}
    (class' : c.Fits found m.scopes) (member : method ∈ c.methods) (fits : v.Fits found m.scopes) :
    Visits found m (Run.bindMethod v c method) [] fun t v => v.Fits found t := by
  obtain ⟨here, covers, among⟩ := class'.covered
  refine (newScope sound (covers.lt_size sound.rooted)).last fun i m₁ sound₁ _ le₁ linked => ?_
  have le := m₁.scopes.le_define i Keyword.thisWord.spelling v
  refine (define sound₁ i _ ((fits.mono le₁).mono le)).last fun _ m₂ sound₂ _ _ same => ?_
  refine (newCallable sound₂ _).mono fun t r _ made => ?_
  obtain ⟨rfl, identity, rfl⟩ := made
  refine ⟨class'.placed.of_mem member, class'.spelled.of_mem member, here.inMethods, ?_, ?_⟩
  · rw [same]
    refine .inner ((covers.mono le₁).mono le) (by rwa [Scopes.enclosing?_define]) fun name bound => ?_
    have this : name = Keyword.thisWord.spelling := by
      by_cases this : name = Keyword.thisWord.spelling
      · exact this
      · simp [Bindings.binds, Bindings.get?, Ne.symm this] at bound
    rw [this, Scopes.bindings_define_same (Scopes.lt_size_of_enclosing? linked), Bindings.binds_put]
    simp
  · exact fun f part => among (FunctionDecl.findings_subset _ member part)

theorem property (sound : m.Sound found) (fits : v.Fits found m.scopes) :
    Visits found m (Run.property v name) [] fun t v => v.Fits found t := by
  cases v with
  | object id c =>
    refine (field? sound id name.lexeme).last fun r m' sound' _ le held => ?_
    cases r with
    | some v => exact .pure sound' (held v rfl)
    | none =>
      simp only
      cases chosen : c.method? name.lexeme with
      | none => exact .raise sound'
      | some method =>
        have member := List.mem_reverse.1 (List.mem_of_find?_eq_some chosen)
        exact bindMethod sound' (Class.Fits.mono le fits) member (fits.mono le)
  | _ => exact .raise sound

/-- Every parameter is bound, since there are as many arguments. -/
theorem defineEach {arguments : List Value} {parameters : List Token} (sound : m.Sound found)
    (covers : Covers m.scopes here.scopes i) (all : ∀ v ∈ arguments, v.Fits found m.scopes)
    (complete : arguments.length = parameters.length) :
    Visits found m (Run.defineEach i parameters arguments) []
      fun t _ => Covers t (parameters.foldl Surroundings.define here).scopes i := by
  induction parameters generalizing m here arguments with
  | nil =>
    rw [Run.defineEach]
    · exact .pure sound covers
    · intro _ _ _ _ same
      cases same
  | cons parameter rest ih =>
    cases arguments with
    | nil => cases complete
    | cons argument arguments =>
      rw [Run.defineEach]
      have le := m.scopes.le_define i parameter.lexeme argument
      have fits := all argument (List.mem_cons_self ..)
      refine (define sound i _ (fits.mono le)).last fun _ m' sound' _ le' same => ?_
      refine ih sound' ?_ (fun v member => ?_) (by simpa using complete)
      · rw [same]
        exact covers.define
      · exact (all v (List.mem_cons_of_mem _ member)).mono le'

/-- The body of a function is executed where its scope covers its parameters. -/
theorem enter {f : Closure} {arguments : List Value} {body : Run Unit} {inside : Points}
    (sound : m.Sound found) (fits : f.Fits found m.scopes)
    (all : ∀ v ∈ arguments, v.Fits found m.scopes)
    (complete : arguments.length = f.declaration.parameters.length)
    (visits : ∀ (m' : Machine) (here : Surroundings), m'.Sound found → Covers m'.scopes here.scopes m'.current →
      Stmt.allFindings here f.declaration.body ⊆ found →
      Visits found m' body (inside m') fun _ _ => True) :
    Visits found m (Run.enter f arguments body)
      (Points.following (Run.prepare f arguments)
        (fun scope m => inside { m with current := scope }) m) fun t v => v.Fits found t := by
  obtain ⟨here, covers, among⟩ := fits.covered
  rw [FunctionDecl.findings_eq] at among
  have prepared : Visits found m (Run.prepare f arguments) [] fun t i =>
      Covers t (here.inBody f.declaration.parameters).scopes i := by
    refine (newScope sound (covers.lt_size sound.rooted)).last fun i m₁ sound₁ _ le₁ linked => ?_
    have entered : Covers m₁.scopes { here.enter [] with inFunction := true }.scopes i :=
      (covers.mono le₁).enter linked
    refine (defineEach sound₁ entered (fun v member => (all v member).mono le₁) complete).last ?_
    intro _ m₂ sound₂ _ _ bound
    exact .pure sound₂ bound
  rw [Run.enter_eq]
  refine prepared.step fun i m' sound' _ _ covers' => ?_
  refine .returning (.within (visits _ _ ?_ covers' ?_))
  · exact { sound' with }
  · exact fun f part => among (List.mem_append_right _ part)

end Visits

end Lox
