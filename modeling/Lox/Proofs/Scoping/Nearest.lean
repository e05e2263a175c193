import Lox.Proofs.Scoping.Chain

/-! Looking a name up in a store of scopes, by name and by count. Going outward to the first scope that
binds the name comes to the binding that is found at the least distance whose scope binds it. A value that
is put there is in no other binding, so it is seen from just those scopes whose look-up ends there. This
holds of every store, however its scopes were made and share the scopes around them. -/
namespace Lox.Scopes

variable {α : Type} {s t : Scopes α} {i j k : ScopeId} {distance : Nat} {name other : String}
  {value : α}

/-- Of the scopes of the chain that bind the name this one comes first, so many steps out. -/
structure Nearest (s : Scopes α) (i : ScopeId) (name : String) (distance : Nat) (j : ScopeId) :
    Prop where
  out : s.ancestor? i distance = some j
  bound : (s.bindings j).binds name = true
  first : ∀ d < distance, ∀ k, s.ancestor? i d = some k → (s.bindings k).binds name = false

/-- No scope of the chain binds the name. -/
def Unbound (s : Scopes α) (i : ScopeId) (name : String) : Prop :=
  ∀ distance j, s.ancestor? i distance = some j → (s.bindings j).binds name = false

/-- The chain is too short, or its scope at the distance does not bind the name. -/
def Misses (s : Scopes α) (i : ScopeId) (distance : Nat) (name : String) : Prop :=
  s.ancestor? i distance = none ∨
    ∃ j, s.ancestor? i distance = some j ∧ (s.bindings j).binds name = false

/-- One name that a scope binds stands for the value, and nothing else is different. -/
structure Rebinds (s t : Scopes α) (j : ScopeId) (name : String) (value : α) : Prop where
  size : t.list.size = s.list.size
  enclosing : ∀ i, t.enclosing? i = s.enclosing? i
  bound : (s.bindings j).binds name = true
  anew : (t.bindings j).get? name = some value
  others : ∀ i other, ¬(i = j ∧ other = name) →
    (t.bindings i).get? other = (s.bindings i).get? other

theorem ancestor?_succ_of_enclosing? (linked : s.enclosing? i = some j) (distance : Nat) :
    s.ancestor? i (distance + 1) = s.ancestor? j distance := by
  rw [ancestor?, linked, Option.bind_some]

theorem Nearest.here (bound : (s.bindings i).binds name = true) : s.Nearest i name 0 i :=
  ⟨rfl, bound, fun _ before => absurd before (Nat.not_lt_zero _)⟩

/-- One step out, past a scope that does not bind the name. -/
theorem Nearest.outside (free : (s.bindings i).binds name = false) (linked : s.enclosing? i = some j)
    (nearest : s.Nearest j name distance k) : s.Nearest i name (distance + 1) k where
  out := by rw [ancestor?_succ_of_enclosing? linked, nearest.out]
  bound := nearest.bound
  first := by
    intro d before k out
    cases d with
    | zero =>
      cases out
      exact free
    | succ d =>
      rw [ancestor?_succ_of_enclosing? linked] at out
      exact nearest.first d (Nat.lt_of_succ_lt_succ before) k out

theorem Nearest.unique {d : Nat} (nearest : s.Nearest i name distance j) (nearest' : s.Nearest i name d k) :
    j = k := by
  rcases Nat.lt_trichotomy distance d with before | rfl | before
  · have free := nearest'.first distance before j nearest.out
    rw [nearest.bound] at free
    cases free
  · exact Option.some.inj (nearest.out.symm.trans nearest'.out)
  · have free := nearest.first d before k nearest'.out
    rw [nearest'.bound] at free
    cases free

/-- The walk outward stops at the nearest scope that binds the name, or comes past all. -/
theorem holder?_cases (s : Scopes α) (i : ScopeId) (name : String) :
    (∃ distance j, s.holder? i name = some j ∧ s.Nearest i name distance j) ∨
      s.holder? i name = none ∧ s.Unbound i name := by
  induction i using Nat.strongRecOn with
  | ind i ih =>
    rw [holder?]
    cases bound : (s.bindings i).binds name with
    | true => exact .inl ⟨0, i, rfl, .here bound⟩
    | false =>
      simp only [Bool.false_eq_true, if_false]
      split
      next ends =>
        refine .inr ⟨rfl, fun distance j out => ?_⟩
        cases distance with
        | zero =>
          cases out
          exact bound
        | succ distance =>
          rw [ancestor?, ends] at out
          cases out
      next outer linked =>
        rcases ih outer (enclosing?_lt linked) with ⟨distance, j, found, nearest⟩ | ⟨none, unbound⟩
        · exact .inl ⟨distance + 1, j, found, nearest.outside bound linked⟩
        · refine .inr ⟨none, fun distance j out => ?_⟩
          cases distance with
          | zero =>
            cases out
            exact bound
          | succ distance =>
            rw [ancestor?_succ_of_enclosing? linked] at out
            exact unbound distance j out

theorem Nearest.not_unbound (nearest : s.Nearest i name distance j) : ¬ s.Unbound i name := by
  intro unbound
  have free := unbound distance j nearest.out
  rw [nearest.bound] at free
  cases free

theorem Nearest.holder?_eq (nearest : s.Nearest i name distance j) : s.holder? i name = some j := by
  rcases s.holder?_cases i name with ⟨d, k, found, nearest'⟩ | ⟨-, unbound⟩
  · rw [found, nearest.unique nearest']
  · exact absurd unbound nearest.not_unbound

theorem holder?_eq_some_iff : s.holder? i name = some j ↔ ∃ distance, s.Nearest i name distance j := by
  constructor
  · intro found
    rcases s.holder?_cases i name with ⟨distance, k, found', nearest⟩ | ⟨none, -⟩
    · obtain rfl := Option.some.inj (found.symm.trans found')
      exact ⟨distance, nearest⟩
    · rw [none] at found
      cases found
  · rintro ⟨distance, nearest⟩
    exact nearest.holder?_eq

/-- The walk does not end where the name is free, so it comes past all scopes. -/
theorem holder?_free_iff :
    (∀ j, s.holder? i name = some j → (s.bindings j).binds name = false) ↔ s.Unbound i name := by
  rcases s.holder?_cases i name with ⟨distance, j, found, nearest⟩ | ⟨none, unbound⟩
  · refine ⟨fun free => ?_, fun unbound => absurd unbound nearest.not_unbound⟩
    have free := free j found
    rw [nearest.bound] at free
    cases free
  · refine ⟨fun _ => unbound, fun _ j found => ?_⟩
    rw [none] at found
    cases found

section

variable {scope : Option ScopeId} {look : Scopes α → Option ScopeId} {token : Token}

theorem valueIn_eq_ok_iff : s.valueIn scope token = .ok value ↔
    ∃ j, scope = some j ∧ (s.bindings j).get? token.lexeme = some value := by
  have found : (scope.bind fun j => (s.bindings j).get? token.lexeme) = some value ↔
      ∃ j, scope = some j ∧ (s.bindings j).get? token.lexeme = some value := Option.bind_eq_some_iff
  rw [← found, valueIn]
  cases scope.bind fun j => (s.bindings j).get? token.lexeme <;> simp

/-- Nothing is found where no scope is, or where the scope does not bind the name. -/
theorem valueIn_eq_error_iff {e : Diagnostic} : s.valueIn scope token = .error e ↔
    e = undefined token ∧ ∀ j, scope = some j → (s.bindings j).binds token.lexeme = false := by
  have free : (scope.bind fun j => (s.bindings j).get? token.lexeme) = none ↔
      ∀ j, scope = some j → (s.bindings j).binds token.lexeme = false := by
    cases scope <;> simp [Bindings.binds]
  rw [← free, valueIn]
  cases scope.bind fun j => (s.bindings j).get? token.lexeme <;> simp [eq_comm]

theorem replace_eq_error_iff {e : Diagnostic} : replace look token value s = .error e t ↔
    e = undefined token ∧ t = s ∧
      ∀ j, look s = some j → (s.bindings j).binds token.lexeme = false := by
  have free : (look s).filter (fun j => (s.bindings j).binds token.lexeme) = none ↔
      ∀ j, look s = some j → (s.bindings j).binds token.lexeme = false := by
    cases look s <;> simp
  rw [← free, replace]
  cases (look s).filter fun j => (s.bindings j).binds token.lexeme <;> simp [eq_comm]

theorem replace_eq_ok (ran : replace look token value s = .ok () t) :
    ∃ j, look s = some j ∧ (s.bindings j).binds token.lexeme = true ∧
      t = s.define j token.lexeme value := by
  rw [replace] at ran
  split at ran
  next j found =>
    obtain ⟨led, bound⟩ := Option.filter_eq_some_iff.1 found
    cases ran
    exact ⟨j, led, bound, rfl⟩
  next => cases ran

end

theorem define_rebinds (value : α) (bound : (s.bindings j).binds name = true) :
    s.Rebinds (s.define j name value) j name value := by
  have known : j < s.list.size := by
    refine Nat.lt_of_not_le fun unknown => ?_
    rw [bindings_of_size_le unknown] at bound
    cases bound
  refine ⟨by simp, enclosing?_define, bound, ?_, fun i other apart => ?_⟩
  · rw [bindings_define_same known, Bindings.get?_put_same]
  · rw [bindings_define]
    split
    next here =>
      obtain ⟨rfl, -⟩ := here
      exact Bindings.get?_put_other _ fun same => apart ⟨rfl, same⟩
    next => rfl

namespace Rebinds

variable (rebinds : s.Rebinds t j name value)
include rebinds

theorem ancestor?_eq (i : ScopeId) (distance : Nat) : t.ancestor? i distance = s.ancestor? i distance := by
  induction distance generalizing i with
  | zero => rfl
  | succ distance ih =>
    rw [ancestor?, ancestor?, rebinds.enclosing]
    exact congrArg _ (funext ih)

/-- The scopes bind the names they bound. -/
theorem binds_eq (i : ScopeId) (other : String) :
    (t.bindings i).binds other = (s.bindings i).binds other := by
  by_cases here : i = j ∧ other = name
  · obtain ⟨rfl, rfl⟩ := here
    rw [rebinds.bound, Bindings.binds, rebinds.anew]
    rfl
  · rw [Bindings.binds, rebinds.others i other here, Bindings.binds]

theorem nearest_iff : t.Nearest i other distance k ↔ s.Nearest i other distance k := by
  constructor
  · rintro ⟨out, bound, first⟩
    simp only [rebinds.ancestor?_eq, rebinds.binds_eq] at out bound first
    exact ⟨out, bound, first⟩
  · rintro ⟨out, bound, first⟩
    refine ⟨?_, ?_, ?_⟩
    · rwa [rebinds.ancestor?_eq]
    · rwa [rebinds.binds_eq]
    · simpa only [rebinds.ancestor?_eq, rebinds.binds_eq] using first

theorem holder?_eq (i : ScopeId) (other : String) : t.holder? i other = s.holder? i other := by
  refine Option.ext fun k => ?_
  rw [holder?_eq_some_iff, holder?_eq_some_iff]
  exact exists_congr fun _ => rebinds.nearest_iff

theorem get_of_nearest {token : Token} (same : token.lexeme = name)
    (nearest : s.Nearest k name distance j) : t.get k token = .ok value := by
  rw [get, valueIn_eq_ok_iff, same, rebinds.holder?_eq]
  exact ⟨j, nearest.holder?_eq, rebinds.anew⟩

/-- What a look-up comes to is the same where it does not end at the binding. -/
theorem get_of_apart {token : Token}
    (apart : ¬(token.lexeme = name ∧ ∃ distance, s.Nearest k name distance j)) :
    t.get k token = s.get k token := by
  have same : ((s.holder? k token.lexeme).bind fun scope => (t.bindings scope).get? token.lexeme) =
      (s.holder? k token.lexeme).bind fun scope => (s.bindings scope).get? token.lexeme := by
    refine Option.bind_congr fun scope found => rebinds.others scope _ ?_
    rintro ⟨rfl, same⟩
    exact apart ⟨same, holder?_eq_some_iff.1 (same ▸ found)⟩
  rw [get, get, valueIn, valueIn, rebinds.holder?_eq, same]

end Rebinds

/-- In every store a name is looked up and assigned alike by going outward and at the least distance whose
scope binds it, and outward that fails with an undefined variable just where no scope of the chain binds
it. Assigning outward puts the value into the one nearest binding, which is seen from just the scopes whose
nearest binding it is. At a distance one scope is read or assigned to, and that fails just where the chain
is too short or the scope does not bind the name. What fails leaves the store as it was. -/
theorem lookups_agree (s : Scopes α) (i : ScopeId) (name : Token) (value : α) :
    (s.Unbound i name.lexeme ∨ ∃ distance j, s.Nearest i name.lexeme distance j) ∧
    (∀ distance j, s.Nearest i name.lexeme distance j →
      s.get i name = s.getAt i distance name ∧
      assign i name value s = assignAt i distance name value s) ∧
    (∀ e, s.get i name = .error e ↔ e = undefined name ∧ s.Unbound i name.lexeme) ∧
    (∀ e t, assign i name value s = .error e t ↔
      e = undefined name ∧ t = s ∧ s.Unbound i name.lexeme) ∧
    (∀ t, assign i name value s = .ok () t →
      ∃ distance j, s.Nearest i name.lexeme distance j ∧ s.Rebinds t j name.lexeme value ∧
        ∀ k (other : Token),
          (other.lexeme = name.lexeme ∧ (∃ d, s.Nearest k name.lexeme d j) →
            t.get k other = .ok value) ∧
          (¬(other.lexeme = name.lexeme ∧ ∃ d, s.Nearest k name.lexeme d j) →
            t.get k other = s.get k other)) ∧
    ∀ distance,
      (∀ found, s.getAt i distance name = .ok found ↔
        ∃ j, s.ancestor? i distance = some j ∧ (s.bindings j).get? name.lexeme = some found) ∧
      (∀ e, s.getAt i distance name = .error e ↔
        e = undefined name ∧ s.Misses i distance name.lexeme) ∧
      (∀ t, assignAt i distance name value s = .ok () t →
        ∃ j, s.ancestor? i distance = some j ∧ s.Rebinds t j name.lexeme value) ∧
      ∀ e t, assignAt i distance name value s = .error e t ↔
        e = undefined name ∧ t = s ∧ s.Misses i distance name.lexeme := by
  have misses (distance : Nat) : (∀ j, s.ancestor? i distance = some j →
      (s.bindings j).binds name.lexeme = false) ↔ s.Misses i distance name.lexeme := by
    rw [Misses]
    cases s.ancestor? i distance <;> simp
  refine ⟨?_, fun distance j nearest => ⟨?_, ?_⟩, fun e => ?_, fun e t => ?_, fun t ran => ?_, fun distance =>
    ⟨fun found => valueIn_eq_ok_iff, fun e => ?_, fun t ran => ?_, fun e t => ?_⟩⟩
  · rcases s.holder?_cases i name.lexeme with ⟨distance, j, -, nearest⟩ | ⟨-, unbound⟩
    · exact .inr ⟨distance, j, nearest⟩
    · exact .inl unbound
  · rw [get, getAt, nearest.holder?_eq, nearest.out]
  · simp only [assign, assignAt, replace, nearest.holder?_eq, nearest.out]
  · rw [get, valueIn_eq_error_iff, holder?_free_iff]
  · rw [assign, replace_eq_error_iff, holder?_free_iff]
  · obtain ⟨j, found, bound, rfl⟩ := replace_eq_ok ran
    obtain ⟨distance, nearest⟩ := holder?_eq_some_iff.1 found
    have rebinds := define_rebinds value bound
    refine ⟨distance, j, nearest, rebinds, fun k other => ⟨?_, rebinds.get_of_apart⟩⟩
    rintro ⟨same, d, nearest'⟩
    exact rebinds.get_of_nearest same nearest'
  · rw [getAt, valueIn_eq_error_iff, misses]
  · obtain ⟨j, out, bound, rfl⟩ := replace_eq_ok ran
    exact ⟨j, out, define_rebinds value bound⟩
  · rw [assignAt, replace_eq_error_iff, misses]

/-- A scope that binds `a`, and one in it that does not. -/
def twoScopes : Scopes Nat := (((empty.add none).1.define 0 "a" 1).add (some 0)).1

theorem lookups_agree_twoScopes :
    twoScopes.get 1 ⟨.identifier, "a", none, 1⟩ = twoScopes.getAt 1 1 ⟨.identifier, "a", none, 1⟩ ∧
    ∀ t, assign 1 ⟨.identifier, "a", none, 1⟩ 2 twoScopes = .ok () t →
      t.get 0 ⟨.identifier, "a", none, 2⟩ = .ok 2 := by
  obtain ⟨-, alike, -, -, puts, -⟩ := lookups_agree twoScopes 1 ⟨.identifier, "a", none, 1⟩ 2
  have here : twoScopes.Nearest 0 "a" 0 0 := .here rfl
  have nearest : twoScopes.Nearest 1 "a" 1 0 := here.outside rfl rfl
  refine ⟨(alike 1 0 nearest).1, fun t ran => ?_⟩
  obtain ⟨_, j, found, -, seen⟩ := puts t ran
  obtain rfl := nearest.unique found
  exact (seen 0 _).1 ⟨rfl, 0, here⟩

end Lox.Scopes
