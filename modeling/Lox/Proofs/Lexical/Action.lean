import Lox.Proofs.Lexical.Agreement
import Lox.Proofs.Scoping.Lookup
import Lox.Run.Call

/-! The actions that evaluation is made of agree with their counterparts, those on variables where
the scope of the one and the environment of the other mirror the same place in the program. -/
namespace Lox.Lexical

section

variable {w : World} {current : ScopeId} {changing : List ScopeId}

theorem applyUnary_agrees {a : Value} {b : Value Environment} (alike : Alike w a b)
    (operator : Token) : Agrees w current changing (Lox.Run.applyUnary operator a)
      (Lox.Run.applyUnary operator b) Alike := by
  unfold Lox.Run.applyUnary
  split
  · cases alike with
    | number => exact .pure .number
    | _ => exact .raise
  · rw [alike.truthy_eq]
    exact .pure .boolean
  · exact .throw .meaningless

theorem numeric_agrees {a b : Value} {a' b' : Value Environment} (left : Alike w a a')
    (right : Alike w b b') (operator : Token) {result : Float → Float → Value}
    {result' : Float → Float → Value Environment} (same : ∀ x y, Alike w (result x y) (result' x y)) :
    Agrees w current changing (Lox.Run.numeric operator a b result)
      (Lox.Run.numeric operator a' b' result') Alike := by
  cases left <;> cases right <;> first
    | exact .pure (same _ _)
    | exact .raise

theorem add_agrees {a b : Value} {a' b' : Value Environment} (left : Alike w a a')
    (right : Alike w b b') (operator : Token) : Agrees w current changing
      (Lox.Run.add operator a b) (Lox.Run.add operator a' b') Alike := by
  cases left <;> cases right <;> first
    | exact .pure .number
    | exact .pure .string
    | exact .raise

theorem applyBinary_agrees {a b : Value} {a' b' : Value Environment} (left : Alike w a a')
    (right : Alike w b b') (operator : Token) : Agrees w current changing
      (Lox.Run.applyBinary operator a b) (Lox.Run.applyBinary operator a' b') Alike := by
  unfold Lox.Run.applyBinary
  rw [left.same_eq right]
  split
  any_goals exact numeric_agrees left right operator fun _ _ => by constructor
  · exact .pure .boolean
  · exact .pure .boolean
  · exact add_agrees left right operator
  · exact .throw .meaningless

theorem newCallable_agrees {what : Callable} {what' : Callable Environment}
    (alike : CallableAlike w what what') : Agrees w current changing
      (Lox.Run.newCallable what) (Run.newCallable what') Alike := by
  intro m r matched
  refine ⟨w, .refl w, { matched with identities := by simp [matched.identities] }, ?_⟩
  rw [matched.identities]
  exact .callable alike

theorem newObject_agrees {c : Class} {d : Class Environment} (alike : ClassAlike w c d) :
    Agrees w current changing (Lox.Run.newObject c) (Run.newObject d) Alike := by
  intro m r matched
  refine ⟨w, .refl w, matched.newObject, ?_⟩
  rw [matched.instances]
  exact .object alike

theorem field?_agrees (object : ObjectId) (name : String) :
    Agrees w current changing (Lox.Run.field? object name) (Run.field? object name)
      fun v => Option.Rel (Alike v) :=
  fun _ _ matched => ⟨w, .refl w, matched, matched.fields object name⟩

theorem setField_agrees {a : Value} {b : Value Environment} (alike : Alike w a b)
    (object : ObjectId) (name : String) : Agrees w current changing
      (Lox.Run.setField object name a) (Run.setField object name b) fun _ _ _ => True :=
  fun _ _ matched => ⟨w, .refl w, matched.setField alike object, trivial⟩

theorem write_agrees (text : String) : Agrees w current changing (Lox.Run.write text)
    (Run.write text) fun _ _ _ => True := by
  intro m r matched
  simp only [Lox.Run.write, Run.write, matched.sink]
  split
  · exact ⟨w, .refl w, matched, .raised⟩
  · exact ⟨w, .refl w, { matched with sink := rfl }, trivial⟩

theorem printLine_agrees {a : Value} {b : Value Environment} (alike : Alike w a b) :
    Agrees w current changing (Lox.Run.printLine a) (Run.printLine b) fun _ _ _ => True := by
  rw [Lox.Run.printLine, Run.printLine, alike.text_eq]
  exact (write_agrees _).step fun _ _ _ _ _ => write_agrees _

theorem clock_agrees (host : Host) : Agrees w current changing (Lox.Run.clock host)
    (Run.clock host) fun _ x y => x = y := by
  intro m r matched
  refine ⟨w, .refl w, { matched with readings := by simp [matched.readings] }, ?_⟩
  rw [matched.readings]

/-- Where an occurrence leads, on the one side and on the other. -/
theorem place_of_occurrence {m : Lox.Machine} {r : Machine} {here : Surroundings} {e : Environment}
    {i : Occurrence} {name : Token} (matched : Matches w current m r)
    (mirrors : Mirrors w here.scopes current e) (known : w.depth i = some (here.depth? name)) :
    (∃ j c, m.scopeOf i name = some j ∧ j ≠ globals ∧ w.cell j name.lexeme = some c ∧
      e.cell? name.lexeme = some c) ∨
    (m.scopeOf i name = (if (m.scopes.bindings globals).binds name.lexeme then some globals else none) ∧
      e.cell? name.lexeme = none) := by
  have noted : m.distances[i]? = here.depth? name := by rw [matched.noted, known, Option.join_some]
  rw [Lox.Machine.scopeOf, noted]
  cases depth : here.depth? name with
  | none => exact .inr ⟨Scopes.holder?_globals _ name.lexeme, mirrors.not_found depth⟩
  | some distance =>
    obtain ⟨j, c, out, held, seen⟩ := mirrors.found depth
    refine .inl ⟨j, c, ?_, matched.ne_globals (matched.placed held), held, seen⟩
    rw [matched.current]
    exact matched.ancestor? out

theorem read_agrees {here : Surroundings} {e : Environment} {i : Occurrence} {name : Token}
    (mirrors : Mirrors w here.scopes current e) (known : w.depth i = some (here.depth? name)) :
    Agrees w current changing (Lox.Run.readVariable i name) (Run.read e name) Alike := by
  intro m r matched
  rw [Lox.Run.readVariable_apply, Run.read, Lox.Run.get_bind]
  rcases place_of_occurrence matched mirrors known with ⟨j, c, leads, apart, held, seen⟩ |
    ⟨leads, seen⟩ <;> simp only [leads, seen]
  · have related := matched.locals apart name.lexeme
    rw [held, Option.bind_some] at related
    rw [Option.bind_some]
    cases before : (m.scopes.bindings j).get? name.lexeme <;> cases before' : r.content c <;>
      rw [before, before'] at related <;> cases related
    · exact ⟨w, .refl w, matched, .raised⟩
    · exact ⟨w, .refl w, matched, ‹_›⟩
  · have related := matched.shared name.lexeme
    cases before : (m.scopes.bindings globals).get? name.lexeme <;>
      cases before' : r.globals.get? name.lexeme <;> rw [before, before'] at related <;> cases related
    · simp only [Bindings.binds, before, Option.isSome_none, Bool.false_eq_true, if_false,
        Option.bind_none]
      exact ⟨w, .refl w, matched, .raised⟩
    · simp only [Bindings.binds, before, Option.isSome_some, if_true, Option.bind_some]
      exact ⟨w, .refl w, matched, ‹_›⟩

theorem assign_agrees {here : Surroundings} {e : Environment} {i : Occurrence} {name : Token}
    {a : Value} {b : Value Environment} (mirrors : Mirrors w here.scopes current e)
    (known : w.depth i = some (here.depth? name)) (alike : Alike w a b) :
    Agrees w current changing (Lox.Run.assignVariable i name a) (Run.assign e name b)
      fun _ _ _ => True := by
  intro m r matched
  rw [Lox.Run.assignVariable_apply, Run.assign, Lox.Run.get_bind]
  rcases place_of_occurrence matched mirrors known with ⟨j, c, leads, apart, held, seen⟩ |
    ⟨leads, seen⟩ <;> simp only [leads, seen]
  · have related := matched.locals apart name.lexeme
    rw [held, Option.bind_some] at related
    cases before : (m.scopes.bindings j).get? name.lexeme <;> cases before' : r.content c <;>
      rw [before, before'] at related
    · simp only [Option.filter_some, Bindings.binds, before, Option.isSome_none, Bool.false_eq_true,
        if_false]
      exact ⟨w, .refl w, matched, .raised⟩
    · cases related
    · cases related
    · simp only [Option.filter_some, Bindings.binds, before, Option.isSome_some, if_true]
      exact ⟨w, .refl w, matched.setLocal held alike, trivial⟩
  · have related := matched.shared name.lexeme
    cases before : (m.scopes.bindings globals).get? name.lexeme <;>
      cases before' : r.globals.get? name.lexeme <;> rw [before, before'] at related
    · simp only [Bindings.binds, before, before', Option.isSome_none, Bool.false_eq_true, if_false,
        Option.filter_none]
      exact ⟨w, .refl w, matched, .raised⟩
    · cases related
    · cases related
    · simp only [Bindings.binds, before, before', Option.isSome_some, if_true, Option.filter_some]
      exact ⟨w, .refl w, matched.setGlobal alike, trivial⟩

end

end Lox.Lexical
