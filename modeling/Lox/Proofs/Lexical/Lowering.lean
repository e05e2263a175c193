import Lox.Proofs.Grammar.StatementSound
import Lox.Proofs.Lexical.ForLoop
import Lox.Proofs.Lexical.Watching
import Mathlib

/-! A `for` that was read behaves as it does when it is told directly, wherever a session comes to
execute it. The statement it is read as has a scope more and other distances; under lexical scope
neither is there, so it is enough that the store matches one of cells where the statement begins. -/
namespace Lox

open Grammar (ForParts StatementRead sound_forParts sound_rules)

namespace Grammar

theorem ForParts.placed (parts : ForParts isOpen ts n m initializer condition increment body) :
    body.declares = false ∧ body.Placed ∧
      (lowered initializer condition increment body).declares = false ∧
      (lowered initializer condition increment body).Placed := by
  obtain ⟨-, initialized, -, -, -, -, derived⟩ := parts
  rw [lowered_eq_whileForm]
  obtain ⟨bare, placed⟩ := derived.placed
  exact ⟨bare, placed, whileForm_placed initialized.placed bare placed⟩

end Grammar

namespace Lexical

variable {w : World} {current : ScopeId} {m : Lox.Machine} {r : Machine}

/-- The second of two actions may leave out a value that it gives in the end. -/
theorem Joined.ofPure {Q : World → α → γ → Prop} {changing : List ScopeId}
    {x : EStateM.Result Stop Lox.Machine α} {y : Run β} {value : γ}
    (joined : Joined w current changing Q x ((do let _ ← y; return value) r)) :
    Joined w current changing (fun v a _ => Q v a value) x (y r) := by
  simp only [Bind.bind, EStateM.bind] at joined
  cases ran : y r with
  | ok _ k =>
    rw [ran] at joined
    cases x <;> exact joined
  | error stop k =>
    rw [ran] at joined
    cases x <;> exact joined

/-- A `for` read by the parser is what it was lowered to, and in every state that a session executes
it in, this goes as the loop goes directly: it has the same outcome under every bound, so it ends iff
the loop does, and leaves the same output, variables and instances, in the scope it began in. -/
theorem forStatement_direct {inner limit : Nat} {c c' : Grammar.Cursor} {s : Stmt}
    (read : Grammar.forStatement (Grammar.rules inner).statement limit c = .ok s c')
    (accepted : c'.errors = []) :
    ∃ ts isOpen initializer condition increment body,
      c.upcoming = ts ++ c'.upcoming ∧
      ForParts isOpen ts c.fresh c'.fresh initializer condition increment body ∧
      s = Grammar.lowered initializer condition increment body ∧
      ∀ (host : Host) (bound : Nat) (outputLimit : Option Nat) (units : List String)
        (m : Lox.Machine),
        ⟨.execute s, m⟩ ∈ (Lox.Session.start outputLimit).points host bound units →
        ∃ w here e r, Located w here m.current e ∧ Matches w m.current m r ∧
          ∀ rounds, Joined w m.current [m.current] (fun v _ _ => Located v here m.current e)
            (s.execute (Lox.Run.call host rounds) rounds m)
            (executeFor (call host rounds) rounds e initializer condition increment body r) := by
  have sound := sound_forParts (sound_rules inner).1 limit c
  rw [read] at sound
  obtain ⟨-, ts, taken, isOpen, initializer, condition, increment, body, parts, same, -⟩ :=
    sound.2 accepted
  refine ⟨ts, isOpen, initializer, condition, increment, body, taken, parts, same, ?_⟩
  intro host bound outputLimit units m reached
  obtain ⟨bare, placed, bare', placed'⟩ := parts.placed
  obtain ⟨w, here, e, r, faced⟩ := session_watched host bound outputLimit units s m reached
  refine ⟨w, here, e, r, faced.located, faced.matched, fun rounds => ?_⟩
  have joined := execute_agrees (call_agrees host rounds) rounds s faced.placed faced.located
    faced.settled m r faced.matched
  subst same
  rw [execute_lowered bare placed] at joined
  refine joined.ofPure.rebase (fun grows => grows) fun _ after => ?_
  rwa [here.after_of_not_declares _ bare' placed'] at after

def oneRound : String := "for (var more = true; more; more = false) print more;"

/-- The tokens of `oneRound`. -/
def oneRoundTokens : List Token :=
  let name : Token := ⟨.identifier, "more", none, 1⟩
  let word (keyword : Keyword) : Token := ⟨.keyword keyword, keyword.spelling, none, 1⟩
  let sign (kind : TokenKind) (lexeme : String) : Token := ⟨kind, lexeme, none, 1⟩
  [word .forWord, sign .leftParen "(", word .varWord, name, sign .equal "=", word .trueWord,
    sign .semicolon ";", name, sign .semicolon ";", name, sign .equal "=", word .falseWord,
    sign .rightParen ")", word .printWord, name, sign .semicolon ";"]

theorem forStatement_direct_oneRound : ∃ s c m,
    (Grammar.forStatement (Grammar.rules 8).statement 8
      ⟨oneRoundTokens.tail, .endOfFile 1, [], 0⟩ = .ok s c ∧ c.errors = []) ∧
    ⟨.execute s, m⟩ ∈ (Lox.Session.start none).points ⟨fun _ => 0, some maxCallDepth⟩ 8 [oneRound] ∧
    ∃ isOpen initializer condition increment body,
      ForParts isOpen oneRoundTokens.tail 0 4 initializer condition increment body ∧
      ∃ w here e r, Located w here m.current e ∧ Matches w m.current m r ∧
        ∀ rounds, Joined w m.current [m.current] (fun v _ _ => Located v here m.current e)
          (s.execute (Lox.Run.call ⟨fun _ => 0, some maxCallDepth⟩ rounds) rounds m)
          (executeFor (call ⟨fun _ => 0, some maxCallDepth⟩ rounds) rounds e initializer condition
            increment body r) := by
  let more : Token := ⟨.identifier, "more", none, 1⟩
  let tree : Stmt := Grammar.lowered (some (.var more (some (.constant (.boolean true)))))
    (some (.read 0 more)) (some (.assign 2 more (.constant (.boolean false)))) (.print (.read 3 more))
  have read : Grammar.forStatement (Grammar.rules 8).statement 8
      ⟨oneRoundTokens.tail, .endOfFile 1, [], 0⟩ = .ok tree ⟨[], .endOfFile 1, [], 4⟩ := by cbv
  have scanned : scan oneRound = (oneRoundTokens ++ [.endOfFile 1], []) := by decide +kernel
  have compiled : compile oneRound (Lox.Session.start none).fresh = (.ok [tree], 4) := by
    rw [compile, scanned]
    cbv
  have clean : (resolve [tree]).filterMap Finding.error? = [] := by decide +kernel
  have reached : ⟨.execute tree, Lox.Session.note (resolve [tree]) (Lox.Session.start none).machine⟩ ∈
      (Lox.Session.start none).points ⟨fun _ => 0, some maxCallDepth⟩ 8 [oneRound] := by
    rw [Lox.Session.points, Lox.Session.unitPoints, compiled]
    simp only [clean, Stmt.allPoints]
    rw [Stmt.points.eq_def]
    simp
  obtain ⟨ts, isOpen, initializer, condition, increment, body, taken, parts, -, direct⟩ :=
    forStatement_direct read rfl
  obtain rfl : oneRoundTokens.tail = ts := by simpa using taken
  exact ⟨tree, _, _, ⟨read, rfl⟩, reached, isOpen, initializer, condition, increment, body, parts,
    direct _ 8 none [oneRound] _ reached⟩

end Lexical

end Lox
