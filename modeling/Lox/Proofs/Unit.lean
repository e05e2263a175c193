import Lox.Proofs.Grammar.Numbering
import Lox.Proofs.Grammar.Source
import Lox.Session

/-! What becomes of one unit of a session. What is noted of its occurrences is what was found of them,
and nothing that was noted of others is changed. -/
namespace Lox

namespace Session

theorem note_cons (f : Finding) (rest : List Finding) (m : Machine) :
    note (f :: rest) m = note rest (note [f] m) := rfl

/-- What is not found of an occurrence is not changed. -/
theorem distances_note_of_not_mem {i : Nat} {findings : List Finding} (m : Machine)
    (apart : i ∉ occurrences findings) : (note findings m).distances[i]? = m.distances[i]? := by
  induction findings generalizing m with
  | nil => rfl
  | cons f rest ih =>
    rw [note_cons]
    cases f with
    | error d => exact ih m apart
    | reference id name depth =>
      simp only [occurrences, List.filterMap_cons, Finding.reference?, List.map_cons,
        List.mem_cons, not_or] at apart
      rw [ih _ apart.2]
      cases depth with
      | none => rfl
      | some depth =>
        simp only [note, List.foldl_cons, List.foldl_nil]
        rw [Std.TreeMap.getElem?_insert, if_neg]
        simpa [Std.compare_eq_iff_eq] using Ne.symm apart.1

/-- What is found of an occurrence for the first time is known afterwards. -/
theorem distances_note {i : Nat} {name : String} {depth : Option Nat} {findings : List Finding}
    {m : Machine} (distinct : (occurrences findings).Nodup)
    (found : .reference i name depth ∈ findings) (unknown : m.distances[i]? = none) :
    (note findings m).distances[i]? = depth := by
  induction findings generalizing m with
  | nil => cases found
  | cons f rest ih =>
    rw [note_cons]
    have split : occurrences (f :: rest) = occurrences [f] ++ occurrences rest :=
      occurrences_append [f] rest
    rw [split, List.nodup_append] at distinct
    obtain ⟨-, others, disjoint⟩ := distinct
    rcases List.mem_cons.1 found with rfl | later
    · have once : i ∉ occurrences rest := fun again =>
        disjoint i (List.mem_singleton.2 rfl) i again rfl
      rw [distances_note_of_not_mem _ once]
      cases depth with
      | none => exact unknown
      | some depth => simp [note]
    · have among : i ∈ occurrences rest :=
        List.mem_map.2 ⟨_, List.mem_filterMap.2 ⟨_, later, rfl⟩, rfl⟩
      have apart : i ∉ occurrences [f] := fun first => disjoint i first i among rfl
      refine ih others later ?_
      rw [distances_note_of_not_mem _ apart, unknown]

/-- What becomes of a unit when it is compiled, resolved and executed. -/
theorem run_eq (host : Host) (bound : Nat) (source : String) (s : Session) :
    s.run host bound source =
      match Lox.compile source s.fresh with
      | (.error errors, fresh) => (.rejected errors, { s with fresh := fresh })
      | (.ok program, fresh) =>
        let noted := note (Lox.resolve program) s.machine
        match (Lox.resolve program).filterMap Finding.error? with
        | [] =>
          match Stmt.executeAll (Run.call host bound) bound program noted with
          | .ok () m => (.completed, ⟨m, fresh⟩)
          | .error stop m => (.ofStop stop, ⟨m, fresh⟩)
        | errors => (.rejected errors, ⟨noted, fresh⟩) := by
  simp only [run, bind, EStateM.bind, Session.compile]
  cases compiled : Lox.compile source s.fresh with
  | mk result fresh =>
    cases result with
    | error errors => rfl
    | ok program =>
      simp only [Session.resolve, pure, EStateM.pure]
      cases (Lox.resolve program).filterMap Finding.error? with
      | cons first rest => rfl
      | nil =>
        simp only [List.isEmpty_nil, if_true, interpret, act]
        cases Stmt.executeAll (Run.call host bound) bound program
          (note (Lox.resolve program) s.machine) <;> rfl

/-- Units one after the other. -/
def runEach (host : Host) (bound : Nat) : List String → Session → List Outcome × Session
  | [], s => ([], s)
  | source :: rest, s =>
    let (outcome, s) := s.run host bound source
    let (outcomes, s) := runEach host bound rest s
    (outcome :: outcomes, s)

end Session

end Lox
