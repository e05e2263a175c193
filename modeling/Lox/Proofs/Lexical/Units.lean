import Lox.Proofs.Lexical.Evaluation
import Lox.Proofs.Unit

/-! A session and its counterpart under lexical scope agree on every unit, whatever the unit is: one
that is refused leaves both where they were, and what a later unit notes of its occurrences is not
about those of an earlier one. -/
namespace Lox

namespace Lexical

open Lox.Session (note)

variable {w : World} {current : ScopeId} {m : Lox.Machine} {r : Machine} {findings : List Finding}

/-- The world in which a machine's distances are known of the occurrences among the findings. -/
def World.noting (w : World) (m : Lox.Machine) (findings : List Finding) : World :=
  { w with
    depth := fun i => if i ∈ occurrences findings then some m.distances[i]? else w.depth i }

theorem World.le_noting (new : ∀ i ∈ occurrences findings, w.depth i = none) :
    w ≤ w.noting m findings := by
  refine ⟨fun held => held, fun linked => linked, fun {i d} known => ?_⟩
  have apart : i ∉ occurrences findings := fun member => by simp [new i member] at known
  simp [World.noting, apart, known]

theorem Matches.noting (matched : Matches w current m r)
    (new : ∀ i ∈ occurrences findings, w.depth i = none) :
    Matches (w.noting (note findings m) findings) current (note findings m) r := by
  have le := World.le_noting (m := note findings m) new
  refine { matched with
    links := matched.links, linked := matched.linked, placed := matched.placed
    bounded := matched.bounded, injective := matched.injective
    locals := fun apart name => rel_mono le (matched.locals apart name)
    shared := fun name => rel_mono le (matched.shared name)
    fields := fun i name => rel_mono le (matched.fields i name)
    noted := fun i => ?_ }
  by_cases member : i ∈ occurrences findings
  · simp [World.noting, member]
  · simp [World.noting, member, Session.distances_note_of_not_mem m member, matched.noted]

theorem Matches.settled (matched : Matches w current m r)
    (new : ∀ i ∈ occurrences findings, w.depth i = none)
    (distinct : (occurrences findings).Nodup)
    (clean : findings.filterMap Finding.error? = []) :
    Settled (w.noting (note findings m) findings) findings := by
  intro f member
  cases f with
  | error d => exact absurd (List.filterMap_eq_nil_iff.1 clean _ member) (by simp [Finding.error?])
  | reference i name depth =>
    have among : i ∈ occurrences findings :=
      List.mem_map.2 ⟨_, List.mem_filterMap.2 ⟨_, member, rfl⟩, rfl⟩
    have unknown : m.distances[i]? = none := by rw [matched.noted, new i among, Option.join_none]
    refine ⟨i, name, depth, rfl, ?_⟩
    simp [World.noting, among, Session.distances_note distinct member unknown]

/-- Sessions that stand for each other between two units. -/
structure Paired (w : World) (s : Lox.Session) (t : Session) : Prop where
  matched : Matches w globals s.machine t.machine
  fresh : s.fresh = t.fresh
  past : ∀ {i d}, w.depth i = some d → i < s.fresh

theorem outcome_eq {stop : Stop} {stop' : Stop Environment} (alike : StopAlike w stop stop') :
    Session.outcome (.error stop' r) = (.ofStop stop, r) := by
  cases alike <;> rfl

/-- The world without local scopes. -/
def World.empty : World := ⟨fun _ _ => none, fun _ => none, fun _ => none⟩

theorem start_paired (limit : Option Nat) : Paired .empty (.start limit) (.start limit) := by
  have only : (Lox.Machine.initial limit).scopes.list =
      #[⟨[(Native.clock.name, .callable 0 (.native .clock))], none⟩] := rfl
  have unbound {i : ScopeId} (apart : i ≠ globals) :
      (Lox.Machine.initial limit).scopes.bindings i = [] := by
    obtain ⟨j, rfl⟩ := Nat.exists_eq_succ_of_ne_zero apart
    simp [Scopes.bindings, only]
  refine ⟨?_, rfl, fun known => by cases known⟩
  exact {
    current := rfl
    inhabited := Nat.zero_lt_one
    links := fun linked => by cases linked
    linked := fun {i} below apart => by
      have first : i < 1 := below
      exact absurd (Nat.lt_one_iff.1 first) apart
    placed := fun held => by cases held
    bounded := fun held => by cases held
    injective := fun held => by cases held
    locals := fun {i} apart name => by
      show Option.Rel _ (((Lox.Machine.initial limit).scopes.bindings i).get? name) none
      rw [unbound apart]
      exact .none
    shared := fun name => by
      have left : (Lox.Session.start limit).machine.scopes.bindings globals =
          [(Native.clock.name, .callable 0 (.native .clock))] := rfl
      have right : (Session.start limit).machine.globals =
          [(Native.clock.name, .callable 0 (.native .clock))] := rfl
      rw [left, right]
      by_cases same : Native.clock.name = name
      · simpa [Bindings.get?, same] using Alike.callable .native
      · simp [Bindings.get?, same]
    instances := rfl
    fields := fun i name => .none
    depth := rfl
    identities := rfl
    readings := rfl
    sink := rfl
    noted := fun i => rfl }

/-- A unit that is compiled begins where the stores match, in a world that knows its references unless
there are errors among them. -/
theorem Paired.begins {source : String} {program : List Stmt} {fresh : Occurrence} {s : Lox.Session}
    {t : Session} (paired : Paired w s t) (compiled : Lox.compile source s.fresh = (.ok program, fresh)) :
    ∃ v, w ≤ v ∧ Matches v globals (note (resolve program) s.machine) t.machine ∧
      (∀ {i d}, v.depth i = some d → i < fresh) ∧ Stmt.AllPlaced program ∧
      ((resolve program).filterMap Finding.error? = [] → Settled v (resolve program)) := by
  have advanced := compile_fresh_le source s.fresh
  rw [compiled] at advanced
  obtain ⟨ts, derived, -⟩ := compile_derived compiled
  have numbered := derived.numbered .topLevel
  have new : ∀ i ∈ occurrences (resolve program), w.depth i = none := by
    intro i member
    cases known : w.depth i with
    | none => rfl
    | some d => exact absurd (paired.past known) (Nat.not_lt.2 (numbered.within i member).1)
  refine ⟨_, World.le_noting new, paired.matched.noting new, fun {i d} known => ?_, derived.placed,
    paired.matched.settled new numbered.nodup⟩
  by_cases member : i ∈ occurrences (resolve program)
  · exact (numbered.within i member).2
  · have old : w.depth i = some d := by simpa [World.noting, member] using known
    exact Nat.lt_of_lt_of_le (paired.past old) advanced

/-- The outermost place. -/
theorem located_top (w : World) : Located w .topLevel globals .top :=
  ⟨.top, by simp [Surroundings.topLevel]⟩

theorem run_agrees (host : Host) (bound : Nat) (source : String) {s : Lox.Session} {t : Session}
    (paired : Paired w s t) : (s.run host bound source).1 = (t.run host bound source).1 ∧
      ∃ v, w ≤ v ∧ Paired v (s.run host bound source).2 (t.run host bound source).2 := by
  rw [Lox.Session.run_eq, Session.run, ← paired.fresh]
  have advanced := compile_fresh_le source s.fresh
  cases compiled : Lox.compile source s.fresh with
  | mk result fresh =>
    rw [compiled] at advanced
    cases result with
    | error errors =>
      exact ⟨rfl, w, World.le_refl w, paired.matched, rfl, fun known =>
        Nat.lt_of_lt_of_le (paired.past known) advanced⟩
    | ok program =>
      obtain ⟨u, le, noted, past, placed, settled⟩ := paired.begins compiled
      cases clean : (resolve program).filterMap Finding.error? with
      | nil =>
        have agrees := executeAll_agrees (call_agrees host bound) bound program placed
          (located_top u) (settled clean)
        rcases (agrees _ _ noted).cases with ⟨_, m, _, r, v, left, right, grows, after, -⟩ |
          ⟨stop, m, stop', r, v, left, right, grows, after, alike⟩
        · simp only [clean, left, right, Session.outcome]
          exact ⟨trivial, v, World.le_trans le grows.le, after, rfl, fun known => past (grows.depth ▸ known)⟩
        · simp only [clean, left, right, outcome_eq alike]
          exact ⟨trivial, v, World.le_trans le grows.le, after, rfl, fun known => past (grows.depth ▸ known)⟩
      | cons first rest =>
        simp only [clean]
        exact ⟨trivial, u, le, noted, rfl, past⟩

/-- Units one after the other. -/
def Session.runEach (host : Host) (bound : Nat) : List String → Session → List Outcome × Session
  | [], s => ([], s)
  | source :: rest, s =>
    let (outcome, s) := s.run host bound source
    let (outcomes, s) := runEach host bound rest s
    (outcome :: outcomes, s)

theorem runEach_agrees (host : Host) (bound : Nat) (units : List String) {s : Lox.Session}
    {t : Session} (paired : Paired w s t) :
    (s.runEach host bound units).1 = (t.runEach host bound units).1 ∧
      ∃ v, Paired v (s.runEach host bound units).2 (t.runEach host bound units).2 := by
  induction units generalizing w s t with
  | nil => exact ⟨rfl, w, paired⟩
  | cons source rest ih =>
    obtain ⟨same, v, -, later⟩ := run_agrees host bound source paired
    obtain ⟨all, final⟩ := ih later
    refine ⟨?_, final⟩
    rw [Lox.Session.runEach, Session.runEach]
    simp only [same, all]

/-- Units fare as they do under lexical scope and print the same. This is so for each bound, so a
unit comes to an end under some bound iff it does so under lexical scope. -/
theorem runEach_eq_lexical (host : Host) (bound : Nat) (outputLimit : Option Nat)
    (units : List String) :
    ((Lox.Session.start outputLimit).runEach host bound units).1 =
      ((Session.start outputLimit).runEach host bound units).1 ∧
    ((Lox.Session.start outputLimit).runEach host bound units).2.machine.sink =
      ((Session.start outputLimit).runEach host bound units).2.machine.sink := by
  obtain ⟨same, v, paired⟩ := runEach_agrees host bound units (start_paired outputLimit)
  exact ⟨same, paired.matched.sink⟩

end Lexical

end Lox
