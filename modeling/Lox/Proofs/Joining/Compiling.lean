import Lox.Proofs.Grammar.StatementComplete
import Lox.Proofs.Grammar.StatementSound
import Lox.Proofs.Joining.Scanning
import Lox.Proofs.Relined.Source

/-! Two source texts as one, a newline between them. If each is a program of its own then both together
are the statements of the one and behind them those of the other, as they are when the other is moved
down by the lines of the first. -/
namespace Lox

namespace Grammar

theorem Declarations.append : Declarations elses ts n k a → Declarations elses us k m b →
    Declarations elses (ts ++ us) n m (a ++ b)
  | .nil, later => later
  | .cons first rest, later => by
    rw [List.append_assoc, List.cons_append]
    exact .cons first (rest.append later)

variable {ts : List Token} {last : Token} {n m : Occurrence} {list : List Stmt}

theorem start_ended (noEnd : ∀ t ∈ ts, t.kind ≠ .eof) (ends : last.kind = .eof) :
    ∃ ending, Cursor.start (ts ++ [last]) n = ⟨ts, ending, [], n⟩ := by
  have all : ∀ t ∈ ts, decide (t.kind ≠ .eof) = true := by simpa using noEnd
  rw [Cursor.start, List.takeWhile_append_of_pos all]
  simp [ends]

/-- With the end of the file behind them, just the tokens of a program are accepted. -/
theorem parse_ended_iff (noEnd : ∀ t ∈ ts, t.kind ≠ .eof) (ends : last.kind = .eof) :
    parse (ts ++ [last]) n = (.ok list, m) ↔ Declarations .nearest ts n m list := by
  obtain ⟨ending, start⟩ := start_ended (n := n) noEnd ends
  constructor
  · intro parsed
    have derived := parse_derived parsed
    rwa [start] at derived
  · intro derived
    have reads : Reads (program (ts ++ [last]).length) ts [] n m list :=
      reads_program derived (by simp)
    have ran := reads ending []
    rw [List.append_nil, ← start] at ran
    rw [parse, ran]
    rfl

end Grammar

section

variable {source : String} {items : List Item} {last : Nat}

/-- What is accepted has no lexical error and is derived. -/
theorem compile_eq_ok_iff (scanned : Item.scan source = items ++ [.token (.endOfFile last)])
    (genuine : ∀ t ∈ items.filterMap Item.token?, t.Genuine) :
    compile source n = (.ok program, m) ↔ items.filterMap Item.diagnostic? = [] ∧
      Grammar.Declarations .nearest (items.filterMap Item.token?) n m program := by
  have noEnd : ∀ t ∈ items.filterMap Item.token?, t.kind ≠ .eof := fun t member =>
    (genuine t member).kind_ne_eof
  have ends : (Token.endOfFile last).kind = .eof := rfl
  rw [compile_eq, Item.scan_of_ended scanned, ← Grammar.parse_ended_iff noEnd ends]
  dsimp only
  generalize items.filterMap Item.diagnostic? = errors
  generalize parse _ n = r
  obtain ⟨result, next⟩ := r
  cases result with
  | error => simp
  | ok list => cases errors <;> simp

/-- An accepted source text is derived from genuine tokens. -/
theorem compile_genuine (compiled : compile source n = (.ok program, m)) :
    ∃ ts, Grammar.Declarations .nearest ts n m program ∧ ∀ t ∈ ts, t.Genuine := by
  obtain ⟨items, last, scanned, genuine⟩ := Item.scanFrom_genuine 1 source.toList
  obtain ⟨-, derived⟩ := (compile_eq_ok_iff ((Item.scan_eq source).trans scanned) genuine).1 compiled
  exact ⟨_, derived, genuine⟩

/-- The text with so many empty lines before it. -/
def movedDown (lines : Nat) (source : String) : String :=
  String.ofList (List.replicate lines '\n') ++ source

theorem Item.scan_movedDown (lines : Nat) (source : String) :
    Item.scan (movedDown lines source) = Item.scanFrom (1 + lines) source.toList := by
  have behind (line : Nat) : Item.scanFrom line (List.replicate lines '\n' ++ source.toList) =
      Item.scanFrom (line + lines) source.toList := by
    induction lines generalizing line with
    | zero => rfl
    | succ lines ih =>
      rw [List.replicate_succ, List.cons_append, Item.scanFrom, Piece.cut_blank (by decide)]
      show Item.scanFrom (line + 1) _ = _
      rw [ih, Nat.add_assoc, Nat.add_comm 1]
  rw [Item.scan_eq, movedDown, String.toList_append, String.toList_ofList]
  exact behind 1

/-- A text that is accepted is accepted further down, and its trees are the same for every way to take
lines that allows for their new places. -/
theorem compile_movedDown (accepted : compile source n = (.ok program, m)) (far : Nat) :
    ∃ program' m', compile (movedDown far source) n = (.ok program', m') ∧
      ∀ R : Nat → Nat → Prop, (∀ line, R line (line + far)) → Stmt.AllRelined R program program' := by
  have both (R : Nat → Nat → Prop) (further : ∀ line, R line (line + far)) :
      ProgramRelined R (compile source n).1 (compile (movedDown far source) n).1 := by
    refine compile_relined ?_ n n
    rw [Item.scan_movedDown, Item.scan_eq]
    refine Item.scanFrom_relined 1 (1 + far) source.toList fun k => ?_
    rw [Nat.add_right_comm]
    exact further (1 + k)
  rw [accepted] at both
  cases found : compile (movedDown far source) n with
  | mk result m' =>
    rw [found] at both
    -- The trees are the same whatever `R` is, so they are taken from the finest one.
    cases both (fun line line' => line' = line + far) fun _ => rfl with
    | @ok _ program' =>
      refine ⟨program', m', rfl, fun R further => ?_⟩
      cases both R further with
      | ok related => exact related

/-- Both texts as one are accepted if the second one is accepted where it then stands, and the trees of
both are as they were. -/
theorem compile_joined {u₁ u₂ : String} {p₁ p₂ : List Stmt} (first : compile u₁ n = (.ok p₁, k))
    (second : compile (movedDown (u₁.toList.count '\n' + 1) u₂) k = (.ok p₂, m)) :
    compile (u₁ ++ "\n" ++ u₂) n = (.ok (p₁ ++ p₂), m) := by
  obtain ⟨items₁, last₁, scanned₁, genuine₁⟩ := Item.scanFrom_genuine 1 u₁.toList
  obtain ⟨clean₁, derived₁⟩ :=
    (compile_eq_ok_iff ((Item.scan_eq u₁).trans scanned₁) genuine₁).1 first
  obtain ⟨items₂, last₂, scanned₂, genuine₂⟩ :=
    Item.scanFrom_genuine (1 + (u₁.toList.count '\n' + 1)) u₂.toList
  have scannedDown := (Item.scan_movedDown _ u₂).trans scanned₂
  obtain ⟨clean₂, derived₂⟩ := (compile_eq_ok_iff scannedDown genuine₂).1 second
  have clean : (Item.scanFrom 1 u₁.toList).filterMap Item.diagnostic? = [] := by
    rw [scanned₁, List.filterMap_append, clean₁]
    rfl
  have closed (last : Nat) : .error last .unterminated ∉ Item.scanFrom 1 u₁.toList := by
    intro member
    cases List.filterMap_eq_nil_iff.1 clean _ member
  obtain ⟨items, alone, joined⟩ := Item.scanFrom_newline 1 u₁.toList u₂.toList closed
  have same : items = items₁ := by
    rw [scanned₁] at alone
    exact (List.append_inj_left' alone rfl).symm
  have scanned : Item.scan (u₁ ++ "\n" ++ u₂) = (items₁ ++ items₂) ++ [.token (.endOfFile last₂)] := by
    have text : (u₁ ++ "\n" ++ u₂).toList = u₁.toList ++ '\n' :: u₂.toList := by simp
    rw [Item.scan_eq, text, joined, same, Nat.add_assoc, scanned₂, List.append_assoc]
  refine (compile_eq_ok_iff scanned ?_).2 ⟨?_, ?_⟩
  · intro t member
    rw [List.filterMap_append, List.mem_append] at member
    rcases member with before | behind
    · exact genuine₁ t before
    · exact genuine₂ t behind
  · rw [List.filterMap_append, clean₁, clean₂]
    rfl
  · rw [List.filterMap_append]
    exact derived₁.append derived₂

end

end Lox
