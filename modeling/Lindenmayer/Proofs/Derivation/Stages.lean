/-
  Runs, said by their stages.

  Stage `i` of a run is the word and the state after `i` passes that no bound stops.  A run under a
  bound goes through the same stages, since a pass that is not stopped does the same whatever the
  bound is; it ends at the first stage whose word is too long once expanded.  `run_cases` is the
  whole of it: outcome, lengths and state of a run are read off its stages, in both cases.

  Every strategy is such a run (`deriveFrom_eq_run`), with the source of chance as its state or a
  generator that the source gives.
-/
import Lindenmayer.Proofs.Derivation.Expansion

namespace Lindenmayer

variable {σ α : Type} [RulePart α]

/-! ## Stages -/

/-- Word and state after so many passes that no bound stops. -/
def stage (replace : Replacement σ α) (w : Word) (state : σ) : Nat → Word × σ
  | 0 => (w, state)
  | i + 1 => expand replace (stage replace w state i).1 (stage replace w state i).2

/-- The lengths of the words that the first passes write. -/
def stageLengths (replace : Replacement σ α) (w : Word) (state : σ) (passes : Nat) : Array Nat :=
  ((List.range passes).map fun i => (stage replace w state (i + 1)).1.length).toArray

theorem size_stageLengths (replace : Replacement σ α) (w : Word) (state : σ) (passes : Nat) :
    (stageLengths replace w state passes).size = passes := by
  rw [stageLengths, List.size_toArray, List.length_map, List.length_range]

theorem stageLengths_succ (replace : Replacement σ α) (w : Word) (state : σ) (passes : Nat) :
    stageLengths replace w state (passes + 1) =
      (stageLengths replace w state passes).push (stage replace w state (passes + 1)).1.length := by
  rw [stageLengths, List.range_succ, List.map_append, stageLengths, List.push_toArray]
  rfl

/-- Pass `i + 1` gets through under the bound. -/
def Fits (replace : Replacement σ α) (bound : Option Int) (w : Word) (state : σ) (i : Nat) : Prop :=
  ∀ m, bound = some m →
    ¬ TooLong replace m (stage replace w state i).2 (stage replace w state i).1

/-- A pass gets through if it starts from the empty word or writes no more than the bound. -/
theorem fits_iff (replace : Replacement σ α) (m : Int) (w : Word) (state : σ) (i : Nat) :
    Fits replace (some m) w state i ↔
      ((stage replace w state i).1 ≠ [] → ((stage replace w state (i + 1)).1.length : Int) ≤ m) := by
  constructor
  · intro h hne
    exact Int.not_lt.mp fun hlt => h m rfl ⟨hne, hlt⟩
  · rintro h m' hm' ⟨hne, hlt⟩
    obtain rfl := Option.some.inj hm'
    exact Int.not_lt.mpr (h hne) hlt

/-! ## Runs -/

/-- **Where a run ends**, from any of its stages on: after the passes asked for, all of which get
    through, or in the first that does not.  Induction over the passes still to be done; the number
    of lengths kept so far is the number of the stage. -/
theorem runFrom_cases {replace : Replacement σ α} (htext : replace.Textual) (bound : Option Int)
    (w : Word) (state : σ) (passes j : Nat) :
    ((∀ i, j ≤ i → i < j + passes → Fits replace bound w state i) ∧
      runFrom replace bound passes ⟨(stage replace w state j).1, stageLengths replace w state j,
          (stage replace w state j).2⟩ =
        ⟨.ok (stage replace w state (j + passes)).1, stageLengths replace w state (j + passes),
          (stage replace w state (j + passes)).2⟩) ∨
    ∃ k m u, j ≤ k ∧ k < j + passes ∧ bound = some m ∧
      (∀ i, j ≤ i → i < k → Fits replace bound w state i) ∧
      ShortestPrefix (TooLong replace m (stage replace w state k).2) (stage replace w state k).1 u ∧
      runFrom replace bound passes ⟨(stage replace w state j).1, stageLengths replace w state j,
          (stage replace w state j).2⟩ =
        ⟨.error (.expansionLimit (k + 1) m), stageLengths replace w state k,
          (expand replace u (stage replace w state k).2).2⟩ := by
  induction passes generalizing j with
  | zero => exact Or.inl ⟨fun i hle hlt => absurd hlt (Nat.not_lt.mpr hle), rfl⟩
  | succ passes ih =>
    rw [runFrom]
    dsimp only
    rw [size_stageLengths]
    rcases pass_cases htext bound (j + 1) (stage replace w state j).1 (stage replace w state j).2
      with ⟨hfits, hpass⟩ | ⟨m, u, hbound, hu, hpass⟩
    · -- the pass gets through, and the rest of the run starts from the next stage
      rw [hpass]
      have hnext := ih (j + 1)
      rw [stageLengths_succ, Nat.add_right_comm, Nat.add_assoc] at hnext
      have hall : ∀ k, (∀ i, j + 1 ≤ i → i < k → Fits replace bound w state i) →
          ∀ i, j ≤ i → i < k → Fits replace bound w state i := by
        intro k h i hle hlt
        rcases Nat.eq_or_lt_of_le hle with rfl | hlt'
        · exact hfits
        · exact h i hlt' hlt
      rcases hnext with ⟨hrest, hrun⟩ | ⟨k, m, u, hle, hlt, hbound, hrest, hu, hrun⟩
      · exact Or.inl ⟨hall _ hrest, hrun⟩
      · exact Or.inr ⟨k, m, u, Nat.le_of_succ_le hle, hlt, hbound, hall k hrest, hu, hrun⟩
    · rw [hpass]
      exact Or.inr ⟨j, m, u, Nat.le_refl j, by omega, hbound,
        fun i hle hlt => absurd hlt (Nat.not_lt.mpr hle), hu, rfl⟩

/-- **Where a run ends**: after the passes asked for, or in the first that does not get through. -/
theorem run_cases {replace : Replacement σ α} (htext : replace.Textual) (bound : Option Int)
    (passes : Nat) (w : Word) (state : σ) :
    ((∀ i, i < passes → Fits replace bound w state i) ∧
      run replace bound passes w state =
        ⟨.ok (stage replace w state passes).1, stageLengths replace w state passes,
          (stage replace w state passes).2⟩) ∨
    ∃ k m u, k < passes ∧ bound = some m ∧ (∀ i, i < k → Fits replace bound w state i) ∧
      ShortestPrefix (TooLong replace m (stage replace w state k).2) (stage replace w state k).1 u ∧
      run replace bound passes w state =
        ⟨.error (.expansionLimit (k + 1) m), stageLengths replace w state k,
          (expand replace u (stage replace w state k).2).2⟩ := by
  have h := runFrom_cases htext bound w state passes 0
  rw [Nat.zero_add] at h
  rcases h with ⟨hfits, hrun⟩ | ⟨k, m, u, -, hlt, hbound, hfits, hu, hrun⟩
  · exact Or.inl ⟨fun i => hfits i (Nat.zero_le i), hrun⟩
  · exact Or.inr ⟨k, m, u, hlt, hbound, fun i => hfits i (Nat.zero_le i), hu, hrun⟩

/-- A pass that fails is one that does not get through. -/
theorem not_fits_of_shortestPrefix {replace : Replacement σ α} {m : Int} {w u : Word} {state : σ}
    {k : Nat} (hu : ShortestPrefix (TooLong replace m (stage replace w state k).2)
      (stage replace w state k).1 u) : ¬ Fits replace (some m) w state k := by
  intro h
  obtain ⟨v, hv⟩ := hu.initial
  exact h m rfl (hv ▸ hu.holds.append v)

/-- Passes that all get through are as good as passes without a bound. -/
theorem run_of_fits {replace : Replacement σ α} (htext : replace.Textual) {bound : Option Int}
    {passes : Nat} {w : Word} {state : σ}
    (hfits : ∀ i, i < passes → Fits replace bound w state i) :
    run replace bound passes w state =
      ⟨.ok (stage replace w state passes).1, stageLengths replace w state passes,
        (stage replace w state passes).2⟩ := by
  rcases run_cases htext bound passes w state with ⟨-, hrun⟩ | ⟨k, m, u, hlt, rfl, -, hu, -⟩
  · exact hrun
  · exact absurd (hfits k hlt) (not_fits_of_shortestPrefix hu)

/-- A run that came to its end got through all its passes and left its last stage. -/
theorem stage_of_run_ok {replace : Replacement σ α} (htext : replace.Textual)
    {bound : Option Int} {passes : Nat} {w v : Word} {state : σ}
    (h : (run replace bound passes w state).outcome = .ok v) :
    (∀ i, i < passes → Fits replace bound w state i) ∧ v = (stage replace w state passes).1 ∧
      (run replace bound passes w state).state = (stage replace w state passes).2 := by
  rcases run_cases htext bound passes w state with ⟨hfits, hrun⟩ | ⟨k, m, u, -, -, -, -, hrun⟩
  · rw [hrun] at h ⊢
    exact ⟨hfits, (Except.ok.inj h).symm, rfl⟩
  · rw [hrun] at h
    nomatch h

/-- The error of a run names the pass behind the finished ones. -/
theorem run_error_names {replace : Replacement σ α} (htext : replace.Textual) {bound : Option Int}
    {passes : Nat} {w : Word} {state : σ} {cause : Error}
    (h : (run replace bound passes w state).outcome = .error cause) :
    ∃ m, bound = some m ∧
      cause = .expansionLimit ((run replace bound passes w state).lengths.size + 1) m := by
  rcases run_cases htext bound passes w state with ⟨-, hrun⟩ | ⟨k, m, u, -, hbound, -, -, hrun⟩
  · rw [hrun] at h
    nomatch h
  · rw [hrun] at h ⊢
    dsimp only
    rw [size_stageLengths]
    exact ⟨m, hbound, (Except.error.inj h).symm⟩

/-- A run that replaces symbols by words fails at its bound only. -/
theorem run_error {replace : Replacement σ α} (htext : replace.Textual) {bound : Option Int}
    {passes : Nat} {w : Word} {state : σ} {cause : Error}
    (h : (run replace bound passes w state).outcome = .error cause) :
    ∃ pass m, bound = some m ∧ cause = .expansionLimit pass m := by
  obtain ⟨m, hbound, hcause⟩ := run_error_names htext h
  exact ⟨_, m, hbound, hcause⟩

/-- Without a bound a run goes through all its stages. -/
theorem run_unbounded {replace : Replacement σ α} (htext : replace.Textual) (passes : Nat)
    (w : Word) (state : σ) :
    run replace none passes w state =
      ⟨.ok (stage replace w state passes).1, stageLengths replace w state passes,
        (stage replace w state passes).2⟩ :=
  run_of_fits htext fun _ _ _ hm => nomatch hm

section Strategies

variable [BEq α]

/-- Symbols are looked up, and the state is passed through. -/
def RuleTable.looking (t : RuleTable α) : Replacement σ α :=
  fun c state => (t.lookup (RulePart.ofWord [c]), state)

/-- Symbols are drawn for. -/
def RuleTable.picking [Chooser σ] (t : RuleTable α) : Replacement σ α :=
  fun c state => t.pick (RulePart.ofWord [c]) state

/-- A whole number from zero on passes the check of the iterations. -/
theorem passCount_natCast (n : Nat) : passCount (.int n) = .ok n := by
  show (if (n : Int) < 0 then Except.error (.invalidParameter (.negativeIterations n))
    else Except.ok (n : Int).toNat) = _
  rw [if_neg (Int.not_lt.mpr (Int.natCast_nonneg n))]
  rfl

theorem deriveFrom_natCast (strategy : Strategy) (initiator : Word) (table : RuleTable α)
    (source : Source) (n : Nat) (bound : Option Int) :
    deriveFrom strategy initiator table (.int n) source bound =
      deriveBy strategy table bound n initiator source := by
  unfold deriveFrom
  rw [passCount_natCast]

/-- Iterations are a number of passes to every derivation, or they are refused by every one. -/
theorem iterations_cases (iterations : Value) :
    (∃ n : Nat, ∀ {β : Type} [BEq β] [RulePart β] (strategy : Strategy) (initiator : Word)
      (table : RuleTable β) (source : Source) (bound : Option Int),
      deriveFrom strategy initiator table iterations source bound =
        deriveFrom strategy initiator table (.int n) source bound) ∨
    ∃ cause, ∀ {β : Type} [BEq β] [RulePart β] (strategy : Strategy) (initiator : Word)
      (table : RuleTable β) (source : Source) (bound : Option Int),
      deriveFrom strategy initiator table iterations source bound = .failed cause source := by
  cases hcount : passCount iterations with
  | ok n =>
    refine Or.inl ⟨n, ?_⟩
    intro β _ _ strategy initiator table source bound
    rw [deriveFrom_natCast, deriveFrom, hcount]
  | error cause =>
    refine Or.inr ⟨cause, ?_⟩
    intro β _ _ strategy initiator table source bound
    rw [deriveFrom, hcount]

/-- Once its rules are read, a derivation is one from the table. -/
theorem deriveWith_of_readTable {strategy : Strategy} {rules : Value} {table : RuleTable Word}
    (h : strategy.readTable (.value rules) = .ok table) (initiator : Word) (iterations : Value)
    (source : Source) (bound : Option Int) :
    deriveWith strategy initiator (.value rules) iterations source bound =
      deriveFrom strategy initiator table iterations source bound := by
  unfold deriveWith
  dsimp only
  rw [h]

/-- A derivation by pairs is the contextual one from the table that is read from them. -/
theorem deriveByTable_pairs {pairs : Value} {table : RuleTable Word}
    (h : RuleTable.ofPairs pairs = .ok table) (initiator : Word) (iterations : Value)
    (source : Source) (bound : Option Int) :
    deriveByTable .contextual initiator (.value pairs) iterations source bound =
      deriveFrom .contextual initiator table iterations source bound := by
  have hread : Strategy.contextual.readTable (.value pairs) = .ok table := h
  exact deriveWith_of_readTable hread initiator iterations source bound

/-- A deterministic derivation is a run that looks up. -/
theorem deriveFrom_deterministic (table : RuleTable α) (initiator : Word) (source : Source)
    (n : Nat) (bound : Option Int) :
    deriveFrom .deterministic initiator table (.int n) source bound =
      run table.looking bound n initiator source := by
  rw [deriveFrom_natCast]
  rfl

/-- Every strategy but the stochastic one looks up. -/
theorem deriveFrom_looking {strategy : Strategy} (h : strategy ≠ .stochastic)
    (table : RuleTable α) (initiator : Word) (source : Source) (n : Nat) (bound : Option Int) :
    deriveFrom strategy initiator table (.int n) source bound =
      run table.looking bound n initiator source := by
  rw [deriveFrom_natCast]
  cases strategy with
  | deterministic => rfl
  | contextual => rfl
  | stochastic => exact absurd rfl h

/-- A stochastic derivation is a run that draws from the generator of its source. -/
theorem deriveFrom_stochastic (table : RuleTable α) (initiator : Word) {source : Source}
    {g : Generator} (hg : source.enter = .ok g) (n : Nat) (bound : Option Int) :
    deriveFrom .stochastic initiator table (.int n) source bound =
      (run table.picking bound n (Text.strip initiator) g).mapState source.leave := by
  rw [deriveFrom_natCast]
  unfold deriveBy
  rw [hg]
  rfl

/-- A stochastic derivation that ended well had a generator to draw from. -/
theorem enter_of_deriveFrom_ok {table : RuleTable α} {initiator w : Word} {source : Source}
    {n : Nat} {bound : Option Int}
    (h : (deriveFrom .stochastic initiator table (.int n) source bound).outcome = .ok w) :
    ∃ g, source.enter = .ok g := by
  rw [deriveFrom_natCast, deriveBy] at h
  cases hg : source.enter with
  | ok g => exact ⟨g, rfl⟩
  | error cause =>
    rw [hg] at h
    nomatch h

variable [LawfulRulePart α]

theorem RuleTable.Textual.looking {t : RuleTable α} (h : t.Textual) :
    (t.looking : Replacement σ α).Textual :=
  fun c _ => h.lookup [c]

theorem RuleTable.Textual.picking [Chooser σ] {t : RuleTable α} (h : t.Textual) :
    (t.picking : Replacement σ α).Textual :=
  fun _ state => h.pick _ state

/-- **How a derivation can fail**: at its bound, or for want of a generator to draw from. -/
theorem deriveFrom_error (strategy : Strategy) {table : RuleTable α} (htext : table.Textual)
    {initiator : Word} {source : Source} {n : Nat} {bound : Option Int} {cause : Error}
    (h : (deriveFrom strategy initiator table (.int n) source bound).outcome = .error cause) :
    (∃ pass m, bound = some m ∧ cause = .expansionLimit pass m) ∨ source.enter = .error cause := by
  by_cases hstrategy : strategy = .stochastic
  · subst hstrategy
    cases hg : source.enter with
    | ok g =>
      rw [deriveFrom_stochastic table initiator hg] at h
      have hrun : (run table.picking bound n (Text.strip initiator) g).outcome = .error cause := h
      exact Or.inl (run_error htext.picking hrun)
    | error cause' =>
      rw [deriveFrom_natCast, deriveBy, hg] at h
      obtain rfl : cause' = cause := Except.error.inj h
      exact Or.inr rfl
  · rw [deriveFrom_looking hstrategy] at h
    exact Or.inl (run_error htext.looking h)

end Strategies

end Lindenmayer
