/-
  The rules that a derivation reads.

  A derivation reads the rules of the symbols that it meets, and no others.  Symbols that an alphabet
  does not hold are never met if it holds those of the initiator and, with every symbol, those that
  the symbol may be replaced by.  Two tables that treat the symbols of such an alphabet alike give
  the same trace: the same word or error, the same lengths, and the same choices, so that the source
  of chance is left in the same state.

  What a table does with a symbol are the productions of its rules, in order (`productions_eq`).  So
  it does not matter what stands between the rules of one symbol (`Interleaved`), and where symbols
  are looked up it does not matter which rules of a symbol stand before its last one
  (`Rule.Thinned`).
-/
import Mathlib.Data.List.Basic
import Lindenmayer.Proofs.Derivation.Alphabet
import Lindenmayer.Proofs.RuleTable.Keys

namespace Lindenmayer

/-! ## Rules that are never read -/

/-- `Thinned rules kept` — `kept` is what remains of the rules when some are dropped that have a later
    rule of the same key behind them. -/
inductive Rule.Thinned {α : Type} : (rules kept : List (Rule α)) → Prop where
  | nil : Thinned [] []
  | keep (r : Rule α) {rules kept : List (Rule α)} (h : Thinned rules kept) :
      Thinned (r :: rules) (r :: kept)
  | drop {r : Rule α} {rules kept : List (Rule α)} (h : Thinned rules kept)
      (hlater : ∃ s ∈ rules, s.key = r.key) : Thinned (r :: rules) kept

/-- **The last rule of a key is kept.**  Induction over the dropping: a rule that is dropped is not
    the last one of its key. -/
theorem Rule.Thinned.getLast?_filter {α : Type} [BEq α] {rules kept : List (Rule α)}
    (h : Thinned rules kept) (key : α) :
    (kept.filter (·.key == key)).getLast? = (rules.filter (·.key == key)).getLast? := by
  induction h with
  | nil => rfl
  | keep r h ih =>
    cases hr : r.key == key with
    | false => simp [hr, ih]
    | true => simp [hr, List.getLast?_cons, ih]
  | @drop r rules kept h hlater ih =>
    cases hr : r.key == key with
    | false => simp [hr, ih]
    | true =>
      obtain ⟨s, hs, hsame⟩ := hlater
      have hskey : (s.key == key) = true := by rw [hsame]; exact hr
      have hmem : s ∈ rules.filter (·.key == key) := List.mem_filter.mpr ⟨hs, hskey⟩
      obtain ⟨last, hlast⟩ := Option.ne_none_iff_exists'.mp
        (mt List.getLast?_eq_none_iff.mp (List.ne_nil_of_mem hmem))
      simp [hr, List.getLast?_cons, ih, hlast]

namespace RuleTable

section

variable {α : Type} [BEq α] {s t : RuleTable α} {key : α}

/-! ## Tables that treat a key alike -/

/-- What a key is looked up as is a matter of its productions. -/
theorem lookup_congr (h : s.productions key = t.productions key) : s.lookup key = t.lookup key := by
  rw [lookup_eq, lookup_eq, h]

/-- What is drawn for a key is a matter of its productions. -/
theorem pick_congr {σ : Type} [Chooser σ] [RulePart α] (h : s.productions key = t.productions key) :
    (s.pick key : σ → α × σ) = t.pick key := by
  have hmap : t.productions key = (s.productions key).map id := by
    rw [List.map_id, h]
  funext g
  exact (pick_of_map (f := id) rfl hmap g).symm

/-- A table without some rules that have a later one behind them looks every key up as before. -/
theorem lookup_of_thinned (h : Rule.Thinned s.rules t.rules) (hkey : IsSharp key) :
    s.lookup key = t.lookup key := by
  rw [lookup_eq, lookup_eq, s.productions_eq hkey, t.productions_eq hkey, List.getLast?_map,
    List.getLast?_map, h.getLast?_filter key]

end

variable {α : Type} [BEq α] [RulePart α] {s t : RuleTable α}

/-- The rules of every symbol come in the same order in both tables, whatever stands between them. -/
def Interleaved (s t : RuleTable α) : Prop :=
  ∀ c : Symbol, s.rules.filter (·.key == RulePart.ofWord [c]) =
    t.rules.filter (·.key == RulePart.ofWord [c])

theorem Interleaved.productions [SharpWords α] (h : s.Interleaved t) (c : Symbol) :
    s.productions (RulePart.ofWord [c]) = t.productions (RulePart.ofWord [c]) := by
  have hsharp : IsSharp (RulePart.ofWord [c] : α) := SharpWords.isSharp_ofWord [c]
  rw [s.productions_eq hsharp, t.productions_eq hsharp, h c]

end RuleTable

/-! ## Derivations in a closed alphabet -/

section

variable {α : Type} [BEq α] [RulePart α] {s t : RuleTable α} {A : Symbol → Prop}

/-- Derivations that are the same for every number of passes are the same for all iterations, those
    that are refused included. -/
theorem deriveFrom_congr {strategy : Strategy} {initiator : Word} {source : Source}
    {bound : Option Int} (h : ∀ n : Nat, deriveFrom strategy initiator s (.int n) source bound =
      deriveFrom strategy initiator t (.int n) source bound) (iterations : Value) :
    deriveFrom strategy initiator s iterations source bound =
      deriveFrom strategy initiator t iterations source bound := by
  rcases iterations_cases iterations with ⟨n, hpasses⟩ | ⟨cause, hrefused⟩
  · rw [hpasses, hpasses, h n]
  · rw [hrefused, hrefused]

/-- **Looking up**: tables that look the symbols of a closed alphabet up alike derive the same from
    its words. -/
theorem deriveFrom_looking_congr
    (hclosed : ∀ c, A c → ∀ w, RulePart.Is (s.lookup (RulePart.ofWord [c])) w → ∀ d ∈ w, A d)
    (hsame : ∀ c, A c → s.lookup (RulePart.ofWord [c]) = t.lookup (RulePart.ofWord [c]))
    {strategy : Strategy} (h : strategy ≠ .stochastic) {initiator : Word}
    (hinitiator : ∀ c ∈ initiator, A c) (iterations : Value) (source : Source)
    (bound : Option Int) :
    deriveFrom strategy initiator s iterations source bound =
      deriveFrom strategy initiator t iterations source bound := by
  refine deriveFrom_congr (fun n => ?_) iterations
  rw [deriveFrom_looking h, deriveFrom_looking h]
  have hstays : (s.looking : Replacement Source α).Closed A := fun c hc _ => hclosed c hc
  have hreplace : ∀ c, A c → (s.looking c : Source → α × Source) = t.looking c :=
    fun c hc => funext fun state => congrArg (·, state) (hsame c hc)
  exact run_congr hreplace hstays bound n hinitiator source

variable [LawfulRulePart α]

/-- **Drawing**: tables that have the same productions for the symbols of a closed alphabet derive the
    same from its words at random, by the same choices, whatever makes them. -/
theorem stochastic_congr {σ : Type} [Chooser σ]
    (hclosed : ∀ c, A c → ∀ part ∈ s.productions (RulePart.ofWord [c]), ∀ w, RulePart.Is part w →
      ∀ d ∈ w, A d)
    (hsame : ∀ c, A c → s.productions (RulePart.ofWord [c]) = t.productions (RulePart.ofWord [c]))
    {initiator : Word} (hinitiator : ∀ c ∈ initiator, A c) (bound : Option Int) (n : Nat) (g : σ) :
    stochastic s bound n initiator g = stochastic t bound n initiator g := by
  have hstays : (s.picking : Replacement σ α).Closed A := by
    intro c hc g w hw
    rcases s.pick_cases (RulePart.ofWord [c]) g with hmem | ⟨-, hnone⟩
    · exact hclosed c hc _ hmem w hw
    · -- without a production the symbol vanishes
      have hw : RulePart.Is (s.pick (RulePart.ofWord [c]) g).1 w := hw
      rw [hnone] at hw
      have hempty : [] = w := Value.text.inj ((RulePart.is_ofWord []).symm.trans hw)
      subst hempty
      exact fun d hd => absurd hd List.not_mem_nil
  have hreplace : ∀ c, A c → (s.picking c : σ → α × σ) = t.picking c :=
    fun c hc => RuleTable.pick_congr (hsame c hc)
  have hword : ∀ c ∈ Text.strip initiator, A c :=
    fun c hc => hinitiator c (List.mem_filter.mp hc).1
  exact run_congr hreplace hstays bound n hword g

theorem deriveFrom_stochastic_congr
    (hclosed : ∀ c, A c → ∀ part ∈ s.productions (RulePart.ofWord [c]), ∀ w, RulePart.Is part w →
      ∀ d ∈ w, A d)
    (hsame : ∀ c, A c → s.productions (RulePart.ofWord [c]) = t.productions (RulePart.ofWord [c]))
    {initiator : Word} (hinitiator : ∀ c ∈ initiator, A c) (iterations : Value) (source : Source)
    (bound : Option Int) :
    deriveFrom .stochastic initiator s iterations source bound =
      deriveFrom .stochastic initiator t iterations source bound := by
  refine deriveFrom_congr (fun n => ?_) iterations
  rw [deriveFrom_natCast, deriveFrom_natCast, deriveBy, deriveBy]
  cases source.enter with
  | error cause => rfl
  | ok g =>
    show (stochastic s bound n initiator g).mapState _ = (stochastic t bound n initiator g).mapState _
    rw [stochastic_congr hclosed hsame hinitiator]

end

/-! ## Only the reachable rules count -/

/-- **A derivation reads the rules that it can reach, and no others**, in tables of words as well as
    in tables that nobody checked.  Let an alphabet hold the symbols of the initiator, and with each
    symbol those of what the first table looks it up as: a table that looks these symbols up alike
    derives the same, for all iterations and every bound.  If it holds the symbols of all their
    productions, and these are the same in both tables, the same is derived at random, by the same
    choices from any source and from whatever else makes them.  So it changes nothing to interleave
    the rules of different symbols in another way, nor to drop rules that have a later one of the
    same key behind them, where symbols are looked up. -/
theorem derivation_reads_reachable_rules {α : Type} [BEq α] [RulePart α] [LawfulRulePart α]
    [SharpWords α] (s t : RuleTable α) :
    (∀ (A : Symbol → Prop) (initiator : Word), (∀ c ∈ initiator, A c) →
      ((∀ c, A c → ∀ w, RulePart.Is (s.lookup (RulePart.ofWord [c])) w → ∀ d ∈ w, A d) →
        (∀ c, A c → s.lookup (RulePart.ofWord [c]) = t.lookup (RulePart.ofWord [c])) →
        ∀ strategy, strategy ≠ .stochastic → ∀ iterations source bound,
          deriveFrom strategy initiator s iterations source bound =
            deriveFrom strategy initiator t iterations source bound) ∧
      ((∀ c, A c → ∀ part ∈ s.productions (RulePart.ofWord [c]), ∀ w, RulePart.Is part w →
          ∀ d ∈ w, A d) →
        (∀ c, A c →
          s.productions (RulePart.ofWord [c]) = t.productions (RulePart.ofWord [c])) →
        (∀ iterations source bound,
          deriveFrom .stochastic initiator s iterations source bound =
            deriveFrom .stochastic initiator t iterations source bound) ∧
        ∀ (σ : Type) [Chooser σ] (bound : Option Int) (n : Nat) (g : σ),
          stochastic s bound n initiator g = stochastic t bound n initiator g)) ∧
    (s.Interleaved t → ∀ initiator : Word,
      (∀ strategy iterations source bound,
        deriveFrom strategy initiator s iterations source bound =
          deriveFrom strategy initiator t iterations source bound) ∧
      ∀ (σ : Type) [Chooser σ] (bound : Option Int) (n : Nat) (g : σ),
        stochastic s bound n initiator g = stochastic t bound n initiator g) ∧
    (Rule.Thinned s.rules t.rules → ∀ strategy, strategy ≠ .stochastic →
      ∀ (initiator : Word) iterations source bound,
        deriveFrom strategy initiator s iterations source bound =
          deriveFrom strategy initiator t iterations source bound) := by
  -- all symbols together are a closed alphabet
  have hall : ∀ w : Word, ∀ c ∈ w, (fun _ : Symbol => True) c := fun _ _ _ => trivial
  refine ⟨?_, ?_, ?_⟩
  · intro A initiator hinitiator
    refine ⟨?_, ?_⟩
    · intro hclosed hsame strategy h iterations source bound
      exact deriveFrom_looking_congr hclosed hsame h hinitiator iterations source bound
    · intro hclosed hsame
      refine ⟨?_, ?_⟩
      · intro iterations source bound
        exact deriveFrom_stochastic_congr hclosed hsame hinitiator iterations source bound
      · intro σ _ bound n g
        exact stochastic_congr hclosed hsame hinitiator bound n g
  · intro h initiator
    have hproductions : ∀ c, True →
        s.productions (RulePart.ofWord [c]) = t.productions (RulePart.ofWord [c]) :=
      fun c _ => h.productions c
    refine ⟨?_, ?_⟩
    · intro strategy iterations source bound
      by_cases hstrategy : strategy = .stochastic
      · subst hstrategy
        exact deriveFrom_stochastic_congr (fun _ _ _ _ w _ => hall w) hproductions (hall initiator)
          iterations source bound
      · exact deriveFrom_looking_congr (fun _ _ w _ => hall w)
          (fun c hc => RuleTable.lookup_congr (hproductions c hc)) hstrategy (hall initiator)
          iterations source bound
    · intro σ _ bound n g
      exact stochastic_congr (fun _ _ _ _ w _ => hall w) hproductions (hall initiator) bound n g
  · intro h strategy hstrategy initiator iterations source bound
    have hlookup : ∀ c, True →
        s.lookup (RulePart.ofWord [c]) = t.lookup (RulePart.ofWord [c]) :=
      fun c _ => RuleTable.lookup_of_thinned h (SharpWords.isSharp_ofWord [c])
    exact deriveFrom_looking_congr (fun _ _ w _ => hall w) hlookup hstrategy (hall initiator)
      iterations source bound

/-- A rule of a symbol that is never met may be another one and stand anywhere: over the symbols `F`
    and `X` both tables do the same.  The rules of one symbol may stand apart, and the first rule of
    `F` may be left out where symbols are looked up. -/
theorem derivation_reads_reachable_rules_unmet :
    ∃ (s t u v : RuleTable Word) (A : Symbol → Prop),
      RuleTable.parse "F=FX X=X F=XF Z=ZZ".toList = .ok s ∧
      RuleTable.parse "Z=F F=FX F=XF X=X".toList = .ok t ∧
      RuleTable.parse "X=X F=FX Z=ZZ F=XF".toList = .ok u ∧
      RuleTable.parse "X=X F=XF Z=ZZ".toList = .ok v ∧
      (∀ c ∈ ['F'], A c) ∧
      (∀ c, A c → ∀ w, RulePart.Is (s.lookup (RulePart.ofWord [c])) w → ∀ d ∈ w, A d) ∧
      (∀ c, A c → s.lookup (RulePart.ofWord [c]) = t.lookup (RulePart.ofWord [c])) ∧
      (∀ c, A c → ∀ part ∈ s.productions (RulePart.ofWord [c]), ∀ w, RulePart.Is part w →
        ∀ d ∈ w, A d) ∧
      (∀ c, A c → s.productions (RulePart.ofWord [c]) = t.productions (RulePart.ofWord [c])) ∧
      s.Interleaved u ∧ Rule.Thinned s.rules v.rules ∧
      deriveFrom .deterministic ['F'] s (.int 3) (.seed 0) (some 5) =
        deriveFrom .deterministic ['F'] t (.int 3) (.seed 0) (some 5) ∧
      deriveFrom .stochastic ['F'] s (.int 3) (.seed 0) (some 5) =
        deriveFrom .stochastic ['F'] t (.int 3) (.seed 0) (some 5) ∧
      deriveFrom .stochastic ['Z', 'F'] s (.int 3) (.seed 0) none =
        deriveFrom .stochastic ['Z', 'F'] u (.int 3) (.seed 0) none ∧
      deriveFrom .contextual ['Z', 'F'] s (.int 3) (.seed 0) none =
        deriveFrom .contextual ['Z', 'F'] v (.int 3) (.seed 0) none := by
  obtain ⟨s, hs, hparse⟩ : ∃ s : RuleTable Word, s = RuleTable.ofRules [⟨['F'], ['F', 'X']⟩,
      ⟨['X'], ['X']⟩, ⟨['F'], ['X', 'F']⟩, ⟨['Z'], ['Z', 'Z']⟩] ∧
        RuleTable.parse "F=FX X=X F=XF Z=ZZ".toList = .ok s := ⟨_, rfl, rfl⟩
  obtain ⟨t, ht, htparse⟩ : ∃ t : RuleTable Word, t = RuleTable.ofRules [⟨['Z'], ['F']⟩,
      ⟨['F'], ['F', 'X']⟩, ⟨['F'], ['X', 'F']⟩, ⟨['X'], ['X']⟩] ∧
        RuleTable.parse "Z=F F=FX F=XF X=X".toList = .ok t := ⟨_, rfl, rfl⟩
  obtain ⟨u, hu, huparse⟩ : ∃ u : RuleTable Word, u = RuleTable.ofRules [⟨['X'], ['X']⟩,
      ⟨['F'], ['F', 'X']⟩, ⟨['Z'], ['Z', 'Z']⟩, ⟨['F'], ['X', 'F']⟩] ∧
        RuleTable.parse "X=X F=FX Z=ZZ F=XF".toList = .ok u := ⟨_, rfl, rfl⟩
  obtain ⟨v, hv, hvparse⟩ : ∃ v : RuleTable Word, v = RuleTable.ofRules [⟨['X'], ['X']⟩,
      ⟨['F'], ['X', 'F']⟩, ⟨['Z'], ['Z', 'Z']⟩] ∧
        RuleTable.parse "X=X F=XF Z=ZZ".toList = .ok v := ⟨_, rfl, rfl⟩
  have hinitiator : ∀ c ∈ ['F'], c = 'F' ∨ c = 'X' := fun c hc => Or.inl (List.mem_singleton.mp hc)
  have hsame : ∀ c, c = 'F' ∨ c = 'X' →
      s.productions (RulePart.ofWord [c]) = t.productions (RulePart.ofWord [c]) := by
    subst hs ht
    rintro c (rfl | rfl)
    · rfl
    · rfl
  have hclosed : ∀ c, c = 'F' ∨ c = 'X' → ∀ part ∈ s.productions (RulePart.ofWord [c]), ∀ w,
      RulePart.Is part w → ∀ d ∈ w, d = 'F' ∨ d = 'X' := by
    subst hs
    rintro c (rfl | rfl) part hpart w hw d hd
    · obtain rfl := Value.text.inj hw
      have hpart : part ∈ [['F', 'X'], ['X', 'F']] := hpart
      rcases List.mem_pair.mp hpart with rfl | rfl
      · exact List.mem_pair.mp hd
      · exact (List.mem_pair.mp hd).symm
    · obtain rfl := Value.text.inj hw
      obtain rfl := List.mem_singleton.mp hpart
      exact Or.inr (List.mem_singleton.mp hd)
  have hlooks : ∀ c, c = 'F' ∨ c = 'X' → ∀ w, RulePart.Is (s.lookup (RulePart.ofWord [c])) w →
      ∀ d ∈ w, d = 'F' ∨ d = 'X' := by
    subst hs
    rintro c (rfl | rfl) w hw d hd
    · obtain rfl := Value.text.inj hw
      exact (List.mem_pair.mp hd).symm
    · obtain rfl := Value.text.inj hw
      exact Or.inr (List.mem_singleton.mp hd)
  have hinterleaved : s.Interleaved u := by
    subst hs hu
    intro c
    by_cases hF : c = 'F'
    · subst hF
      rfl
    · -- without the rules of that symbol both tables have the same rules in the same order
      have hother : ¬ 'F' = c := fun h => hF h.symm
      simp [RulePart.ofWord, List.filter_cons, hother]
  have hthinned : Rule.Thinned s.rules v.rules := by
    subst hs hv
    exact .drop (.keep _ (.keep _ (.keep _ .nil))) ⟨⟨['F'], ['X', 'F']⟩, by decide, rfl⟩
  obtain ⟨hreach, -, -⟩ := derivation_reads_reachable_rules s t
  obtain ⟨hlooking, hdrawing⟩ := hreach _ ['F'] hinitiator
  obtain ⟨-, horder, -⟩ := derivation_reads_reachable_rules s u
  obtain ⟨-, -, hthin⟩ := derivation_reads_reachable_rules s v
  refine ⟨s, t, u, v, _, hparse, htparse, huparse, hvparse, hinitiator, hlooks, ?_, hclosed, hsame,
    hinterleaved, hthinned, ?_, ?_, ?_, ?_⟩
  · exact fun c hc => RuleTable.lookup_congr (hsame c hc)
  · exact hlooking hlooks (fun c hc => RuleTable.lookup_congr (hsame c hc)) .deterministic
      (fun h => nomatch h) _ _ _
  · exact (hdrawing hclosed hsame).1 _ _ _
  · exact (horder hinterleaved _).1 .stochastic _ _ _
  · exact hthin hthinned .contextual (fun h => nomatch h) _ _ _ _

end Lindenmayer
