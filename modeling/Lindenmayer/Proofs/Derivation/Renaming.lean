/-
  Symbols under other names.

  A renaming is an injective map of symbols, carried along words, rules and tables symbol by symbol.
  No symbol has a special role in a derivation, and so a renaming makes no difference to it but that
  of the names: the renamed table derives from the renamed initiator the renamed word, with the same
  lengths, the same errors and the same choices.  The brackets and commands of the turtle are symbols
  like all others here, and so is the equals sign, which only the reading of a rule text looks for.

  The one exception are blanks, which a derivation at random strips from its initiator, so that there
  a renaming has to take blanks to blanks and other symbols to others.

  Injectivity is needed where the table is asked: the rules of a symbol are those of its new name
  only if no other symbol has come by the same name (`RuleTable.productions_renamed`).  From there on
  a pass goes over both words side by side (`passFrom_renamed`), whatever its replacements are.
-/
import Mathlib.Data.List.Basic
import Mathlib.Logic.Equiv.Basic
import Lindenmayer.Proofs.RuleTable.Encodings

namespace Lindenmayer

/-! ## What is renamed -/

/-- The trace with the word that it ends with changed by a function. -/
def Trace.mapWord {σ : Type} (f : Word → Word) (t : Trace σ) : Trace σ :=
  ⟨t.outcome.map f, t.lengths, t.state⟩

namespace Value

/-- A text changed by a function, and any other value as it is. -/
def mapText (f : Word → Word) : Value → Value
  | .text w => .text (f w)
  | v => v

/-- What a list, a tuple or the keys of a dictionary hold, changed by a function. -/
def mapMembers (f : Value → Value) : Value → Value
  | .list items => .list (items.map f)
  | .tuple items => .tuple (items.map f)
  | .dict entries => .dict (entries.map fun (k, v) => (f k, v))
  | v => v

/-- A pair with both of its parts renamed. -/
def renamedPair (r : Symbol → Symbol) (pair : Value) : Value :=
  pair.mapMembers (mapText (List.map r))

/-- Pairs with both parts of each of them renamed. -/
def renamedPairs (r : Symbol → Symbol) (pairs : Value) : Value :=
  pairs.mapMembers (renamedPair r)

theorem members?_mapMembers {f : Value → Value} {v : Value} (h : ∀ w, v ≠ .text w) :
    (v.mapMembers f).members? = v.members?.map (List.map f) := by
  cases v with
  | text w => exact absurd rfl (h w)
  | dict entries =>
    show some ((entries.map fun (k, v) => (f k, v)).map Prod.fst) = some ((entries.map Prod.fst).map f)
    rw [List.map_map, List.map_map]
    rfl
  | _ => rfl

theorem pair?_mapMembers (f : Value → Value) (v : Value) :
    (v.mapMembers f).pair? = v.pair?.map fun (a, b) => (f a, f b) := by
  cases v with
  | list items => rcases items with _ | ⟨a, _ | ⟨b, _ | ⟨c, items⟩⟩⟩ <;> rfl
  | tuple items => rcases items with _ | ⟨a, _ | ⟨b, _ | ⟨c, items⟩⟩⟩ <;> rfl
  | _ => rfl

end Value

/-- The rule with its key and its production renamed. -/
def Rule.renamed (r : Symbol → Symbol) (rule : Rule Word) : Rule Word :=
  ⟨rule.key.map r, rule.production.map r⟩

/-- A renamed pair is read as the renamed rule. -/
theorem Rule.ofPair_renamed (r : Symbol → Symbol) {pair : Value} {rule : Rule Word}
    (h : ofPair pair = .ok rule) : ofPair (pair.renamedPair r) = .ok (rule.renamed r) := by
  obtain ⟨hparts, c, hkey⟩ := ofPair_eq_ok_iff.mp h
  refine ofPair_eq_ok_iff.mpr ⟨?_, r c, ?_⟩
  · rw [Value.renamedPair, Value.pair?_mapMembers, hparts]
    rfl
  · show rule.key.map r = [r c]
    rw [hkey]
    rfl

/-- The table with all its rules renamed. -/
def RuleTable.renamed (r : Symbol → Symbol) (t : RuleTable Word) : RuleTable Word :=
  ofRules (t.rules.map (Rule.renamed r))

/-! ## Renamed passes and runs -/

section Runs

variable {σ : Type} {r : Symbol → Symbol}

/-- `Renames r replace replace'` — under its new name a symbol is replaced by what it was replaced by
    before, renamed, and the state behind it is the same. -/
def Replacement.Renames (r : Symbol → Symbol) (replace replace' : Replacement σ Word) : Prop :=
  ∀ c state, replace' (r c) state = ((replace c state).1.map r, (replace c state).2)

theorem joinReversed_renamed (r : Symbol → Symbol) (written : List Word) (behind : Word) :
    joinReversed (written.map (List.map r)) (behind.map r) =
      (joinReversed written behind).map (List.map r) := by
  induction written generalizing behind with
  | nil => rfl
  | cons part written ih =>
    show joinReversed (written.map (List.map r)) (part.map r ++ behind.map r) = _
    rw [← List.map_append]
    exact ih (part ++ behind)

/-- **The pass over the rest of a renamed word** writes what it writes otherwise, renamed, or fails in
    the same way.  Induction over the word; a renamed part is as long as the part. -/
theorem passFrom_renamed {replace replace' : Replacement σ Word} (h : replace.Renames r replace')
    (bound : Option Int) (number : Nat) (rest : Word) (total : Nat) (written : List Word)
    (state : σ) :
    passFrom replace' bound number (rest.map r) total (written.map (List.map r)) state =
      ((passFrom replace bound number rest total written state).1.map (List.map r),
        (passFrom replace bound number rest total written state).2) := by
  induction rest generalizing total written state with
  | nil => exact congrArg (·, state) (joinReversed_renamed r written [])
  | cons c rest ih =>
    have hpart : RulePart.Is (replace c state).1 (replace c state).1 := rfl
    have hpart' : RulePart.Is (replace' (r c) state).1 ((replace c state).1.map r) := by
      rw [h c state]
      rfl
    rw [List.map_cons, passFrom_cons_textual hpart, passFrom_cons_textual hpart', List.length_map,
      h c state]
    cases exceeded? bound (total + (replace c state).1.length) with
    | some m => rfl
    | none => exact ih _ ((replace c state).1 :: written) _

theorem runFrom_renamed {replace replace' : Replacement σ Word} (h : replace.Renames r replace')
    (bound : Option Int) (passes : Nat) (w : Word) (lengths : Array Nat) (state : σ) :
    runFrom replace' bound passes ⟨w.map r, lengths, state⟩ =
      (runFrom replace bound passes ⟨w, lengths, state⟩).mapWord (List.map r) := by
  induction passes generalizing w lengths state with
  | zero => rfl
  | succ passes ih =>
    have hpass : pass replace' bound (lengths.size + 1) (w.map r) state =
        ((pass replace bound (lengths.size + 1) w state).1.map (List.map r),
          (pass replace bound (lengths.size + 1) w state).2) :=
      passFrom_renamed h bound _ w 0 [] state
    rw [runFrom, runFrom]
    dsimp only
    rw [hpass]
    cases pass replace bound (lengths.size + 1) w state with
    | mk outcome next =>
    cases outcome with
    | error cause => rfl
    | ok v =>
      show runFrom replace' bound passes ⟨v.map r, lengths.push (v.map r).length, next⟩ = _
      rw [List.length_map]
      exact ih v _ next

/-- **A run from a renamed word**, with replacements that are renamed. -/
theorem run_renamed {replace replace' : Replacement σ Word} (h : replace.Renames r replace')
    (bound : Option Int) (passes : Nat) (w : Word) (state : σ) :
    run replace' bound passes (w.map r) state =
      (run replace bound passes w state).mapWord (List.map r) :=
  runFrom_renamed h bound passes w #[] state

end Runs

/-! ## Renamed tables -/

namespace RuleTable

variable {σ : Type} {r : Symbol → Symbol}

/-- Under their new names the keys have their productions, renamed. -/
theorem productions_renamed (hr : Function.Injective r) (t : RuleTable Word) (key : Word) :
    (t.renamed r).productions (key.map r) = (t.productions key).map (List.map r) := by
  have hsame : ∀ rule ∈ t.rules, (rule.key.map r == key.map r) = (rule.key == key) := by
    intro rule _
    rw [Bool.eq_iff_iff, beq_iff_eq, beq_iff_eq]
    exact (List.map_injective_iff.mpr hr).eq_iff
  exact productions_of_map (rules_ofRules _) (isSharp_of_lawful key) (isSharp_of_lawful _) hsame

/-- A symbol is looked up under its new name as what it was looked up as before, renamed; also if it
    has no rule and stays as it is. -/
theorem looking_renamed (hr : Function.Injective r) (t : RuleTable Word) :
    Replacement.Renames r (t.looking : Replacement σ Word) (t.renamed r).looking :=
  fun c state => congrArg (·, state) (lookup_of_map rfl (t.productions_renamed hr [c]))

/-- A symbol is drawn for under its new name by the same choice as before. -/
theorem picking_renamed [Chooser σ] (hr : Function.Injective r) (t : RuleTable Word) :
    Replacement.Renames r (t.picking : Replacement σ Word) (t.renamed r).picking :=
  fun c state => pick_of_map rfl (t.productions_renamed hr [c]) state

/-- Renamed pairs are read as the renamed table. -/
theorem ofPairs_renamed (r : Symbol → Symbol) {pairs : Value} {table : RuleTable Word}
    (h : ofPairs pairs = .ok table) : ofPairs (pairs.renamedPairs r) = .ok (table.renamed r) := by
  obtain ⟨hnotText, members, hmembers, hrules⟩ := ofPairs_eq_ok_iff.mp h
  have hnotText' : ∀ w, pairs.renamedPairs r ≠ .text w := by
    intro w hw
    cases pairs with
    | text v => exact hnotText v rfl
    | _ => nomatch hw
  refine ofPairs_eq_ok_iff.mpr ⟨hnotText', members.map (Value.renamedPair r), ?_, ?_⟩
  · rw [Value.renamedPairs, Value.members?_mapMembers hnotText, hmembers]
    rfl
  · have hread : (members.map Rule.ofPair).map (Except.map (Rule.renamed r)) =
        (table.rules.map (Rule.renamed r)).map .ok := by
      rw [hrules, List.map_map, List.map_map]
      rfl
    show (members.map (Value.renamedPair r)).map Rule.ofPair =
      (table.rules.map (Rule.renamed r)).map .ok
    rw [← hread, List.map_map, List.map_map]
    apply List.map_congr_left
    intro member hmember
    -- the member is read as one of the rules
    have hok : Rule.ofPair member ∈ table.rules.map Except.ok := by
      rw [← hrules]
      exact List.mem_map_of_mem hmember
    obtain ⟨rule, -, hrule⟩ := List.mem_map.mp hok
    show Rule.ofPair (member.renamedPair r) = (Rule.ofPair member).map _
    rw [← hrule]
    exact Rule.ofPair_renamed r hrule.symm

end RuleTable

/-! ## Renamed derivations -/

section Derivations

variable {r : Symbol → Symbol}

/-- Blanks are stripped before or after the renaming, if it tells them from other symbols. -/
theorem Text.strip_map (hblank : ∀ c, isBlank (r c) = isBlank c) (w : Word) :
    strip (w.map r) = (strip w).map r := by
  unfold strip
  rw [List.filter_map]
  have hsame : ∀ c ∈ w, ((!isBlank ·) ∘ r) c = !isBlank c := by
    intro c _
    exact congrArg (!·) (hblank c)
  rw [List.filter_congr hsame]

/-- A derivation that changes with its rules and its initiator for every number of passes does so for
    all iterations, those that are refused included. -/
theorem deriveFrom_mapWord {f : Word → Word} {strategy : Strategy} {u w : Word}
    {s t : RuleTable Word} {source : Source} {bound : Option Int}
    (h : ∀ n : Nat, deriveFrom strategy u s (.int n) source bound =
      (deriveFrom strategy w t (.int n) source bound).mapWord f) (iterations : Value) :
    deriveFrom strategy u s iterations source bound =
      (deriveFrom strategy w t iterations source bound).mapWord f := by
  rcases iterations_cases iterations with ⟨n, hpasses⟩ | ⟨cause, hrefused⟩
  · rw [hpasses, hpasses, h n]
  · rw [hrefused, hrefused]
    rfl

/-- A derivation that looks symbols up, under new names. -/
theorem deriveFrom_looking_renamed (hr : Function.Injective r) {strategy : Strategy}
    (h : strategy ≠ .stochastic) (t : RuleTable Word) (initiator : Word) (iterations : Value)
    (source : Source) (bound : Option Int) :
    deriveFrom strategy (initiator.map r) (t.renamed r) iterations source bound =
      (deriveFrom strategy initiator t iterations source bound).mapWord (List.map r) := by
  refine deriveFrom_mapWord (fun n => ?_) iterations
  rw [deriveFrom_looking h, deriveFrom_looking h]
  exact run_renamed (t.looking_renamed hr) bound n initiator source

/-- A derivation at random, under new names, whatever makes its choices. -/
theorem stochastic_renamed {σ : Type} [Chooser σ] (hr : Function.Injective r)
    (hblank : ∀ c, Text.isBlank (r c) = Text.isBlank c) (t : RuleTable Word) (bound : Option Int)
    (n : Nat) (initiator : Word) (g : σ) :
    stochastic (t.renamed r) bound n (initiator.map r) g =
      (stochastic t bound n initiator g).mapWord (List.map r) := by
  unfold stochastic
  rw [Text.strip_map hblank]
  exact run_renamed (t.picking_renamed hr) bound n _ g

theorem deriveFrom_stochastic_renamed (hr : Function.Injective r)
    (hblank : ∀ c, Text.isBlank (r c) = Text.isBlank c) (t : RuleTable Word) (initiator : Word)
    (iterations : Value) (source : Source) (bound : Option Int) :
    deriveFrom .stochastic (initiator.map r) (t.renamed r) iterations source bound =
      (deriveFrom .stochastic initiator t iterations source bound).mapWord (List.map r) := by
  refine deriveFrom_mapWord (fun n => ?_) iterations
  rw [deriveFrom_natCast, deriveFrom_natCast, deriveBy, deriveBy]
  cases source.enter with
  | error cause => rfl
  | ok g =>
    show (stochastic (t.renamed r) bound n (initiator.map r) g).mapState _ = _
    rw [stochastic_renamed hr hblank]
    rfl

end Derivations

/-! ## No symbol is special -/

/-- **A derivation treats all symbols alike.**  Let the symbols be renamed by an injective map.  The
    table that is read from pairs is read renamed from the renamed pairs, and the derivation by them
    leaves the same trace but for the names: the renamed word or the same error, with the same
    lengths.  So does every derivation that looks symbols up in the renamed table.  If the map takes
    blanks to blanks and other symbols to others, a derivation at random does so too, and makes the
    same choices: from any source, which it leaves in the same state, and from whatever else makes
    them. -/
theorem derivation_treats_symbols_alike {r : Symbol → Symbol} (hr : Function.Injective r) :
    (∀ (pairs : Value) (table : RuleTable Word), RuleTable.ofPairs pairs = .ok table →
      RuleTable.ofPairs (pairs.renamedPairs r) = .ok (table.renamed r) ∧
      ∀ (initiator : Word) (iterations : Value) (source : Source) (bound : Option Int),
        deriveByTable .contextual (initiator.map r) (.value (pairs.renamedPairs r)) iterations source
            bound =
          (deriveByTable .contextual initiator (.value pairs) iterations source bound).mapWord
            (List.map r)) ∧
    ∀ (table : RuleTable Word) (initiator : Word) (bound : Option Int),
      (∀ strategy, strategy ≠ .stochastic → ∀ (iterations : Value) (source : Source),
        deriveFrom strategy (initiator.map r) (table.renamed r) iterations source bound =
          (deriveFrom strategy initiator table iterations source bound).mapWord (List.map r)) ∧
      ((∀ c, Text.isBlank (r c) = Text.isBlank c) →
        (∀ (iterations : Value) (source : Source),
          deriveFrom .stochastic (initiator.map r) (table.renamed r) iterations source bound =
            (deriveFrom .stochastic initiator table iterations source bound).mapWord (List.map r)) ∧
        ∀ (σ : Type) [Chooser σ] (n : Nat) (g : σ),
          stochastic (table.renamed r) bound n (initiator.map r) g =
            (stochastic table bound n initiator g).mapWord (List.map r)) := by
  refine ⟨?_, ?_⟩
  · intro pairs table h
    have hrenamed := RuleTable.ofPairs_renamed r h
    have hlooks : Strategy.contextual ≠ .stochastic := fun h => nomatch h
    refine ⟨hrenamed, ?_⟩
    intro initiator iterations source bound
    rw [deriveByTable_pairs h, deriveByTable_pairs hrenamed]
    exact deriveFrom_looking_renamed hr hlooks table initiator iterations source bound
  · intro table initiator bound
    refine ⟨?_, ?_⟩
    · intro strategy h iterations source
      exact deriveFrom_looking_renamed hr h table initiator iterations source bound
    · intro hblank
      refine ⟨?_, ?_⟩
      · intro iterations source
        exact deriveFrom_stochastic_renamed hr hblank table initiator iterations source bound
      · intro σ _ n g
        exact stochastic_renamed hr hblank table bound n initiator g

/-- A closing bracket takes the place of `F`, and the other way round: a pair of a list and one of a
    tuple, the bound exceeded in pass 2, and a derivation at random with a choice and a blank. -/
theorem derivation_treats_symbols_alike_bracket :
    ∃ (pairs : Value) (table : RuleTable Word) (r : Symbol → Symbol),
      r 'F' = ']' ∧ r ']' = 'F' ∧ Function.Injective r ∧
      (∀ c, Text.isBlank (r c) = Text.isBlank c) ∧ RuleTable.ofPairs pairs = .ok table ∧
      RuleTable.ofPairs (pairs.renamedPairs r) = .ok (table.renamed r) ∧
      Strategy.deterministic ≠ .stochastic ∧
      (deriveByTable .contextual ("F]".toList.map r) (.value (pairs.renamedPairs r)) (.int 1)
        (.seed 0) none).outcome = .ok ("]F]".toList.map r) ∧
      (deriveFrom .deterministic ("F]".toList.map r) (table.renamed r) (.int 2) (.seed 0)
        (some 3)).outcome = .error (.expansionLimit 2 3) ∧
      (deriveFrom .stochastic ("F F".toList.map r) (table.renamed r) (.int 1)
        (.generator (.script ⟨#[0, 1], #[]⟩)) none).outcome = .ok ("FF]F".toList.map r) ∧
      (deriveFrom .stochastic ("F F".toList.map r) (table.renamed r) (.int 1)
        (.generator (.script ⟨#[0, 1], #[]⟩)) none).state =
          .generator (.script ⟨#[0, 1], #[2, 2]⟩) := by
  have hr : Function.Injective (Equiv.swap 'F' ']') := (Equiv.swap 'F' ']').injective
  have hblank : ∀ c, Text.isBlank (Equiv.swap 'F' ']' c) = Text.isBlank c := by
    intro c
    rw [Equiv.swap_apply_def]
    split
    · rename_i h
      rw [h]
      rfl
    · split
      · rename_i h
        rw [h]
        rfl
      · rfl
  have hlooks : Strategy.deterministic ≠ .stochastic := fun h => nomatch h
  obtain ⟨pairs, table, htable, hpairs⟩ : ∃ (pairs : Value) (table : RuleTable Word),
      table = RuleTable.ofRules [⟨['F'], ['F', 'F']⟩, ⟨['F'], [']', 'F']⟩] ∧
        RuleTable.ofPairs pairs = .ok table :=
    ⟨.list [.list [.text ['F'], .text ['F', 'F']], .tuple [.text ['F'], .text [']', 'F']]], _, rfl,
      rfl⟩
  obtain ⟨hrenamed, hcontextual⟩ := (derivation_treats_symbols_alike hr).1 pairs table hpairs
  have htrace := (derivation_treats_symbols_alike hr).2 table
  refine ⟨pairs, table, _, Equiv.swap_apply_left 'F' ']', Equiv.swap_apply_right 'F' ']', hr, hblank,
    hpairs, hrenamed, hlooks, ?_, ?_, ?_, ?_⟩
  · rw [hcontextual, deriveByTable_pairs hpairs]
    subst htable
    rfl
  · rw [(htrace "F]".toList (some 3)).1 .deterministic hlooks]
    subst htable
    rfl
  · rw [((htrace "F F".toList none).2 hblank).1]
    subst htable
    rfl
  · rw [((htrace "F F".toList none).2 hblank).1]
    subst htable
    rfl

end Lindenmayer
