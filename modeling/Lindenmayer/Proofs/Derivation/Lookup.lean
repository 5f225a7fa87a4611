/-
  Derivations that look symbols up.

  Where symbols are looked up no state has a say, and a pass that gets through writes the IMAGE of
  its word: every symbol replaced by the word that it is looked up as.  So a run that gets through
  writes the image of the image and so on, `t.image^[n] w`.

  A pass GETS THROUGH (`Passes`) if every symbol of its word is looked up as a word and the image is
  not longer than the bound, with the empty word out of the question.  This is the whole condition,
  for tables with productions of any kind (`pass_looking_cases`): something without a length ends the
  pass where it is met, something else that is no word ends it when the parts are joined, and a
  running length beyond the bound ends it in between, so that the order of the symbols decides how
  a pass fails, but never whether it does.
-/
import Mathlib.Logic.Function.Iterate
import Lindenmayer.Proofs.Derivation.Stages

namespace Lindenmayer

variable {σ α : Type} [RulePart α]

/-- Parts that are not all words cannot be joined. -/
theorem joinReversed_not_textual {written : List α} (behind : Word)
    (h : ¬ ∀ part ∈ written, ∃ w, RulePart.Is part w) :
    joinReversed written behind = .error .wrongKind := by
  induction written generalizing behind with
  | nil => exact absurd (fun _ hpart => absurd hpart List.not_mem_nil) h
  | cons part written ih =>
    rw [joinReversed]
    split
    · rename_i w hw
      apply ih
      intro hrest
      exact h (List.forall_mem_cons.mpr ⟨⟨w, hw⟩, hrest⟩)
    · rfl

namespace RuleTable

variable [BEq α]

/-! ## Images -/

/-- The word with every symbol replaced by what it is looked up as. -/
def image (t : RuleTable α) (w : Word) : Word :=
  w.flatMap fun c => RulePart.toWord (t.lookup (RulePart.ofWord [c]))

@[simp] theorem image_nil (t : RuleTable α) : t.image [] = [] := rfl

theorem image_cons (t : RuleTable α) (c : Symbol) (w : Word) :
    t.image (c :: w) = RulePart.toWord (t.lookup (RulePart.ofWord [c])) ++ t.image w :=
  List.flatMap_cons

/-- The image is written piece by piece. -/
@[simp] theorem image_append (t : RuleTable α) (u v : Word) :
    t.image (u ++ v) = t.image u ++ t.image v :=
  List.flatMap_append

/-- Every symbol of the word is looked up as a word. -/
def Spells (t : RuleTable α) (w : Word) : Prop :=
  ∀ c ∈ w, ∃ v, RulePart.Is (t.lookup (RulePart.ofWord [c])) v

theorem Textual.spells [LawfulRulePart α] {t : RuleTable α} (h : t.Textual) (w : Word) :
    t.Spells w :=
  fun c _ => h.lookup [c]

/-- A pass over the word gets through under the bound. -/
structure Passes (t : RuleTable α) (bound : Option Int) (w : Word) : Prop where
  spells : t.Spells w
  fits : ∀ m, bound = some m → w ≠ [] → ((t.image w).length : Int) ≤ m

/-- Without a bound, a pass gets through if it meets no symbol that is looked up as no word. -/
theorem passes_none_iff {t : RuleTable α} {w : Word} : t.Passes none w ↔ t.Spells w :=
  ⟨Passes.spells, fun h => ⟨h, fun _ hm => nomatch hm⟩⟩

/-! ## One pass -/

/-- The rest of a pass gets through, behind parts of the given length in all. -/
structure PassesFrom (t : RuleTable α) (bound : Option Int) (rest : Word) (total : Nat)
    (written : List α) : Prop where
  textual : ∀ part ∈ written, ∃ w, RulePart.Is part w
  spells : t.Spells rest
  fits : ∀ m, bound = some m → rest ≠ [] → ((total + (t.image rest).length : Nat) : Int) ≤ m

/-- A symbol that is looked up as a word, and fits, may be counted among what is written already. -/
theorem passesFrom_cons_iff {t : RuleTable α} {bound : Option Int} {c : Symbol} {rest p : Word}
    {total : Nat} {written : List α} (hp : RulePart.Is (t.lookup (RulePart.ofWord [c])) p)
    (hfits : exceeded? bound (total + p.length) = none) :
    t.PassesFrom bound (c :: rest) total written ↔
      t.PassesFrom bound rest (total + p.length) (t.lookup (RulePart.ofWord [c]) :: written) := by
  have hlength : total + (t.image (c :: rest)).length = total + p.length + (t.image rest).length := by
    rw [image_cons, hp.toWord_eq, List.length_append, Nat.add_assoc]
  constructor
  · intro h
    obtain ⟨-, hrest⟩ := List.forall_mem_cons.mp h.spells
    refine ⟨List.forall_mem_cons.mpr ⟨⟨p, hp⟩, h.textual⟩, hrest, ?_⟩
    intro m hm _
    rw [← hlength]
    exact h.fits m hm (List.cons_ne_nil c rest)
  · intro h
    obtain ⟨-, hwritten⟩ := List.forall_mem_cons.mp h.textual
    refine ⟨hwritten, List.forall_mem_cons.mpr ⟨⟨p, hp⟩, h.spells⟩, ?_⟩
    intro m hm _
    rw [hlength]
    by_cases hrest : rest = []
    · -- nothing follows, and what has been written does not exceed the bound
      subst hrest
      have hnot : ¬ m < (total + p.length : Nat) := fun hlt =>
        nomatch hfits.symm.trans (exceeded?_eq_some_iff.mpr ⟨hm, hlt⟩)
      simp only [image_nil, List.length_nil]
      omega
    · exact h.fits m hm hrest

/-- The pass over the rest of a word writes its image behind what is written already, or fails if
    one of the conditions does not hold.  Induction over the rest; the state stays as it is. -/
theorem passFrom_looking_cases (t : RuleTable α) (bound : Option Int) (number : Nat) (rest : Word)
    (total : Nat) (written : List α) (state : σ) :
    (t.PassesFrom bound rest total written ∧
      passFrom t.looking bound number rest total written state =
        (.ok (written.reverse.flatMap RulePart.toWord ++ t.image rest), state)) ∨
    ¬ t.PassesFrom bound rest total written ∧
      ∃ cause, passFrom t.looking bound number rest total written state = (.error cause, state) := by
  induction rest generalizing total written with
  | nil =>
    by_cases hwritten : ∀ part ∈ written, ∃ w, RulePart.Is part w
    · have hpasses : t.PassesFrom bound [] total written :=
        ⟨hwritten, fun _ hc => absurd hc List.not_mem_nil, fun _ _ hne => absurd rfl hne⟩
      exact Or.inl ⟨hpasses, congrArg (·, state) (joinReversed_textual written [] hwritten)⟩
    · have hjoin := joinReversed_not_textual [] hwritten
      exact Or.inr ⟨fun h => hwritten h.textual, _, congrArg (·, state) hjoin⟩
  | cons c rest ih =>
    by_cases hword : ∃ p, RulePart.Is (t.lookup (RulePart.ofWord [c])) p
    · obtain ⟨p, hp⟩ := hword
      have hstep : RulePart.Is ((t.looking : Replacement σ α) c state).1 p := hp
      rw [passFrom_cons_textual hstep]
      cases hex : exceeded? bound (total + p.length) with
      | some m =>
        refine Or.inr ⟨?_, _, rfl⟩
        intro h
        obtain ⟨hm, hlt⟩ := exceeded?_eq_some_iff.mp hex
        have hle := h.fits m hm (List.cons_ne_nil c rest)
        rw [image_cons, hp.toWord_eq, List.length_append] at hle
        omega
      | none =>
        rw [passesFrom_cons_iff hp hex, image_cons, hp.toWord_eq]
        have hnext := ih (total + p.length) (t.lookup (RulePart.ofWord [c]) :: written)
        rw [List.reverse_cons, List.flatMap_append, List.flatMap_singleton, hp.toWord_eq,
          List.append_assoc] at hnext
        exact hnext
    · -- the symbol ends the pass here, or behind the last symbol at the latest
      have hnot : ∀ total, ¬ t.PassesFrom bound rest total
          (t.lookup (RulePart.ofWord [c]) :: written) := fun total h =>
        hword (h.textual _ List.mem_cons_self)
      refine Or.inr ⟨fun h => hword (h.spells c List.mem_cons_self), ?_⟩
      rw [passFrom]
      dsimp only
      split
      · exact ⟨_, rfl⟩
      · split
        · exact ⟨_, rfl⟩
        · rename_i length _ _ _
          rcases ih (total + length) (t.lookup (RulePart.ofWord [c]) :: written) with
            ⟨h, -⟩ | ⟨-, hfails⟩
          · exact absurd h (hnot (total + length))
          · exact hfails

/-- **One pass** that looks symbols up: it writes the image of the word if it gets through, and
    otherwise it fails. -/
theorem pass_looking_cases (t : RuleTable α) (bound : Option Int) (number : Nat) (w : Word)
    (state : σ) :
    (t.Passes bound w ∧ pass t.looking bound number w state = (.ok (t.image w), state)) ∨
    ¬ t.Passes bound w ∧ ∃ cause, pass t.looking bound number w state = (.error cause, state) := by
  have hiff : t.PassesFrom bound w 0 [] ↔ t.Passes bound w := by
    constructor
    · intro h
      refine ⟨h.spells, ?_⟩
      intro m hm hne
      have hle := h.fits m hm hne
      omega
    · intro h
      refine ⟨fun _ hpart => absurd hpart List.not_mem_nil, h.spells, ?_⟩
      intro m hm hne
      have hle := h.fits m hm hne
      omega
  have hcases := passFrom_looking_cases t bound number w 0 [] state
  rw [hiff] at hcases
  exact hcases

/-! ## Runs -/

/-- Passes from any word on: they all get through and lead to the image of that order, or the run
    ends with an error.  Induction over the passes. -/
theorem runFrom_looking_eq_ok_iff (t : RuleTable α) (bound : Option Int) (passes : Nat) (w v : Word)
    (lengths : Array Nat) (state : σ) :
    (runFrom t.looking bound passes ⟨w, lengths, state⟩).outcome = .ok v ↔
      (∀ i, i < passes → t.Passes bound (t.image^[i] w)) ∧ v = t.image^[passes] w := by
  induction passes generalizing w lengths with
  | zero =>
    constructor
    · intro h
      exact ⟨fun i hi => absurd hi (Nat.not_lt_zero i), (Except.ok.inj h).symm⟩
    · rintro ⟨-, rfl⟩
      rfl
  | succ passes ih =>
    rw [runFrom]
    rcases pass_looking_cases t bound (lengths.size + 1) w state with
      ⟨hpass, hok⟩ | ⟨hnot, cause, herr⟩
    · rw [hok]
      dsimp only
      rw [ih]
      constructor
      · rintro ⟨hrest, rfl⟩
        refine ⟨?_, rfl⟩
        intro i hi
        cases i with
        | zero => exact hpass
        | succ i => exact hrest i (by omega)
      · rintro ⟨hall, rfl⟩
        exact ⟨fun i hi => hall (i + 1) (by omega), rfl⟩
    · rw [herr]
      dsimp only
      constructor
      · intro h
        cases h
      · rintro ⟨hall, -⟩
        exact absurd (hall 0 (Nat.succ_pos passes)) hnot

/-- **A derivation that looks symbols up** ends well exactly if all its passes get through, and then
    with the image of that order. -/
theorem outcome_looking_eq_ok_iff {strategy : Strategy} (h : strategy ≠ .stochastic)
    (t : RuleTable α) (w v : Word) (n : Nat) (source : Source) (bound : Option Int) :
    (deriveFrom strategy w t (.int n) source bound).outcome = .ok v ↔
      (∀ i, i < n → t.Passes bound (t.image^[i] w)) ∧ v = t.image^[n] w := by
  rw [deriveFrom_looking h]
  exact runFrom_looking_eq_ok_iff t bound n w v #[] source

/-- Without a bound, a textual table derives the image of every order. -/
theorem Textual.outcome_looking [LawfulRulePart α] {t : RuleTable α} (ht : t.Textual)
    {strategy : Strategy} (h : strategy ≠ .stochastic) (w : Word) (n : Nat) (source : Source) :
    (deriveFrom strategy w t (.int n) source none).outcome = .ok (t.image^[n] w) := by
  rw [outcome_looking_eq_ok_iff h]
  exact ⟨fun i _ => passes_none_iff.mpr (ht.spells _), rfl⟩

end RuleTable

end Lindenmayer
