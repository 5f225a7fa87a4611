/-
  One pass, said without its running length.

  `expand` is the pass that no bound stops: every symbol gives its replacement and hands the state
  on.  `pass` does more — it adds lengths up as it goes, compares them with a bound in the middle of
  the word, keeps the parts in reverse and joins them at the end — but what it does is `expand` on
  the word or on a prefix of it (`pass_cases`):

  * if the word is not TOO LONG once expanded, `pass` is `expand`;
  * otherwise it fails, and leaves the state behind the shortest prefix that is too long.

  The empty word is never too long, even for a bound below zero, because a length is only compared
  behind a symbol.

  All this needs replacements that are words (`Replacement.Textual`), as those of a textual table
  are.
-/
import Lindenmayer.Derivation.Basic
import Lindenmayer.Proofs.RuleTable.Textual

namespace Lindenmayer

/-- All replacements are words. -/
def Replacement.Textual {σ α : Type} [RulePart α] (replace : Replacement σ α) : Prop :=
  ∀ c state, ∃ w, RulePart.Is (replace c state).1 w

variable {σ α : Type} [RulePart α]

/-! ## The pass that no bound stops -/

/-- The word that a pass writes, and the state after it. -/
def expand (replace : Replacement σ α) : Word → σ → Word × σ
  | [], state => ([], state)
  | c :: w, state =>
    let first := replace c state
    let rest := expand replace w first.2
    (RulePart.toWord first.1 ++ rest.1, rest.2)

/-- A word is expanded piece by piece, the state going from one to the next. -/
theorem expand_append (replace : Replacement σ α) (u v : Word) (state : σ) :
    expand replace (u ++ v) state =
      ((expand replace u state).1 ++ (expand replace v (expand replace u state).2).1,
        (expand replace v (expand replace u state).2).2) := by
  induction u generalizing state with
  | nil => rfl
  | cons c u ih =>
    show (RulePart.toWord _ ++ (expand replace (u ++ v) _).1, (expand replace (u ++ v) _).2) = _
    rw [ih]
    show (RulePart.toWord _ ++ (_ ++ _), _) = (RulePart.toWord _ ++ _ ++ _, _)
    rw [List.append_assoc]
    rfl

/-- `TooLong replace m state u` — `u` has symbols, and they are replaced by more than `m`. -/
def TooLong (replace : Replacement σ α) (m : Int) (state : σ) (u : Word) : Prop :=
  u ≠ [] ∧ m < ((expand replace u state).1.length : Int)

theorem not_tooLong_nil (replace : Replacement σ α) (m : Int) (state : σ) :
    ¬ TooLong replace m state [] :=
  fun h => h.1 rfl

/-- What is too long stays so, however it goes on. -/
theorem TooLong.append {replace : Replacement σ α} {m : Int} {state : σ} {u : Word}
    (h : TooLong replace m state u) (v : Word) : TooLong replace m state (u ++ v) := by
  refine ⟨fun hnil => h.1 (List.append_eq_nil_iff.mp hnil).1, ?_⟩
  rw [expand_append, List.length_append]
  have := h.2
  omega

/-- Behind a first symbol that is not too long itself, only the rest of the bound counts. -/
theorem tooLong_cons {replace : Replacement σ α} {m : Int} {state : σ} {c : Symbol}
    (h : ¬ m < ((RulePart.toWord (replace c state).1).length : Int)) (w : Word) :
    TooLong replace m state (c :: w) ↔
      TooLong replace (m - (RulePart.toWord (replace c state).1).length) (replace c state).2 w := by
  have hlen : (expand replace (c :: w) state).1.length =
      (RulePart.toWord (replace c state).1).length +
        (expand replace w (replace c state).2).1.length := List.length_append
  constructor
  · rintro ⟨-, hlong⟩
    refine ⟨?_, by omega⟩
    rintro rfl
    exact h (by rw [hlen] at hlong; exact hlong)
  · rintro ⟨-, hlong⟩
    exact ⟨List.cons_ne_nil c w, by omega⟩

/-! ## The pass under a bound -/

/-- Words among the parts written so far are joined to their concatenation. -/
theorem joinReversed_textual (written : List α) (behind : Word)
    (h : ∀ part ∈ written, ∃ w, RulePart.Is part w) :
    joinReversed written behind = .ok (written.reverse.flatMap RulePart.toWord ++ behind) := by
  induction written generalizing behind with
  | nil => rfl
  | cons part written ih =>
    obtain ⟨⟨w, hw⟩, hrest⟩ := List.forall_mem_cons.mp h
    rw [joinReversed, hw, List.reverse_cons, List.flatMap_append, List.append_assoc]
    show joinReversed written (w ++ behind) = .ok (_ ++ (([part].flatMap RulePart.toWord) ++ behind))
    rw [ih (w ++ behind) hrest, List.flatMap_singleton, hw.toWord_eq]

/-- One step of a pass whose replacements are words. -/
theorem passFrom_cons_textual {replace : Replacement σ α} {c : Symbol} {state : σ} {p : Word}
    (hp : RulePart.Is (replace c state).1 p) (bound : Option Int) (number : Nat) (rest : Word)
    (total : Nat) (written : List α) :
    passFrom replace bound number (c :: rest) total written state =
      match exceeded? bound (total + p.length) with
      | some m => (.error (.expansionLimit number m), (replace c state).2)
      | none => passFrom replace bound number rest (total + p.length)
          ((replace c state).1 :: written) (replace c state).2 := by
  rw [passFrom]
  dsimp only
  rw [hp]
  rfl

/-- **What a pass does to the rest of a word**, by what is left of the bound: it expands the rest,
    or fails behind the shortest prefix that is too long.  Induction over the rest; the total moves
    from the running length into the bound, which is the form in which `TooLong` is asked for. -/
theorem passFrom_cases {replace : Replacement σ α} (htext : replace.Textual) (bound : Option Int)
    (number : Nat) (rest : Word) (total : Nat) (written : List α) (state : σ)
    (hwritten : ∀ part ∈ written, ∃ w, RulePart.Is part w) :
    ((∀ m, bound = some m → ¬ TooLong replace (m - total) state rest) ∧
      passFrom replace bound number rest total written state =
        (.ok (written.reverse.flatMap RulePart.toWord ++ (expand replace rest state).1),
          (expand replace rest state).2)) ∨
    ∃ m u, bound = some m ∧ ShortestPrefix (TooLong replace (m - total) state) rest u ∧
      passFrom replace bound number rest total written state =
        (.error (.expansionLimit number m), (expand replace u state).2) := by
  induction rest generalizing total written state with
  | nil =>
    refine Or.inl ⟨fun m _ => not_tooLong_nil replace _ state, ?_⟩
    show (joinReversed written [], state) = (.ok (_ ++ []), state)
    rw [joinReversed_textual written [] hwritten]
  | cons c rest ih =>
    obtain ⟨p, hp⟩ := htext c state
    have hpw : RulePart.toWord (replace c state).1 = p := hp.toWord_eq
    rw [passFrom_cons_textual hp]
    cases hex : exceeded? bound (total + p.length) with
    | some m =>
      -- the first symbol alone is too long
      obtain ⟨hbound, hlt⟩ := exceeded?_eq_some_iff.mp hex
      refine Or.inr ⟨m, [c], hbound, ?_, rfl⟩
      refine (shortestPrefix_cons (not_tooLong_nil replace _ state) c rest []).mpr ?_
      refine ShortestPrefix.nil ⟨List.cons_ne_nil c [], ?_⟩ rest
      show m - total < (((RulePart.toWord (replace c state).1) ++ []).length : Int)
      rw [List.append_nil, hpw]
      omega
    | none =>
      -- the first symbol fits, and so the bound for the rest is the shorter one
      have hfits : ∀ m, bound = some m →
          ¬ m - total < ((RulePart.toWord (replace c state).1).length : Int) := by
        intro m hbound hlt
        have hsome : exceeded? bound (total + p.length) = some m :=
          exceeded?_eq_some_iff.mpr ⟨hbound, by rw [hpw] at hlt; omega⟩
        exact nomatch hsome.symm.trans hex
      have hcons : ∀ m, bound = some m → ∀ v, TooLong replace (m - total) state (c :: v) ↔
          TooLong replace (m - (total + p.length : Nat)) (replace c state).2 v := by
        intro m hbound v
        rw [tooLong_cons (hfits m hbound) v, hpw]
        have hm : m - (total : Int) - (p.length : Int) = m - (total + p.length : Nat) := by omega
        rw [hm]
      have hwritten' : ∀ part ∈ (replace c state).1 :: written, ∃ w, RulePart.Is part w :=
        List.forall_mem_cons.mpr ⟨⟨p, hp⟩, hwritten⟩
      rcases ih (total + p.length) ((replace c state).1 :: written) (replace c state).2 hwritten'
        with ⟨hshort, hpass⟩ | ⟨m, u, hbound, hu, hpass⟩
      · refine Or.inl ⟨fun m hbound h => hshort m hbound ((hcons m hbound rest).mp h), ?_⟩
        show passFrom replace bound number rest _ _ _ = _
        rw [hpass, List.reverse_cons, List.flatMap_append, List.flatMap_singleton,
          List.append_assoc]
        rfl
      · refine Or.inr ⟨m, c :: u, hbound, ?_, hpass⟩
        have hP : (fun v => TooLong replace (m - total) state (c :: v)) =
            TooLong replace (m - (total + p.length : Nat)) (replace c state).2 :=
          funext fun v => propext (hcons m hbound v)
        exact (shortestPrefix_cons (not_tooLong_nil replace _ state) c rest u).mpr (hP ▸ hu)

/-- **What a pass does**: it expands the word if that is not too long, and fails behind the shortest
    prefix that is. -/
theorem pass_cases {replace : Replacement σ α} (htext : replace.Textual) (bound : Option Int)
    (number : Nat) (w : Word) (state : σ) :
    ((∀ m, bound = some m → ¬ TooLong replace m state w) ∧
      pass replace bound number w state =
        (.ok (expand replace w state).1, (expand replace w state).2)) ∨
    ∃ m u, bound = some m ∧ ShortestPrefix (TooLong replace m state) w u ∧
      pass replace bound number w state =
        (.error (.expansionLimit number m), (expand replace u state).2) := by
  have hzero : ∀ m : Int, m - (0 : Nat) = m := fun m => by omega
  rcases passFrom_cases htext bound number w 0 [] state (fun _ h => absurd h List.not_mem_nil) with
    ⟨hshort, hpass⟩ | ⟨m, u, hbound, hu, hpass⟩
  · exact Or.inl ⟨fun m hbound h => hshort m hbound ((hzero m).symm ▸ h), hpass⟩
  · exact Or.inr ⟨m, u, hbound, hzero m ▸ hu, hpass⟩

end Lindenmayer
