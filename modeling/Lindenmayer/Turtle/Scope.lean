/-
  Scopes: the nesting of brackets in a word.

  An opening bracket opens a scope and a closing bracket closes the one opened last.  Every word
  may leave scopes open at its end; what a word may not do is close a scope that was never opened.
  `scopeDepth` counts, without drawing anything, how many scopes a word leaves open, or says where
  the first closing bracket without a partner stands.

  What it finds can be said by numbers of brackets alone.  A word is OVERDRAWN if it closes more
  scopes than it opens.  `scopeDepth` refuses a word at the last symbol of its shortest overdrawn
  prefix (`scopeDepth_eq_error_iff`), and of a word that has no such prefix it tells how many more
  scopes are opened than closed (`scopeDepth_eq_ok_iff`).

  What one symbol does to the number of open scopes is `Command.depthAfter`.  The count and the
  turtle are both compared with it, symbol by symbol, and so with each other.
-/
import Lindenmayer.Turtle.Basic

namespace Lindenmayer

/-! ## The count -/

/-- The number of scopes open after the rest of a word, given how many are open before it and at
    which position it begins. -/
def depthFrom : (rest : Word) → (position depth : Nat) → Except Error Nat
  | [], _, depth => .ok depth
  | c :: rest, position, depth =>
    if c = '[' then depthFrom rest (position + 1) (depth + 1)
    else if c = ']' then
      match depth with
      | 0 => .error (.unmatchedClose position)
      | depth + 1 => depthFrom rest (position + 1) depth
    else depthFrom rest (position + 1) depth

/-- The number of scopes that a word leaves open. -/
def scopeDepth (w : Word) : Except Error Nat :=
  depthFrom w 0 0

example : scopeDepth "F[+F][".toList = .ok 1 := by rfl

example : scopeDepth "[]]".toList = .error (.unmatchedClose 2) := by rfl

/-! ## One symbol -/

/-- The number of scopes open after a command, if it can be obeyed where `depth` are open. -/
def Command.depthAfter (depth : Nat) : Command → Option Nat
  | .save => some (depth + 1)
  | .restore => match depth with
    | 0 => none
    | depth + 1 => some depth
  | _ => some depth

/-- A symbol other than the brackets leaves the scopes as they are. -/
theorem depthAfter_other {c : Symbol} (hopen : c ≠ '[') (hclose : c ≠ ']') (depth : Nat) :
    (Command.ofSymbol c).depthAfter depth = some depth := by
  unfold Command.ofSymbol
  rw [if_neg hopen, if_neg hclose]
  by_cases hF : c = 'F'
  · rw [if_pos hF]; rfl
  by_cases hf : c = 'f'
  · rw [if_neg hF, if_pos hf]; rfl
  by_cases hplus : c = '+'
  · rw [if_neg hF, if_neg hf, if_pos hplus]; rfl
  by_cases hminus : c = '-'
  · rw [if_neg hF, if_neg hf, if_neg hplus, if_pos hminus]; rfl
  rw [if_neg hF, if_neg hf, if_neg hplus, if_neg hminus]; rfl

/-- Everything that a symbol can do to the scopes: open one, close the last one, fail to close
    one, or nothing. -/
theorem depthAfter_cases (c : Symbol) (depth : Nat) :
    (c = '[' ∧ (Command.ofSymbol c).depthAfter depth = some (depth + 1)) ∨
    (c = ']' ∧ depth = 0 ∧ (Command.ofSymbol c).depthAfter depth = none) ∨
    (c = ']' ∧ ∃ d, depth = d + 1 ∧ (Command.ofSymbol c).depthAfter depth = some d) ∨
    (c ≠ '[' ∧ c ≠ ']' ∧ (Command.ofSymbol c).depthAfter depth = some depth) := by
  by_cases hopen : c = '['
  · subst hopen
    exact Or.inl ⟨rfl, rfl⟩
  · by_cases hclose : c = ']'
    · subst hclose
      cases depth with
      | zero => exact Or.inr (Or.inl ⟨rfl, rfl, rfl⟩)
      | succ d => exact Or.inr (Or.inr (Or.inl ⟨rfl, d, rfl, rfl⟩))
    · exact Or.inr (Or.inr (Or.inr ⟨hopen, hclose, depthAfter_other hopen hclose depth⟩))

/-- One step of the count: the symbol is obeyed, or refused where it stands. -/
theorem depthFrom_cons (c : Symbol) (w : Word) (position depth : Nat) :
    depthFrom (c :: w) position depth =
      match (Command.ofSymbol c).depthAfter depth with
      | none => .error (.unmatchedClose position)
      | some d => depthFrom w (position + 1) d := by
  rcases depthAfter_cases c depth with ⟨rfl, h⟩ | ⟨rfl, rfl, h⟩ | ⟨rfl, d, rfl, h⟩ | ⟨ho, hc, h⟩
  · rw [h]; rfl
  · rw [h]; rfl
  · rw [h]; rfl
  · rw [h, depthFrom.eq_def]
    show (if c = '[' then _ else if c = ']' then _ else _) = _
    rw [if_neg ho, if_neg hc]

/-- A symbol that can be obeyed is counted once, among the brackets or in the scopes after it. -/
theorem count_cons_of_depthAfter {c : Symbol} {depth d : Nat}
    (h : (Command.ofSymbol c).depthAfter depth = some d) (w : Word) :
    depth + (c :: w).count '[' + w.count ']' = d + w.count '[' + (c :: w).count ']' := by
  rcases depthAfter_cases c depth with ⟨rfl, h'⟩ | ⟨rfl, rfl, h'⟩ | ⟨rfl, e, rfl, h'⟩ | ⟨ho, hc, h'⟩
  · obtain rfl : depth + 1 = d := Option.some.inj (h'.symm.trans h)
    rw [List.count_cons_self, List.count_cons_of_ne (by decide)]
    omega
  · exact nomatch h'.symm.trans h
  · obtain rfl : e = d := Option.some.inj (h'.symm.trans h)
    rw [List.count_cons_self, List.count_cons_of_ne (by decide)]
    omega
  · obtain rfl : depth = d := Option.some.inj (h'.symm.trans h)
    rw [List.count_cons_of_ne ho, List.count_cons_of_ne hc]

/-! ## Overdrawn words -/

/-- `Overdrawn depth w` — `w` closes all scopes that it opens, `depth` others, and then one. -/
def Overdrawn (depth : Nat) (w : Word) : Prop :=
  depth + w.count '[' < w.count ']'

theorem not_overdrawn_nil (depth : Nat) : ¬ Overdrawn depth [] :=
  Nat.not_lt_zero _

/-- An overdrawn word has a last symbol. -/
theorem Overdrawn.length_ne_zero {depth : Nat} {w : Word} (h : Overdrawn depth w) :
    w.length ≠ 0 :=
  fun h0 => not_overdrawn_nil depth (List.length_eq_zero_iff.mp h0 ▸ h)

/-- A symbol that can be obeyed makes no difference but for the scopes open after it. -/
theorem overdrawn_cons {c : Symbol} {depth d : Nat}
    (h : (Command.ofSymbol c).depthAfter depth = some d) (w : Word) :
    Overdrawn depth (c :: w) ↔ Overdrawn d w := by
  have hcount := count_cons_of_depthAfter h w
  unfold Overdrawn
  omega

/-- A symbol that cannot be obeyed is overdrawn on its own. -/
theorem overdrawn_singleton {c : Symbol} {depth : Nat}
    (h : (Command.ofSymbol c).depthAfter depth = none) : Overdrawn depth [c] := by
  rcases depthAfter_cases c depth with ⟨rfl, h'⟩ | ⟨rfl, rfl, -⟩ | ⟨rfl, d, rfl, h'⟩ | ⟨-, -, h'⟩
  · exact nomatch h'.symm.trans h
  · show 0 + 0 < 1
    omega
  · exact nomatch h'.symm.trans h
  · exact nomatch h'.symm.trans h

/-! ## What the count finds -/

/-- **What the count finds**, from any position and depth: the word is refused at the last symbol
    of its shortest overdrawn prefix, or it has none and the numbers of brackets say how many
    scopes are open at its end.  Induction over the word; each symbol that is obeyed passes both
    cases on, with the scopes open after it. -/
theorem depthFrom_cases (w : Word) (position depth : Nat) :
    (∃ u, ShortestPrefix (Overdrawn depth) w u ∧
      depthFrom w position depth = .error (.unmatchedClose (position + (u.length - 1)))) ∨
    ((∀ u, u <+: w → ¬ Overdrawn depth u) ∧
      ∃ d, depthFrom w position depth = .ok d ∧ d + w.count ']' = depth + w.count '[') := by
  induction w generalizing position depth with
  | nil =>
    refine Or.inr ⟨fun u hu => ?_, depth, rfl, rfl⟩
    obtain rfl := List.prefix_nil.mp hu
    exact not_overdrawn_nil depth
  | cons c w ih =>
    rw [depthFrom_cons]
    cases hc : (Command.ofSymbol c).depthAfter depth with
    | none =>
      -- refused at once, and the symbol alone is the prefix
      refine Or.inl ⟨[c], ?_, rfl⟩
      refine (shortestPrefix_cons (not_overdrawn_nil depth) c w []).mpr ?_
      exact ShortestPrefix.nil (overdrawn_singleton hc) w
    | some d =>
      -- obeyed, so that the rest is judged by `d` where the whole is by `depth`
      have hP : (fun v => Overdrawn depth (c :: v)) = Overdrawn d :=
        funext fun v => propext (overdrawn_cons hc v)
      rcases ih (position + 1) d with ⟨u, hu, herr⟩ | ⟨hnone, e, hok, hcount⟩
      · refine Or.inl ⟨c :: u, ?_, ?_⟩
        · exact (shortestPrefix_cons (not_overdrawn_nil depth) c w u).mpr (hP ▸ hu)
        · -- `u` is not empty, so that one symbol before it moves its end by one
          have hpos := hu.holds.length_ne_zero
          show depthFrom w (position + 1) d = _
          rw [herr, List.length_cons]
          congr 2
          omega
      · refine Or.inr ⟨fun u hu => ?_, e, hok, ?_⟩
        · rcases List.prefix_cons_iff.mp hu with rfl | ⟨t, rfl, ht⟩
          · exact not_overdrawn_nil depth
          · exact fun h => hnone t ht ((overdrawn_cons hc t).mp h)
        · have hstep := count_cons_of_depthAfter hc w
          omega

/-- A word is refused at the end of its shortest overdrawn prefix. -/
theorem scopeDepth_eq_error_iff (w : Word) (i : Nat) :
    scopeDepth w = .error (.unmatchedClose i) ↔
      ∃ u, ShortestPrefix (Overdrawn 0) w u ∧ u.length = i + 1 := by
  rcases depthFrom_cases w 0 0 with ⟨u, hu, herr⟩ | ⟨hnone, d, hok, -⟩
  · have hpos := hu.holds.length_ne_zero
    constructor
    · intro h
      have hi := Except.error.inj (herr.symm.trans h)
      injection hi with hi
      exact ⟨u, hu, by omega⟩
    · rintro ⟨v, hv, hlen⟩
      obtain rfl := hu.unique hv
      rw [scopeDepth, herr]
      congr 2
      omega
  · constructor
    · intro h
      exact nomatch hok.symm.trans h
    · rintro ⟨u, hu, -⟩
      exact absurd hu.holds (hnone u hu.initial)

/-- A word is accepted if no prefix of it is overdrawn, and with the difference of its brackets. -/
theorem scopeDepth_eq_ok_iff (w : Word) (d : Nat) :
    scopeDepth w = .ok d ↔
      (∀ u, u <+: w → ¬ Overdrawn 0 u) ∧ d + w.count ']' = w.count '[' := by
  rcases depthFrom_cases w 0 0 with ⟨u, hu, herr⟩ | ⟨hnone, e, hok, hcount⟩
  · constructor
    · intro h
      exact nomatch herr.symm.trans h
    · rintro ⟨hnone, -⟩
      exact absurd hu.holds (hnone u hu.initial)
  · constructor
    · intro h
      obtain rfl := Except.ok.inj (hok.symm.trans h)
      exact ⟨hnone, by omega⟩
    · rintro ⟨-, hd⟩
      obtain rfl : e = d := by omega
      exact hok

/-- There is no third way. -/
theorem scopeDepth_dichotomy (w : Word) :
    (∃ d, scopeDepth w = .ok d) ∨ ∃ i, scopeDepth w = .error (.unmatchedClose i) := by
  rcases depthFrom_cases w 0 0 with ⟨u, -, herr⟩ | ⟨-, d, hok, -⟩
  · exact Or.inr ⟨_, herr⟩
  · exact Or.inl ⟨d, hok⟩

/-- Some prefix of a word is overdrawn exactly if the word is refused. -/
theorem scopeDepth_refused_iff (w : Word) :
    (∃ i, scopeDepth w = .error (.unmatchedClose i)) ↔ ∃ u, u <+: w ∧ Overdrawn 0 u := by
  constructor
  · rintro ⟨i, h⟩
    obtain ⟨u, hu, -⟩ := (scopeDepth_eq_error_iff w i).mp h
    exact ⟨u, hu.initial, hu.holds⟩
  · rintro ⟨u, hu, hover⟩
    obtain ⟨v, hv⟩ := exists_shortestPrefix hu hover
    have hpos := hv.holds.length_ne_zero
    exact ⟨v.length - 1, (scopeDepth_eq_error_iff w _).mpr ⟨v, hv, by omega⟩⟩

end Lindenmayer
