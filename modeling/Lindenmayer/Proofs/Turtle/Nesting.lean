/-
  Nesting: words by their scopes.

  What the count of scopes accepts can be said in two ways.  By numbers: `excess` tells how many
  brackets a word closes more than it opens, and a word is accepted if no prefix has a positive
  excess; the largest excess of a prefix is how many scopes have to be open before the word.  By
  structure: a word that is not accepted is a balanced word, a closing bracket without a partner, and
  a rest (`accepted_or_closing`), so that behind an opening bracket stands either the partner or an
  accepted word.

  Along this structure an accepted word is PRUNED: its closed scopes are taken out with everything in
  them, and of its other scopes the opening brackets.  There is exactly one word that is left
  (`Accepted.exists_pruned`, `Pruned.unique`), and it has no brackets.
-/
import Mathlib.Order.Bounds.Defs
import Lindenmayer.Proofs.Turtle.Agreement

namespace Lindenmayer

/-! ## Excess -/

/-- By how many brackets a word closes more than it opens. -/
def excess (w : Word) : Int :=
  (w.count ']' : Int) - w.count '['

theorem excess_cons (c : Symbol) (w : Word) : excess (c :: w) = excess [c] + excess w := by
  have hclose : ([c] ++ w).count ']' = [c].count ']' + w.count ']' := List.count_append
  have hopen : ([c] ++ w).count '[' = [c].count '[' + w.count '[' := List.count_append
  show excess ([c] ++ w) = _
  unfold excess
  omega

theorem overdrawn_iff_excess (depth : Nat) (w : Word) : Overdrawn depth w ↔ (depth : Int) < excess w := by
  unfold Overdrawn excess
  omega

/-- One prefix closes the most.  Induction over the word; a first symbol moves all excesses but that
    of the empty prefix. -/
theorem exists_isGreatest_excess (w : Word) :
    ∃ k, IsGreatest {e | ∃ u, u <+: w ∧ excess u = e} k := by
  induction w with
  | nil =>
    refine ⟨0, ⟨[], List.nil_prefix, rfl⟩, ?_⟩
    rintro e ⟨u, hu, rfl⟩
    obtain rfl := List.prefix_nil.mp hu
    exact Int.le_refl 0
  | cons c w ih =>
    obtain ⟨k, ⟨u, hu, hk⟩, hbound⟩ := ih
    have hprefix : ∀ v, v <+: c :: w → excess v = 0 ∨ excess v ≤ excess [c] + k := by
      intro v hv
      rcases List.prefix_cons_iff.mp hv with rfl | ⟨t, rfl, ht⟩
      · exact Or.inl rfl
      · have hle : excess t ≤ k := hbound ⟨t, ht, rfl⟩
        rw [excess_cons]
        omega
    rcases Int.le_total 0 (excess [c] + k) with hle | hle
    · refine ⟨excess [c] + k, ⟨c :: u, (List.prefix_cons_inj c).mpr hu, ?_⟩, ?_⟩
      · rw [excess_cons, hk]
      · rintro e ⟨v, hv, rfl⟩
        have := hprefix v hv
        omega
    · refine ⟨0, ⟨[], List.nil_prefix, rfl⟩, ?_⟩
      rintro e ⟨v, hv, rfl⟩
      have := hprefix v hv
      omega

/-- Some prefix closes more than the scopes that are open exactly if the one that closes the most
    does. -/
theorem exists_overdrawn_iff {w : Word} {k : Int}
    (hk : IsGreatest {e | ∃ u, u <+: w ∧ excess u = e} k) (depth : Nat) :
    (∃ u, u <+: w ∧ Overdrawn depth u) ↔ (depth : Int) < k := by
  constructor
  · rintro ⟨u, hu, hover⟩
    have hle : excess u ≤ k := hk.2 ⟨u, hu, rfl⟩
    have := (overdrawn_iff_excess depth u).mp hover
    omega
  · intro hlt
    obtain ⟨u, hu, rfl⟩ := hk.1
    exact ⟨u, hu, (overdrawn_iff_excess depth u).mpr hlt⟩

/-! ## Accepted words -/

/-- The count of scopes finds no closing bracket without a partner. -/
def Accepted (w : Word) : Prop :=
  ∃ d, scopeDepth w = .ok d

theorem accepted_iff (w : Word) : Accepted w ↔ ∀ u, u <+: w → ¬ Overdrawn 0 u := by
  constructor
  · rintro ⟨d, hd⟩
    exact ((scopeDepth_eq_ok_iff w d).mp hd).1
  · intro hnone
    rcases scopeDepth_dichotomy w with hok | hrefused
    · exact hok
    · obtain ⟨u, hu, hover⟩ := (scopeDepth_refused_iff w).mp hrefused
      exact absurd hover (hnone u hu)

/-- No accepted word begins with a closing bracket. -/
theorem not_accepted_close (w : Word) : ¬ Accepted (']' :: w) := by
  intro h
  exact (accepted_iff _).mp h [']'] ⟨w, rfl⟩ (by unfold Overdrawn; decide)

/-- Behind a beginning that closes what it opens, and no less, an accepted word is accepted. -/
theorem Accepted.of_append {u w : Word} (h : Accepted (u ++ w)) (hu : u.count ']' = u.count '[') :
    Accepted w := by
  rw [accepted_iff] at h ⊢
  intro v hv hover
  refine h (u ++ v) ((List.prefix_append_right_inj u).mpr hv) ?_
  unfold Overdrawn at hover ⊢
  rw [List.count_append, List.count_append]
  omega

/-- The brackets of a closed scope have their partners in it. -/
theorem count_scope {inner : Word} (h : scopeDepth inner = .ok 0) :
    ('[' :: inner ++ [']']).count ']' = ('[' :: inner ++ [']']).count '[' := by
  have hclose : ('[' :: inner ++ [']']).count ']' = inner.count ']' + 1 := by simp
  have hopen : ('[' :: inner ++ [']']).count '[' = inner.count '[' + 1 := by simp
  have hbalanced := ((scopeDepth_eq_ok_iff inner 0).mp h).2
  omega

/-! ## Closing brackets without a partner -/

/-- **The first closing bracket without a partner** stands behind a balanced word, and every balanced
    word with a closing bracket behind it is such a place. -/
theorem shortestPrefix_overdrawn_iff (w u : Word) :
    ShortestPrefix (Overdrawn 0) w u ↔
      ∃ inner rest, scopeDepth inner = .ok 0 ∧ u = inner ++ [']'] ∧ w = inner ++ ']' :: rest := by
  constructor
  · intro hu
    obtain ⟨rest, hrest⟩ := hu.initial
    rcases List.eq_nil_or_concat u with rfl | ⟨inner, c, hc⟩
    · exact absurd hu.holds (not_overdrawn_nil 0)
    · obtain rfl : u = inner ++ [c] := hc.trans List.concat_eq_append
      -- no prefix of `inner` is overdrawn, since all of them are shorter than `u`
      have hnone : ∀ v, v <+: inner → ¬ Overdrawn 0 v := by
        intro v hv hover
        have hle := hu.least v ((hv.trans (List.prefix_append inner [c])).trans hu.initial) hover
        have hshort := hv.length_le
        rw [List.length_append, List.length_singleton] at hle
        omega
      have hinner := hnone inner (List.prefix_refl inner)
      have hover := hu.holds
      unfold Overdrawn at hinner hover
      rw [List.count_append, List.count_append] at hover
      by_cases hclose : c = ']'
      · subst hclose
        have hopen : [']'].count '[' = 0 := by decide
        have hclose : [']'].count ']' = 1 := by decide
        have hbalanced : scopeDepth inner = .ok 0 :=
          (scopeDepth_eq_ok_iff inner 0).mpr ⟨hnone, by omega⟩
        refine ⟨inner, rest, hbalanced, rfl, ?_⟩
        rw [← hrest, List.append_assoc]
        rfl
      · -- another symbol would close nothing, and `inner` be overdrawn itself
        have hnothing : [c].count ']' = 0 := by
          rw [List.count_singleton, if_neg (by simpa using hclose)]
        omega
  · rintro ⟨inner, rest, hbalanced, rfl, rfl⟩
    obtain ⟨hnone, hcount⟩ := (scopeDepth_eq_ok_iff inner 0).mp hbalanced
    refine ⟨⟨rest, by rw [List.append_assoc]; rfl⟩, ?_, ?_⟩
    · have hopen : [']'].count '[' = 0 := by decide
      have hclose : [']'].count ']' = 1 := by decide
      unfold Overdrawn
      rw [List.count_append, List.count_append]
      omega
    · intro v hv hover
      rw [List.length_append, List.length_singleton]
      rcases Nat.lt_or_ge inner.length v.length with hlt | hle
      · exact hlt
      · -- a prefix as short as this is one of `inner`
        have hinner := List.prefix_of_prefix_length_le hv (List.prefix_append _ _) hle
        exact absurd hover (hnone v hinner)

/-- A word is accepted, or a balanced word stands before its first closing bracket without a
    partner. -/
theorem accepted_or_closing (w : Word) :
    Accepted w ∨ ∃ inner rest, scopeDepth inner = .ok 0 ∧ w = inner ++ ']' :: rest := by
  rcases scopeDepth_dichotomy w with hok | ⟨i, hi⟩
  · exact Or.inl hok
  · obtain ⟨u, hu, -⟩ := (scopeDepth_eq_error_iff w i).mp hi
    obtain ⟨inner, rest, hbalanced, -, hw⟩ := (shortestPrefix_overdrawn_iff w u).mp hu
    exact Or.inr ⟨inner, rest, hbalanced, hw⟩

/-- Not both. -/
theorem not_accepted_closing {inner : Word} (h : scopeDepth inner = .ok 0) (rest : Word) :
    ¬ Accepted (inner ++ ']' :: rest) := by
  intro haccepted
  have hshortest := (shortestPrefix_overdrawn_iff (inner ++ ']' :: rest) (inner ++ [']'])).mpr
    ⟨inner, rest, h, rfl, rfl⟩
  exact (accepted_iff _).mp haccepted _ hshortest.initial hshortest.holds

/-- There is only one such place. -/
theorem closing_unique {inner inner' rest rest' : Word} (h : scopeDepth inner = .ok 0)
    (h' : scopeDepth inner' = .ok 0) (heq : inner ++ ']' :: rest = inner' ++ ']' :: rest') :
    rest = rest' := by
  have hu := (shortestPrefix_overdrawn_iff (inner ++ ']' :: rest) (inner ++ [']'])).mpr
    ⟨inner, rest, h, rfl, rfl⟩
  have hu' := (shortestPrefix_overdrawn_iff (inner ++ ']' :: rest) (inner' ++ [']'])).mpr
    ⟨inner', rest', h', rfl, heq⟩
  obtain rfl := List.append_cancel_right (hu.unique hu')
  exact List.tail_eq_of_cons_eq (List.append_cancel_left heq)

/-! ## Pruning -/

/-- `Pruned w v` — `v` is `w` without its closed scopes and all that is in them, and without the
    opening brackets of the scopes that it leaves open. -/
inductive Pruned : Word → Word → Prop where
  | nil : Pruned [] []
  | symbol {c : Symbol} {w v : Word} (hopen : c ≠ '[') (hclose : c ≠ ']') (hrest : Pruned w v) :
      Pruned (c :: w) (c :: v)
  /-- A scope whose closing bracket follows on a balanced word. -/
  | closed {inner w v : Word} (hinner : scopeDepth inner = .ok 0) (hrest : Pruned w v) :
      Pruned ('[' :: inner ++ ']' :: w) v
  /-- An opening bracket whose partner does not follow. -/
  | unclosed {w v : Word} (haccepted : Accepted w) (hrest : Pruned w v) : Pruned ('[' :: w) v

/-- Every accepted word can be pruned.  Induction over the length, since a closed scope is taken out
    at once. -/
theorem Accepted.exists_pruned {w : Word} (h : Accepted w) : ∃ v, Pruned w v := by
  induction hn : w.length using Nat.strongRecOn generalizing w with
  | ind n ih =>
    cases w with
    | nil => exact ⟨[], .nil⟩
    | cons c w =>
      rw [List.length_cons] at hn
      by_cases hopen : c = '['
      · subst hopen
        rcases accepted_or_closing w with haccepted | ⟨inner, rest, hinner, rfl⟩
        · obtain ⟨v, hv⟩ := ih w.length (by omega) haccepted rfl
          exact ⟨v, .unclosed haccepted hv⟩
        · have hscope : Accepted (('[' :: inner ++ [']']) ++ rest) := by
            rw [List.append_assoc]
            exact h
          have hrest : Accepted rest := hscope.of_append (count_scope hinner)
          rw [List.length_append, List.length_cons] at hn
          obtain ⟨v, hv⟩ := ih rest.length (by omega) hrest rfl
          exact ⟨v, .closed hinner hv⟩
      · by_cases hclose : c = ']'
        · subst hclose
          exact absurd h (not_accepted_close w)
        · have hcount : [c].count ']' = [c].count '[' := by
            rw [List.count_singleton, List.count_singleton, if_neg (by simpa using hclose),
              if_neg (by simpa using hopen)]
          have hrest : Accepted w := Accepted.of_append h hcount
          obtain ⟨v, hv⟩ := ih w.length (by omega) hrest rfl
          exact ⟨c :: v, .symbol hopen hclose hv⟩

/-- What is left has no brackets. -/
theorem Pruned.no_brackets {w v : Word} (h : Pruned w v) : '[' ∉ v ∧ ']' ∉ v := by
  induction h with
  | nil => exact ⟨List.not_mem_nil, List.not_mem_nil⟩
  | symbol hopen hclose _ ih =>
    exact ⟨List.not_mem_cons_of_ne_of_not_mem hopen.symm ih.1,
      List.not_mem_cons_of_ne_of_not_mem hclose.symm ih.2⟩
  | closed _ _ ih => exact ih
  | unclosed _ _ ih => exact ih

/-- A word can be pruned in one way only. -/
theorem Pruned.unique {w v v' : Word} (h : Pruned w v) (h' : Pruned w v') : v = v' := by
  induction h generalizing v' with
  | nil =>
    cases h'
    rfl
  | symbol hopen hclose _ ih =>
    cases h' with
    | symbol _ _ hrest' => rw [ih hrest']
    | closed => exact absurd rfl hopen
    | unclosed => exact absurd rfl hopen
  | @closed inner w v hinner hrest ih =>
    generalize hword : '[' :: inner ++ ']' :: w = word at h'
    cases h' with
    | nil => nomatch hword
    | symbol hopen => exact absurd (List.head_eq_of_cons_eq hword).symm hopen
    | closed hinner' hrest' =>
      obtain rfl := closing_unique hinner hinner' (List.tail_eq_of_cons_eq hword)
      exact ih hrest'
    | unclosed haccepted =>
      obtain rfl := List.tail_eq_of_cons_eq hword
      exact absurd haccepted (not_accepted_closing hinner w)
  | @unclosed w v haccepted hrest ih =>
    generalize hword : '[' :: w = word at h'
    cases h' with
    | nil => nomatch hword
    | symbol hopen => exact absurd (List.head_eq_of_cons_eq hword).symm hopen
    | closed hinner' =>
      obtain rfl := List.tail_eq_of_cons_eq hword
      exact absurd haccepted (not_accepted_closing hinner' _)
    | unclosed _ hrest' =>
      obtain rfl := List.tail_eq_of_cons_eq hword
      exact ih hrest'

end Lindenmayer
