/-
  Scopes counted from any depth.

  `scopeDepth` starts with no scope open and names the place where it fails.  Without the place, and
  from any number of scopes, it is a fold of `Command.depthAfter` over the word (`scopesAfter`), so
  that a word put together from parts is counted part by part.  More scopes around a word change
  nothing but the number (`scopesAfter_add`): a word that is BALANCED, closing what it opens and no
  more, leaves every number of scopes as it is (`scopesAfter_of_balanced`).

  The turtle saves a pose for every open scope, whatever its poses are.  So a drawing fails for want
  of a saved pose only if the count refuses the word (`draw_of_accepted`), for all parameters and
  every start, although with some of them it fails for other reasons.
-/
import Lindenmayer.Proofs.Turtle.Nesting

namespace Lindenmayer

/-! ## The count as a fold -/

/-- The number of scopes open after a word, from so many before it; none if the word closes more
    than there are. -/
def scopesAfter (depth : Nat) (w : Word) : Option Nat :=
  w.foldlM (fun depth c => (Command.ofSymbol c).depthAfter depth) depth

theorem scopesAfter_cons (depth : Nat) (c : Symbol) (w : Word) :
    scopesAfter depth (c :: w) =
      ((Command.ofSymbol c).depthAfter depth).bind fun depth => scopesAfter depth w :=
  List.foldlM_cons

theorem scopesAfter_append (depth : Nat) (u v : Word) :
    scopesAfter depth (u ++ v) =
      (scopesAfter depth u).bind fun depth => scopesAfter depth v :=
  List.foldlM_append

theorem scopesAfter_singleton (depth : Nat) (c : Symbol) :
    scopesAfter depth [c] = (Command.ofSymbol c).depthAfter depth := by
  rw [scopesAfter_cons]
  cases (Command.ofSymbol c).depthAfter depth <;> rfl

/-- The count of scopes is the fold, but for the place of the failure. -/
theorem toOption_depthFrom (w : Word) (position depth : Nat) :
    (depthFrom w position depth).toOption = scopesAfter depth w := by
  induction w generalizing position depth with
  | nil => rfl
  | cons c w ih =>
    rw [depthFrom_cons, scopesAfter_cons]
    cases (Command.ofSymbol c).depthAfter depth with
    | none => rfl
    | some d => exact ih (position + 1) d

theorem scopeDepth_eq_ok_iff_scopesAfter (w : Word) (d : Nat) :
    scopeDepth w = .ok d ↔ scopesAfter 0 w = some d := by
  rw [← toOption_depthFrom w 0 0, scopeDepth]
  cases depthFrom w 0 0 with
  | error cause =>
    constructor
    · intro h
      cases h
    · intro h
      cases h
  | ok e =>
    constructor
    · intro h
      exact congrArg some (Except.ok.inj h)
    · intro h
      exact congrArg Except.ok (Option.some.inj h)

/-- The count accepts a word exactly if the fold gets through it. -/
theorem accepted_iff_scopesAfter (w : Word) : Accepted w ↔ ∃ d, scopesAfter 0 w = some d :=
  exists_congr (scopeDepth_eq_ok_iff_scopesAfter w)

/-- Words that agree about the scopes they leave open are accepted or refused together. -/
theorem scopeDepth_congr {v w : Word} (h : scopesAfter 0 v = scopesAfter 0 w) :
    ((∃ i, scopeDepth v = .error (.unmatchedClose i)) ↔
      ∃ i, scopeDepth w = .error (.unmatchedClose i)) ∧
    ∀ d, scopeDepth v = .ok d ↔ scopeDepth w = .ok d := by
  have hok : ∀ d, scopeDepth v = .ok d ↔ scopeDepth w = .ok d := by
    intro d
    rw [scopeDepth_eq_ok_iff_scopesAfter, scopeDepth_eq_ok_iff_scopesAfter, h]
  refine ⟨?_, hok⟩
  -- a word is refused if it is not accepted, and there is no third way
  have hrefused : ∀ u, (∃ i, scopeDepth u = .error (.unmatchedClose i)) ↔ ¬ Accepted u := by
    intro u
    rcases scopeDepth_dichotomy u with ⟨d, hd⟩ | ⟨i, hi⟩
    · refine iff_of_false ?_ (fun hnot => hnot ⟨d, hd⟩)
      rintro ⟨i, hi⟩
      exact nomatch hd.symm.trans hi
    · refine iff_of_true ⟨i, hi⟩ ?_
      rintro ⟨d, hd⟩
      exact nomatch hi.symm.trans hd
  rw [hrefused, hrefused]
  exact not_congr (exists_congr hok)

/-! ## Balanced words -/

/-- A symbol that can be obeyed can be obeyed with more scopes around. -/
theorem depthAfter_add {c : Symbol} {depth d : Nat}
    (h : (Command.ofSymbol c).depthAfter depth = some d) (more : Nat) :
    (Command.ofSymbol c).depthAfter (depth + more) = some (d + more) := by
  rcases depthAfter_cases c depth with ⟨rfl, h'⟩ | ⟨rfl, rfl, h'⟩ | ⟨rfl, e, rfl, h'⟩ | ⟨ho, hc, h'⟩
  · obtain rfl : depth + 1 = d := Option.some.inj (h'.symm.trans h)
    show some (depth + more + 1) = some (depth + 1 + more)
    rw [Nat.add_right_comm]
  · exact nomatch h'.symm.trans h
  · obtain rfl : e = d := Option.some.inj (h'.symm.trans h)
    rw [Nat.add_right_comm]
    rfl
  · obtain rfl : depth = d := Option.some.inj (h'.symm.trans h)
    exact depthAfter_other ho hc (depth + more)

/-- **More scopes around a word** stay around it. -/
theorem scopesAfter_add {depth d : Nat} {w : Word} (h : scopesAfter depth w = some d) (more : Nat) :
    scopesAfter (depth + more) w = some (d + more) := by
  induction w generalizing depth with
  | nil =>
    obtain rfl := Option.some.inj h
    rfl
  | cons c w ih =>
    rw [scopesAfter_cons] at h ⊢
    obtain ⟨e, he, hrest⟩ := Option.bind_eq_some_iff.mp h
    rw [depthAfter_add he more]
    exact ih hrest

/-- A balanced word leaves every number of scopes as it is. -/
theorem scopesAfter_of_balanced {w : Word} (h : scopeDepth w = .ok 0) (depth : Nat) :
    scopesAfter depth w = some depth := by
  have hmore := scopesAfter_add ((scopeDepth_eq_ok_iff_scopesAfter w 0).mp h) depth
  rw [Nat.zero_add] at hmore
  exact hmore

/-! ## Failures of a drawing -/

/-- The errors about a closing bracket without a partner. -/
inductive Error.OfScopes : Error → Prop where
  | unmatchedClose (position : Nat) : OfScopes (.unmatchedClose position)
  | noOpenScope : OfScopes .noOpenScope

/-- The computation does not fail for want of an open scope. -/
def ScopeFree {α : Type} (r : Except Error α) : Prop :=
  ∀ cause, r = .error cause → ¬ cause.OfScopes

namespace ScopeFree

variable {α β : Type}

theorem ok (a : α) : ScopeFree (.ok a) :=
  fun _ h => nomatch h

theorem error {cause : Error} (h : ¬ cause.OfScopes) : ScopeFree (.error cause : Except Error α) := by
  intro cause' hcause
  obtain rfl := Except.error.inj hcause
  exact h

theorem bind {r : Except Error α} {f : α → Except Error β} (hr : ScopeFree r)
    (hf : ∀ a, ScopeFree (f a)) : ScopeFree (r >>= f) := by
  cases r with
  | error cause => exact error (hr cause rfl)
  | ok a => exact hf a

theorem map {r : Except Error α} (hr : ScopeFree r) (f : α → β) : ScopeFree (f <$> r) := by
  cases r with
  | error cause => exact error (hr cause rfl)
  | ok a => exact ok (f a)

end ScopeFree

theorem Value.unnested_scopeFree (v : Value) : ScopeFree v.unnested := by
  unfold unnested
  cases v.shape.fault? with
  | some fault => exact .error fun h => nomatch h
  | none => exact .ok _

namespace Coordinate

theorem numberOf_scopeFree (v : Value) : ScopeFree (numberOf v) := by
  unfold numberOf
  cases v.countedNumber? with
  | none => exact .error fun h => nomatch h
  | some a =>
    dsimp only
    split
    · exact .error fun h => nomatch h
    · exact .ok a

theorem changed_scopeFree (f : Float → Float → Float) (c : Coordinate) (q : Quantity) :
    ScopeFree (c.changed f q) := by
  unfold changed
  refine ScopeFree.map ?_ _
  cases c with
  | computed p => exact .ok p
  | given v =>
    refine ScopeFree.bind v.unnested_scopeFree ?_
    rintro ⟨elements, nesting⟩
    split
    · exact (numberOf_scopeFree _).map _
    · exact (numberOf_scopeFree _).map _
    · exact .error fun h => nomatch h

theorem apply_scopeFree (f : Float → Float) (c : Coordinate) : ScopeFree (c.apply f) := by
  cases c with
  | computed q => exact .ok _
  | given v =>
    refine ScopeFree.bind v.unnested_scopeFree ?_
    rintro ⟨elements, nesting⟩
    split
    · split
      · exact .ok _
      · exact .error fun h => nomatch h
    · exact .error fun h => nomatch h

end Coordinate

namespace Motion

theorem ahead_scopeFree (m : Motion) (p : Pose) : ScopeFree (m.ahead p) :=
  (p.heading.apply_scopeFree _).bind fun _ => (p.x.changed_scopeFree _ _).bind fun _ =>
    (p.heading.apply_scopeFree _).bind fun _ => (p.y.changed_scopeFree _ _).bind fun _ => .ok _

theorem turned_scopeFree (m : Motion) (f : Float → Float → Float) (p : Pose) :
    ScopeFree (m.turned f p) :=
  (p.heading.changed_scopeFree f m.turn).bind fun _ => .ok _

end Motion

theorem Value.onlyNumber_scopeFree (v : Value) : ScopeFree v.onlyNumber := by
  refine ScopeFree.bind v.unnested_scopeFree ?_
  rintro ⟨elements, nesting⟩
  dsimp only
  split
  · exact .error fun h => nomatch h
  · exact .error fun h => nomatch h
  · exact .ok _
  · exact .error fun h => nomatch h

/-- The checks of the parameters know nothing of scopes. -/
theorem Motion.ofValues_scopeFree (angle step : Value) : ScopeFree (ofValues angle step) := by
  have hstep : ScopeFree (stepOf step) := by
    refine ScopeFree.bind step.onlyNumber_scopeFree ?_
    rintro ⟨e, a, nesting⟩
    dsimp only
    split
    · exact .error fun h => nomatch h
    · split
      · exact .ok a
      · exact .error fun h => nomatch h
  have hturn : ScopeFree (turnOf angle) := by
    refine ScopeFree.bind angle.onlyNumber_scopeFree ?_
    rintro ⟨e, a, nesting⟩
    dsimp only
    split
    · exact .ok _
    · exact .error fun h => nomatch h
  exact hstep.bind fun _ => hturn.bind fun _ => .ok _

theorem Start.toPose_scopeFree (start : Start) : ScopeFree start.toPose := by
  cases start with
  | pose p => exact .ok p
  | value v =>
    show ScopeFree (Pose.ofValue v)
    unfold Pose.ofValue
    split
    · exact .ok _
    · exact .ok _
    · exact .error fun h => nomatch h

namespace Turtle

/-- One command, for any poses: the stack follows the scopes, and as long as there is an open scope
    for it the turtle does not fail for want of one. -/
theorem obey_scopes (m : Motion) (t : Turtle) (c : Command) :
    (∀ t', t.obey m c = .ok t' → c.depthAfter t.depth = some t'.depth) ∧
      (c.depthAfter t.depth ≠ none → ScopeFree (t.obey m c)) := by
  -- a command that asks for a new pose keeps the stack, and fails with what that fails with
  have hmove : ∀ (r : Except Error Pose) (f : Pose → Turtle), ScopeFree r →
      (∀ p, (f p).saved = t.saved) →
      (∀ t', (r >>= fun p => pure (f p)) = .ok t' → some t.depth = some t'.depth) ∧
        (some t.depth ≠ none → ScopeFree (r >>= fun p => pure (f p))) := by
    intro r f hr hf
    refine ⟨?_, fun _ => hr.bind fun p => .ok (f p)⟩
    intro t' h
    obtain ⟨p, -, h⟩ := bind_ok h
    obtain rfl := Except.ok.inj h
    exact congrArg (fun saved => some saved.length) (hf p).symm
  cases c with
  | draw => exact hmove _ _ (m.ahead_scopeFree t.pose) fun _ => rfl
  | move => exact hmove _ _ (m.ahead_scopeFree t.pose) fun _ => rfl
  | turnBack => exact hmove _ _ (m.turned_scopeFree _ t.pose) fun _ => rfl
  | turn => exact hmove _ _ (m.turned_scopeFree _ t.pose) fun _ => rfl
  | save =>
    refine ⟨?_, fun _ => .ok _⟩
    intro t' h
    obtain rfl := Except.ok.inj h
    rfl
  | restore =>
    obtain ⟨pose, saved, segments⟩ := t
    cases saved with
    | nil => exact ⟨fun _ h => (nomatch h), fun h => absurd rfl h⟩
    | cons p saved =>
      refine ⟨?_, fun _ => .ok _⟩
      intro t' h
      obtain rfl := Except.ok.inj h
      rfl
  | ignore =>
    refine ⟨?_, fun _ => .ok _⟩
    intro t' h
    obtain rfl := Except.ok.inj h
    rfl

/-- **A word that closes no scope too many** is not given up for want of a saved pose.  Induction
    over the word; as long as the turtle obeys, it has as many poses saved as scopes are open. -/
theorem run_scopeFree {m : Motion} {t : Turtle} {w : Word} {d : Nat}
    (h : scopesAfter t.depth w = some d) : ScopeFree (t.run m w) := by
  induction w generalizing t with
  | nil => exact .ok t
  | cons c w ih =>
    rw [scopesAfter_cons] at h
    obtain ⟨e, he, hrest⟩ := Option.bind_eq_some_iff.mp h
    obtain ⟨hok, hfree⟩ := obey_scopes m t (.ofSymbol c)
    rw [run_cons]
    cases hobey : t.obey m (.ofSymbol c) with
    | error cause =>
      have hsome : (Command.ofSymbol c).depthAfter t.depth ≠ none := fun hnone =>
        nomatch he.symm.trans hnone
      exact .error (hfree hsome cause hobey)
    | ok t' =>
      obtain rfl := Option.some.inj (he.symm.trans (hok t' hobey))
      exact ih hrest

end Turtle

/-- **An accepted word is never refused for its scopes**, whatever the parameters and the start. -/
theorem draw_of_accepted {w : Word} (h : Accepted w) (angle step : Value) (start : Start) :
    ScopeFree (draw w angle step start) := by
  obtain ⟨d, hd⟩ := (accepted_iff_scopesAfter w).mp h
  refine (Motion.ofValues_scopeFree angle step).bind fun m =>
    start.toPose_scopeFree.bind fun p => ScopeFree.bind ?_ fun t => ?_
  · exact Turtle.run_scopeFree (t := .start p) hd
  · split
    · exact .error fun h => nomatch h
    · exact .ok t

end Lindenmayer
