/-
  Branches: scopes that are closed again.

  A closed scope is a branch of the drawing.  Whatever happens in it, the turtle comes back to the
  pose that it left and to the poses that it had saved, so that the drawing goes on as if the branch
  had not been there; all that stays are the segments drawn in it, between those before and those
  after (`Turtle.scope_cases`).  Taking all branches out of a word, and the brackets of the scopes
  that stay open, leaves a word in which the turtle goes the same way to the same pose
  (`Turtle.run_pruned`).
-/
import Lindenmayer.Proofs.Turtle.Parts

namespace Lindenmayer

/-- A symbol that is no bracket saves no pose. -/
theorem ofSymbol_ne_save {c : Symbol} (hopen : c ≠ '[') (hclose : c ≠ ']') :
    Command.ofSymbol c ≠ .save := by
  intro h
  have hdepth := depthAfter_other hopen hclose 0
  rw [h] at hdepth
  nomatch hdepth

/-- A symbol that is no bracket goes back to no pose. -/
theorem ofSymbol_ne_restore {c : Symbol} (hopen : c ≠ '[') (hclose : c ≠ ']') :
    Command.ofSymbol c ≠ .restore := by
  intro h
  have hdepth := depthAfter_other hopen hclose 0
  rw [h] at hdepth
  nomatch hdepth

namespace Turtle

/-! ## One branch -/

/-- **A word with a branch and the same word without it** are both refused, or both are read to their
    ends.  Then the turtle is the same at both ends, but for the segments of the branch, which stand
    behind those that were drawn before it. -/
theorem scope_cases {p : Pose} (hp : p.Ready) (m : Motion) (u : Word) {v : Word}
    (hv : scopeDepth v = .ok 0) (w : Word) :
    ((start p).run m (u ++ w) = .error .noOpenScope ∧
      (start p).run m (u ++ '[' :: v ++ ']' :: w) = .error .noOpenScope) ∨
    ∃ first inner rest : Turtle, (start p).run m u = .ok first ∧
      (start first.pose).run m v = .ok inner ∧
      (start p).run m (u ++ w) = .ok (rest.behind first.segments) ∧
      (start p).run m (u ++ '[' :: v ++ ']' :: w) =
        .ok (rest.behind (first.segments ++ inner.segments)) := by
  have hstart := ready_start hp
  rw [List.append_assoc, run_append, run_append]
  rcases run_cases hstart m u 0 with ⟨i, -, herr⟩ | ⟨first, -, hu, hfirst, -⟩
  · rw [herr]
    exact Or.inl ⟨rfl, rfl⟩
  · obtain ⟨inner, hinner, hscope⟩ := run_scope hfirst m hv
    rw [hu]
    show (first.run m w = _ ∧ first.run m ('[' :: v ++ ']' :: w) = _) ∨ ∃ first' inner' rest : Turtle,
      Except.ok first = .ok first' ∧ _ ∧ first.run m w = _ ∧ first.run m ('[' :: v ++ ']' :: w) = _
    rw [hscope w]
    -- with and without the branch, the rest is read by the same turtle, behind different segments
    have hbare := run_behind m { first with segments := #[] } w first.segments
    have hwhole := run_behind m { first with segments := #[] } w (first.segments ++ inner.segments)
    rw [behind_segments] at hbare
    have hagain : ({ first with segments := #[] } : Turtle).behind (first.segments ++ inner.segments) =
        { first with segments := first.segments ++ inner.segments } := by
      show (⟨first.pose, first.saved, first.segments ++ inner.segments ++ #[]⟩ : Turtle) = _
      rw [Array.append_empty]
    rw [hagain] at hwhole
    have hclear : ({ first with segments := #[] } : Turtle).Ready := ⟨hfirst.pose, hfirst.saved⟩
    rcases run_cases hclear m w 0 with ⟨i, -, herr⟩ | ⟨rest, -, hrest, -, -⟩
    · rw [herr] at hbare hwhole
      exact Or.inl ⟨hbare, hwhole⟩
    · rw [hrest] at hbare hwhole
      exact Or.inr ⟨first, inner, rest, rfl, hinner, hbare, hwhole⟩

/-! ## All branches -/

/-- A turtle that was ready is ready after a command. -/
theorem Ready.obey {m : Motion} {t t' : Turtle} {c : Command} (h : t.Ready)
    (hobey : t.obey m c = .ok t') : t'.Ready := by
  rcases obey_cases h m c with ⟨-, herr⟩ | ⟨t₁, -, hok, hready, -⟩
  · exact nomatch herr.symm.trans hobey
  · obtain rfl := Except.ok.inj (hok.symm.trans hobey)
    exact hready

/-- **The pruned word leads to the same pose**, whatever is saved and whatever was drawn before.
    Induction along the pruning: a closed scope changes neither the pose nor what comes after it, and
    an opening bracket without a partner only saves a pose that is never used. -/
theorem run_pruned {m : Motion} {w v : Word} (h : Pruned w v) {t t' s : Turtle} (ht : t.Ready)
    (hrun : t.run m w = .ok t') (hpose : s.pose = t.pose) :
    ∃ s', s.run m v = .ok s' ∧ s'.pose = t'.pose := by
  induction h generalizing t s with
  | nil =>
    obtain rfl := Except.ok.inj hrun
    exact ⟨s, rfl, hpose⟩
  | @symbol c w v hopen hclose _ ih =>
    rw [run_cons] at hrun
    obtain ⟨t₁, hobey, hrun⟩ := bind_ok hrun
    obtain ⟨new, ht₁, hsame⟩ :=
      obey_of_pose (ofSymbol_ne_save hopen hclose) (ofSymbol_ne_restore hopen hclose) hobey
    rw [run_cons, hsame s hpose]
    refine ih (ht.obey hobey) hrun ?_
    rw [ht₁]
  | closed hinner _ ih =>
    obtain ⟨inner, -, hscope⟩ := run_scope ht m hinner
    rw [hscope] at hrun
    have hready : ({ t with segments := t.segments ++ inner.segments } : Turtle).Ready :=
      ⟨ht.pose, ht.saved⟩
    exact ih hready hrun hpose
  | unclosed _ _ ih =>
    rw [run_cons] at hrun
    obtain ⟨t₁, hobey, hrun⟩ := bind_ok hrun
    have ht₁ := ht.obey hobey
    obtain rfl := Except.ok.inj hobey
    exact ih ht₁ hrun hpose

end Turtle

/-! ## The drawing -/

variable {angle step : Value} {start : Start} {m : Motion}

/-- A word with a branch and the word without it are both refused, or both are drawn, and then alike
    but for the segments of the branch, drawn from the pose that it was put at. -/
theorem draw_scope_cases (hm : Motion.ofValues angle step = .ok m) (hangle : angle.IsNumber)
    (hstart : start.OfFloats) (u : Word) {v : Word} (hv : scopeDepth v = .ok 0) (w : Word) :
    (draw (u ++ w) angle step start = .error .noOpenScope ∧
      draw (u ++ '[' :: v ++ ']' :: w) angle step start = .error .noOpenScope) ∨
    ∃ first inner rest : Turtle, draw u angle step start = .ok first ∧
      draw v angle step (.pose first.pose) = .ok inner ∧
      draw (u ++ w) angle step start = .ok (rest.behind first.segments) ∧
      draw (u ++ '[' :: v ++ ']' :: w) angle step start =
        .ok (rest.behind (first.segments ++ inner.segments)) := by
  obtain ⟨p, hp, hready, -⟩ := hstart.toPose
  rcases Turtle.scope_cases hready m u hv w with
    ⟨hbare, hwhole⟩ | ⟨first, inner, rest, hu, hinner, hbare, hwhole⟩
  · exact Or.inl ⟨(draw_refused_iff hm hp).mpr hbare, (draw_refused_iff hm hp).mpr hwhole⟩
  · have hfirst := draw_ok_of_read hm hangle hstart hp hu
    have hagain := hstart.of_draw hm hangle hfirst
    exact Or.inr ⟨first, inner, rest, hfirst, draw_ok_of_read hm hangle hagain rfl hinner,
      draw_ok_of_read hm hangle hstart hp hbare, draw_ok_of_read hm hangle hstart hp hwhole⟩

/-- A word that is accepted is drawn, and so is the pruned word, to the same pose. -/
theorem draw_pruned (hm : Motion.ofValues angle step = .ok m) (hangle : angle.IsNumber)
    (hstart : start.OfFloats) {w v : Word} (h : Pruned w v) {d : Nat} (hd : scopeDepth w = .ok d) :
    ∃ t t', draw w angle step start = .ok t ∧ draw v angle step start = .ok t' ∧
      t'.pose = t.pose := by
  obtain ⟨p, hp, hready, -⟩ := hstart.toPose
  rcases draw_cases hm hangle hstart w with ⟨i, hi, -⟩ | ⟨t, -, hw⟩
  · exact nomatch hi.symm.trans hd
  · have hrun := (run_of_draw hm hp hw).1
    obtain ⟨t', hrun', hpose⟩ := Turtle.run_pruned h (Turtle.ready_start hready) hrun rfl
    exact ⟨t, t', hw, draw_ok_of_read hm hangle hstart hp hrun', hpose⟩

/-- **A closed scope leaves no trace but its own segments.**  With a balanced word put into brackets
    somewhere in a word, there is a drawing exactly if there is one without it, and one is refused for
    a closing bracket without a partner exactly if the other is.  The drawing ends with the same pose
    and the same saved poses, and its segments are those of the beginning, those of the scope drawn
    from where the beginning ended, and the others unchanged.  So an accepted word ends in the same
    pose as the word that is left when all its closed scopes and the opening brackets of the others
    are taken out. -/
theorem draw_scopes (hm : Motion.ofValues angle step = .ok m) (hangle : angle.IsNumber)
    (hstart : start.OfFloats) :
    (∀ u v w : Word, scopeDepth v = .ok 0 →
      ((∃ whole, draw (u ++ '[' :: v ++ ']' :: w) angle step start = .ok whole) ↔
        ∃ bare, draw (u ++ w) angle step start = .ok bare) ∧
      (draw (u ++ '[' :: v ++ ']' :: w) angle step start = .error .noOpenScope ↔
        draw (u ++ w) angle step start = .error .noOpenScope) ∧
      ∀ bare, draw (u ++ w) angle step start = .ok bare →
        ∃ first inner rest, draw u angle step start = .ok first ∧
          draw v angle step (.pose first.pose) = .ok inner ∧
          bare.segments = first.segments ++ rest ∧
          draw (u ++ '[' :: v ++ ']' :: w) angle step start =
            .ok { bare with segments := first.segments ++ inner.segments ++ rest }) ∧
    ∀ w d, scopeDepth w = .ok d →
      ∃ v, Pruned w v ∧ (∀ v', Pruned w v' → v' = v) ∧ '[' ∉ v ∧ ']' ∉ v ∧
        ∃ t t', draw w angle step start = .ok t ∧ draw v angle step start = .ok t' ∧
          t'.pose = t.pose := by
  constructor
  · intro u v w hv
    rcases draw_scope_cases hm hangle hstart u hv w with
      ⟨hbare, hwhole⟩ | ⟨first, inner, rest, hu, hinner, hbare, hwhole⟩
    · -- neither word is drawn
      rw [hbare, hwhole]
      exact ⟨iff_of_false (fun ⟨_, h⟩ => nomatch h) (fun ⟨_, h⟩ => nomatch h), Iff.rfl,
        fun _ h => nomatch h⟩
    · rw [hbare, hwhole]
      refine ⟨iff_of_true ⟨_, rfl⟩ ⟨_, rfl⟩,
        iff_of_false (fun h => nomatch h) (fun h => nomatch h), ?_⟩
      intro bare hok
      obtain rfl := Except.ok.inj hok
      exact ⟨first, inner, rest.segments, hu, hinner, rfl, rfl⟩
  · intro w d hd
    obtain ⟨v, hv⟩ := Accepted.exists_pruned ⟨d, hd⟩
    exact ⟨v, hv, fun v' hv' => hv'.unique hv, hv.no_brackets.1, hv.no_brackets.2,
      draw_pruned hm hangle hstart hv hd⟩

/-- A branch with a branch in it, put into a scope that the rest of the word closes. -/
theorem draw_scopes_nested :
    (∃ m, Motion.ofValues (.int 90) (.int 10) = .ok m) ∧ (Value.int 90).IsNumber ∧
    Start.OfFloats (.value .null) ∧ scopeDepth ['[', '+', 'F', ']', '-'] = .ok 0 ∧
    ∃ bare whole, draw ['F', '[', 'f', ']', 'F'] (.int 90) (.int 10) (.value .null) = .ok bare ∧
      draw ['F', '[', '[', '[', '+', 'F', ']', '-', ']', 'f', ']', 'F'] (.int 90) (.int 10)
        (.value .null) = .ok whole ∧ whole.pose = bare.pose ∧ whole.depth = bare.depth := by
  obtain ⟨m, hm⟩ : ∃ m, Motion.ofValues (.int 90) (.int 10) = .ok m := ⟨_, rfl⟩
  obtain ⟨bare, hbare⟩ : ∃ bare, draw (['F', '['] ++ ['f', ']', 'F']) (.int 90) (.int 10)
      (.value .null) = .ok bare := ⟨_, rfl⟩
  refine ⟨⟨m, hm⟩, .int 90, .absent, rfl, bare, ?_⟩
  obtain ⟨-, -, hdraw⟩ := (draw_scopes hm (.int 90) .absent).1 ['F', '['] ['[', '+', 'F', ']', '-']
    ['f', ']', 'F'] rfl
  obtain ⟨first, inner, rest, -, -, -, hwhole⟩ := hdraw bare hbare
  exact ⟨_, hbare, hwhole, rfl, rfl⟩

end Lindenmayer
