/-
  The count of scopes and the drawing of a word agree.

  `scopeDepth` and `draw` are written apart: the one counts, the other keeps a stack of poses.  They
  refuse the same words, at the same symbol, and where they do not refuse a word they find the same
  number of open scopes.  Both are described by the brackets alone: a word is refused if one of its
  prefixes closes more scopes than it opens, and the shortest such prefix ends at the position that
  the count names.

  The angle is a number (`Value.IsNumber`).  The checks also let through a number in a list, with which
  some coordinates come to be nested in lists and others do not, so that there may be no block of
  segments to hand out.  What is left of the agreement then is `read_cases` and `draw_of_read`, which
  hold of every angle that passes the checks.
-/
import Lindenmayer.Proofs.Turtle.Readiness

namespace Lindenmayer

/-! ## Parameters of a drawing -/

/-- The start is absent, three doubles, or a pose that a drawing without lists ended in. -/
inductive Start.OfFloats : Start → Prop where
  | absent : OfFloats (.value .null)
  | given {v : Value} {x y heading : Float}
      (h : v.members? = some [.float x, .float y, .float heading]) : OfFloats (.value v)
  | pose {p : Pose} (hready : p.Ready) (hflat : p.Flat) : OfFloats (.pose p)

theorem Start.OfFloats.toPose {start : Start} (h : start.OfFloats) :
    ∃ p, start.toPose = .ok p ∧ p.Ready ∧ p.Flat := by
  cases h with
  | absent => exact ⟨_, rfl, Pose.ready_ofFloats .., Pose.flat_ofFloats ..⟩
  | @given v x y heading h =>
    refine ⟨.ofFloats x y heading, ?_, Pose.ready_ofFloats .., Pose.flat_ofFloats ..⟩
    show Pose.ofValue v = _
    unfold Pose.ofValue
    rw [h]
    cases v with
    | null => nomatch h
    | _ => rfl
  | @pose p hready hflat => exact ⟨p, rfl, hready, hflat⟩

/-- The value is a number: a truth value, a whole number or a float. -/
inductive Value.IsNumber : Value → Prop where
  | bool (b : Bool) : IsNumber (.bool b)
  | int (n : Int) : IsNumber (.int n)
  | float (x : Float) : IsNumber (.float x)

/-- The value is a list or a tuple. -/
def Value.IsNested (v : Value) : Prop :=
  ∃ items, v = .list items ∨ v = .tuple items

theorem Value.IsNumber.not_nested {v : Value} (h : v.IsNumber) : ¬ v.IsNested := by
  rintro ⟨items, rfl | rfl⟩
  · nomatch h
  · nomatch h

/-- The elements of a value are nested as deep as the value is. -/
theorem Value.unnested_nesting {v : Value} {elements : List Value} {nesting : Nat}
    (h : v.unnested = .ok (elements, nesting)) : nesting = v.shape.lengths.length := by
  rw [unnested] at h
  cases hfault : v.shape.fault? with
  | some fault => rw [hfault] at h; nomatch h
  | none =>
    rw [hfault] at h
    exact (congrArg Prod.snd (Except.ok.inj h)).symm

/-- The only number of a value is nested as deep as the value is. -/
theorem Value.onlyNumber_nesting {v e : Value} {a : Number} {nesting : Nat}
    (h : v.onlyNumber = .ok (e, a, nesting)) : nesting = v.shape.lengths.length := by
  obtain ⟨⟨elements, n⟩, hun, h⟩ := bind_ok h
  have hn := unnested_nesting hun
  dsimp only at h
  split at h
  · nomatch h
  · nomatch h
  · have hsnd := congrArg (fun r => r.2.2) (Except.ok.inj h)
    exact hsnd.symm.trans hn
  · nomatch h

/-- The turn is read from the angle alone. -/
theorem Motion.turn_of_ofValues {angle step : Value} {m : Motion}
    (h : Motion.ofValues angle step = .ok m) : Motion.turnOf angle = .ok m.turn := by
  obtain ⟨a, -, h⟩ := bind_ok h
  obtain ⟨turn, hturn, h⟩ := bind_ok h
  obtain rfl := Except.ok.inj h
  exact hturn

/-- A turn is nested as deep as the angle it was read from. -/
theorem Motion.turn_nesting {angle step : Value} {m : Motion}
    (h : Motion.ofValues angle step = .ok m) : m.turn.nesting = angle.shape.lengths.length := by
  obtain ⟨⟨e, b, nesting⟩, hone, hturn⟩ := bind_ok (Motion.turn_of_ofValues h)
  have hnesting := Value.onlyNumber_nesting hone
  dsimp only at hturn
  split at hturn
  · rw [← Except.ok.inj hturn]
    exact hnesting
  · nomatch hturn

/-- A turn that is read from an angle outside lists is nested in none. -/
theorem Motion.turn_nesting_eq_zero {angle step : Value} {m : Motion}
    (h : Motion.ofValues angle step = .ok m) (hangle : ¬ angle.IsNested) : m.turn.nesting = 0 := by
  rw [turn_nesting h]
  cases angle with
  | list items => exact absurd ⟨items, Or.inl rfl⟩ hangle
  | tuple items => exact absurd ⟨items, Or.inr rfl⟩ hangle
  | _ => rfl

/-! ## The drawing -/

variable {angle step : Value} {start : Start} {m : Motion} {p : Pose}

/-- With its parameters read, a drawing is the turtle's reading and then the block of segments. -/
theorem draw_eq (hm : Motion.ofValues angle step = .ok m) (hp : start.toPose = .ok p) (w : Word) :
    draw w angle step start = (Turtle.start p).run m w >>= fun t =>
      match t.shape.fault? with
      | some fault => .error (.malformedList fault)
      | none => .ok t := by
  unfold draw
  rw [hm, hp]
  rfl

/-- A reading that ended well leaves only the block of segments to be looked at. -/
theorem draw_of_run (hm : Motion.ofValues angle step = .ok m) (hp : start.toPose = .ok p)
    {w : Word} {t : Turtle} (hrun : (Turtle.start p).run m w = .ok t) :
    draw w angle step start = match t.shape.fault? with
      | some fault => .error (.malformedList fault)
      | none => .ok t := by
  rw [draw_eq hm hp, hrun]
  rfl

/-- Segments that make a block are handed out. -/
theorem draw_of_even (hm : Motion.ofValues angle step = .ok m) (hp : start.toPose = .ok p)
    {w : Word} {t : Turtle} (hrun : (Turtle.start p).run m w = .ok t) (heven : t.Even) :
    draw w angle step start = .ok t := by
  rw [draw_of_run hm hp hrun, t.shape_fault?_eq_none_iff.mpr heven]

/-- Segments that make no block are refused. -/
theorem draw_of_not_even (hm : Motion.ofValues angle step = .ok m) (hp : start.toPose = .ok p)
    {w : Word} {t : Turtle} (hrun : (Turtle.start p).run m w = .ok t) (heven : ¬ t.Even) :
    ∃ fault, draw w angle step start = .error (.malformedList fault) := by
  rw [draw_of_run hm hp hrun]
  cases hfault : t.shape.fault? with
  | some fault => exact ⟨fault, rfl⟩
  | none => exact absurd (t.shape_fault?_eq_none_iff.mp hfault) heven

/-- A drawing comes from a reading that ended well, with segments that make a block. -/
theorem run_of_draw (hm : Motion.ofValues angle step = .ok m) (hp : start.toPose = .ok p)
    {w : Word} {t : Turtle} (h : draw w angle step start = .ok t) :
    (Turtle.start p).run m w = .ok t ∧ t.Even := by
  rw [draw_eq hm hp] at h
  obtain ⟨t', hrun, h⟩ := bind_ok h
  cases hfault : t'.shape.fault? with
  | some fault => rw [hfault] at h; nomatch h
  | none =>
    rw [hfault] at h
    obtain rfl := Except.ok.inj h
    exact ⟨hrun, t'.shape_fault?_eq_none_iff.mp hfault⟩

/-- Beginnings of a word that is drawn are drawn. -/
theorem draw_ok_of_append (hm : Motion.ofValues angle step = .ok m) (hp : start.toPose = .ok p)
    {u v : Word} {t' : Turtle} (h : draw (u ++ v) angle step start = .ok t') :
    ∃ t, draw u angle step start = .ok t := by
  obtain ⟨hrun, heven⟩ := run_of_draw hm hp h
  rw [Turtle.run_append] at hrun
  obtain ⟨t, hu, hv⟩ := bind_ok hrun
  have hsegments := (Turtle.run_segments hv).subset
  exact ⟨t, draw_of_even hm hp hu (Turtle.even_of_segments hsegments heven)⟩

/-- A drawing is refused for a closing bracket without a partner exactly if the reading is. -/
theorem draw_refused_iff (hm : Motion.ofValues angle step = .ok m) (hp : start.toPose = .ok p)
    {w : Word} : draw w angle step start = .error .noOpenScope ↔
      (Turtle.start p).run m w = .error .noOpenScope := by
  constructor
  · intro h
    cases hrun : (Turtle.start p).run m w with
    | error cause =>
      rw [draw_eq hm hp, hrun] at h
      exact h
    | ok t =>
      rw [draw_of_run hm hp hrun] at h
      split at h
      · nomatch h
      · nomatch h
  · intro hrun
    rw [draw_eq hm hp, hrun]
    rfl

/-- **Count and reading side by side**, for every angle that passes the checks: both refuse the word,
    or the turtle reads it to its end with as many scopes open as the count finds.  With an angle
    outside lists nothing of the turtle lies in one. -/
theorem read_cases (hm : Motion.ofValues angle step = .ok m) (hstart : start.OfFloats)
    (hp : start.toPose = .ok p) (w : Word) :
    (∃ i, scopeDepth w = .error (.unmatchedClose i) ∧
      (Turtle.start p).run m w = .error .noOpenScope) ∨
    ∃ t, scopeDepth w = .ok t.depth ∧ (Turtle.start p).run m w = .ok t ∧ t.Ready ∧
      (¬ angle.IsNested → t.Flat) := by
  obtain ⟨q, hq, hready, hflat⟩ := hstart.toPose
  obtain rfl := Except.ok.inj (hq.symm.trans hp)
  rcases Turtle.run_cases (Turtle.ready_start hready) m w 0 with
    ⟨i, hdepth, hrun⟩ | ⟨t, hdepth, hrun, ht, hflatt⟩
  · exact Or.inl ⟨i, hdepth, hrun⟩
  · exact Or.inr ⟨t, hdepth, hrun, ht, fun hangle =>
      hflatt (Motion.turn_nesting_eq_zero hm hangle) (Turtle.flat_start hflat)⟩

/-- A word that the turtle reads to its end is drawn, unless the angle is nested and the segments make
    no block. -/
theorem draw_of_read (hm : Motion.ofValues angle step = .ok m) (hstart : start.OfFloats)
    {p : Pose} (hp : start.toPose = .ok p) {w : Word} {t : Turtle}
    (hrun : (Turtle.start p).run m w = .ok t) :
    t.Even ∧ draw w angle step start = .ok t ∨
      ¬ t.Even ∧ angle.IsNested ∧ ∃ fault, draw w angle step start = .error (.malformedList fault) := by
  by_cases heven : t.Even
  · exact Or.inl ⟨heven, draw_of_even hm hp hrun heven⟩
  · refine Or.inr ⟨heven, ?_, draw_of_not_even hm hp hrun heven⟩
    rcases read_cases hm hstart hp w with ⟨i, -, hrefused⟩ | ⟨t', -, hrun', -, hflat⟩
    · exact nomatch hrun.symm.trans hrefused
    · obtain rfl := Except.ok.inj (hrun.symm.trans hrun')
      by_cases hangle : angle.IsNested
      · exact hangle
      · exact absurd (hflat hangle).even heven

/-! ## The drawing with a number as angle -/

/-- A word that the turtle reads to its end is drawn. -/
theorem draw_ok_of_read (hm : Motion.ofValues angle step = .ok m) (hangle : angle.IsNumber)
    (hstart : start.OfFloats) (hp : start.toPose = .ok p) {w : Word} {t : Turtle}
    (hrun : (Turtle.start p).run m w = .ok t) : draw w angle step start = .ok t := by
  rcases draw_of_read hm hstart hp hrun with ⟨-, hok⟩ | ⟨-, hnested, -⟩
  · exact hok
  · exact absurd hnested hangle.not_nested

/-- **Count and drawing side by side**: both refuse the word, or it is drawn with as many scopes open as
    the count finds. -/
theorem draw_cases (hm : Motion.ofValues angle step = .ok m) (hangle : angle.IsNumber)
    (hstart : start.OfFloats) (w : Word) :
    (∃ i, scopeDepth w = .error (.unmatchedClose i) ∧
      draw w angle step start = .error .noOpenScope) ∨
    ∃ t, scopeDepth w = .ok t.depth ∧ draw w angle step start = .ok t := by
  obtain ⟨p, hp, -⟩ := hstart.toPose
  rcases read_cases hm hstart hp w with ⟨i, hdepth, hrun⟩ | ⟨t, hdepth, hrun, -⟩
  · exact Or.inl ⟨i, hdepth, (draw_refused_iff hm hp).mpr hrun⟩
  · exact Or.inr ⟨t, hdepth, draw_ok_of_read hm hangle hstart hp hrun⟩

/-- A drawing can start where another one ended. -/
theorem Start.OfFloats.of_draw (hm : Motion.ofValues angle step = .ok m) (hangle : angle.IsNumber)
    (hstart : start.OfFloats) {w : Word} {t : Turtle} (h : draw w angle step start = .ok t) :
    Start.OfFloats (.pose t.pose) := by
  obtain ⟨p, hp, -⟩ := hstart.toPose
  have hrun := (run_of_draw hm hp h).1
  rcases read_cases hm hstart hp w with ⟨i, -, hrefused⟩ | ⟨t', -, hrun', hready, hflat⟩
  · exact nomatch hrun.symm.trans hrefused
  · obtain rfl := Except.ok.inj (hrun.symm.trans hrun')
    exact .pose hready.pose (hflat hangle.not_nested).pose

/-! ## Agreement -/

end Lindenmayer
