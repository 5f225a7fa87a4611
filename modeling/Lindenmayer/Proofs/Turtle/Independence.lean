/-
  Independence: which quantities of the turtle depend on which.

  The heading depends on the turns alone, and each coordinate of the place on the heading, the step
  and itself.  So of two turtles that read the same word and turn by the same angle, from the same
  heading,

  * the headings are the same all the way, and with them the scopes and the number of segments,
    however far the two step and wherever they start;
  * if they also step equally far and start with the same coordinate along one AXIS, that coordinate
    is the same all the way, in every segment and in every pose, whatever the other coordinate is.

  Both are one statement about two turtles that AGREE on a set of axes, none of them or one.
  Agreement takes in the poses that both have saved, since a closing bracket brings these back, and
  how deep the coordinates are nested, since this decides whether the segments make a block.  A
  command that both can obey keeps it (`Turtle.Agree.obey`), and so does a word (`Turtle.Agree.run`);
  that they are refused together is known from the count of scopes.

  Of the cosine and the sine nothing is used but that they are functions.  Headings and coordinates are
  the same here as coordinates: a double that was given and one that was computed are not, since a turn
  by an angle of half precision tells them apart.
-/
import Mathlib.Data.List.Forall2
import Lindenmayer.Proofs.Turtle.Parts

namespace Lindenmayer

/-! ## Axes -/

/-- One of the two directions in which places have coordinates. -/
inductive Axis where
  | x
  | y

/-- The share of a step along an axis, as a function of the heading. -/
def Axis.share : Axis → Float → Float
  | x => Float.cos
  | y => Float.sin

/-- The coordinate of a place along an axis. -/
def Point.along (p : Point) : Axis → Coordinate
  | .x => p.x
  | .y => p.y

/-- The coordinates of both ends of a segment along an axis. -/
def Segment.along (s : Segment) (axis : Axis) : Coordinate × Coordinate :=
  (s.start.along axis, s.stop.along axis)

namespace Coordinate

/-- A coordinate does not leave its lists to be computed with. -/
theorem nesting_of_beside {c : Coordinate} {q a : Quantity} (h : c.beside q = .ok a) :
    a.nesting = c.nesting := by
  cases c with
  | given v =>
    obtain ⟨⟨elements, nesting⟩, hun, h⟩ := bind_ok h
    have hnesting := Value.unnested_nesting hun
    show a.nesting = v.shape.lengths.length
    split at h
    · rename_i heq
      obtain ⟨b, -, rfl⟩ := map_ok h
      exact (congrArg Prod.snd heq).symm.trans hnesting
    · rename_i heq
      obtain ⟨b, -, rfl⟩ := map_ok h
      exact (congrArg Prod.snd heq).symm.trans hnesting
    · nomatch h
  | computed p =>
    obtain rfl := Except.ok.inj h
    rfl

/-- What a quantity makes of a coordinate is nested as deep as the deeper of the two. -/
theorem nesting_of_changed {c d : Coordinate} {f : Float → Float → Float} {q : Quantity}
    (h : c.changed f q = .ok d) : d.nesting = max c.nesting q.nesting := by
  obtain ⟨a, hbeside, rfl⟩ := map_ok h
  show max a.nesting q.nesting = max c.nesting q.nesting
  rw [nesting_of_beside hbeside]

end Coordinate

namespace Motion

/-- The stride depends on nothing of the motion but how far its step is. -/
theorem stride_congr {m m' : Motion} (h : m.step.toFloat = m'.step.toFloat) (share : Quantity) :
    m.stride share = m'.stride share := by
  unfold stride Quantity.ofNumber
  rw [h]

/-- A move keeps the heading, and changes the coordinate along each axis by the share of that axis in
    the step. -/
theorem ahead_eq_ok {m : Motion} {p p' : Pose} (h : m.ahead p = .ok p') :
    p'.heading = p.heading ∧ ∀ axis, ∃ share, p.heading.apply axis.share = .ok share ∧
      (p.point.along axis).changed (· + ·) (m.stride share) = .ok (p'.point.along axis) := by
  obtain ⟨cosine, hcos, h⟩ := bind_ok h
  obtain ⟨x, hx, h⟩ := bind_ok h
  obtain ⟨sine, hsin, h⟩ := bind_ok h
  obtain ⟨y, hy, h⟩ := bind_ok h
  obtain rfl := Except.ok.inj h
  refine ⟨rfl, ?_⟩
  intro axis
  cases axis with
  | x => exact ⟨cosine, hcos, hx⟩
  | y => exact ⟨sine, hsin, hy⟩

/-- A turn keeps the place. -/
theorem turned_eq_ok {m : Motion} {change : Float → Float → Float} {p p' : Pose}
    (h : m.turned change p = .ok p') :
    p'.point = p.point ∧ p.heading.changed change m.turn = .ok p'.heading := by
  obtain ⟨heading, hheading, h⟩ := bind_ok h
  obtain rfl := Except.ok.inj h
  exact ⟨rfl, hheading⟩

end Motion

/-! ## Agreement -/

/-- Both motions turn alike, and step equally far if they are to agree along any axis. -/
structure Motion.Agree (axes : Set Axis) (m m' : Motion) : Prop where
  turn : m.turn = m'.turn
  step : axes.Nonempty → m.step.toFloat = m'.step.toFloat

/-- The places have the same coordinates along some axes, and coordinates equally deep along all. -/
structure Point.Agree (axes : Set Axis) (a b : Point) : Prop where
  along : ∀ axis ∈ axes, a.along axis = b.along axis
  nesting : ∀ axis, (a.along axis).nesting = (b.along axis).nesting

/-- The poses have the same heading, at places that agree. -/
structure Pose.Agree (axes : Set Axis) (p q : Pose) : Prop where
  heading : p.heading = q.heading
  point : p.point.Agree axes q.point

/-- The segments begin at places that agree, and end at such. -/
structure Segment.Agree (axes : Set Axis) (s s' : Segment) : Prop where
  start : s.start.Agree axes s'.start
  stop : s.stop.Agree axes s'.stop

/-- The turtles stand in poses that agree, and so do, one by one, the poses that they have saved and the
    segments that they have drawn. -/
structure Turtle.Agree (axes : Set Axis) (t t' : Turtle) : Prop where
  pose : t.pose.Agree axes t'.pose
  saved : List.Forall₂ (Pose.Agree axes) t.saved t'.saved
  segments : List.Forall₂ (Segment.Agree axes) t.segments.toList t'.segments.toList

section

variable {axes : Set Axis} {m m' : Motion}

/-- One step ahead from poses that agree leads to poses that agree: the shares are the same, and where
    a coordinate has to be, so is the stride. -/
theorem Pose.Agree.ahead (hm : m.Agree axes m') {p q p' q' : Pose} (h : p.Agree axes q)
    (hp : m.ahead p = .ok p') (hq : m'.ahead q = .ok q') : p'.Agree axes q' := by
  obtain ⟨hheadp, halongp⟩ := Motion.ahead_eq_ok hp
  obtain ⟨hheadq, halongq⟩ := Motion.ahead_eq_ok hq
  refine ⟨?_, ?_, ?_⟩
  · rw [hheadp, hheadq, h.heading]
  · intro axis haxis
    obtain ⟨share, hshare, hchanged⟩ := halongp axis
    obtain ⟨share', hshare', hchanged'⟩ := halongq axis
    rw [← h.heading] at hshare'
    obtain rfl := Except.ok.inj (hshare.symm.trans hshare')
    rw [← h.point.along axis haxis, ← Motion.stride_congr (hm.step ⟨axis, haxis⟩)] at hchanged'
    exact Except.ok.inj (hchanged.symm.trans hchanged')
  · intro axis
    obtain ⟨share, hshare, hchanged⟩ := halongp axis
    obtain ⟨share', hshare', hchanged'⟩ := halongq axis
    rw [← h.heading] at hshare'
    obtain rfl := Except.ok.inj (hshare.symm.trans hshare')
    -- how deep a stride is nested does not depend on how far it goes
    have hstride : (m.stride share).nesting = (m'.stride share).nesting := rfl
    rw [Coordinate.nesting_of_changed hchanged, Coordinate.nesting_of_changed hchanged',
      h.point.nesting axis, hstride]

/-- The same turn from poses that agree leads to poses that agree. -/
theorem Pose.Agree.turned (hm : m.Agree axes m') {change : Float → Float → Float} {p q p' q' : Pose}
    (h : p.Agree axes q) (hp : m.turned change p = .ok p') (hq : m'.turned change q = .ok q') :
    p'.Agree axes q' := by
  obtain ⟨hpointp, hheadp⟩ := Motion.turned_eq_ok hp
  obtain ⟨hpointq, hheadq⟩ := Motion.turned_eq_ok hq
  rw [← h.heading, ← hm.turn] at hheadq
  refine ⟨Except.ok.inj (hheadp.symm.trans hheadq), ?_⟩
  rw [hpointp, hpointq]
  exact h.point

namespace Turtle

/-- Commands that only move the turtles keep their agreement if the new poses agree. -/
theorem Agree.moved {t t' s s' : Turtle} (h : t.Agree axes t') {r r' : Except Error Pose}
    (hpose : ∀ {p p'}, r = .ok p → r' = .ok p' → p.Agree axes p')
    (hs : (r >>= fun pose => pure { t with pose }) = .ok s)
    (hs' : (r' >>= fun pose => pure { t' with pose }) = .ok s') : s.Agree axes s' := by
  obtain ⟨p, hp, hs⟩ := bind_ok hs
  obtain ⟨p', hp', hs'⟩ := bind_ok hs'
  obtain rfl := Except.ok.inj hs
  obtain rfl := Except.ok.inj hs'
  exact ⟨hpose hp hp', h.saved, h.segments⟩

/-- **One command** that both turtles can obey keeps their agreement. -/
theorem Agree.obey (hm : m.Agree axes m') {t t' s s' : Turtle} {c : Command} (h : t.Agree axes t')
    (hs : t.obey m c = .ok s) (hs' : t'.obey m' c = .ok s') : s.Agree axes s' := by
  cases c with
  | draw =>
    obtain ⟨p, hp, hs⟩ := bind_ok hs
    obtain ⟨p', hp', hs'⟩ := bind_ok hs'
    obtain rfl := Except.ok.inj hs
    obtain rfl := Except.ok.inj hs'
    have hpose := h.pose.ahead hm hp hp'
    refine ⟨hpose, h.saved, ?_⟩
    show List.Forall₂ _ (t.segments.push _).toList (t'.segments.push _).toList
    rw [Array.toList_push, Array.toList_push]
    exact List.rel_append h.segments (.cons ⟨h.pose.point, hpose.point⟩ .nil)
  | move => exact h.moved (h.pose.ahead hm) hs hs'
  | turnBack => exact h.moved (h.pose.turned hm) hs hs'
  | turn => exact h.moved (h.pose.turned hm) hs hs'
  | save =>
    obtain rfl := Except.ok.inj hs
    obtain rfl := Except.ok.inj hs'
    exact ⟨h.pose, .cons h.pose h.saved, h.segments⟩
  | restore =>
    -- both stacks are as high, and the poses on top of them agree
    obtain ⟨pose, saved, segments⟩ := t
    obtain ⟨pose', saved', segments'⟩ := t'
    cases h.saved with
    | nil => nomatch hs
    | cons hpose hsaved =>
      obtain rfl := Except.ok.inj hs
      obtain rfl := Except.ok.inj hs'
      exact ⟨hpose, hsaved, h.segments⟩
  | ignore =>
    obtain rfl := Except.ok.inj hs
    obtain rfl := Except.ok.inj hs'
    exact h

/-- **A word** that both turtles read to its end keeps their agreement.  Induction over the word. -/
theorem Agree.run (hm : m.Agree axes m') {t t' s s' : Turtle} {w : Word} (h : t.Agree axes t')
    (hs : t.run m w = .ok s) (hs' : t'.run m' w = .ok s') : s.Agree axes s' := by
  induction w generalizing t t' with
  | nil =>
    obtain rfl := Except.ok.inj hs
    obtain rfl := Except.ok.inj hs'
    exact h
  | cons c w ih =>
    rw [run_cons] at hs hs'
    obtain ⟨t₁, hobey, hs⟩ := bind_ok hs
    obtain ⟨t₁', hobey', hs'⟩ := bind_ok hs'
    exact ih (h.obey hm hobey hobey') hs hs'

/-! ## What agreeing turtles have in common -/

theorem Agree.depth_eq {t t' : Turtle} (h : t.Agree axes t') : t.depth = t'.depth :=
  h.saved.length_eq

theorem Agree.size_eq {t t' : Turtle} (h : t.Agree axes t') : t.segments.size = t'.segments.size :=
  h.segments.length_eq

/-- What is the same of segments that agree is the same of all segments of turtles that agree. -/
theorem Agree.map_segments {t t' : Turtle} (h : t.Agree axes t') {α : Type} {f : Segment → α}
    (hf : ∀ s s' : Segment, s.Agree axes s' → f s = f s') :
    t.segments.toList.map f = t'.segments.toList.map f := by
  rw [← List.forall₂_eq_eq_eq, List.forall₂_map_left_iff, List.forall₂_map_right_iff]
  exact h.segments.imp hf

/-- The segments make the same block, or none for the same reason. -/
theorem Agree.shape_eq {t t' : Turtle} (h : t.Agree axes t') : t.shape = t'.shape := by
  have hnestings : t.nestings = t'.nestings := by
    unfold nestings
    rw [List.flatMap_def, List.flatMap_def]
    refine congrArg List.flatten (h.map_segments ?_)
    intro s s' hs
    show [s.start.x.nesting, s.start.y.nesting, s.stop.x.nesting, s.stop.y.nesting] = _
    rw [show s.start.x.nesting = s'.start.x.nesting from hs.start.nesting .x,
      show s.start.y.nesting = s'.start.y.nesting from hs.start.nesting .y,
      show s.stop.x.nesting = s'.stop.x.nesting from hs.stop.nesting .x,
      show s.stop.y.nesting = s'.stop.y.nesting from hs.stop.nesting .y]
    rfl
  unfold shape
  rw [hnestings, h.size_eq]

/-- Turtles that start with the same heading, at places without lists, agree where these places do. -/
theorem agree_start {p p' : Pose} (hflat : p.Flat) (hflat' : p'.Flat)
    (hheading : p.heading = p'.heading)
    (halong : ∀ axis ∈ axes, p.point.along axis = p'.point.along axis) :
    (start p).Agree axes (start p') := by
  refine ⟨⟨hheading, halong, ?_⟩, .nil, .nil⟩
  intro axis
  cases axis with
  | x => exact hflat.x.trans hflat'.x.symm
  | y => exact hflat.y.trans hflat'.y.symm

/-- Two ready turtles that have saved equally many poses are refused the same words, and read the same
    words to their ends. -/
theorem run_together {t t' : Turtle} (h : t.Ready) (h' : t'.Ready) (hdepth : t.depth = t'.depth)
    (m m' : Motion) (w : Word) :
    (t.run m w = .error .noOpenScope ∧ t'.run m' w = .error .noOpenScope) ∨
      ∃ s s', t.run m w = .ok s ∧ t'.run m' w = .ok s' := by
  rcases run_cases h m w 0 with ⟨i, hcount, hrun⟩ | ⟨s, hcount, hrun, -⟩
  · rcases run_cases h' m' w 0 with ⟨-, -, hrun'⟩ | ⟨s', hcount', -⟩
    · exact Or.inl ⟨hrun, hrun'⟩
    · rw [← hdepth] at hcount'
      exact nomatch hcount.symm.trans hcount'
  · rcases run_cases h' m' w 0 with ⟨i, hcount', -⟩ | ⟨s', -, hrun', -⟩
    · rw [← hdepth] at hcount'
      exact nomatch hcount.symm.trans hcount'
    · exact Or.inr ⟨s, s', hrun, hrun'⟩

end Turtle

end

/-! ## Two drawings -/

section

variable {axes : Set Axis} {angle step step' : Value} {start start' : Start} {m m' : Motion}
  {p p' : Pose}

/-- Motions of the same angle agree where they need not step equally far. -/
theorem Motion.agree_of_angle (hm : Motion.ofValues angle step = .ok m)
    (hm' : Motion.ofValues angle step' = .ok m')
    (hstep : axes.Nonempty → m.step.toFloat = m'.step.toFloat) : m.Agree axes m' := by
  have hturn := Motion.turn_of_ofValues hm
  have hturn' := Motion.turn_of_ofValues hm'
  exact ⟨Except.ok.inj (hturn.symm.trans hturn'), hstep⟩

/-- What turtles that agree have drawn is handed out of both drawings or of neither. -/
theorem draw_of_agree (hm : Motion.ofValues angle step = .ok m)
    (hm' : Motion.ofValues angle step' = .ok m') (hstart : start.OfFloats)
    (hp : start.toPose = .ok p) (hp' : start'.toPose = .ok p') {w : Word} {t t' : Turtle}
    (hrun : (Turtle.start p).run m w = .ok t) (hrun' : (Turtle.start p').run m' w = .ok t')
    (h : t.Agree axes t') :
    (draw w angle step start = .ok t ∧ draw w angle step' start' = .ok t') ∨
      angle.IsNested ∧ ∃ fault, draw w angle step start = .error (.malformedList fault) ∧
        draw w angle step' start' = .error (.malformedList fault) := by
  have hdraw := draw_of_run hm hp hrun
  have hdraw' := draw_of_run hm' hp' hrun'
  rw [← h.shape_eq] at hdraw'
  rcases draw_of_read hm hstart hp hrun with ⟨heven, -⟩ | ⟨hodd, hnested, -⟩
  · rw [t.shape_fault?_eq_none_iff.mpr heven] at hdraw hdraw'
    exact Or.inl ⟨hdraw, hdraw'⟩
  · cases hfault : t.shape.fault? with
    | none => exact absurd (t.shape_fault?_eq_none_iff.mp hfault) hodd
    | some fault =>
      rw [hfault] at hdraw hdraw'
      exact Or.inr ⟨hnested, fault, hdraw, hdraw'⟩

/-- **The quantities of the turtle are kept apart.**  Let the same word be read twice, with the same
    angle and from the same heading.  Whatever the steps and the places of the starts, behind every
    beginning of the word either both turtles have met a closing bracket without a partner, or both
    have the same heading, as many scopes open and as many segments drawn; and what they have drawn is
    handed out of both drawings, unless the angle is nested and there is no block of segments in
    either, for the same reason.  If the steps are equally far and the starts have the same coordinate
    along an axis, then so have both turtles, in the pose and in every segment. -/
theorem turtle_quantities_kept_apart (hm : Motion.ofValues angle step = .ok m)
    (hm' : Motion.ofValues angle step' = .ok m') (hstart : start.OfFloats)
    (hstart' : start'.OfFloats) (hp : start.toPose = .ok p) (hp' : start'.toPose = .ok p')
    (hheading : p.heading = p'.heading) (w : Word) :
    ∀ u, u <+: w →
      ((Turtle.start p).run m u = .error .noOpenScope ∧
        (Turtle.start p').run m' u = .error .noOpenScope ∧
        draw u angle step start = .error .noOpenScope ∧
        draw u angle step' start' = .error .noOpenScope) ∨
      ∃ t t', (Turtle.start p).run m u = .ok t ∧ (Turtle.start p').run m' u = .ok t' ∧
        t.pose.heading = t'.pose.heading ∧ t.depth = t'.depth ∧
        t.segments.size = t'.segments.size ∧
        (m.step.toFloat = m'.step.toFloat →
          ∀ axis, p.point.along axis = p'.point.along axis →
            t.pose.point.along axis = t'.pose.point.along axis ∧
            t.segments.toList.map (·.along axis) = t'.segments.toList.map (·.along axis)) ∧
        (draw u angle step start = .ok t ∧ draw u angle step' start' = .ok t' ∨
          angle.IsNested ∧ ∃ fault, draw u angle step start = .error (.malformedList fault) ∧
            draw u angle step' start' = .error (.malformedList fault)) := by
  intro u _
  obtain ⟨q, hq, hready, hflat⟩ := hstart.toPose
  obtain rfl := Except.ok.inj (hp.symm.trans hq)
  obtain ⟨q', hq', hready', hflat'⟩ := hstart'.toPose
  obtain rfl := Except.ok.inj (hp'.symm.trans hq')
  rcases Turtle.run_together (Turtle.ready_start hready) (Turtle.ready_start hready') rfl m m' u with
    ⟨hrun, hrun'⟩ | ⟨t, t', hrun, hrun'⟩
  · exact Or.inl ⟨hrun, hrun', (draw_refused_iff hm hp).mpr hrun, (draw_refused_iff hm' hp').mpr hrun'⟩
  -- for a set of axes along which the starts agree, the ends do
  have hends : ∀ axes : Set Axis, (axes.Nonempty → m.step.toFloat = m'.step.toFloat) →
      (∀ axis ∈ axes, p.point.along axis = p'.point.along axis) → t.Agree axes t' := by
    intro axes hstep halong
    have hmotion := Motion.agree_of_angle hm hm' hstep
    exact (Turtle.agree_start hflat hflat' hheading halong).run hmotion hrun hrun'
  have hnone : t.Agree ∅ t' := hends ∅ (fun ⟨_, h⟩ => nomatch h) fun _ h => nomatch h
  refine Or.inr ⟨t, t', hrun, hrun', hnone.pose.heading, hnone.depth_eq, hnone.size_eq, ?_,
    draw_of_agree hm hm' hstart hp hp' hrun hrun' hnone⟩
  intro hstep axis halong
  have hone : t.Agree {axis} t' := by
    refine hends {axis} (fun _ => hstep) ?_
    rintro a rfl
    exact halong
  refine ⟨hone.pose.point.along axis rfl, hone.map_segments ?_⟩
  intro s s' hs
  exact Prod.ext (hs.start.along axis rfl) (hs.stop.along axis rfl)

/-- Two starts one above the other: the drawings have the same heading and the same places along the
    horizontal axis, with a branch behind them and a scope still open. -/
theorem turtle_quantities_kept_apart_upright :
    (∃ m, Motion.ofValues (.int 90) (.int 10) = .ok m) ∧
    Start.OfFloats (.value .null) ∧
    Start.OfFloats (.value (.tuple [.float 500, .float 0, .float (-circleRatio / 2)])) ∧
    ∃ t t', draw ['F', '[', '+', 'F', ']', '[', '-', 'f', 'F'] (.int 90) (.int 10) (.value .null) =
        .ok t ∧
      draw ['F', '[', '+', 'F', ']', '[', '-', 'f', 'F'] (.int 90) (.int 10)
        (.value (.tuple [.float 500, .float 0, .float (-circleRatio / 2)])) = .ok t' ∧
      t.pose.heading = t'.pose.heading ∧ t.depth = t'.depth ∧
      t.pose.x = t'.pose.x ∧
      t.segments.toList.map (·.along .x) = t'.segments.toList.map (·.along .x) := by
  obtain ⟨m, hm⟩ : ∃ m, Motion.ofValues (.int 90) (.int 10) = .ok m := ⟨_, rfl⟩
  have hstart' : Start.OfFloats
      (.value (.tuple [.float 500, .float 0, .float (-circleRatio / 2)])) := .given rfl
  refine ⟨⟨m, hm⟩, .absent, hstart', ?_⟩
  rcases turtle_quantities_kept_apart hm hm .absent hstart' rfl rfl rfl
      ['F', '[', '+', 'F', ']', '[', '-', 'f', 'F'] _ (List.prefix_refl _) with
    ⟨-, -, hrefused, -⟩ | ⟨t, t', -, -, hheading, hdepth, -, halong, ⟨hdraw, hdraw'⟩ | ⟨⟨_, h | h⟩, -⟩⟩
  · nomatch hrefused
  · obtain ⟨hx, hsegments⟩ := halong rfl .x rfl
    exact ⟨t, t', hdraw, hdraw', hheading, hdepth, hx, hsegments⟩
  · nomatch h
  · nomatch h

end

end Lindenmayer
