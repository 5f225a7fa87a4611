/-
  Segments: one for each symbol that draws, each between the poses around its symbol.

  Only one command draws, and it draws one segment, so that a word is drawn with as many segments as
  it has symbols of that command (`size_segments_of_draw`).  A segment goes from where the turtle
  stands before its symbol to where it stands after it.  Both of these are seen in the drawings of
  two beginnings of the word, the one up to the symbol and the one through it, since what a beginning
  draws is where a longer word starts from (`draw_append_eq_ok`, `segment_of_draw`).

  Between two symbols that draw, the turtle stays where it is unless it moves or goes back to a saved
  pose; then the second segment starts where the first one ended.

  Nothing else plays a part in this: it holds for all parameters and every start, as long as the word
  is drawn.
-/
import Lindenmayer.Proofs.Turtle.Agreement

namespace Lindenmayer

namespace Command

theorem ofSymbol_eq_draw_iff (c : Symbol) : ofSymbol c = .draw ↔ c = 'F' := by
  grind [ofSymbol]

/-- The command takes the turtle to another place. -/
def Relocates : Command → Prop
  | draw | move | restore => True
  | turnBack | turn | save | ignore => False

theorem relocates_ofSymbol_iff (c : Symbol) :
    (ofSymbol c).Relocates ↔ c = 'F' ∨ c = 'f' ∨ c = ']' := by
  grind [ofSymbol, Relocates]

end Command

namespace Turtle

/-! ## How many -/

/-- The command to draw adds one segment, and no other command adds any. -/
theorem size_segments_obey {m : Motion} {t t' : Turtle} {c : Command} (h : t.obey m c = .ok t') :
    t'.segments.size = t.segments.size + if c = .draw then 1 else 0 := by
  cases c with
  | draw =>
    obtain ⟨p, -, h⟩ := bind_ok h
    obtain rfl := Except.ok.inj h
    exact Array.size_push _
  | move => exact congrArg Array.size (segments_eq_of_moved h)
  | turnBack => exact congrArg Array.size (segments_eq_of_moved h)
  | turn => exact congrArg Array.size (segments_eq_of_moved h)
  | save =>
    obtain rfl := Except.ok.inj h
    rfl
  | restore =>
    obtain ⟨pose, saved, segments⟩ := t
    cases saved with
    | nil => nomatch h
    | cons p saved =>
      obtain rfl := Except.ok.inj h
      rfl
  | ignore =>
    obtain rfl := Except.ok.inj h
    rfl

/-- **One segment for each symbol that draws.**  Induction over the word. -/
theorem size_segments_run {m : Motion} {t t' : Turtle} {w : Word} (h : t.run m w = .ok t') :
    t'.segments.size = t.segments.size + w.count 'F' := by
  induction w generalizing t with
  | nil =>
    obtain rfl := Except.ok.inj h
    rfl
  | cons c w ih =>
    rw [run_cons] at h
    obtain ⟨t₁, hobey, hrest⟩ := bind_ok h
    have hfirst := size_segments_obey hobey
    rw [ih hrest, hfirst, List.count_cons]
    have hsame : (if Command.ofSymbol c = .draw then 1 else 0) = if c == 'F' then 1 else 0 := by
      simp only [Command.ofSymbol_eq_draw_iff, beq_iff_eq]
    omega

/-! ## Between which poses -/

/-- The command to draw joins the place before it to the place after it. -/
theorem segments_of_obey_draw {m : Motion} {t t' : Turtle} (h : t.obey m .draw = .ok t') :
    t'.segments = t.segments.push ⟨t.pose.point, t'.pose.point⟩ := by
  obtain ⟨p, -, h⟩ := bind_ok h
  obtain rfl := Except.ok.inj h
  rfl

/-- A turn is made on the spot. -/
theorem point_of_turned {m : Motion} {change : Float → Float → Float} {t t' : Turtle}
    (h : (m.turned change t.pose >>= fun pose => pure { t with pose }) = .ok t') :
    t'.pose.point = t.pose.point := by
  obtain ⟨p, hp, h⟩ := bind_ok h
  obtain rfl := Except.ok.inj h
  obtain ⟨heading, -, hp⟩ := bind_ok hp
  obtain rfl := Except.ok.inj hp
  rfl

/-- Every command but those that relocate it leaves the turtle in its place. -/
theorem point_of_obey {m : Motion} {t t' : Turtle} {c : Command} (hc : ¬ c.Relocates)
    (h : t.obey m c = .ok t') : t'.pose.point = t.pose.point := by
  cases c with
  | draw => exact absurd trivial hc
  | move => exact absurd trivial hc
  | restore => exact absurd trivial hc
  | turnBack => exact point_of_turned h
  | turn => exact point_of_turned h
  | save =>
    obtain rfl := Except.ok.inj h
    rfl
  | ignore =>
    obtain rfl := Except.ok.inj h
    rfl

/-- A word that neither moves the turtle nor goes back leaves it in its place.  Induction over the
    word. -/
theorem point_of_run {m : Motion} {t t' : Turtle} {w : Word}
    (hw : ∀ c ∈ w, ¬ (Command.ofSymbol c).Relocates) (h : t.run m w = .ok t') :
    t'.pose.point = t.pose.point := by
  induction w generalizing t with
  | nil =>
    obtain rfl := Except.ok.inj h
    rfl
  | cons c w ih =>
    obtain ⟨hc, hrest⟩ := List.forall_mem_cons.mp hw
    rw [run_cons] at h
    obtain ⟨t₁, hobey, h⟩ := bind_ok h
    calc t'.pose.point = t₁.pose.point := ih hrest h
      _ = t.pose.point := point_of_obey hc hobey

end Turtle

/-! ## Drawings -/

variable {angle step : Value} {start : Start}

/-- A drawing has as many segments as the word has symbols that draw, whatever the parameters and the
    start. -/
theorem size_segments_of_draw {w : Word} {t : Turtle}
    (h : draw w angle step start = .ok t) : t.segments.size = w.count 'F' := by
  obtain ⟨m, hm, hrest⟩ := bind_ok h
  obtain ⟨p, hp, -⟩ := bind_ok hrest
  obtain ⟨hrun, -⟩ := run_of_draw hm hp h
  have hsize := Turtle.size_segments_run hrun
  have hnone : (Turtle.start p).segments.size = 0 := rfl
  omega

/-- A word that is drawn goes on from the drawing of its beginning. -/
theorem draw_append_eq_ok {u v : Word} {t : Turtle} (h : draw (u ++ v) angle step start = .ok t) :
    ∃ m first, Motion.ofValues angle step = .ok m ∧ draw u angle step start = .ok first ∧
      first.run m v = .ok t := by
  obtain ⟨m, hm, hrest⟩ := bind_ok h
  obtain ⟨p, hp, -⟩ := bind_ok hrest
  obtain ⟨first, hfirst⟩ := draw_ok_of_append hm hp h
  obtain ⟨hrunu, -⟩ := run_of_draw hm hp hfirst
  obtain ⟨hrun, -⟩ := run_of_draw hm hp h
  rw [Turtle.run_append, hrunu] at hrun
  exact ⟨m, first, hm, hfirst, hrun⟩

/-- **The segment of a symbol** is the step from the pose before it to the pose after it, and has as
    many segments before it as there are symbols that draw before this one. -/
theorem segment_of_draw {u v : Word} {t : Turtle}
    (h : draw (u ++ 'F' :: v) angle step start = .ok t) :
    ∃ before after, draw u angle step start = .ok before ∧
      draw (u ++ ['F']) angle step start = .ok after ∧
      t.segments[u.count 'F']? = some ⟨before.pose.point, after.pose.point⟩ := by
  rw [List.append_cons] at h
  obtain ⟨_, after, -, hafter, hrest⟩ := draw_append_eq_ok h
  obtain ⟨m, before, -, hbefore, hdraw⟩ := draw_append_eq_ok hafter
  refine ⟨before, after, hbefore, hafter, ?_⟩
  have hobey : before.obey m .draw = .ok after := by
    rw [Turtle.run_cons] at hdraw
    obtain ⟨t₁, hobey, hnil⟩ := bind_ok hdraw
    obtain rfl := Except.ok.inj hnil
    exact hobey
  -- the segment is the last one of those drawn through the symbol, and these stay the first ones
  have hlast : after.segments[u.count 'F']? = some ⟨before.pose.point, after.pose.point⟩ := by
    rw [Turtle.segments_of_obey_draw hobey, ← size_segments_of_draw hbefore]
    exact Array.getElem?_push_size
  obtain ⟨hlt, hget⟩ := Array.getElem?_eq_some_iff.mp hlast
  have hkept := List.prefix_iff_getElem?.mp (Turtle.run_segments hrest) (u.count 'F') hlt
  rw [Array.getElem?_toList, Array.getElem_toList, hget] at hkept
  exact hkept

/-- With nothing between two symbols that draw that takes the turtle elsewhere, the second segment
    starts where the first one ended. -/
theorem segments_chained {u between v : Word} {t : Turtle}
    (h : draw (u ++ 'F' :: between ++ 'F' :: v) angle step start = .ok t)
    (hbetween : ∀ c ∈ between, ¬ (Command.ofSymbol c).Relocates) :
    ∃ a b, t.segments[u.count 'F']? = some a ∧ t.segments[u.count 'F' + 1]? = some b ∧
      b.start = a.stop := by
  obtain ⟨before, last, hbefore, -, hsecond⟩ := segment_of_draw h
  have hfirst := h
  rw [List.append_assoc] at hfirst
  obtain ⟨first, after, -, hafter, hfirst⟩ := segment_of_draw hfirst
  have hcount : (u ++ 'F' :: between).count 'F' = u.count 'F' + 1 := by
    have hnone : between.count 'F' = 0 := List.count_eq_zero.mpr fun hmem =>
      hbetween 'F' hmem ((Command.relocates_ofSymbol_iff 'F').mpr (Or.inl rfl))
    rw [List.count_append, List.count_cons_self, hnone]
  -- from behind the first symbol to before the second one, the turtle stays in its place
  have hpoint : before.pose.point = after.pose.point := by
    rw [List.append_cons] at hbefore
    obtain ⟨m, after', -, hafter', hrun⟩ := draw_append_eq_ok hbefore
    obtain rfl := Except.ok.inj (hafter.symm.trans hafter')
    exact Turtle.point_of_run hbetween hrun
  rw [hcount] at hsecond
  exact ⟨_, _, hfirst, hsecond, hpoint⟩

/-- **Every segment is the step between two poses.**  A word that is drawn has one segment for each
    symbol that draws.  The segment of such a symbol comes behind those of the symbols before it, and
    goes from the place where the word up to the symbol ends to the place where the word through it
    ends.  What a beginning of the word draws are the first ones of its segments.  So a segment starts
    where the one before it ended, if the turtle neither moves nor goes back between the two. -/
theorem segments_join_poses {w : Word} {t : Turtle} (h : draw w angle step start = .ok t) :
    t.segments.size = w.count 'F' ∧
    (∀ u v, w = u ++ 'F' :: v →
      ∃ before after, draw u angle step start = .ok before ∧
        draw (u ++ ['F']) angle step start = .ok after ∧
        t.segments[u.count 'F']? = some ⟨before.pose.point, after.pose.point⟩) ∧
    (∀ u, u <+: w →
      ∃ first, draw u angle step start = .ok first ∧
        first.segments.toList <+: t.segments.toList) ∧
    ∀ u between v, w = u ++ 'F' :: between ++ 'F' :: v →
      'F' ∉ between → 'f' ∉ between → ']' ∉ between →
      ∃ a b, t.segments[u.count 'F']? = some a ∧ t.segments[u.count 'F' + 1]? = some b ∧
        b.start = a.stop := by
  refine ⟨size_segments_of_draw h, ?_, ?_, ?_⟩
  · rintro u v rfl
    exact segment_of_draw h
  · rintro u ⟨v, rfl⟩
    obtain ⟨m, first, -, hfirst, hrest⟩ := draw_append_eq_ok h
    exact ⟨first, hfirst, Turtle.run_segments hrest⟩
  · rintro u between v rfl hdraw hmove hrestore
    refine segments_chained h ?_
    intro c hc hrelocates
    rcases (Command.relocates_ofSymbol_iff c).mp hrelocates with rfl | rfl | rfl
    · exact hdraw hc
    · exact hmove hc
    · exact hrestore hc

/-- A turn and an opened scope stand between the first two symbols that draw, and a scope that is
    closed before the third. -/
theorem segments_join_poses_branch :
    ∃ t, draw ['F', '[', '+', 'F', ']', 'F'] (.int 90) (.int 10) (.value .null) = .ok t ∧
      t.segments.size = 3 ∧
      (∃ before after,
        draw ['F', '[', '+', 'F', ']'] (.int 90) (.int 10) (.value .null) = .ok before ∧
        draw ['F', '[', '+', 'F', ']', 'F'] (.int 90) (.int 10) (.value .null) = .ok after ∧
        t.segments[2]? = some ⟨before.pose.point, after.pose.point⟩) ∧
      ∃ a b, t.segments[0]? = some a ∧ t.segments[1]? = some b ∧ b.start = a.stop := by
  obtain ⟨t, ht⟩ : ∃ t, draw ['F', '[', '+', 'F', ']', 'F'] (.int 90) (.int 10) (.value .null) =
      .ok t := ⟨_, rfl⟩
  obtain ⟨hsize, hjoin, -, hchain⟩ := segments_join_poses ht
  exact ⟨t, ht, hsize, hjoin ['F', '[', '+', 'F', ']'] [] rfl,
    hchain [] ['[', '+'] [']', 'F'] rfl (by decide) (by decide) (by decide)⟩

end Lindenmayer
