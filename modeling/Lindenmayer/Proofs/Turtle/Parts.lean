/-
  Drawing a word in parts.

  A drawing can be taken up where it ended: from the pose that the first part ended in, the second
  part is drawn as a drawing of its own.  The scopes that the first part left open are not taken
  along.  If the second part closes none of them, that makes no difference, and the drawing of the
  whole word is that of the first part JOINED with that of the second.  If it does, the second part
  fails on its own, but the whole word only if the second part closes more scopes than the first one
  left open; how many it closes is told by the largest excess of its prefixes.

  The angle is a number throughout.
-/
import Lindenmayer.Proofs.Turtle.Frame
import Lindenmayer.Proofs.Turtle.Nesting

namespace Lindenmayer

namespace Turtle

/-- `Joined first second whole` — a drawing that goes on where `first` ended, with `second`, is
    `whole`. -/
structure Joined (first second whole : Turtle) : Prop where
  segments : whole.segments = first.segments ++ second.segments
  pose : whole.pose = second.pose
  depth : whole.depth = first.depth + second.depth

/-- A turtle that begins anew behind another one is joined with it. -/
theorem joined_above_behind (first second : Turtle) :
    Joined first second ((second.above first.saved).behind first.segments) := by
  refine ⟨rfl, rfl, ?_⟩
  show (second.saved ++ first.saved).length = first.saved.length + second.saved.length
  rw [List.length_append, Nat.add_comm]

/-- A ready turtle cannot read a word exactly if a prefix closes more scopes than are open. -/
theorem run_refused_iff {t : Turtle} (h : t.Ready) (m : Motion) (w : Word) :
    t.run m w = .error .noOpenScope ↔ ∃ u, u <+: w ∧ Overdrawn t.depth u := by
  rcases depthFrom_cases w 0 t.depth with ⟨u, hu, herr⟩ | ⟨hnone, d, hok, -⟩
  · rcases run_cases h m w 0 with ⟨i, -, hrun⟩ | ⟨t', hdepth, -, -⟩
    · exact ⟨fun _ => ⟨u, hu.initial, hu.holds⟩, fun _ => hrun⟩
    · exact nomatch herr.symm.trans hdepth
  · rcases run_cases h m w 0 with ⟨i, herr, -⟩ | ⟨t', -, hrun, -⟩
    · exact nomatch hok.symm.trans herr
    · constructor
      · intro herr
        exact nomatch hrun.symm.trans herr
      · rintro ⟨u, hu, hover⟩
        exact absurd hover (hnone u hu)

end Turtle

variable {angle step : Value} {start : Start} {m : Motion}

/-- Behind a part that is drawn, a ready turtle goes on reading. -/
theorem run_append_of_draw (hm : Motion.ofValues angle step = .ok m) (hstart : start.OfFloats)
    {u : Word} {t : Turtle} (hu : draw u angle step start = .ok t) :
    ∃ p, start.toPose = .ok p ∧ t.Ready ∧
      ∀ v, (Turtle.start p).run m (u ++ v) = t.run m v := by
  obtain ⟨p, hp, hready, -⟩ := hstart.toPose
  obtain ⟨hrun, -⟩ := run_of_draw hm hp hu
  refine ⟨p, hp, (Turtle.ready_start hready).run hrun, ?_⟩
  intro v
  rw [Turtle.run_append, hrun]
  rfl

/-- With an accepted second part, the whole word is drawn as the two parts joined. -/
theorem draw_append_of_accepted (hm : Motion.ofValues angle step = .ok m) (hangle : angle.IsNumber)
    (hstart : start.OfFloats) {u : Word} {t : Turtle} (hu : draw u angle step start = .ok t) {v : Word}
    {d : Nat} (hd : scopeDepth v = .ok d) :
    ∃ t' whole, draw v angle step (.pose t.pose) = .ok t' ∧ t'.depth = d ∧
      draw (u ++ v) angle step start = .ok whole ∧ t.Joined t' whole := by
  obtain ⟨p, hp, ht, happend⟩ := run_append_of_draw hm hstart hu
  obtain ⟨t', hrunv, hdepth⟩ := Turtle.run_of_accepted ht.pose m hd
  have hrun : (Turtle.start p).run m (u ++ v) = .ok ((t'.above t.saved).behind t.segments) :=
    (happend v).trans (Turtle.run_of_start hrunv)
  have hagain := hstart.of_draw hm hangle hu
  exact ⟨t', _, draw_ok_of_read hm hangle hagain rfl hrunv, hdepth,
    draw_ok_of_read hm hangle hstart hp hrun, Turtle.joined_above_behind t t'⟩

/-- With a second part that closes scopes it did not open, the whole word is refused if these are more
    than the first part left open. -/
theorem draw_append_refused_iff (hm : Motion.ofValues angle step = .ok m) (hstart : start.OfFloats)
    {u : Word} {t : Turtle} (hu : draw u angle step start = .ok t) {v : Word} {k : Int}
    (hk : IsGreatest {e | ∃ x, x <+: v ∧ excess x = e} k) :
    draw (u ++ v) angle step start = .error .noOpenScope ↔ (t.depth : Int) < k := by
  obtain ⟨p, hp, ht, happend⟩ := run_append_of_draw hm hstart hu
  rw [← exists_overdrawn_iff hk, ← Turtle.run_refused_iff ht m v, draw_refused_iff hm hp, happend]

/-- **A word drawn in parts.**  Let the first part be drawn.  If the count accepts the second part,
    it is drawn from where the first one ended, and the whole word as the two joined: the segments of
    the one and then of the other, the pose of the second, and the scopes that both left open.  If the
    count refuses the second part, it cannot be drawn on its own, and the whole word can unless some
    prefix of the second part closes more scopes than the first part left open. -/
theorem draw_in_parts (hm : Motion.ofValues angle step = .ok m) (hangle : angle.IsNumber)
    (hstart : start.OfFloats) {u : Word} {t : Turtle} (hu : draw u angle step start = .ok t)
    (v : Word) :
    (∀ d, scopeDepth v = .ok d →
      ∃ t' whole, draw v angle step (.pose t.pose) = .ok t' ∧ t'.depth = d ∧
        draw (u ++ v) angle step start = .ok whole ∧ t.Joined t' whole) ∧
    ∀ i, scopeDepth v = .error (.unmatchedClose i) →
      draw v angle step (.pose t.pose) = .error .noOpenScope ∧
      ∃ k, IsGreatest {e | ∃ x, x <+: v ∧ excess x = e} k ∧
        (draw (u ++ v) angle step start = .error .noOpenScope ↔ (t.depth : Int) < k) ∧
        ((∃ cause, draw (u ++ v) angle step start = .error cause) ↔ (t.depth : Int) < k) := by
  refine ⟨fun d hd => draw_append_of_accepted hm hangle hstart hu hd, fun i hi => ?_⟩
  obtain ⟨k, hk⟩ := exists_isGreatest_excess v
  have hrefused := draw_append_refused_iff hm hstart hu hk
  refine ⟨?_, k, hk, hrefused, ?_⟩
  · -- on its own the second part starts with no scope open, as the count does
    rcases draw_cases hm hangle (hstart.of_draw hm hangle hu) v with ⟨-, -, halone⟩ | ⟨t', hd, -⟩
    · exact halone
    · exact nomatch hi.symm.trans hd
  · rw [← hrefused]
    constructor
    · rintro ⟨cause, hcause⟩
      rcases draw_cases hm hangle hstart (u ++ v) with ⟨-, -, herr⟩ | ⟨t', -, hok⟩
      · exact herr
      · exact nomatch hok.symm.trans hcause
    · intro herr
      exact ⟨_, herr⟩

/-- The second part closes one scope that it did not open, and the first part left one open: on its
    own the second part is refused, behind the first one it is not. -/
theorem draw_in_parts_closing :
    (∃ m, Motion.ofValues (.int 90) (.int 10) = .ok m) ∧ (Value.int 90).IsNumber ∧
    Start.OfFloats (.value .null) ∧
    ∃ t, draw ['[', 'F'] (.int 90) (.int 10) (.value .null) = .ok t ∧
      scopeDepth ['+', ']', 'F'] = .error (.unmatchedClose 1) ∧
      draw ['+', ']', 'F'] (.int 90) (.int 10) (.pose t.pose) = .error .noOpenScope ∧
      ¬ ∃ cause, draw ['[', 'F', '+', ']', 'F'] (.int 90) (.int 10) (.value .null) = .error cause := by
  obtain ⟨m, hm⟩ : ∃ m, Motion.ofValues (.int 90) (.int 10) = .ok m := ⟨_, rfl⟩
  obtain ⟨t, hu, hdepth⟩ : ∃ t, draw ['[', 'F'] (.int 90) (.int 10) (.value .null) = .ok t ∧
      t.depth = 1 := ⟨_, rfl, rfl⟩
  obtain ⟨halone, k, hk, -, hwhole⟩ :=
    (draw_in_parts hm (.int 90) .absent hu ['+', ']', 'F']).2 1 rfl
  refine ⟨⟨m, hm⟩, .int 90, .absent, t, hu, rfl, halone, ?_⟩
  intro hfail
  have hlt := hwhole.mp hfail
  -- no prefix closes two brackets, since the word has only one
  obtain ⟨x, hx, rfl⟩ := hk.1
  have hcount : x.count ']' ≤ 1 := hx.sublist.count_le ']'
  rw [hdepth] at hlt
  unfold excess at hlt
  omega

end Lindenmayer
