/-
  Frames: what a word finds and leaves alone.

  Where a turtle stands decides what it draws; what was drawn before, and which poses were saved
  before, only lie around.  Segments drawn before are never looked at, so that whatever becomes of
  the turtle, they stand in front of what it draws (`run_behind`).  Saved poses can be looked at, but
  only by a closing bracket whose partner stands before the word; a word that a turtle with nothing
  saved reads to its end has none, and leaves all of them where they are (`run_above`).

  Together: what a word does from a pose alone, it does from any turtle in that pose
  (`run_of_start`), and behind that turtle's segments.  So a word whose brackets all have their
  partners, put between two brackets, leaves nothing but its segments (`run_scope`).
-/
import Lindenmayer.Proofs.Turtle.Agreement

namespace Lindenmayer

namespace Turtle

/-- The turtle with other poses saved below its own. -/
def above (t : Turtle) (saved : List Pose) : Turtle :=
  { t with saved := t.saved ++ saved }

/-- The turtle with other segments drawn before its own. -/
def behind (t : Turtle) (segments : Array Segment) : Turtle :=
  { t with segments := segments ++ t.segments }

/-- Every turtle is one that starts in its pose, above its saved poses and behind its segments. -/
theorem start_above_behind (t : Turtle) : ((start t.pose).above t.saved).behind t.segments = t := by
  show (⟨t.pose, [] ++ t.saved, t.segments ++ #[]⟩ : Turtle) = t
  rw [List.nil_append, Array.append_empty]

/-- Segments drawn before are taken off and put on again. -/
theorem behind_segments (t : Turtle) : ({ t with segments := #[] } : Turtle).behind t.segments = t := by
  show (⟨t.pose, t.saved, t.segments ++ #[]⟩ : Turtle) = t
  rw [Array.append_empty]

/-! ## One command -/

/-- A command other than the brackets depends on the pose alone: from every turtle in that pose it
    leads to the same pose and adds the same segments. -/
theorem obey_of_pose {m : Motion} {t t' : Turtle} {c : Command} (hsave : c ≠ .save)
    (hrestore : c ≠ .restore) (h : t.obey m c = .ok t') :
    ∃ new, t' = ⟨t'.pose, t.saved, t.segments ++ new⟩ ∧
      ∀ s : Turtle, s.pose = t.pose → s.obey m c = .ok ⟨t'.pose, s.saved, s.segments ++ new⟩ := by
  -- a command that only moves the turtle: the new pose is computed from the old one
  have hmove : ∀ {r : Pose → Except Error Pose},
      (r t.pose >>= fun pose => pure { t with pose }) = .ok t' →
      ∃ new, t' = ⟨t'.pose, t.saved, t.segments ++ new⟩ ∧ ∀ s : Turtle, s.pose = t.pose →
        (r s.pose >>= fun pose => pure { s with pose }) =
          .ok ⟨t'.pose, s.saved, s.segments ++ new⟩ := by
    intro r h
    obtain ⟨pose, hpose, h⟩ := bind_ok h
    obtain rfl := Except.ok.inj h
    refine ⟨#[], by rw [Array.append_empty], ?_⟩
    intro s hs
    rw [hs, hpose, Array.append_empty]
    rfl
  cases c with
  | draw =>
    obtain ⟨pose, hpose, h⟩ := bind_ok h
    obtain rfl := Except.ok.inj h
    refine ⟨#[⟨t.pose.point, pose.point⟩], by rw [Array.push_eq_append], ?_⟩
    intro s hs
    show (m.ahead s.pose >>= _) = _
    rw [hs, hpose]
    show Except.ok _ = _
    rw [Array.push_eq_append]
  | move => exact hmove h
  | turnBack => exact hmove h
  | turn => exact hmove h
  | save => exact absurd rfl hsave
  | restore => exact absurd rfl hrestore
  | ignore =>
    obtain rfl := Except.ok.inj h
    refine ⟨#[], by rw [Array.append_empty], ?_⟩
    intro s hs
    show Except.ok s = _
    rw [Array.append_empty, ← hs]

/-- A command that can be obeyed is obeyed in the same way above other saved poses. -/
theorem obey_above {m : Motion} {t t' : Turtle} {c : Command} (h : t.obey m c = .ok t')
    (saved : List Pose) : (t.above saved).obey m c = .ok (t'.above saved) := by
  by_cases hsave : c = .save
  · subst hsave
    obtain rfl := Except.ok.inj h
    rfl
  by_cases hrestore : c = .restore
  · -- the pose that is gone back to is the turtle's own
    subst hrestore
    obtain ⟨pose, own, segments⟩ := t
    cases own with
    | nil => nomatch h
    | cons p own =>
      obtain rfl := Except.ok.inj h
      rfl
  obtain ⟨new, ht', hobey⟩ := obey_of_pose hsave hrestore h
  rw [hobey (t.above saved) rfl, ht']
  rfl

/-- Whatever comes of a command, it comes behind the segments that were there. -/
theorem obey_behind (m : Motion) (t : Turtle) (c : Command) (segments : Array Segment) :
    (t.behind segments).obey m c = (t.obey m c).map (·.behind segments) := by
  have hmove : ∀ r : Except Error Pose,
      (r >>= fun pose => pure { t.behind segments with pose }) =
        Except.map (·.behind segments) (r >>= fun pose => pure { t with pose }) := by
    intro r
    cases r with
    | error e => rfl
    | ok pose => rfl
  cases c with
  | draw =>
    show (m.ahead t.pose >>= _) = Except.map _ (m.ahead t.pose >>= _)
    cases m.ahead t.pose with
    | error e => rfl
    | ok pose =>
      show Except.ok (⟨pose, t.saved, (segments ++ t.segments).push _⟩ : Turtle) =
        .ok ⟨pose, t.saved, segments ++ t.segments.push _⟩
      rw [Array.append_push]
      rfl
  | move => exact hmove _
  | turnBack => exact hmove _
  | turn => exact hmove _
  | save => rfl
  | restore =>
    obtain ⟨pose, saved, own⟩ := t
    cases saved with
    | nil => rfl
    | cons p saved => rfl
  | ignore => rfl

/-! ## A whole word -/

/-- **Saved poses below are left alone** by a word that is read to its end without them. -/
theorem run_above {m : Motion} {t t' : Turtle} {w : Word} (h : t.run m w = .ok t')
    (saved : List Pose) : (t.above saved).run m w = .ok (t'.above saved) := by
  induction w generalizing t with
  | nil =>
    obtain rfl := Except.ok.inj h
    rfl
  | cons c w ih =>
    rw [run_cons] at h
    obtain ⟨t₁, hobey, hrest⟩ := bind_ok h
    rw [run_cons, obey_above hobey saved]
    exact ih hrest

/-- **Segments drawn before are never looked at**: whatever comes of a word comes behind them. -/
theorem run_behind (m : Motion) (t : Turtle) (w : Word) (segments : Array Segment) :
    (t.behind segments).run m w = (t.run m w).map (·.behind segments) := by
  induction w generalizing t with
  | nil => rfl
  | cons c w ih =>
    rw [run_cons, run_cons, obey_behind]
    cases t.obey m (.ofSymbol c) with
    | error e => rfl
    | ok t₁ => exact ih t₁

/-- **A word from a pose**: what a turtle that starts there does, every turtle in that pose does. -/
theorem run_of_start {m : Motion} {t t' : Turtle} {w : Word}
    (h : (start t.pose).run m w = .ok t') :
    t.run m w = .ok ((t'.above t.saved).behind t.segments) := by
  have habove := run_above h t.saved
  have hbehind := run_behind m ((start t.pose).above t.saved) w t.segments
  rw [start_above_behind, habove] at hbehind
  exact hbehind

/-- A turtle that was ready is ready behind a word. -/
theorem Ready.run {m : Motion} {t t' : Turtle} {w : Word} (h : t.Ready)
    (hrun : t.run m w = .ok t') : t'.Ready := by
  rcases run_cases h m w 0 with ⟨i, -, herr⟩ | ⟨t₁, -, hok, hready, -⟩
  · exact nomatch herr.symm.trans hrun
  · obtain rfl := Except.ok.inj (hok.symm.trans hrun)
    exact hready

/-- A word that the count accepts is read to its end from every ready pose, with as many scopes open
    as the count finds. -/
theorem run_of_accepted {p : Pose} (hp : p.Ready) (m : Motion) {w : Word} {d : Nat}
    (hd : scopeDepth w = .ok d) : ∃ t, (start p).run m w = .ok t ∧ t.depth = d := by
  rcases run_cases (ready_start hp) m w 0 with ⟨i, herr, -⟩ | ⟨t, hok, hrun, -, -⟩
  · exact nomatch herr.symm.trans hd
  · exact ⟨t, hrun, Except.ok.inj (hok.symm.trans hd)⟩

/-- **A closed scope leaves nothing but its segments**: with the scope read, the turtle is where it
    was and has saved what it had. -/
theorem run_scope {t : Turtle} (h : t.Ready) (m : Motion) {v : Word} (hv : scopeDepth v = .ok 0) :
    ∃ inner, (start t.pose).run m v = .ok inner ∧ ∀ w, t.run m ('[' :: v ++ ']' :: w) =
      ({ t with segments := t.segments ++ inner.segments } : Turtle).run m w := by
  obtain ⟨inner, hinner, hdepth⟩ := run_of_accepted h.pose m hv
  refine ⟨inner, hinner, ?_⟩
  intro w
  -- the scope is read by the turtle that has saved its pose, and leaves nothing saved on top of it
  have hread : ({ t with saved := t.pose :: t.saved } : Turtle).run m v = .ok _ :=
    run_of_start hinner
  have hsaved : inner.saved = [] := List.length_eq_zero_iff.mp hdepth
  show t.run m ('[' :: (v ++ ']' :: w)) = _
  rw [run_cons]
  show ({ t with saved := t.pose :: t.saved } : Turtle).run m (v ++ ']' :: w) = _
  rw [run_append, hread]
  show Turtle.run m ⟨inner.pose, inner.saved ++ t.pose :: t.saved, _⟩ (']' :: w) = _
  rw [hsaved, run_cons]
  rfl

end Turtle

end Lindenmayer
