/-
  Readiness: what can go wrong while the turtle reads a word, and what cannot.

  A coordinate is READY if it is a double as it was given, or was computed.  Everything can be
  computed from a ready coordinate, and the outcome is ready again, whatever precision it has and
  however deep it is nested.  So a turtle whose poses are all ready — the current one and the saved
  ones — fails at no move and at no turn.  What is left is a restore with nothing saved, and that
  is exactly where the count of scopes fails: the height of the stack and the number of open
  scopes go through `Command.depthAfter` together (`Turtle.obey_cases`, `Turtle.run_cases`).

  FLAT is what lies in no list.  A flat turtle that turns by a number outside lists stays flat, so
  that the segments it draws make an even block of numbers (`Turtle.Flat.even`).
-/
import Lindenmayer.Turtle.Scope
import Lindenmayer.Turtle.Drawing

namespace Lindenmayer

/-! ## Coordinates -/

namespace Coordinate

/-- The coordinate is a double that was given, or was computed. -/
inductive Ready : Coordinate → Prop where
  | given (x : Float) : Ready (.given (.float x))
  | computed (q : Quantity) : Ready (.computed q)

/-- A ready coordinate can be changed by any quantity; it comes out as deep as the deeper of the
    two. -/
theorem Ready.changed {c : Coordinate} (h : c.Ready) (f : Float → Float → Float) (q : Quantity) :
    ∃ d, c.changed f q = .ok d ∧ d.Ready ∧ d.nesting = max c.nesting q.nesting := by
  cases h with
  | given x => exact ⟨_, rfl, .computed _, rfl⟩
  | computed p => exact ⟨_, rfl, .computed _, rfl⟩

/-- A ready coordinate has a sine, as deep as the coordinate is. -/
theorem Ready.apply {c : Coordinate} (h : c.Ready) (f : Float → Float) :
    ∃ q, c.apply f = .ok q ∧ q.nesting = c.nesting := by
  cases h with
  | given x => exact ⟨_, rfl, rfl⟩
  | computed p => exact ⟨_, rfl, rfl⟩

end Coordinate

/-! ## Poses -/

namespace Pose

/-- All three coordinates are ready. -/
structure Ready (p : Pose) : Prop where
  x : p.x.Ready
  y : p.y.Ready
  heading : p.heading.Ready

/-- None of the three coordinates lies in a list. -/
structure Flat (p : Pose) : Prop where
  x : p.x.nesting = 0
  y : p.y.nesting = 0
  heading : p.heading.nesting = 0

theorem ready_ofFloats (x y heading : Float) : (ofFloats x y heading).Ready :=
  ⟨.given x, .given y, .given heading⟩

theorem flat_ofFloats (x y heading : Float) : (ofFloats x y heading).Flat :=
  ⟨rfl, rfl, rfl⟩

/-- A move from a ready pose ends in a ready one, and stays outside lists. -/
theorem Ready.ahead {p : Pose} (h : p.Ready) (m : Motion) :
    ∃ p', m.ahead p = .ok p' ∧ p'.Ready ∧ (p.Flat → p'.Flat) := by
  obtain ⟨cosine, hcos, hcosn⟩ := h.heading.apply Float.cos
  obtain ⟨sine, hsin, hsinn⟩ := h.heading.apply Float.sin
  obtain ⟨x, hx, hxr, hxn⟩ := h.x.changed (· + ·) (m.stride cosine)
  obtain ⟨y, hy, hyr, hyn⟩ := h.y.changed (· + ·) (m.stride sine)
  refine ⟨⟨x, y, p.heading⟩, ?_, ⟨hxr, hyr, h.heading⟩, fun hflat => ⟨?_, ?_, hflat.heading⟩⟩
  · unfold Motion.ahead
    rw [hcos, hsin]
    show (p.x.changed _ _ >>= fun x => p.y.changed _ _ >>= fun y => _) = _
    rw [hx]
    show (p.y.changed _ _ >>= fun y => _) = _
    rw [hy]
    rfl
  · have hstride : (m.stride cosine).nesting = max 0 cosine.nesting := rfl
    have := hflat.x
    have := hflat.heading
    show x.nesting = 0
    omega
  · have hstride : (m.stride sine).nesting = max 0 sine.nesting := rfl
    have := hflat.y
    have := hflat.heading
    show y.nesting = 0
    omega

/-- A turn from a ready pose ends in a ready one, and outside lists if the angle is. -/
theorem Ready.turned {p : Pose} (h : p.Ready) (m : Motion) (f : Float → Float → Float) :
    ∃ p', m.turned f p = .ok p' ∧ p'.Ready ∧ (m.turn.nesting = 0 → p.Flat → p'.Flat) := by
  obtain ⟨heading, hh, hhr, hhn⟩ := h.heading.changed f m.turn
  refine ⟨⟨p.x, p.y, heading⟩, ?_, ⟨h.x, h.y, hhr⟩, fun hturn hflat => ⟨hflat.x, hflat.y, ?_⟩⟩
  · unfold Motion.turned
    rw [hh]
    rfl
  · have := hflat.heading
    show heading.nesting = 0
    omega

end Pose

/-! ## Shapes -/

/-- A block of segments with coordinates outside lists has three levels, which are counted.  Nothing else
    is used of how many levels are counted, which depends on the version of the arrays. -/
theorem ListFault.three_le_deepest : 3 ≤ deepest := by decide

/-- A shape has no fault if it is even and not too deep. -/
theorem Shape.fault?_eq_none_iff (s : Shape) :
    s.fault? = none ↔ s.ragged = false ∧ s.lengths.length ≤ ListFault.deepest := by
  unfold Shape.fault?
  cases hr : s.ragged with
  | true =>
    by_cases hlt : s.lengths.length < ListFault.deepest
    · simp [hlt]
    · simp [hlt]
  | false =>
    by_cases hgt : ListFault.deepest < s.lengths.length
    · simp [hgt]
    · simp [hgt, Nat.le_of_not_lt hgt]

/-! ## Turtles -/

namespace Turtle

/-- The current pose and all saved ones are ready. -/
structure Ready (t : Turtle) : Prop where
  pose : t.pose.Ready
  saved : ∀ p ∈ t.saved, p.Ready

/-- Neither a pose nor a segment has a coordinate in a list. -/
structure Flat (t : Turtle) : Prop where
  pose : t.pose.Flat
  saved : ∀ p ∈ t.saved, p.Flat
  segments : ∀ s ∈ t.segments, ∀ c ∈ s.coordinates, c.nesting = 0

theorem ready_start {p : Pose} (h : p.Ready) : (start p).Ready :=
  ⟨h, fun _ hq => absurd hq List.not_mem_nil⟩

theorem flat_start {p : Pose} (h : p.Flat) : (start p).Flat :=
  ⟨h, fun _ hq => absurd hq List.not_mem_nil, fun _ hs => absurd hs (Array.not_mem_empty _)⟩

/-- A turtle with another ready pose is as ready as it was, and as flat if the pose is. -/
theorem Ready.moved {t : Turtle} (h : t.Ready) {m : Motion} {p : Pose} (hready : p.Ready)
    (hflat : m.turn.nesting = 0 → t.pose.Flat → p.Flat) :
    ({ t with pose := p } : Turtle).Ready ∧
      (m.turn.nesting = 0 → t.Flat → ({ t with pose := p } : Turtle).Flat) :=
  ⟨⟨hready, h.saved⟩, fun hturn ht => ⟨hflat hturn ht.pose, ht.saved, ht.segments⟩⟩

/-- The segment between two flat poses has no coordinate in a list. -/
theorem nesting_of_flat_ends {p q : Pose} (hp : p.Flat) (hq : q.Flat) :
    ∀ c ∈ (⟨p.point, q.point⟩ : Segment).coordinates, c.nesting = 0 := by
  intro c hc
  rcases List.mem_cons.mp hc with rfl | hc
  · exact hp.x
  rcases List.mem_cons.mp hc with rfl | hc
  · exact hp.y
  rcases List.mem_cons.mp hc with rfl | hc
  · exact hq.x
  rw [List.mem_singleton.mp hc]
  exact hq.y

/-- **One command**, by what it does to the scopes: where it cannot be obeyed the turtle says so,
    and where it can the stack is as high afterwards as there are scopes open. -/
theorem obey_cases {t : Turtle} (h : t.Ready) (m : Motion) (c : Command) :
    (c.depthAfter t.depth = none ∧ t.obey m c = .error .noOpenScope) ∨
    ∃ t', c.depthAfter t.depth = some t'.depth ∧ t.obey m c = .ok t' ∧ t'.Ready ∧
      (m.turn.nesting = 0 → t.Flat → t'.Flat) := by
  cases c with
  | draw =>
    obtain ⟨p, hp, hpr, hpf⟩ := h.pose.ahead m
    refine Or.inr ⟨⟨p, t.saved, t.segments.push ⟨t.pose.point, p.point⟩⟩, rfl, ?_, ⟨hpr, h.saved⟩,
      fun _ hflat => ⟨hpf hflat.pose, hflat.saved, ?_⟩⟩
    · show (m.ahead t.pose >>= _) = _
      rw [hp]
      rfl
    · -- every segment is an old one or the one just drawn
      intro s hs
      rcases Array.mem_push.mp hs with hs | rfl
      · exact hflat.segments s hs
      · exact nesting_of_flat_ends hflat.pose (hpf hflat.pose)
  | move =>
    obtain ⟨p, hp, hpr, hpf⟩ := h.pose.ahead m
    refine Or.inr ⟨{ t with pose := p }, rfl, ?_, h.moved hpr fun _ => hpf⟩
    show (m.ahead t.pose >>= _) = _
    rw [hp]
    rfl
  | turnBack =>
    obtain ⟨p, hp, hpr, hpf⟩ := h.pose.turned m (· - ·)
    refine Or.inr ⟨{ t with pose := p }, rfl, ?_, h.moved hpr hpf⟩
    show (m.turned _ t.pose >>= _) = _
    rw [hp]
    rfl
  | turn =>
    obtain ⟨p, hp, hpr, hpf⟩ := h.pose.turned m (· + ·)
    refine Or.inr ⟨{ t with pose := p }, rfl, ?_, h.moved hpr hpf⟩
    show (m.turned _ t.pose >>= _) = _
    rw [hp]
    rfl
  | save =>
    refine Or.inr ⟨⟨t.pose, t.pose :: t.saved, t.segments⟩, rfl, rfl, ⟨h.pose, ?_⟩,
      fun _ hflat => ⟨hflat.pose, ?_, hflat.segments⟩⟩
    · exact List.forall_mem_cons.mpr ⟨h.pose, h.saved⟩
    · exact List.forall_mem_cons.mpr ⟨hflat.pose, hflat.saved⟩
  | restore =>
    -- the stack is taken apart as the count is: none saved is none open
    obtain ⟨pose, saved, segments⟩ := t
    cases saved with
    | nil => exact Or.inl ⟨rfl, rfl⟩
    | cons p saved =>
      obtain ⟨hp, hrest⟩ := List.forall_mem_cons.mp h.saved
      refine Or.inr ⟨⟨p, saved, segments⟩, rfl, rfl, ⟨hp, hrest⟩, ?_⟩
      intro _ hflat
      obtain ⟨hpf, hrestf⟩ := List.forall_mem_cons.mp hflat.saved
      exact ⟨hpf, hrestf, hflat.segments⟩
  | ignore => exact Or.inr ⟨t, rfl, rfl, h, fun _ hflat => hflat⟩

/-- Reading one symbol more. -/
theorem run_cons (m : Motion) (t : Turtle) (c : Symbol) (w : Word) :
    t.run m (c :: w) = t.obey m (.ofSymbol c) >>= fun t => t.run m w :=
  List.foldlM_cons

/-- **A whole word**: the turtle reads it to its end, with as many poses saved as scopes are open,
    or fails for want of a saved pose, as the count of scopes does.  Induction over the word; one
    command takes turtle and count to the same number of scopes. -/
theorem run_cases {t : Turtle} (h : t.Ready) (m : Motion) (w : Word) (position : Nat) :
    (∃ i, depthFrom w position t.depth = .error (.unmatchedClose i) ∧
      t.run m w = .error .noOpenScope) ∨
    ∃ t', depthFrom w position t.depth = .ok t'.depth ∧ t.run m w = .ok t' ∧ t'.Ready ∧
      (m.turn.nesting = 0 → t.Flat → t'.Flat) := by
  induction w generalizing t position with
  | nil => exact Or.inr ⟨t, rfl, rfl, h, fun _ hflat => hflat⟩
  | cons c w ih =>
    rw [depthFrom_cons, run_cons]
    rcases obey_cases h m (.ofSymbol c) with ⟨hc, hobey⟩ | ⟨t₁, hc, hobey, h₁, hflat₁⟩
    · rw [hc, hobey]
      exact Or.inl ⟨position, rfl, rfl⟩
    · rw [hc, hobey]
      rcases ih h₁ (position + 1) with ⟨i, hd, hrun⟩ | ⟨t', hd, hrun, h', hflat'⟩
      · exact Or.inl ⟨i, hd, hrun⟩
      · exact Or.inr ⟨t', hd, hrun, h', fun hturn hflat => hflat' hturn (hflat₁ hturn hflat)⟩

/-! ## The block of segments -/

/-- A new pose alone takes back no segment. -/
theorem segments_eq_of_moved {t t' : Turtle} {r : Except Error Pose}
    (h : (r >>= fun pose => pure { t with pose }) = .ok t') : t'.segments = t.segments := by
  obtain ⟨pose, -, h⟩ := bind_ok h
  obtain rfl := Except.ok.inj h
  rfl

/-- A command draws at most one segment more and takes none back. -/
theorem obey_segments {m : Motion} {t t' : Turtle} {c : Command} (h : t.obey m c = .ok t') :
    t.segments.toList <+: t'.segments.toList := by
  cases c with
  | draw =>
    obtain ⟨p, -, h⟩ := bind_ok h
    obtain rfl := Except.ok.inj h
    show t.segments.toList <+: (t.segments.push _).toList
    rw [Array.toList_push]
    exact List.prefix_append _ _
  | move => exact segments_eq_of_moved h ▸ List.prefix_refl _
  | turnBack => exact segments_eq_of_moved h ▸ List.prefix_refl _
  | turn => exact segments_eq_of_moved h ▸ List.prefix_refl _
  | save => obtain rfl := Except.ok.inj h; exact List.prefix_refl _
  | restore =>
    obtain ⟨pose, saved, segments⟩ := t
    cases saved with
    | nil => nomatch h
    | cons p saved => obtain rfl := Except.ok.inj h; exact List.prefix_refl _
  | ignore => obtain rfl := Except.ok.inj h; exact List.prefix_refl _

/-- The segments of a turtle are the first ones of what it has drawn later. -/
theorem run_segments {m : Motion} {t t' : Turtle} {w : Word} (h : t.run m w = .ok t') :
    t.segments.toList <+: t'.segments.toList := by
  induction w generalizing t with
  | nil => obtain rfl := Except.ok.inj h; exact List.prefix_refl _
  | cons c w ih =>
    rw [run_cons] at h
    obtain ⟨t₁, hobey, h⟩ := bind_ok h
    exact (obey_segments hobey).trans (ih h)

/-- The smallest of equal numbers is any of them. -/
theorem foldl_min_self {n : Nat} {rest : List Nat} (h : ∀ k ∈ rest, k = n) :
    rest.foldl min n = n := by
  induction rest with
  | nil => rfl
  | cons k rest ih =>
    obtain ⟨rfl, hrest⟩ := List.forall_mem_cons.mp h
    rw [List.foldl_cons, Nat.min_self]
    exact ih hrest

/-- All coordinates of the segments are nested equally deep, and three levels more are not too
    many. -/
def Even (t : Turtle) : Prop :=
  ∃ n, n + 3 ≤ ListFault.deepest ∧ ∀ k ∈ t.nestings, k = n

/-- **The block**: the segments make one exactly if they are even. -/
theorem shape_fault?_eq_none_iff (t : Turtle) : t.shape.fault? = none ↔ t.Even := by
  rw [Shape.fault?_eq_none_iff]
  unfold shape Even
  cases hns : t.nestings with
  | nil =>
    have hdeep : 1 ≤ ListFault.deepest := Nat.le_trans (by omega) ListFault.three_le_deepest
    exact ⟨fun _ => ⟨0, ListFault.three_le_deepest, fun _ hk => absurd hk List.not_mem_nil⟩,
      fun _ => ⟨rfl, hdeep⟩⟩
  | cons n rest =>
    show rest.any (· != n) = false ∧
      ([t.segments.size, 2, 2] ++ List.replicate (rest.foldl min n) 1).length ≤ _ ↔ _
    have heven : rest.any (· != n) = false ↔ ∀ k ∈ rest, k = n := by
      rw [List.any_eq_false]
      exact forall₂_congr fun k _ => by simp
    rw [heven, List.length_append, List.length_replicate]
    constructor
    · rintro ⟨hrest, hdeep⟩
      rw [foldl_min_self hrest] at hdeep
      exact ⟨n, by rw [Nat.add_comm]; exact hdeep, List.forall_mem_cons.mpr ⟨rfl, hrest⟩⟩
    · rintro ⟨k, hdeep, hall⟩
      obtain ⟨rfl, hrest⟩ := List.forall_mem_cons.mp hall
      refine ⟨hrest, ?_⟩
      rw [foldl_min_self hrest, Nat.add_comm]
      exact hdeep

/-- The coordinates of a flat turtle's segments all lie in no list. -/
theorem Flat.even {t : Turtle} (h : t.Flat) : t.Even := by
  refine ⟨0, ListFault.three_le_deepest, fun n hn => ?_⟩
  obtain ⟨s, hs, hns⟩ := List.mem_flatMap.mp hn
  obtain ⟨c, hc, rfl⟩ := List.mem_map.mp hns
  exact h.segments s (Array.mem_toList_iff.mp hs) c hc

/-- Some of the segments of an even turtle are even. -/
theorem even_of_segments {t t' : Turtle} (h : t.segments.toList ⊆ t'.segments.toList)
    (heven : t'.Even) : t.Even := by
  obtain ⟨n, hdeep, hall⟩ := heven
  refine ⟨n, hdeep, fun k hk => hall k ?_⟩
  obtain ⟨s, hs, hks⟩ := List.mem_flatMap.mp hk
  exact List.mem_flatMap.mpr ⟨s, h hs, hks⟩

end Turtle

end Lindenmayer
