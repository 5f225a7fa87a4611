/-
  Tokens are the maximal runs.

  A RUN of a text is a stretch of it that is not empty, holds no blank and cannot be made longer: what
  stands before it ends with a blank or is nothing, and what stands behind it begins with one or is
  nothing.  The tokens of a text are its runs, all of them and in order (`areRuns_tokens`).

  The argument follows the blanks.  A blank keeps runs apart as it keeps tokens apart: the runs of
  `u ++ b :: v` are those of `u`, and those of `v` behind them (`isRun_append_blank_iff`).  A text
  without blanks is one run, or empty.  And every text is of one of these two forms.
-/
import Lindenmayer.Proofs.Text.Tokens

namespace Lindenmayer.Text

/-- The text ends with a blank, or is empty. -/
def EndsBlank (text : Word) : Prop :=
  ∀ c ∈ text.getLast?, isBlank c = true

/-- The text begins with a blank, or is empty. -/
def BeginsBlank (text : Word) : Prop :=
  ∀ c ∈ text.head?, isBlank c = true

/-- A maximal stretch of characters that are no blanks, and the place where it begins. -/
structure IsRun (text : Word) (start : Nat) (run : Word) : Prop where
  ne_nil : run ≠ []
  blankFree : BlankFree run
  /-- It stands there, between blanks or the ends of the text. -/
  between : ∃ before after, text = before ++ run ++ after ∧ before.length = start ∧
    EndsBlank before ∧ BeginsBlank after

/-- The runs of a text with their places, from left to right. -/
structure PlacedRuns (text : Word) (runs : List (Nat × Word)) : Prop where
  ordered : runs.Pairwise fun r s => r.1 < s.1
  mem_iff : ∀ start run, (start, run) ∈ runs ↔ IsRun text start run

/-- These are the runs of a text, in order. -/
def AreRuns (text : Word) (runs : List Word) : Prop :=
  ∃ placed, PlacedRuns text placed ∧ placed.map Prod.snd = runs

/-! ## Runs and blanks -/

theorem endsBlank_append_blank {b : Char} (hb : isBlank b = true) (u v : Word) :
    EndsBlank (u ++ b :: v) ↔ EndsBlank v := by
  simp only [EndsBlank, List.getLast?_append, List.getLast?_cons, Option.some_or, Option.mem_def]
  cases v.getLast? with
  | none => simp [hb]
  | some c => simp

theorem beginsBlank_append_blank {b : Char} (hb : isBlank b = true) (u v : Word) :
    BeginsBlank (u ++ b :: v) ↔ BeginsBlank u := by
  cases u with
  | nil => simp [BeginsBlank, hb]
  | cons c u => simp [BeginsBlank]

/-- A text without blanks is its only run, unless it is empty. -/
theorem isRun_iff_of_blankFree {text : Word} (h : BlankFree text) {start : Nat} {run : Word} :
    IsRun text start run ↔ text ≠ [] ∧ start = 0 ∧ run = text := by
  constructor
  · rintro ⟨hne, -, before, after, rfl, rfl, hbefore, hafter⟩
    -- its neighbours would be blanks of the text
    have hleft : before = [] := by
      rcases List.eq_nil_or_concat before with hnil | ⟨u, c, rfl⟩
      · exact hnil
      · have hc : isBlank c = true := hbefore c (by simp)
        rw [h c (by simp)] at hc
        nomatch hc
    have hright : after = [] := by
      cases after with
      | nil => rfl
      | cons c v =>
        have hc : isBlank c = true := hafter c rfl
        rw [h c (by simp)] at hc
        nomatch hc
    subst hleft hright
    rw [List.nil_append, List.append_nil]
    exact ⟨hne, rfl, rfl⟩
  · rintro ⟨hne, rfl, rfl⟩
    refine ⟨hne, h, [], [], ?_, rfl, fun c hc => (nomatch hc), fun c hc => (nomatch hc)⟩
    rw [List.nil_append, List.append_nil]

/-- **A blank keeps runs apart.** -/
theorem isRun_append_blank_iff {b : Char} (hb : isBlank b = true) {u v : Word} {start : Nat}
    {run : Word} :
    IsRun (u ++ b :: v) start run ↔
      IsRun u start run ∨ ∃ s, start = u.length + 1 + s ∧ IsRun v s run := by
  constructor
  · rintro ⟨hne, hfree, before, after, htext, rfl, hbefore, hafter⟩
    have hnot : b ∉ run := fun hmem => by
      rw [hfree b hmem] at hb
      nomatch hb
    -- the run does not hold the blank, so it ends before it or begins behind it
    rcases List.append_eq_append_iff.mp htext with ⟨w, hupto, hfrom⟩ | ⟨w, rfl, rfl⟩
    · rcases List.cons_eq_append_iff.mp hfrom with ⟨rfl, rfl⟩ | ⟨x, rfl, rfl⟩
      · refine Or.inl ⟨hne, hfree, before, [], ?_, rfl, hbefore, fun c hc => (nomatch hc)⟩
        rw [List.append_nil, hupto, List.append_nil]
      · rcases List.append_eq_append_iff.mp hupto with ⟨y, -, rfl⟩ | ⟨y, rfl, hrun⟩
        · exact absurd (List.mem_append_right y List.mem_cons_self) hnot
        · rcases List.cons_eq_append_iff.mp hrun with ⟨rfl, rfl⟩ | ⟨z, rfl, rfl⟩
          · exact absurd List.mem_cons_self hnot
          · refine Or.inr ⟨z.length, ?_, hne, hfree, z, after, rfl, rfl, ?_, hafter⟩
            · rw [List.length_append, List.length_cons]
              omega
            · exact (endsBlank_append_blank hb u z).mp hbefore
    · refine Or.inl ⟨hne, hfree, before, w, rfl, rfl, hbefore, ?_⟩
      exact (beginsBlank_append_blank hb w v).mp hafter
  · rintro (⟨hne, hfree, before, after, rfl, rfl, hbefore, hafter⟩ |
      ⟨s, rfl, hne, hfree, before, after, rfl, rfl, hbefore, hafter⟩)
    · refine ⟨hne, hfree, before, after ++ b :: v, ?_, rfl, hbefore, ?_⟩
      · rw [List.append_assoc (before ++ run)]
      · exact (beginsBlank_append_blank hb after v).mpr hafter
    · refine ⟨hne, hfree, u ++ b :: before, after, ?_, ?_, ?_, hafter⟩
      · simp only [List.append_assoc, List.cons_append]
      · rw [List.length_append, List.length_cons]
        omega
      · exact (endsBlank_append_blank hb u before).mpr hbefore

/-! ## Tokens are runs -/

theorem areRuns_of_blankFree {text : Word} (h : BlankFree text) : AreRuns text (tokens text) := by
  by_cases hne : text = []
  · subst hne
    refine ⟨[], ⟨List.Pairwise.nil, fun start run => ?_⟩, rfl⟩
    rw [isRun_iff_of_blankFree h]
    exact ⟨fun hmem => absurd hmem List.not_mem_nil, fun hrun => absurd rfl hrun.1⟩
  · rw [tokens_of_blankFree h hne]
    refine ⟨[(0, text)], ⟨List.pairwise_singleton _ _, fun start run => ?_⟩, rfl⟩
    rw [isRun_iff_of_blankFree h, List.mem_singleton, Prod.mk.injEq]
    exact (and_iff_right hne).symm

/-- Runs with their places, behind so many other characters. -/
def shifted (offset : Nat) (runs : List (Nat × Word)) : List (Nat × Word) :=
  runs.map fun r => (offset + r.1, r.2)

theorem mem_shifted_iff {offset start : Nat} {run : Word} {runs : List (Nat × Word)} :
    (start, run) ∈ shifted offset runs ↔ ∃ s, start = offset + s ∧ (s, run) ∈ runs := by
  rw [shifted, List.mem_map]
  constructor
  · rintro ⟨⟨s, r⟩, hmem, heq⟩
    obtain ⟨rfl, rfl⟩ := Prod.mk.inj heq
    exact ⟨s, rfl, hmem⟩
  · rintro ⟨s, rfl, hmem⟩
    exact ⟨(s, run), hmem, rfl⟩

theorem PlacedRuns.start_le {text : Word} {runs : List (Nat × Word)} (h : PlacedRuns text runs)
    {r : Nat × Word} (hr : r ∈ runs) : r.1 ≤ text.length := by
  obtain ⟨-, -, before, after, rfl, hstart, -, -⟩ := (h.mem_iff r.1 r.2).mp hr
  rw [← hstart, List.length_append, List.length_append]
  omega

/-- The runs of two texts with a blank between them are those of the one, then those of the other. -/
theorem areRuns_append_blank {b : Char} (hb : isBlank b = true) {u v : Word} {us vs : List Word}
    (hu : AreRuns u us) (hv : AreRuns v vs) : AreRuns (u ++ b :: v) (us ++ vs) := by
  obtain ⟨ps, hps, rfl⟩ := hu
  obtain ⟨qs, hqs, rfl⟩ := hv
  refine ⟨ps ++ shifted (u.length + 1) qs, ⟨?_, fun start run => ?_⟩, ?_⟩
  · rw [List.pairwise_append]
    refine ⟨hps.ordered, ?_, ?_⟩
    · exact List.pairwise_map.mpr (hqs.ordered.imp fun hlt => Nat.add_lt_add_left hlt _)
    · intro p hp q hq
      have hle := hps.start_le hp
      obtain ⟨s, hs, -⟩ := mem_shifted_iff.mp hq
      omega
  · rw [List.mem_append, hps.mem_iff, isRun_append_blank_iff hb, mem_shifted_iff]
    simp only [hqs.mem_iff]
  · rw [List.map_append, shifted, List.map_map]
    rfl

/-- **The tokens of a text are its runs.**  Induction over the length of the text, which is cut at any
    of its blanks. -/
theorem areRuns_tokens (text : Word) : AreRuns text (tokens text) := by
  induction hn : text.length using Nat.strongRecOn generalizing text with
  | ind n ih =>
    by_cases hfree : BlankFree text
    · exact areRuns_of_blankFree hfree
    · obtain ⟨b, hmem, hb⟩ : ∃ b ∈ text, isBlank b = true := by
        simpa [BlankFree] using hfree
      obtain ⟨u, v, rfl⟩ := List.append_of_mem hmem
      rw [List.length_append, List.length_cons] at hn
      rw [tokens_append_blank hb]
      exact areRuns_append_blank hb (ih u.length (by omega) u rfl) (ih v.length (by omega) v rfl)

end Lindenmayer.Text
