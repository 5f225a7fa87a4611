/-
  Words, the strings that derivations write and drawings are made from, and their shortest prefixes.

  A word is the list of its symbols, and a symbol is one Unicode code point.  Every text of
  the library — rule text, axioms, productions, derived strings — is a word in this sense, so
  lengths and positions count code points throughout and no other length exists.

  A scan that reads a word from left to right and stops as soon as what it has read is bad stops
  after the SHORTEST bad prefix.  The bracket check and the length check of a pass are such scans,
  each with a badness of its own, and both are described with `ShortestPrefix`.  Its one law is
  `shortestPrefix_cons`: if the empty prefix is not bad, the shortest bad prefix of `c :: w` is `c`
  and then the shortest prefix of `w` that is bad behind `c`, so that an induction over the word
  follows the scan symbol by symbol.
-/

namespace Lindenmayer

/-- One symbol of a word: a Unicode code point. -/
abbrev Symbol := Char

/-- A finite string of symbols. -/
abbrev Word := List Symbol

/-! ## Shortest prefixes -/

/-- `u` is the shortest prefix of `w` that `P` holds of. -/
structure ShortestPrefix (P : Word → Prop) (w u : Word) : Prop where
  /-- It is a prefix. -/
  initial : u <+: w
  /-- `P` holds of it. -/
  holds : P u
  /-- `P` holds of no shorter one. -/
  least : ∀ v, v <+: w → P v → u.length ≤ v.length

namespace ShortestPrefix

/-- What holds of the empty word holds of no shorter prefix. -/
theorem nil {P : Word → Prop} (h : P []) (w : Word) : ShortestPrefix P w [] :=
  ⟨List.nil_prefix, h, fun _ _ _ => Nat.zero_le _⟩

/-- There is only one shortest prefix. -/
theorem unique {P : Word → Prop} {w u v : Word} (hu : ShortestPrefix P w u)
    (hv : ShortestPrefix P w v) : u = v := by
  have hlen : u.length = v.length :=
    Nat.le_antisymm (hu.least v hv.initial hv.holds) (hv.least u hu.initial hu.holds)
  exact (List.prefix_of_prefix_length_le hu.initial hv.initial (Nat.le_of_eq hlen)).eq_of_length hlen

/-- In a longer word the shortest prefix is the same. -/
theorem append {P : Word → Prop} {w u : Word} (h : ShortestPrefix P w u) (v : Word) :
    ShortestPrefix P (w ++ v) u := by
  refine ⟨h.initial.trans (List.prefix_append w v), h.holds, fun t ht hPt => ?_⟩
  rcases Nat.le_total t.length w.length with hle | hle
  · exact h.least t (List.prefix_of_prefix_length_le ht (List.prefix_append w v) hle) hPt
  · exact Nat.le_trans h.initial.length_le hle

end ShortestPrefix

/-- **The law of the scan**: with the empty prefix out of the question, the first symbol belongs to
    the shortest prefix and the rest of it is the shortest one of the rest of the word. -/
theorem shortestPrefix_cons {P : Word → Prop} (h : ¬ P []) (c : Symbol) (w u : Word) :
    ShortestPrefix P (c :: w) (c :: u) ↔ ShortestPrefix (fun v => P (c :: v)) w u := by
  constructor
  · intro hs
    refine ⟨(List.prefix_cons_inj c).mp hs.initial, hs.holds, fun v hv hPv => ?_⟩
    exact Nat.le_of_succ_le_succ (hs.least (c :: v) ((List.prefix_cons_inj c).mpr hv) hPv)
  · intro hs
    refine ⟨(List.prefix_cons_inj c).mpr hs.initial, hs.holds, fun v hv hPv => ?_⟩
    rcases List.prefix_cons_iff.mp hv with rfl | ⟨t, rfl, ht⟩
    · exact absurd hPv h
    · exact Nat.succ_le_succ (hs.least t ht hPv)

/-- What holds of some prefix holds of a shortest one. -/
theorem exists_shortestPrefix {P : Word → Prop} {w u : Word} (hu : u <+: w) (hP : P u) :
    ∃ v, ShortestPrefix P w v := by
  induction w generalizing P u with
  | nil =>
    obtain rfl := List.prefix_nil.mp hu
    exact ⟨[], ShortestPrefix.nil hP []⟩
  | cons c w ih =>
    by_cases hnil : P []
    · exact ⟨[], ShortestPrefix.nil hnil _⟩
    · rcases List.prefix_cons_iff.mp hu with rfl | ⟨t, rfl, ht⟩
      · exact absurd hP hnil
      · obtain ⟨v, hv⟩ := ih (P := fun v => P (c :: v)) ht hP
        exact ⟨c :: v, (shortestPrefix_cons hnil c w v).mpr hv⟩

end Lindenmayer
