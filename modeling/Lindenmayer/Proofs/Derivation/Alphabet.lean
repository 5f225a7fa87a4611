/-
  The alphabet of a run: which symbols its words are written with.

  No symbol appears in a run from nowhere.  What a pass writes comes from the replacements of the
  symbols that it reads (`pass_symbols`), and so a set of symbols that holds those of the first word,
  and with every symbol all that it may be replaced by, holds all symbols of the run
  (`run_closed`).  On symbols outside such a set it does not matter what a replacement does.

  Two replacements may be compared along with the states that they carry: as long as related states
  give the same replacement and related states again (`Replacement.Lockstep`), the runs give the same
  words and the same errors.  Two cases of this are used: replacements that agree whatever their
  states (`run_lockstep`), and replacements that are the same on the set, states included
  (`run_congr`).

  Replacements need not be words for this, since a pass that joins something else fails.
-/
import Lindenmayer.Proofs.Derivation.Stages

namespace Lindenmayer

variable {σ τ α : Type} [RulePart α]

/-! ## Where symbols come from -/

/-- The symbols of parts that could be joined are symbols of words among them. -/
theorem joinReversed_symbols {written : List α} {behind w : Word}
    (h : joinReversed written behind = .ok w) {c : Symbol} (hc : c ∈ w) :
    c ∈ behind ∨ ∃ part ∈ written, ∃ v, RulePart.Is part v ∧ c ∈ v := by
  induction written generalizing behind with
  | nil =>
    obtain rfl := Except.ok.inj h
    exact Or.inl hc
  | cons part written ih =>
    rw [joinReversed] at h
    split at h
    · rename_i v hv
      rcases ih h with hmem | ⟨earlier, hmem, hrest⟩
      · rcases List.mem_append.mp hmem with hmem | hmem
        · exact Or.inr ⟨part, List.mem_cons_self, v, hv, hmem⟩
        · exact Or.inl hmem
      · exact Or.inr ⟨earlier, List.mem_cons_of_mem part hmem, hrest⟩
    · cases h

/-- The symbols of what the pass over the rest of a word writes: those written before, and those of
    replacements of the rest. -/
theorem passFrom_symbols {replace : Replacement σ α} {bound : Option Int} {number : Nat}
    {rest : Word} {total : Nat} {written : List α} {state : σ} {w : Word}
    (h : (passFrom replace bound number rest total written state).1 = .ok w) {c : Symbol}
    (hc : c ∈ w) :
    (∃ part ∈ written, ∃ v, RulePart.Is part v ∧ c ∈ v) ∨
      ∃ d ∈ rest, ∃ s v, RulePart.Is (replace d s).1 v ∧ c ∈ v := by
  induction rest generalizing total written state with
  | nil =>
    rcases joinReversed_symbols h hc with hnil | hpart
    · exact absurd hnil List.not_mem_nil
    · exact Or.inl hpart
  | cons d rest ih =>
    rw [passFrom] at h
    dsimp only at h
    split at h
    · cases h
    · split at h
      · cases h
      · rcases ih h with ⟨part, hmem, v, hv, hcv⟩ | ⟨e, he, hrest⟩
        · rcases List.mem_cons.mp hmem with rfl | hmem
          · exact Or.inr ⟨d, List.mem_cons_self, state, v, hv, hcv⟩
          · exact Or.inl ⟨part, hmem, v, hv, hcv⟩
        · exact Or.inr ⟨e, List.mem_cons_of_mem d he, hrest⟩

/-- **Every symbol that a pass writes** is one of a replacement of a symbol that it reads. -/
theorem pass_symbols {replace : Replacement σ α} {bound : Option Int} {number : Nat} {w w' : Word}
    {state : σ} (h : (pass replace bound number w state).1 = .ok w') {c : Symbol} (hc : c ∈ w') :
    ∃ d ∈ w, ∃ s v, RulePart.Is (replace d s).1 v ∧ c ∈ v := by
  rcases passFrom_symbols h hc with ⟨part, hmem, -⟩ | hd
  · exact absurd hmem List.not_mem_nil
  · exact hd

/-! ## Closed alphabets -/

/-- `Closed replace A` — whatever a symbol of the alphabet `A` may be replaced by is written with
    symbols of `A`. -/
def Replacement.Closed (replace : Replacement σ α) (A : Symbol → Prop) : Prop :=
  ∀ c, A c → ∀ state v, RulePart.Is (replace c state).1 v → ∀ d ∈ v, A d

section Closed

variable {replace : Replacement σ α} {A : Symbol → Prop}

theorem pass_closed (hclosed : replace.Closed A) {bound : Option Int} {number : Nat} {w w' : Word}
    {state : σ} (hw : ∀ c ∈ w, A c) (h : (pass replace bound number w state).1 = .ok w') :
    ∀ c ∈ w', A c := by
  intro c hc
  obtain ⟨d, hd, s, v, hv, hcv⟩ := pass_symbols h hc
  exact hclosed d (hw d hd) s v hv c hcv

end Closed

/-! ## Two runs in lockstep -/

/-- `Lockstep replace replace' A S` — from states that `S` relates, a symbol of the alphabet `A` is
    replaced by the same, and the states behind it are related again. -/
def Replacement.Lockstep (replace : Replacement σ α) (replace' : Replacement τ α)
    (A : Symbol → Prop) (S : σ → τ → Prop) : Prop :=
  ∀ c, A c → ∀ s s', S s s' →
    (replace c s).1 = (replace' c s').1 ∧ S (replace c s).2 (replace' c s').2

section Lockstep

variable {replace : Replacement σ α} {replace' : Replacement τ α} {A : Symbol → Prop}
  {S : σ → τ → Prop}

/-- Two replacements in lockstep give passes with the same outcome, also if that is an error, and
    related states.  Induction over the word; the running lengths are the same at every symbol. -/
theorem passFrom_lockstep (h : replace.Lockstep replace' A S) (bound : Option Int) (number : Nat)
    {rest : Word} (hrest : ∀ c ∈ rest, A c) (total : Nat) (written : List α) {state : σ}
    {state' : τ} (hstate : S state state') :
    (passFrom replace bound number rest total written state).1 =
        (passFrom replace' bound number rest total written state').1 ∧
      S (passFrom replace bound number rest total written state).2
        (passFrom replace' bound number rest total written state').2 := by
  induction rest generalizing total written state state' with
  | nil => exact ⟨rfl, hstate⟩
  | cons c rest ih =>
    obtain ⟨hc, hrest⟩ := List.forall_mem_cons.mp hrest
    obtain ⟨hsame, hnext⟩ := h c hc state state' hstate
    rw [passFrom, passFrom]
    dsimp only
    rw [← hsame]
    cases (RulePart.toValue (replace c state).1).length? with
    | none => exact ⟨rfl, hnext⟩
    | some length =>
      dsimp only
      cases exceeded? bound (total + length) with
      | some m => exact ⟨rfl, hnext⟩
      | none => exact ih hrest _ _ hnext

/-- The passes of two replacements in lockstep on a closed alphabet, from the same word and with the
    same lengths so far. -/
theorem runFrom_lockstep (h : replace.Lockstep replace' A S) (hclosed : replace.Closed A)
    (bound : Option Int) (passes : Nat) {w : Word} (hw : ∀ c ∈ w, A c) (lengths : Array Nat)
    {state : σ} {state' : τ} (hstate : S state state') :
    (runFrom replace bound passes ⟨w, lengths, state⟩).outcome =
        (runFrom replace' bound passes ⟨w, lengths, state'⟩).outcome ∧
      (runFrom replace bound passes ⟨w, lengths, state⟩).lengths =
        (runFrom replace' bound passes ⟨w, lengths, state'⟩).lengths ∧
      S (runFrom replace bound passes ⟨w, lengths, state⟩).state
        (runFrom replace' bound passes ⟨w, lengths, state'⟩).state := by
  induction passes generalizing w lengths state state' with
  | zero => exact ⟨rfl, rfl, hstate⟩
  | succ passes ih =>
    have hpass : (pass replace bound (lengths.size + 1) w state).1 =
          (pass replace' bound (lengths.size + 1) w state').1 ∧
        S (pass replace bound (lengths.size + 1) w state).2
          (pass replace' bound (lengths.size + 1) w state').2 :=
      passFrom_lockstep h bound _ hw 0 [] hstate
    rw [runFrom, runFrom]
    dsimp only
    cases hfirst : pass replace bound (lengths.size + 1) w state with
    | mk outcome s =>
    cases hsecond : pass replace' bound (lengths.size + 1) w state' with
    | mk outcome' s' =>
    rw [hfirst, hsecond] at hpass
    obtain ⟨houtcome, hnext⟩ := hpass
    obtain rfl : outcome = outcome' := houtcome
    cases outcome with
    | error cause => exact ⟨rfl, rfl, hnext⟩
    | ok v =>
      have hv : ∀ c ∈ v, A c := pass_closed hclosed hw (congrArg Prod.fst hfirst)
      exact ih hv _ hnext

/-- **Two replacements that agree on a closed alphabet give the same run**: the same word or the same
    error, and the same lengths. -/
theorem run_lockstep (hsame : ∀ c, A c → ∀ s s', (replace c s).1 = (replace' c s').1)
    (hclosed : replace.Closed A) (bound : Option Int) (passes : Nat) {w : Word}
    (hw : ∀ c ∈ w, A c) (state : σ) (state' : τ) :
    (run replace bound passes w state).outcome = (run replace' bound passes w state').outcome ∧
      (run replace bound passes w state).lengths = (run replace' bound passes w state').lengths := by
  -- the states go their own ways
  have hstep : replace.Lockstep replace' A fun _ _ => True :=
    fun c hc s s' _ => ⟨hsame c hc s s', trivial⟩
  have hstate : (fun (_ : σ) (_ : τ) => True) state state' := trivial
  obtain ⟨houtcome, hlengths, -⟩ := runFrom_lockstep hstep hclosed bound passes hw #[] hstate
  exact ⟨houtcome, hlengths⟩

/-- **Two replacements that agree on a closed alphabet, states included, give the same trace.** -/
theorem run_congr {replace' : Replacement σ α} (hsame : ∀ c, A c → replace c = replace' c)
    (hclosed : replace.Closed A) (bound : Option Int) (passes : Nat) {w : Word}
    (hw : ∀ c ∈ w, A c) (state : σ) :
    run replace bound passes w state = run replace' bound passes w state := by
  have hstep : replace.Lockstep replace' A Eq := by
    rintro c hc s _ rfl
    rw [hsame c hc]
    exact ⟨rfl, rfl⟩
  obtain ⟨houtcome, hlengths, hstate⟩ :=
    runFrom_lockstep hstep hclosed bound passes hw #[] (Eq.refl state)
  show (⟨_, _, _⟩ : Trace σ) = ⟨_, _, _⟩
  exact congr (congr (congrArg Trace.mk houtcome) hlengths) hstate

end Lockstep

end Lindenmayer
