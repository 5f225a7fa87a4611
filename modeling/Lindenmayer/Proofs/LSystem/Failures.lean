/-
  How the way from parameters to a picture can fail.

  The parameters of a system are checked when it is made, and once more, by other checks, when its
  word is drawn.  On the whole the second checks find nothing that the first ones let pass, and what
  is left are the errors that the word itself can cause: a pass that exceeds the bound, and a
  closing bracket without a partner.

  The two checks are at odds about whole numbers of great magnitude.  One that no double is near is
  TOO LARGE for the first check, which fails on it with an error of its own instead of refusing the
  parameter.  One that does not fit into 64 bits is TOO WIDE for the second check, while the first
  one lets it pass; for an angle that makes no difference, since it has become a double by then, but
  a step stays the whole number that it was.  `picture_failures` says what happens for all
  parameters, and that these two are the only exceptions.
-/
import Lindenmayer.Picture
import Lindenmayer.Proofs.Derivation.Stages
import Lindenmayer.Proofs.Turtle.Agreement

namespace Lindenmayer

/-- A computation in steps fails in its first step or behind it. -/
theorem bind_error {α β : Type} {r : Except Error α} {f : α → Except Error β} {cause : Error}
    (h : r >>= f = .error cause) : r = .error cause ∨ ∃ a, r = .ok a ∧ f a = .error cause := by
  cases r with
  | error e => exact Or.inl (congrArg Except.error (Except.error.inj h))
  | ok a => exact Or.inr ⟨a, rfl, h⟩

/-- What is only put together behind a computation fails with it. -/
theorem bind_pure_error_iff {α β : Type} {r : Except Error α} {f : α → β} {cause : Error} :
    (r >>= fun a => pure (f a)) = .error cause ↔ r = .error cause := by
  cases r with
  | error e =>
    constructor
    · exact fun h => congrArg Except.error (Except.error.inj h)
    · exact fun h => congrArg Except.error (Except.error.inj h)
  | ok a => exact iff_of_false (fun h => nomatch h) (fun h => nomatch h)

/-! ## Numbers -/

/-- A whole number that no finite double is near. -/
def Value.TooLarge (v : Value) : Prop :=
  ∃ n : Int, v = .int n ∧ (Number.int n).isTooLarge = true

/-- A whole number above those that fit into 64 bits. -/
def Value.TooWide (v : Value) : Prop :=
  ∃ n : Int, v = .int n ∧ 0xFFFFFFFFFFFFFFFF < n

namespace Number

theorem tooLarge_toValue_iff (a : Number) : a.toValue.TooLarge ↔ a.isTooLarge = true := by
  constructor
  · rintro ⟨n, hn, hlarge⟩
    cases a with
    | int m =>
      obtain rfl := Value.int.inj hn
      exact hlarge
    | float x => nomatch hn
  · intro hlarge
    cases a with
    | int m => exact ⟨m, rfl, hlarge⟩
    | float x => nomatch hlarge

/-- A number above zero is too wide exactly if it fits into no 64 bits. -/
theorem tooWide_toValue_iff {a : Number} (h : a.isPositive = true) :
    a.toValue.TooWide ↔ a.isWide = true := by
  cases a with
  | int m =>
    have hpos : 0 < m := of_decide_eq_true h
    have hwide : (int m).isWide = true ↔ 0xFFFFFFFFFFFFFFFF < m := by
      unfold isWide
      rw [Bool.or_eq_true, decide_eq_true_iff, decide_eq_true_iff]
      omega
    rw [hwide]
    constructor
    · rintro ⟨n, hn, hlt⟩
      obtain rfl := Value.int.inj hn
      exact hlt
    · intro hlt
      exact ⟨m, rfl, hlt⟩
  | float x => exact iff_of_false (fun ⟨_, hn, _⟩ => nomatch hn) (fun hwide => nomatch hwide)

/-- A finite number that is not too large has a finite double near it. -/
theorem isFinite_toFloat {a : Number} (hfinite : a.isFinite = true) (hlarge : a.isTooLarge = false) :
    a.toFloat.isFinite = true := by
  cases a with
  | int n =>
    show (Float.ofInt n).isFinite = true
    simpa only [isTooLarge, Bool.not_eq_false'] using hlarge
  | float x => exact hfinite

/-- A number counts in 64 bits unless it is wide. -/
theorem machineNumber?_toValue (a : Number) :
    a.toValue.machineNumber? = if a.isWide then none else some a := by
  have hnumber : a.toValue.countedNumber? = some a := by cases a <;> rfl
  unfold Value.machineNumber?
  rw [hnumber]
  cases h : a.isWide <;> simp [Option.filter, h]

end Number

theorem Value.eq_toValue_of_number? {v : Value} {a : Number} (h : v.number? = some a) :
    v = a.toValue := by
  cases v with
  | int n => rw [← Option.some.inj h]; rfl
  | float x => rw [← Option.some.inj h]; rfl
  | _ => nomatch h

/-! ## Making a system -/

namespace Descriptor

/-- **The check of a number**, by what it finds: a whole number that is too large, something that is
    no finite number above zero, or a number to go on with. -/
theorem positive_cases (v : Value) (fault : Value → ParameterFault) :
    (v.TooLarge ∧ positive v fault = .error .tooLarge) ∨
    (¬ v.TooLarge ∧ positive v fault = .error (.invalidParameter (fault v))) ∨
    ∃ a : Number, v = a.toValue ∧ ¬ v.TooLarge ∧ a.toFloat.isFinite = true ∧ a.isFinite = true ∧
      a.isPositive = true ∧ positive v fault = .ok a := by
  unfold positive
  cases hv : v.number? with
  | none =>
    refine Or.inr (Or.inl ⟨?_, rfl⟩)
    rintro ⟨n, rfl, -⟩
    nomatch hv
  | some a =>
    obtain rfl := Value.eq_toValue_of_number? hv
    rw [a.tooLarge_toValue_iff]
    dsimp only
    cases hlarge : a.isTooLarge with
    | true => exact Or.inl ⟨rfl, rfl⟩
    | false =>
      refine Or.inr ?_
      cases hgood : a.isFinite && a.isPositive with
      | false => exact Or.inl ⟨Bool.false_ne_true, rfl⟩
      | true =>
        obtain ⟨hfinite, hpositive⟩ := (Bool.and_eq_true _ _).mp hgood
        exact Or.inr ⟨a, rfl, Bool.false_ne_true, a.isFinite_toFloat hfinite hlarge, hfinite,
          hpositive, rfl⟩

theorem positive_error {v : Value} {fault : Value → ParameterFault} {cause : Error}
    (h : positive v fault = .error cause) :
    (∃ fault, cause = .invalidParameter fault) ∨ cause = .tooLarge ∧ v.TooLarge := by
  rcases positive_cases v fault with ⟨hlarge, herr⟩ | ⟨-, herr⟩ | ⟨a, -, -, -, -, -, hok⟩
  · exact Or.inr ⟨Except.error.inj (h.symm.trans herr), hlarge⟩
  · exact Or.inl ⟨_, Except.error.inj (h.symm.trans herr)⟩
  · exact nomatch hok.symm.trans h

theorem positive_of_tooLarge {v : Value} (h : v.TooLarge) (fault : Value → ParameterFault) :
    positive v fault = .error .tooLarge := by
  rcases positive_cases v fault with ⟨-, herr⟩ | ⟨hnot, -⟩ | ⟨a, -, hnot, -⟩
  · exact herr
  · exact absurd h hnot
  · exact absurd h hnot

theorem textOf_error {v : Value} {cause : Error} (h : textOf v = .error cause) :
    ∃ fault, cause = .invalidParameter fault := by
  unfold textOf at h
  split at h
  · nomatch h
  · exact ⟨_, (Except.error.inj h).symm⟩

theorem countOf_error {v : Value} {cause : Error} (h : countOf v = .error cause) :
    ∃ fault, cause = .invalidParameter fault := by
  unfold countOf at h
  split at h
  · nomatch h
  · exact ⟨_, (Except.error.inj h).symm⟩

variable {initiator angle iterations step : Value} {rules : Rules}

/-- The check of the parameters fails with the fault of one of them, or at a whole number that is
    too large: an angle, or a step with nothing wrong before it. -/
theorem ofValues_error {cause : Error}
    (h : ofValues initiator rules angle iterations step = .error cause) :
    (∃ fault, cause = .invalidParameter fault) ∨
    cause = .tooLarge ∧ (∃ w, initiator = .text w) ∧ (angle.TooLarge ∨
      (∃ a, positive angle .angle = .ok a) ∧ (∃ n, countOf iterations = .ok n) ∧ step.TooLarge) := by
  rcases bind_error h with h | ⟨w, hw, h⟩
  · exact Or.inl (textOf_error h)
  have htext : ∃ w, initiator = .text w := by
    unfold textOf at hw
    split at hw
    · exact ⟨_, rfl⟩
    · nomatch hw
  rcases bind_error h with h | ⟨a, ha, h⟩
  · rcases positive_error h with hfault | ⟨hcause, hlarge⟩
    · exact Or.inl hfault
    · exact Or.inr ⟨hcause, htext, Or.inl hlarge⟩
  rcases bind_error h with h | ⟨n, hn, h⟩
  · exact Or.inl (countOf_error h)
  rcases bind_error h with h | ⟨b, -, h⟩
  · rcases positive_error h with hfault | ⟨hcause, hlarge⟩
    · exact Or.inl hfault
    · exact Or.inr ⟨hcause, htext, Or.inr ⟨⟨a, ha⟩, ⟨n, hn⟩, hlarge⟩⟩
  · nomatch h

/-- **A whole number that is too large** makes the check fail in its own way, exactly where it comes
    to look at it. -/
theorem ofValues_tooLarge_iff :
    ofValues initiator rules angle iterations step = .error .tooLarge ↔
      (∃ w, initiator = .text w) ∧ (angle.TooLarge ∨
        (∃ a, positive angle .angle = .ok a) ∧ (∃ n, countOf iterations = .ok n) ∧
          step.TooLarge) := by
  constructor
  · intro h
    rcases ofValues_error h with ⟨fault, hfault⟩ | ⟨-, hlarge⟩
    · nomatch hfault
    · exact hlarge
  · rintro ⟨⟨w, rfl⟩, hlarge⟩
    show (positive angle .angle >>= fun a => countOf iterations >>= fun n =>
      positive step .step >>= fun b => pure (⟨w, rules, a.toFloat, n, b⟩ : Descriptor)) = _
    rcases hlarge with hangle | ⟨⟨a, ha⟩, ⟨n, hn⟩, hstep⟩
    · rw [positive_of_tooLarge hangle]
      rfl
    · rw [ha]
      show (countOf iterations >>= fun n => positive step .step >>= fun b => _) = _
      rw [hn]
      show (positive step .step >>= fun b => _) = _
      rw [positive_of_tooLarge hstep]
      rfl

/-- A descriptor has a finite angle, and the step that was given for it. -/
theorem ofValues_ok {d : Descriptor} (h : ofValues initiator rules angle iterations step = .ok d) :
    d.rules = rules ∧ d.angle.isFinite = true ∧ step = d.step.toValue ∧ d.step.isFinite = true ∧
      d.step.isPositive = true := by
  obtain ⟨w, -, h⟩ := bind_ok h
  obtain ⟨a, ha, h⟩ := bind_ok h
  obtain ⟨n, -, h⟩ := bind_ok h
  obtain ⟨b, hb, h⟩ := bind_ok h
  obtain rfl := Except.ok.inj h
  rcases positive_cases angle .angle with ⟨-, herr⟩ | ⟨-, herr⟩ | ⟨a', -, -, hfinite, -, -, hok⟩
  · exact nomatch herr.symm.trans ha
  · exact nomatch herr.symm.trans ha
  obtain rfl := Except.ok.inj (hok.symm.trans ha)
  rcases positive_cases step .step with ⟨-, herr⟩ | ⟨-, herr⟩ | ⟨b', hv, -, -, hf, hp, hok⟩
  · exact nomatch herr.symm.trans hb
  · exact nomatch herr.symm.trans hb
  obtain rfl := Except.ok.inj (hok.symm.trans hb)
  exact ⟨rfl, hfinite, hv, hf, hp⟩

end Descriptor

/-! ## Drawing with checked parameters -/

namespace Motion

/-- The step of a number that is finite and above zero, which the second check takes unless it is
    wide. -/
theorem stepOf_toValue {a : Number} (hfinite : a.isFinite = true) (hpositive : a.isPositive = true) :
    stepOf a.toValue = if a.isWide then .error .wrongKind else .ok a := by
  have hone : a.toValue.onlyNumber =
      if a.isWide then .error .wrongKind else .ok (a.toValue, a, 0) := by
    have hunnested : a.toValue.unnested = .ok ([a.toValue], 0) := by cases a <;> rfl
    have hnumbers : ([a.toValue].mapM fun e => e.machineNumber?.map fun a => (e, a)) =
        if a.isWide then none else some [(a.toValue, a)] := by
      rw [List.mapM_cons, List.mapM_nil, a.machineNumber?_toValue]
      cases a.isWide <;> rfl
    unfold Value.onlyNumber
    rw [hunnested]
    dsimp only [bind, Except.bind]
    rw [hnumbers]
    cases a.isWide <;> rfl
  unfold stepOf
  rw [hone]
  cases a.isWide with
  | true => rfl
  | false =>
    show (if (a.isFinite && _) = true then _ else if (a.isFinite && a.isPositive) = true then _
      else _) = _
    rw [hfinite, hpositive]
    rfl

/-- A finite angle that is a double always passes. -/
theorem turnOf_float {x : Float} (h : x.isFinite = true) :
    turnOf (.float x) = .ok ((Quantity.ofFloat x).map radians) := by
  show (if x.isFinite = true then _ else _) = _
  rw [if_pos h]
  rfl

/-- **The second check of checked parameters** takes them all, but for a step that is too wide. -/
theorem ofValues_of_checked {x : Float} {a : Number} (hx : x.isFinite = true)
    (hfinite : a.isFinite = true) (hpositive : a.isPositive = true) :
    (a.toValue.TooWide ∧ ofValues (.float x) a.toValue = .error .wrongKind) ∨
      ¬ a.toValue.TooWide ∧ ∃ m, ofValues (.float x) a.toValue = .ok m := by
  rw [Number.tooWide_toValue_iff hpositive]
  unfold ofValues
  rw [stepOf_toValue hfinite hpositive, turnOf_float hx]
  cases a.isWide with
  | true => exact Or.inl ⟨rfl, rfl⟩
  | false => exact Or.inr ⟨Bool.false_ne_true, _, rfl⟩

end Motion

namespace LSystem

/-- A picture is the drawing of the word that was built. -/
theorem outcome_render (s : LSystem) (color : Color) (start : Start) (source : Source) :
    (s.render color start source).outcome = (s.build source).outcome >>= fun w =>
      (s.drawWord w start).map fun t => ⟨t.segments, color⟩ := by
  unfold render
  dsimp only
  cases (s.build source).outcome with
  | error cause => rfl
  | ok w =>
    dsimp only
    show _ = (s.drawWord w start).map fun t => _
    cases s.drawWord w start <;> rfl

/-- The word of a system is built by a derivation. -/
theorem build_eq_deriveFrom (s : LSystem) (source : Source) :
    s.build source = deriveFrom s.strategy s.descriptor.initiator s.table
      (.int s.descriptor.iterations) source s.bound :=
  (deriveFrom_natCast s.strategy s.descriptor.initiator s.table source s.descriptor.iterations
    s.bound).symm

/-- A build fails at the bound only, if there is a generator to draw from. -/
theorem build_error {s : LSystem} {source : Source} {g : Generator} (hg : source.enter = .ok g)
    {cause : Error} (h : (s.build source).outcome = .error cause) :
    ∃ pass m, cause = .expansionLimit pass m := by
  rw [build_eq_deriveFrom] at h
  rcases deriveFrom_error s.strategy (RuleTable.textual_of_words s.table) h with
    ⟨pass, m, -, hcause⟩ | herr
  · exact ⟨pass, m, hcause⟩
  · exact nomatch hg.symm.trans herr

/-- **Drawing a word with checked parameters**: with a step that is too wide there never is a
    drawing, and with any other there is one unless a closing bracket has no partner. -/
theorem drawWord_cases {s : LSystem} (hangle : s.descriptor.angle.isFinite = true)
    (hfinite : s.descriptor.step.isFinite = true) (hpositive : s.descriptor.step.isPositive = true)
    (w : Word) {start : Start} (hstart : start.OfFloats) :
    (s.descriptor.step.toValue.TooWide ∧ s.drawWord w start = .error .wrongKind) ∨
      ¬ s.descriptor.step.toValue.TooWide ∧
        (s.drawWord w start = .error .noOpenScope ∨ ∃ t, s.drawWord w start = .ok t) := by
  rcases Motion.ofValues_of_checked hangle hfinite hpositive with ⟨hwide, herr⟩ | ⟨hnarrow, m, hm⟩
  · refine Or.inl ⟨hwide, ?_⟩
    unfold drawWord draw
    rw [herr]
    rfl
  · refine Or.inr ⟨hnarrow, ?_⟩
    rcases draw_cases hm (.float _) hstart w with ⟨i, -, hdraw⟩ | ⟨t, -, hdraw⟩
    · exact Or.inl hdraw
    · exact Or.inr ⟨t, hdraw⟩

/-- **A picture with checked parameters**: a pass exceeds the bound, or the word that was built is
    drawn as far as its step and its brackets allow. -/
theorem render_cases {s : LSystem} (hangle : s.descriptor.angle.isFinite = true)
    (hfinite : s.descriptor.step.isFinite = true) (hpositive : s.descriptor.step.isPositive = true)
    {source : Source} {g : Generator} (hg : source.enter = .ok g) {start : Start}
    (hstart : start.OfFloats) (color : Color) :
    (∃ pass m, (s.build source).outcome = .error (.expansionLimit pass m) ∧
      (s.render color start source).outcome = .error (.expansionLimit pass m)) ∨
    ∃ w, (s.build source).outcome = .ok w ∧
      (¬ s.descriptor.step.toValue.TooWide ∧
          ((∃ picture, (s.render color start source).outcome = .ok picture) ∨
            (s.render color start source).outcome = .error .noOpenScope) ∨
        s.descriptor.step.toValue.TooWide ∧
          (s.render color start source).outcome = .error .wrongKind) := by
  rw [outcome_render]
  cases hbuild : (s.build source).outcome with
  | error cause =>
    obtain ⟨pass, m, rfl⟩ := build_error hg hbuild
    exact Or.inl ⟨pass, m, rfl, rfl⟩
  | ok w =>
    refine Or.inr ⟨w, rfl, ?_⟩
    show ¬ _ ∧ ((∃ picture, (s.drawWord w start).map _ = _) ∨ (s.drawWord w start).map _ = _) ∨
      _ ∧ (s.drawWord w start).map _ = _
    rcases drawWord_cases hangle hfinite hpositive w hstart with
      ⟨hwide, hdraw⟩ | ⟨hnarrow, hdraw | ⟨t, hdraw⟩⟩
    · rw [hdraw]
      exact Or.inr ⟨hwide, rfl⟩
    · rw [hdraw]
      exact Or.inl ⟨hnarrow, Or.inr rfl⟩
    · rw [hdraw]
      exact Or.inl ⟨hnarrow, Or.inl ⟨_, rfl⟩⟩

/-- With checked parameters and a step that is not too wide there is a picture of every word whose
    closing brackets have partners. -/
theorem exists_picture {s : LSystem} (hangle : s.descriptor.angle.isFinite = true)
    (hfinite : s.descriptor.step.isFinite = true) (hpositive : s.descriptor.step.isPositive = true)
    (hnarrow : s.descriptor.step.isWide = false) {source : Source} {w : Word}
    (hbuild : (s.build source).outcome = .ok w) {d : Nat} (hdepth : scopeDepth w = .ok d)
    {start : Start} (hstart : start.OfFloats) (color : Color) :
    ∃ picture, (s.render color start source).outcome = .ok picture := by
  have hmotion : ∃ m, Motion.ofValues (.float s.descriptor.angle) s.descriptor.step.toValue =
      .ok m := by
    rcases Motion.ofValues_of_checked hangle hfinite hpositive with ⟨hwide, -⟩ | ⟨-, hm⟩
    · rw [Number.tooWide_toValue_iff hpositive, hnarrow] at hwide
      nomatch hwide
    · exact hm
  obtain ⟨m, hm⟩ := hmotion
  have hdraw : ∃ t, s.drawWord w start = .ok t := by
    rcases draw_cases hm (.float _) hstart w with ⟨i, hi, -⟩ | ⟨t, -, ht⟩
    · exact nomatch hdepth.symm.trans hi
    · exact ⟨t, ht⟩
  obtain ⟨t, ht⟩ := hdraw
  refine ⟨⟨t.segments, color⟩, ?_⟩
  rw [outcome_render, hbuild]
  show (s.drawWord w start).map _ = _
  rw [ht]
  rfl

end LSystem

/-! ## From parameters to a picture -/

/-- The name of a strategy names it. -/
theorem Strategy.ofValue_name (strategy : Strategy) :
    ofValue (.text strategy.name.toList) = .ok strategy := by
  cases strategy <;> rfl

/-- With a strategy by its name and rules that it can read, the check of the parameters decides
    whether there is a system. -/
theorem LSystem.ofValues_eq {strategy : Strategy} {rules : Rules} {table : RuleTable Word}
    (hrules : strategy.readTable rules = .ok table) (initiator angle iterations step : Value)
    (bound : Option Int) :
    ofValues (.text strategy.name.toList) initiator rules angle iterations step bound =
      (Descriptor.ofValues initiator rules angle iterations step >>= fun d =>
        pure ⟨strategy, d, table, bound⟩) := by
  unfold ofValues
  rw [Strategy.ofValue_name]
  show (Descriptor.ofValues initiator rules angle iterations step >>= fun d =>
    ofDescriptor strategy d bound) = _
  cases hd : Descriptor.ofValues initiator rules angle iterations step with
  | error cause => rfl
  | ok d =>
    show (strategy.readTable d.rules >>= fun table => _) = _
    rw [(Descriptor.ofValues_ok hd).1, hrules]
    rfl

/-- **How the way from parameters to a picture can fail**, for every strategy, all values as axiom,
    angle, iterations and step, rules that the strategy can read, every bound, every source that
    gives a generator and every start.  Making the system fails with the fault of a parameter; with
    one that was made, the picture is there, or a pass exceeded the bound, or a closing bracket has
    no partner.  The exceptions are a whole number that is too large, as an angle or, with nothing
    wrong before it, as a step, on which the first check fails, and a step that is too wide, which
    it lets pass and the second check does not take, so that there is no picture of any word. -/
theorem picture_failures (strategy : Strategy) {rules : Rules} {table : RuleTable Word}
    (hrules : strategy.readTable rules = .ok table) (initiator angle iterations step : Value)
    (bound : Option Int) :
    (∀ cause, LSystem.ofValues (.text strategy.name.toList) initiator rules angle iterations step
        bound = .error cause → (∃ fault, cause = .invalidParameter fault) ∨ cause = .tooLarge) ∧
    (LSystem.ofValues (.text strategy.name.toList) initiator rules angle iterations step bound =
        .error .tooLarge ↔
      (∃ w, initiator = .text w) ∧ (angle.TooLarge ∨
        (∃ a, Descriptor.positive angle .angle = .ok a) ∧
          (∃ n, Descriptor.countOf iterations = .ok n) ∧ step.TooLarge)) ∧
    ∀ s, LSystem.ofValues (.text strategy.name.toList) initiator rules angle iterations step bound =
        .ok s →
      ((∃ m, Motion.ofValues (.float s.descriptor.angle) s.descriptor.step.toValue = .ok m) ↔
        ¬ step.TooWide) ∧
      ∀ {source : Source} {g : Generator}, source.enter = .ok g → ∀ {start : Start},
        start.OfFloats → ∀ color : Color,
        (∃ pass m, (s.build source).outcome = .error (.expansionLimit pass m) ∧
          (s.render color start source).outcome = .error (.expansionLimit pass m)) ∨
        ∃ w, (s.build source).outcome = .ok w ∧
          (¬ step.TooWide ∧ ((∃ picture, (s.render color start source).outcome = .ok picture) ∨
              (s.render color start source).outcome = .error .noOpenScope) ∨
            step.TooWide ∧ (s.render color start source).outcome = .error .wrongKind) := by
  rw [LSystem.ofValues_eq hrules]
  refine ⟨?_, ?_, ?_⟩
  · intro cause hcause
    exact (Descriptor.ofValues_error (bind_pure_error_iff.mp hcause)).imp_right And.left
  · rw [bind_pure_error_iff]
    exact Descriptor.ofValues_tooLarge_iff
  · intro s hs
    obtain ⟨d, hd, hs⟩ := bind_ok hs
    obtain rfl := Except.ok.inj hs
    obtain ⟨-, hangle, hstep, hfinite, hpositive⟩ := Descriptor.ofValues_ok hd
    rw [hstep]
    refine ⟨?_, ?_⟩
    · rcases Motion.ofValues_of_checked hangle hfinite hpositive with ⟨hwide, herr⟩ | ⟨hnarrow, hm⟩
      · exact iff_of_false (fun ⟨m, hm⟩ => nomatch herr.symm.trans hm) (fun h => h hwide)
      · exact iff_of_true hm hnarrow
    · intro source g hg start hstart color
      exact LSystem.render_cases (s := ⟨strategy, d, table, bound⟩) hangle hfinite hpositive hg hstart
        color

/-- A step of 64 bits is drawn, and one that is just wider is not; an angle that no double is near
    is not refused as a parameter. -/
theorem picture_failures_steps :
    Strategy.readTable .stochastic (.value (.text "F=F[+F]F".toList)) =
      .ok (RuleTable.ofRules [⟨['F'], "F[+F]F".toList⟩]) ∧
    Source.enter (.seed 7) = .ok (.ofSeed 7) ∧ Start.OfFloats (.value .null) ∧
    (∃ s, LSystem.ofValues (.text "stochastic".toList) (.text [' ', 'F'])
        (.value (.text "F=F[+F]F".toList)) (.int 90) (.int 2) (.int 0xFFFFFFFFFFFFFFFF) none = .ok s ∧
      ((∃ picture, (s.render .default (.value .null) (.seed 7)).outcome = .ok picture) ∨
        (s.render .default (.value .null) (.seed 7)).outcome = .error .noOpenScope)) ∧
    ∃ s, LSystem.ofValues (.text "stochastic".toList) (.text [' ', 'F'])
        (.value (.text "F=F[+F]F".toList)) (.int 90) (.int 2) (.int 0x10000000000000000) none = .ok s ∧
      (s.render .default (.value .null) (.seed 7)).outcome = .error .wrongKind := by
  have hrules : Strategy.readTable .stochastic (.value (.text "F=F[+F]F".toList)) =
      .ok (RuleTable.ofRules [⟨['F'], "F[+F]F".toList⟩]) := rfl
  have hseed : Source.enter (.seed 7) = .ok (.ofSeed 7) := rfl
  refine ⟨hrules, hseed, .absent, ?_, ?_⟩
  · obtain ⟨s, hs⟩ : ∃ s, LSystem.ofValues (.text "stochastic".toList) (.text [' ', 'F'])
        (.value (.text "F=F[+F]F".toList)) (.int 90) (.int 2) (.int 0xFFFFFFFFFFFFFFFF) none = .ok s :=
      ⟨_, rfl⟩
    refine ⟨s, hs, ?_⟩
    rcases ((picture_failures .stochastic hrules (.text [' ', 'F']) (.int 90) (.int 2)
      (.int 0xFFFFFFFFFFFFFFFF) none).2.2 s hs).2 hseed .absent .default with
      ⟨pass, m, hbuild, -⟩ | ⟨w, -, ⟨-, h⟩ | ⟨⟨n, hn, hlt⟩, -⟩⟩
    · obtain rfl := Except.ok.inj hs
      nomatch hbuild
    · exact h
    · obtain rfl := Value.int.inj hn
      exact absurd hlt (by decide)
  · obtain ⟨s, hs⟩ : ∃ s, LSystem.ofValues (.text "stochastic".toList) (.text [' ', 'F'])
        (.value (.text "F=F[+F]F".toList)) (.int 90) (.int 2) (.int 0x10000000000000000) none = .ok s :=
      ⟨_, rfl⟩
    refine ⟨s, hs, ?_⟩
    rcases ((picture_failures .stochastic hrules (.text [' ', 'F']) (.int 90) (.int 2)
      (.int 0x10000000000000000) none).2.2 s hs).2 hseed .absent .default with
      ⟨pass, m, hbuild, -⟩ | ⟨w, -, ⟨hnot, -⟩ | ⟨-, h⟩⟩
    · obtain rfl := Except.ok.inj hs
      nomatch hbuild
    · exact absurd ⟨_, rfl, by decide⟩ hnot
    · exact h

/-- A step of ten to the twentieth passes the check of the parameters, and there is no picture: not
    for the bound, nor for a bracket, but because the drawing does not take the step. -/
theorem wide_step_not_drawn :
    ∃ s, LSystem.ofValues (.text "deterministic".toList) (.text ['F']) (.value (.text []))
        (.int 90) (.int 0) (.int 100000000000000000000) defaultBound = .ok s ∧
      ∃ cause, (s.render .default (.value .null) (.seed 0)).outcome = .error cause ∧
        (∀ pass m, cause ≠ .expansionLimit pass m) ∧ cause ≠ .noOpenScope :=
  ⟨_, rfl, .wrongKind, rfl, fun _ _ h => (nomatch h), fun h => nomatch h⟩

end Lindenmayer
