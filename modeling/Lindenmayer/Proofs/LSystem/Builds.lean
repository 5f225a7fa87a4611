/-
  Systems and derivations, side by side.

  The same request can be met in two ways.  A system is made from it, which reads the rules once,
  and its word is built as often as wanted; or its word is derived from the parameters each time,
  which reads the rules each time.  Both ways end in the same derivation by a table, so that what
  has to be compared are the errors before it: with an angle and a step that pass their check,
  making a system fails exactly where reading the rules does, and a derivation reads them before it
  does anything else.

  Who builds and derives has SUPPLIES of chance: entropy that is gathered for each call, seeds, and
  generators, of which several systems may share one.  A call leaves the generator that it was given
  somewhere in its stream, also if it fails, and that is all that one call leaves to the next
  (`calls`).  So builds and derivations stay in step over any sequence of calls, and a seed knows
  nothing of what came before.
-/
import Mathlib.Logic.Function.Basic
import Lindenmayer.Proofs.LSystem.Failures

namespace Lindenmayer

/-! ## Requests -/

/-- Parameters for which a system can be made if the rules can be read: a text as axiom, a number of
    iterations, an angle and a step that pass the check.  The rules are a value still to be read. -/
structure Request where
  strategy : Strategy
  initiator : Word
  rules : Value
  angle : Value
  iterations : Nat
  step : Value
  bound : Option Int
  angle_accepted : ∃ a, Descriptor.positive angle .angle = .ok a
  step_accepted : ∃ a, Descriptor.positive step .step = .ok a

namespace Request

/-- The table that the strategy reads from the rules. -/
def readTable (r : Request) : Except Error (RuleTable Word) :=
  r.strategy.readTable (.value r.rules)

/-- The system of the request. -/
def make (r : Request) : Except Error LSystem :=
  LSystem.ofValues (.text r.strategy.name.toList) (.text r.initiator) (.value r.rules) r.angle
    (.int r.iterations) r.step r.bound

/-- The word of the request, derived from its parameters. -/
def derive (r : Request) (source : Source) : Trace Source :=
  Lindenmayer.derive (.text r.strategy.name.toList) r.initiator (.value r.rules) (.int r.iterations)
    source r.bound

/-- With everything else accepted, only the rules are left to be read. -/
theorem exists_make_eq (r : Request) :
    ∃ d : Descriptor, d.initiator = r.initiator ∧ d.iterations = r.iterations ∧
      r.make = r.readTable >>= fun table => pure ⟨r.strategy, d, table, r.bound⟩ := by
  obtain ⟨a, ha⟩ := r.angle_accepted
  obtain ⟨b, hb⟩ := r.step_accepted
  have hd : Descriptor.ofValues (.text r.initiator) (.value r.rules) r.angle (.int r.iterations)
      r.step = .ok ⟨r.initiator, .value r.rules, a.toFloat, r.iterations, b⟩ := by
    unfold Descriptor.ofValues
    rw [ha, hb]
    rfl
  refine ⟨⟨r.initiator, .value r.rules, a.toFloat, r.iterations, b⟩, rfl, rfl, ?_⟩
  unfold make LSystem.ofValues
  rw [Strategy.ofValue_name, hd]
  rfl

/-- **A system is not made** exactly if the rules cannot be read, and for the same cause. -/
theorem make_error_iff (r : Request) (cause : Error) :
    r.make = .error cause ↔ r.readTable = .error cause := by
  obtain ⟨d, -, -, hmake⟩ := r.exists_make_eq
  rw [hmake, bind_pure_error_iff]

/-- A derivation reads the rules before anything else. -/
theorem derive_eq (r : Request) (source : Source) :
    r.derive source = match r.readTable with
      | .ok table => deriveBy r.strategy table r.bound r.iterations r.initiator source
      | .error cause => .failed cause source := by
  unfold derive Lindenmayer.derive deriveWith
  rw [Strategy.ofValue_name]
  dsimp only
  show (match r.readTable with | .ok t => _ | .error cause => _) = _
  cases r.readTable with
  | error cause => rfl
  | ok table => exact deriveFrom_natCast r.strategy r.initiator table source r.iterations r.bound

/-- **One call**: building the word of a system that was made is deriving it. -/
theorem build_eq_derive {r : Request} {s : LSystem} (h : r.make = .ok s) : s.build = r.derive := by
  obtain ⟨d, hinitiator, hiterations, hmake⟩ := r.exists_make_eq
  rw [hmake] at h
  obtain ⟨table, htable, h⟩ := bind_ok h
  obtain rfl := Except.ok.inj h
  funext source
  rw [r.derive_eq, htable]
  show deriveBy r.strategy table r.bound d.iterations d.initiator source = _
  rw [hinitiator, hiterations]

end Request

/-! ## Calls one after the other -/

variable {ι κ : Type} [DecidableEq ι]

/-- Where the choices of a system come from: entropy that is gathered for each call, a seed, or one
    of several generators. -/
inductive Supply (ι : Type) where
  | entropy
  | seed (n : Int)
  | generator (i : ι)

namespace Supply

/-- What a call is given, with the entropy that was gathered for it. -/
def source (pool : ι → Generator) (gathered : Nat) : Supply ι → Source
  | entropy => .entropy gathered
  | seed n => .seed n
  | generator i => .generator (pool i)

/-- The generators after a call: the one that it was given is where the call left it. -/
def returned (pool : ι → Generator) : Supply ι → Source → (ι → Generator)
  | generator i, .generator g => Function.update pool i g
  | _, _ => pool

end Supply

/-- What a sequence of calls gives, each with the generators as it leaves them.  A call is of one of
    several systems, with entropy gathered for it. -/
def calls (answer : κ → Source → Trace Source) (supply : κ → Supply ι) :
    (pool : ι → Generator) → List (κ × Nat) → List (Trace Source × (ι → Generator))
  | _, [] => []
  | pool, (k, gathered) :: rest =>
    let trace := answer k ((supply k).source pool gathered)
    let pool := (supply k).returned pool trace.state
    (trace, pool) :: calls answer supply pool rest

/-- A call in a sequence is answered from the generators as the calls before it left them. -/
theorem calls_at (answer : κ → Source → Trace Source) (supply : κ → Supply ι)
    (pool : ι → Generator) (before : List (κ × Nat)) (k : κ) (gathered : Nat)
    (rest : List (κ × Nat)) :
    ∃ reached : ι → Generator,
      (calls answer supply pool (before ++ (k, gathered) :: rest))[before.length]? =
        some (answer k ((supply k).source reached gathered), (supply k).returned reached
          (answer k ((supply k).source reached gathered)).state) := by
  induction before generalizing pool with
  | nil => exact ⟨pool, rfl⟩
  | cons call before ih => exact ih _

/-- **Builds are derivations**, over whole sequences of calls.  With all other parameters accepted,
    a system is not made exactly if its rules cannot be read, for the cause that a derivation from
    the same parameters then fails with before it does anything.  Systems that were made answer any
    sequence of builds as derivations from their parameters answer it, call by call: with the same
    word or error and the same lengths, and with all generators left alike, whichever systems share
    them and whichever of the calls fail.  A system with a seed gives the same answer in every place
    of every sequence. -/
theorem builds_are_derivations :
    (∀ (r : Request) (cause : Error), (r.make = .error cause ↔ r.readTable = .error cause) ∧
      (r.readTable = .error cause → ∀ source, r.derive source = .failed cause source)) ∧
    ∀ (requests : κ → Request) (systems : κ → LSystem), (∀ k, (requests k).make = .ok (systems k)) →
      ∀ (supply : κ → Supply ι) (pool : ι → Generator),
        (∀ sequence : List (κ × Nat),
          calls (fun k => (systems k).build) supply pool sequence =
            calls (fun k => (requests k).derive) supply pool sequence) ∧
        ∀ k n, supply k = .seed n → ∀ (before : List (κ × Nat)) (gathered : Nat)
          (rest : List (κ × Nat)), ∃ reached : ι → Generator,
            (calls (fun k => (systems k).build) supply pool
              (before ++ (k, gathered) :: rest))[before.length]? =
                some ((systems k).build (.seed n), reached) := by
  refine ⟨?_, ?_⟩
  · intro r cause
    refine ⟨r.make_error_iff cause, ?_⟩
    intro h source
    rw [r.derive_eq, h]
  · intro requests systems h supply pool
    refine ⟨?_, ?_⟩
    · intro sequence
      have hsame : (fun k => (systems k).build) = fun k => (requests k).derive :=
        funext fun k => Request.build_eq_derive (h k)
      rw [hsame]
    · intro k n hseed before gathered rest
      obtain ⟨reached, hat⟩ := calls_at (fun k => (systems k).build) supply pool before k gathered rest
      rw [hseed] at hat
      exact ⟨reached, hat⟩

/-- Two systems share a script, and one of them has a bound that its second pass exceeds: the other
    one goes on in the script from where the failure left it.  With a seed it gives the same answer
    behind the failure as anywhere. -/
theorem builds_are_derivations_shared :
    ∃ (requests : Bool → Request) (systems : Bool → LSystem),
      (∀ k, (requests k).make = .ok (systems k)) ∧
      ((calls (fun k => (systems k).build) (fun _ => .generator ())
          (fun _ => .script ⟨#[0, 1, 1], #[]⟩) [(true, 0), (false, 0), (true, 0)]).map
        fun answer => answer.1.outcome) =
          [.error (.expansionLimit 2 3), .ok "F[+F]".toList, .error (.expansionLimit 2 3)] ∧
      ∃ reached : Unit → Generator,
        (calls (fun k => (systems k).build) (fun k => cond k (.generator ()) (.seed 7))
          (fun _ => .script ⟨#[0, 1, 1], #[]⟩) [(true, 0), (false, 0)])[1]? =
            some ((systems false).build (.seed 7), reached) := by
  have hmake : ∀ k : Bool,
      Request.make ⟨.stochastic, ['F'], .text "F=FF F=F[+F]".toList, .int 90, cond k 2 1, .int 10,
          cond k (some 3) none, ⟨_, rfl⟩, ⟨_, rfl⟩⟩ =
        .ok ⟨.stochastic, ⟨['F'], .value (.text "F=FF F=F[+F]".toList), 90, cond k 2 1, .int 10⟩,
          .ofRules [⟨['F'], "FF".toList⟩, ⟨['F'], "F[+F]".toList⟩], cond k (some 3) none⟩ := by
    intro k
    cases k with
    | false => rfl
    | true => rfl
  refine ⟨_, _, hmake, ?_, ?_⟩
  · rw [(builds_are_derivations.2 _ _ hmake _ _).1]
    rfl
  · exact (builds_are_derivations.2 _ _ hmake _ _).2 false 7 rfl [(true, 0)] 0 []

end Lindenmayer
