/-
  Derivations: an axiom, a rule table and a number of passes.

  A strategy is one of three ways in which an axiom grows into its final word.

  * Deterministic: every symbol is replaced by its last rule; rules come as text.
  * Stochastic: every symbol is replaced by one of its rules at random; rules come as text.
  * Contextual: as deterministic, but rules come as pairs of a symbol and its production.

  `deterministic` and `stochastic` are the two ways to read the table during a run.  The first
  keeps symbols without a rule and the axiom as it is; the second drops symbols without a rule,
  and the blanks of the axiom before the first pass.  `deriveBy` follows a strategy.

  `deriveWith` and `derive` take rules, iterations and the name of the strategy unchecked and
  check them in this order: strategy, rules, iterations, seed.  `deriveByTable` wants its table
  read already, save that the contextual strategy still takes pairs.
-/
import Lindenmayer.Derivation.Run
import Lindenmayer.Rules

namespace Lindenmayer

/-! ## Strategies -/

/-- How symbols are replaced. -/
inductive Strategy where
  | deterministic
  | stochastic
  | contextual
deriving DecidableEq

namespace Strategy

/-- All strategies. -/
def all : List Strategy := [.deterministic, .stochastic, .contextual]

/-- The name of a strategy. -/
def name : Strategy → String
  | .deterministic => "deterministic"
  | .stochastic => "stochastic"
  | .contextual => "contextual"

/-- The name of the systems that follow the strategy. -/
def systemName : Strategy → String
  | .deterministic => "DeterministicSystem"
  | .stochastic => "StochasticSystem"
  | .contextual => "ContextualSystem"

/-- The strategy that a value names. -/
def ofValue (v : Value) : Except Error Strategy :=
  let named := match v with
    | .text w => all.find? (·.name.toList == w)
    | _ => none
  match named with
  | some s => .ok s
  | none => .error (.unknownStrategy v)

end Strategy

/-! ## Derivation by a table -/

/-- The bound on the length of every derived word, where the caller gives none. -/
def defaultBound : Option Int := some 5000000

/-- Derivation by the last rule of each symbol.  The state is only passed through. -/
def deterministic {σ α : Type} [BEq α] [RulePart α] (table : RuleTable α) (bound : Option Int)
    (passes : Nat) (initiator : Word) (state : σ) : Trace σ :=
  run (fun c state => (table.lookup (RulePart.ofWord [c]), state)) bound passes initiator state

/-- Derivation by one rule of each symbol at random. -/
def stochastic {σ α : Type} [Chooser σ] [BEq α] [RulePart α] (table : RuleTable α)
    (bound : Option Int) (passes : Nat) (initiator : Word) (state : σ) : Trace σ :=
  run (fun c state => table.pick (RulePart.ofWord [c]) state) bound passes (Text.strip initiator)
    state

/-- Derivation as a strategy says, from a source of chance. -/
def deriveBy {α : Type} [BEq α] [RulePart α] (strategy : Strategy) (table : RuleTable α)
    (bound : Option Int) (passes : Nat) (initiator : Word) (source : Source) : Trace Source :=
  match strategy with
  | .deterministic | .contextual => deterministic table bound passes initiator source
  | .stochastic =>
    match source.enter with
    | .ok g => (stochastic table bound passes initiator g).mapState source.leave
    | .error cause => .failed cause source

/-! ## Unchecked parameters -/

/-- The table that a strategy reads: from pairs the contextual one, from text the others. -/
def Strategy.readTable : Strategy → Rules → Except Error (RuleTable Word)
  | .contextual, rules => rules.readPairs
  | _, rules => rules.readText

/-- A number of passes from a value: a whole number, and not below zero. -/
def passCount : Value → Except Error Nat
  | .int n => if n < 0 then .error (.invalidParameter (.negativeIterations n)) else .ok n.toNat
  | v => .error (.invalidParameter (.fractionalIterations v))

/-- Derivation by a given strategy and table, iterations unchecked. -/
def deriveFrom {α : Type} [BEq α] [RulePart α] (strategy : Strategy) (initiator : Word)
    (table : RuleTable α) (iterations : Value) (source : Source) (bound : Option Int) :
    Trace Source :=
  match passCount iterations with
  | .ok passes => deriveBy strategy table bound passes initiator source
  | .error cause => .failed cause source

/-- Derivation by a given strategy, rules and iterations unchecked. -/
def deriveWith (strategy : Strategy) (initiator : Word) (rules : Rules) (iterations : Value)
    (source : Source) (bound : Option Int) : Trace Source :=
  match rules with
  | .table t => deriveFrom strategy initiator t iterations source bound
  | .unchecked t => deriveFrom strategy initiator t iterations source bound
  | .value v =>
    match strategy.readTable (.value v) with
    | .ok t => deriveFrom strategy initiator t iterations source bound
    | .error cause => .failed cause source

/-- Derivation by a named strategy, all parameters unchecked. -/
def derive (strategy : Value) (initiator : Word) (rules : Rules) (iterations : Value)
    (source : Source) (bound : Option Int) : Trace Source :=
  match Strategy.ofValue strategy with
  | .ok strategy => deriveWith strategy initiator rules iterations source bound
  | .error cause => .failed cause source

/-! ## Rules that nobody reads -/

/-- A derivation comes to ask its table for something: the deterministic one before its first pass,
    the stochastic one at the first symbol of it. -/
def Strategy.asksTable (strategy : Strategy) (passes : Nat) (initiator : Word) : Bool :=
  match strategy with
  | .deterministic | .contextual => passes != 0
  | .stochastic => passes != 0 && !(Text.strip initiator).isEmpty

/-- Derivation by a given strategy that reads no rules, iterations unchecked: what is no table is
    noticed when it is asked, after all other checks.  Pairs are read all the same. -/
def deriveByTable (strategy : Strategy) (initiator : Word) (rules : Rules) (iterations : Value)
    (source : Source) (bound : Option Int) : Trace Source :=
  match strategy, rules with
  | .deterministic, .value _ | .stochastic, .value _ =>
    let noRules : RuleTable Word := .ofRules []
    match passCount iterations with
    | .error cause => .failed cause source
    | .ok passes =>
      let unasked := deriveBy strategy noRules bound 0 initiator source
      match unasked.outcome with
      | .error cause => .failed cause source
      | .ok _ =>
        if strategy.asksTable passes initiator then .failed .notTable source
        else deriveBy strategy noRules bound passes initiator source
  | _, _ => deriveWith strategy initiator rules iterations source bound

end Lindenmayer
