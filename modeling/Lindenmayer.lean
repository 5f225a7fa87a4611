import Lindenmayer.Derivation.Basic
import Lindenmayer.Turtle.Drawing
import Lindenmayer.Turtle.Scope
import Lindenmayer.Picture
import Lindenmayer.Preset
import Lindenmayer.Proofs.Turtle.Agreement
import Lindenmayer.Proofs.Turtle.Frame
import Lindenmayer.Proofs.Turtle.Nesting
import Lindenmayer.Proofs.Turtle.Parts
import Lindenmayer.Proofs.Turtle.Branches
import Lindenmayer.Proofs.Turtle.Segments
import Lindenmayer.Proofs.RuleTable.Keys
import Lindenmayer.Proofs.RuleTable.Blanks
import Lindenmayer.Proofs.Text.Tokens
import Lindenmayer.Proofs.RuleTable.Encodings
import Lindenmayer.Proofs.Derivation.Expansion
import Lindenmayer.Proofs.Derivation.Stages
import Lindenmayer.Proofs.Derivation.Bound
import Lindenmayer.Proofs.Derivation.Choices
import Lindenmayer.Proofs.Derivation.Derivable
import Lindenmayer.Proofs.Derivation.Alphabet
import Lindenmayer.Proofs.Derivation.Resumption
import Lindenmayer.Proofs.Derivation.Vanishing
import Lindenmayer.Proofs.Derivation.Lookup
import Lindenmayer.Proofs.Derivation.Homomorphism
import Lindenmayer.Proofs.Derivation.Reachable
import Lindenmayer.Proofs.Derivation.Counts
import Lindenmayer.Proofs.Turtle.Scopes
import Lindenmayer.Proofs.LSystem.Failures
import Lindenmayer.Proofs.LSystem.Balance
import Lindenmayer.Proofs.LSystem.Builds
import Lindenmayer.Proofs.LSystem.Decoration
import Lindenmayer.Proofs.LSystem.Growth
import Lindenmayer.Proofs.Derivation.Renaming
import Lindenmayer.Proofs.Turtle.Independence
import Lindenmayer.Proofs.RuleTable.Members
import Lindenmayer.Proofs.RuleTable.Views
import Lindenmayer.Proofs.RuleTable.Grammar
import Lindenmayer.Proofs.Text.Runs
import Lindenmayer.Proofs.Random.Range
import Lindenmayer.Proofs.Random.Period
import Lindenmayer.Proofs.Random.Rejection
import Lindenmayer.Proofs.RuleTable.Weights
