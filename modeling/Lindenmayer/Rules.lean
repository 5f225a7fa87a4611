/-
  Rules as a caller gives them: a table, or a value that a table is to be read from.

  Rule text is tokens between blanks, one for each rule.  Reading refuses a text at its leftmost
  token that is no rule.  Writing puts single spaces between the tokens; a key or production with a
  blank inside does not survive the way back.

  `ofPairs` reads pairs of a symbol and its production, and checks every pair.  It takes a list, a
  tuple or a dictionary (whose keys are the pairs) and refuses the value at its earliest bad member,
  which is looked at in three steps: its shape, then its two texts, then the length of the key.  A
  text as a whole is refused, since it is rule text and no sequence of pairs.  `checked` takes the
  rules of another table for pairs.

  `ofEntries` checks next to nothing.  An entry is whatever holds exactly two values, such as a
  text of two symbols; the first has to be one that can be a key, and the table keeps both as they
  are.
-/
import Lindenmayer.RuleTable.Basic
import Lindenmayer.Text.Blank

namespace Lindenmayer

/-! ## Rule text -/

/-- The rule that a token writes down. -/
def Rule.ofToken (token : Word) : Except Error (Rule Word) :=
  match Rule.ofToken? token with
  | some r => .ok r
  | none => .error (.malformedRule (.token token))

namespace RuleTable

/-- The table that a rule text writes down. -/
def parse (text : Word) : Except Error (RuleTable Word) :=
  ofRules <$> (Text.tokens text).mapM Rule.ofToken

/-- The table of a value that must be a rule text. -/
def ofText : Value → Except Error (RuleTable Word)
  | .text w => parse w
  | _ => .error .notText

variable {α : Type} [BEq α] [RulePart α]

/-- The rules of the table as tokens with single spaces between them. -/
def toText (t : RuleTable α) : Word :=
  [' '].intercalate (t.rules.map Rule.toToken)

/-- The literal form of the table, which shows its text. -/
def literal (t : RuleTable α) : Word :=
  "RuleTable(".toList ++ Text.quoted t.toText ++ [')']

end RuleTable

/-! ## Pairs and entries -/

namespace Rule

/-- The rule of a key and a production, if the key is a single symbol. -/
def ofTexts (key production : Word) : Except Error (Rule Word) :=
  if key.length = 1 then .ok ⟨key, production⟩ else .error (.malformedRule (.key key))

/-- The rule that a checked pair stands for. -/
def ofPair (member : Value) : Except Error (Rule Word) :=
  match member.pair? with
  | none => .error (.malformedRule (.notPair member))
  | some (.text key, .text production) => ofTexts key production
  | some _ => .error (.malformedRule (.notTexts member))

/-- The rule of another table, checked as a pair. -/
def checked {α : Type} [RulePart α] (r : Rule α) : Except Error (Rule Word) :=
  match RulePart.toValue r.key, RulePart.toValue r.production with
  | .text key, .text production => ofTexts key production
  | key, production => .error (.malformedRule (.notTextRule key production))

/-- The rule that an unchecked entry stands for. -/
def ofEntry (entry : Value) : Except Error (Rule Value) :=
  match entry.members? with
  | some [key, production] => if key.isKey then .ok ⟨key, production⟩ else .error .wrongKind
  | _ => .error .wrongKind

end Rule

namespace RuleTable

/-- The table of a sequence of pairs. -/
def ofPairs (pairs : Value) : Except Error (RuleTable Word) :=
  match pairs with
  | .text w => .error (.malformedRule (.textForPairs w))
  | pairs =>
    match pairs.members? with
    | some members => ofRules <$> members.mapM Rule.ofPair
    | none => .error .wrongKind

/-- The table of the rules of another one, checked as pairs. -/
def checked {α : Type} [BEq α] [RulePart α] (t : RuleTable α) : Except Error (RuleTable Word) :=
  ofRules <$> t.rules.mapM Rule.checked

/-- The table of a sequence of entries that nobody checked. -/
def ofEntries (entries : Value) : Except Error (RuleTable Value) :=
  match entries.members? with
  | some members => ofRules <$> members.mapM Rule.ofEntry
  | none => .error .wrongKind

end RuleTable

/-! ## Either -/

/-- Rules as a caller gives them. -/
inductive Rules where
  | table (t : RuleTable Word)
  /-- A table of entries that nobody checked. -/
  | unchecked (t : RuleTable Value)
  /-- A value still to be read. -/
  | value (v : Value)

namespace Rules

/-- The table that the rules write down as text. -/
def readText : Rules → Except Error (RuleTable Word)
  | value v => RuleTable.ofText v
  | _ => .error .notText

/-- The table that the rules give as pairs. -/
def readPairs : Rules → Except Error (RuleTable Word)
  | value v => RuleTable.ofPairs v
  | table t => t.checked
  | unchecked t => t.checked

/-- The literal form of the rules. -/
def literal : Rules → Word
  | value v => v.literal
  | table t => t.literal
  | unchecked t => t.literal

end Rules

end Lindenmayer
