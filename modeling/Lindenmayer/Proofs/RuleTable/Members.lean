/-
  Which values are pairs of rules, and what is said of those that are not.

  A value is looked into if it is a list, a tuple or a dictionary, which holds its keys.  Each member
  has to be a RULE PAIR: a list or a tuple of exactly two texts, the first of them a single symbol.
  The three checks of a member are made in this order, and a member that is no rule pair fails one of
  them first (`Value.Fails`): its shape, its two texts, the length of its key.  So the value as a
  whole is refused at its earliest member that is no rule pair, with the cause that this member alone
  determines.
-/
import Lindenmayer.Proofs.RuleTable.Encodings
import Mathlib.Data.List.Forall2

namespace Lindenmayer

namespace Value

/-- A list or a tuple of exactly these two. -/
def IsPairOf (pair first second : Value) : Prop :=
  pair = .list [first, second] ∨ pair = .tuple [first, second]

/-- A list, a tuple or a dictionary that holds these, in this order. -/
def Holds (v : Value) (members : List Value) : Prop :=
  v = .list members ∨ v = .tuple members ∨ ∃ entries, v = .dict entries ∧ entries.map Prod.fst = members

/-- A list or a tuple of exactly two texts, the first of which is a single symbol. -/
def IsRulePair (member : Value) : Prop :=
  ∃ (c : Symbol) (production : Word), member.IsPairOf (.text [c]) (.text production)

/-- The check that a member fails first: the fault that is found and its wording. -/
inductive Fails (member : Value) : RuleFault → String → Prop where
  /-- It is not a list or a tuple of exactly two. -/
  | shape (h : ∀ a b, ¬ member.IsPairOf a b) :
    Fails member (.notPair member) s!"rule {member.shown} must be a (symbol, production) pair"
  /-- It is one, but of two that are not both texts. -/
  | texts {a b : Value} (hpair : member.IsPairOf a b) (h : ¬ ∃ u v, a = .text u ∧ b = .text v) :
    Fails member (.notTexts member) s!"rule {member.shown} must pair two strings"
  /-- It is one of two texts, but the first is not a single symbol. -/
  | key {key production : Word} (hpair : member.IsPairOf (.text key) (.text production))
      (h : key.length ≠ 1) :
    Fails member (.key key) s!"rule key {(Value.text key).shown} must be a single symbol"

theorem pair?_eq_some_iff {pair a b : Value} : pair.pair? = some (a, b) ↔ pair.IsPairOf a b := by
  constructor
  · intro h
    unfold pair? at h
    split at h
    · obtain ⟨rfl, rfl⟩ := Prod.mk.inj (Option.some.inj h)
      exact Or.inl rfl
    · obtain ⟨rfl, rfl⟩ := Prod.mk.inj (Option.some.inj h)
      exact Or.inr rfl
    · nomatch h
  · rintro (rfl | rfl)
    · rfl
    · rfl

/-- What holds members is no text, and its members are what is looked into. -/
theorem holds_iff {v : Value} {members : List Value} :
    v.Holds members ↔ (∀ w, v ≠ .text w) ∧ v.members? = some members := by
  constructor
  · rintro (rfl | rfl | ⟨entries, rfl, rfl⟩)
    · exact ⟨fun w h => (nomatch h), rfl⟩
    · exact ⟨fun w h => (nomatch h), rfl⟩
    · exact ⟨fun w h => (nomatch h), rfl⟩
  · rintro ⟨hnot, h⟩
    cases v with
    | list items => exact Or.inl (congrArg Value.list (Option.some.inj h))
    | tuple items => exact Or.inr (Or.inl (congrArg Value.tuple (Option.some.inj h)))
    | dict entries => exact Or.inr (Or.inr ⟨entries, rfl, Option.some.inj h⟩)
    | text w => exact absurd rfl (hnot w)
    | _ => nomatch h

/-- A value that is no rule pair fails one of the checks. -/
theorem exists_fails {member : Value} (h : ¬ member.IsRulePair) :
    ∃ fault wording, member.Fails fault wording := by
  by_cases hpair : ∃ a b, member.IsPairOf a b
  · obtain ⟨a, b, hab⟩ := hpair
    by_cases htexts : ∃ u v, a = .text u ∧ b = .text v
    · obtain ⟨key, production, rfl, rfl⟩ := htexts
      refine ⟨_, _, .key hab fun hlength => h ?_⟩
      obtain ⟨c, rfl⟩ := List.length_eq_one_iff.mp hlength
      exact ⟨c, production, hab⟩
    · exact ⟨_, _, .texts hab htexts⟩
  · exact ⟨_, _, .shape fun a b hab => hpair ⟨a, b, hab⟩⟩

theorem Fails.message_eq {member : Value} {fault : RuleFault} {wording : String}
    (h : member.Fails fault wording) : (Error.malformedRule fault).message = wording := by
  cases h with
  | shape => rfl
  | texts => rfl
  | key => rfl

end Value

/-! ## Members one by one -/

namespace Rule

theorem ofPair_eq_ok_iff_isPairOf {member : Value} {r : Rule Word} :
    ofPair member = .ok r ↔ member.IsPairOf (.text r.key) (.text r.production) ∧ r.key.length = 1 := by
  rw [ofPair_eq_ok_iff, Value.pair?_eq_some_iff, List.length_eq_one_iff]

/-- A member is read as a rule exactly if it is a rule pair. -/
theorem exists_ofPair_iff {member : Value} : (∃ r, ofPair member = .ok r) ↔ member.IsRulePair := by
  constructor
  · rintro ⟨r, hr⟩
    obtain ⟨hpair, hlength⟩ := ofPair_eq_ok_iff_isPairOf.mp hr
    obtain ⟨c, hc⟩ := List.length_eq_one_iff.mp hlength
    exact ⟨c, r.production, hc ▸ hpair⟩
  · rintro ⟨c, production, hpair⟩
    exact ⟨⟨[c], production⟩, ofPair_eq_ok_iff_isPairOf.mpr ⟨hpair, rfl⟩⟩

/-- **A member is refused for the check that it fails first.** -/
theorem ofPair_of_fails {member : Value} {fault : RuleFault} {wording : String}
    (h : member.Fails fault wording) : ofPair member = .error (.malformedRule fault) := by
  cases h with
  | shape h =>
    have hnone : member.pair? = none := by
      cases hpair : member.pair? with
      | none => rfl
      | some ab => exact absurd (Value.pair?_eq_some_iff.mp hpair) (h ab.1 ab.2)
    unfold ofPair
    rw [hnone]
  | texts hpair h =>
    unfold ofPair
    rw [Value.pair?_eq_some_iff.mpr hpair]
    split
    · rename_i hnone
      nomatch hnone
    · rename_i key production hsome
      obtain ⟨rfl, rfl⟩ := Prod.mk.inj (Option.some.inj hsome)
      exact absurd ⟨key, production, rfl, rfl⟩ h
    · rfl
  | key hpair h =>
    unfold ofPair
    rw [Value.pair?_eq_some_iff.mpr hpair]
    exact if_neg h

end Rule

/-! ## The value as a whole -/

namespace RuleTable

theorem ofPairs_of_holds {pairs : Value} {members : List Value} (h : pairs.Holds members) :
    ofPairs pairs = ofRules <$> members.mapM Rule.ofPair := by
  rcases h with rfl | rfl | ⟨entries, rfl, rfl⟩
  · rfl
  · rfl
  · rfl

/-- A value that is read holds members. -/
theorem holds_of_ofPairs {pairs : Value} {table : RuleTable Word} (h : ofPairs pairs = .ok table) :
    ∃ members, pairs.Holds members := by
  obtain ⟨hnot, members, hmembers, -⟩ := ofPairs_eq_ok_iff.mp h
  exact ⟨members, Value.holds_iff.mpr ⟨hnot, hmembers⟩⟩

/-- **Which values are read**: those whose members are rule pairs. -/
theorem exists_ofPairs_iff {pairs : Value} {members : List Value} (h : pairs.Holds members) :
    (∃ table, ofPairs pairs = .ok table) ↔ ∀ member ∈ members, member.IsRulePair := by
  simp only [ofPairs_of_holds h, ofRules_map_eq_ok_iff, ← Rule.exists_ofPair_iff,
    ← exists_mapM_eq_ok_iff]
  constructor
  · rintro ⟨table, h⟩
    exact ⟨table.rules, h⟩
  · rintro ⟨rules, h⟩
    exact ⟨ofRules rules, h⟩

/-- The rules of a table that was read are the members, one by one. -/
theorem forall₂_of_ofPairs {pairs : Value} {members : List Value} (hpairs : pairs.Holds members)
    {table : RuleTable Word} (h : ofPairs pairs = .ok table) :
    List.Forall₂ (fun member r => member.IsPairOf (.text r.key) (.text r.production))
      members table.rules := by
  rw [ofPairs_of_holds hpairs, ofRules_map_eq_ok_iff, mapM_eq_ok_iff, ← List.forall₂_eq_eq_eq,
    List.forall₂_map_left_iff, List.forall₂_map_right_iff] at h
  exact h.imp fun member r hr => (Rule.ofPair_eq_ok_iff_isPairOf.mp hr).1

/-- **A value is refused at its earliest member that is no rule pair**, for the check that this member
    fails first. -/
theorem ofPairs_of_fails {pairs : Value} {before : List Value} {member : Value}
    {after : List Value} (hpairs : pairs.Holds (before ++ member :: after)) (hbefore : ∀ m ∈ before, m.IsRulePair)
    {fault : RuleFault} {wording : String} (h : member.Fails fault wording) :
    ofPairs pairs = .error (.malformedRule fault) := by
  have hread : ∀ m ∈ before, ∃ r, Rule.ofPair m = .ok r :=
    fun m hm => Rule.exists_ofPair_iff.mpr (hbefore m hm)
  rw [ofPairs_of_holds hpairs, mapM_of_first_error hread (Rule.ofPair_of_fails h)]
  rfl

end RuleTable

/-- **Pairs are read member by member, up to the first bad one.**  A value is read exactly if it is a
    list, a tuple or a dictionary whose members are rule pairs, and then these are the rules, in order.
    A text is refused as a whole.  A value whose members are rule pairs up to one that is not is
    refused for the check that this member fails first, with the wording of that check, whatever
    comes behind it; and a member that is no rule pair fails one of the checks.  What holds nothing at
    all is of the wrong kind. -/
theorem pairs_read_member_by_member :
    (∀ v : Value,
      ((∃ table, RuleTable.ofPairs v = .ok table) ↔
        ∃ members, v.Holds members ∧ ∀ member ∈ members, member.IsRulePair) ∧
      (∀ table, RuleTable.ofPairs v = .ok table →
        ∃ members, v.Holds members ∧
          List.Forall₂ (fun member r => member.IsPairOf (.text r.key) (.text r.production))
            members table.rules) ∧
      (∀ w, v = .text w →
        RuleTable.ofPairs v = .error (.malformedRule (.textForPairs w)) ∧
        (Error.malformedRule (.textForPairs w)).message =
          s!"expected (symbol, production) pairs, got rule text {v.shown}") ∧
      (∀ before member after, v.Holds (before ++ member :: after) → (∀ m ∈ before, m.IsRulePair) →
        ∀ fault wording, member.Fails fault wording →
          RuleTable.ofPairs v = .error (.malformedRule fault) ∧
          (Error.malformedRule fault).message = wording) ∧
      ((v = .null ∨ (∃ b, v = .bool b) ∨ (∃ n, v = .int n) ∨ ∃ x, v = .float x) →
        RuleTable.ofPairs v = .error .wrongKind)) ∧
    ∀ member : Value, ¬ member.IsRulePair → ∃ fault wording, member.Fails fault wording := by
  refine ⟨fun v => ⟨?_, ?_, ?_, ?_, ?_⟩, fun member h => Value.exists_fails h⟩
  · constructor
    · rintro ⟨table, h⟩
      obtain ⟨members, hmembers⟩ := RuleTable.holds_of_ofPairs h
      exact ⟨members, hmembers, (RuleTable.exists_ofPairs_iff hmembers).mp ⟨table, h⟩⟩
    · rintro ⟨members, hmembers, hall⟩
      exact (RuleTable.exists_ofPairs_iff hmembers).mpr hall
  · intro table h
    obtain ⟨members, hmembers⟩ := RuleTable.holds_of_ofPairs h
    exact ⟨members, hmembers, RuleTable.forall₂_of_ofPairs hmembers h⟩
  · rintro w rfl
    exact ⟨rfl, rfl⟩
  · intro before member after hmembers hbefore fault wording h
    exact ⟨RuleTable.ofPairs_of_fails hmembers hbefore h, h.message_eq⟩
  · rintro (rfl | ⟨b, rfl⟩ | ⟨n, rfl⟩ | ⟨x, rfl⟩)
    · rfl
    · rfl
    · rfl
    · rfl

/-- The keys of a dictionary are read like the members of a list.  A text of two symbols is no pair,
    a pair of a text and a number is none of two texts, and a key of two symbols is refused before
    anything behind it is looked at. -/
theorem pairs_read_member_by_member_mixed :
    ∃ (table : RuleTable Word) (pair : Value),
      RuleTable.ofPairs (.dict [(.tuple [.text ['F'], .text ['F', 'F']], .null),
        (.tuple [.text ['F'], .text []], .int 1)]) = .ok table ∧
      (∃ members, Value.Holds (.dict [(.tuple [.text ['F'], .text ['F', 'F']], .null),
          (.tuple [.text ['F'], .text []], .int 1)]) members ∧
        List.Forall₂ (fun member r => member.IsPairOf (.text r.key) (.text r.production))
          members table.rules) ∧
      pair.IsRulePair ∧
      (RuleTable.ofPairs (.list [pair, .text ['X', 'A'], .int 5]) =
          .error (.malformedRule (.notPair (.text ['X', 'A']))) ∧
        (Error.malformedRule (.notPair (.text ['X', 'A']))).message =
          "rule 'XA' must be a (symbol, production) pair") ∧
      (RuleTable.ofPairs (.tuple [pair, .tuple [.text ['X'], .int 5]]) =
          .error (.malformedRule (.notTexts (.tuple [.text ['X'], .int 5]))) ∧
        (Error.malformedRule (.notTexts (.tuple [.text ['X'], .int 5]))).message =
          "rule ('X', 5) must pair two strings") ∧
      (RuleTable.ofPairs (.list [.list [.text ['X', 'Y'], .text []], .int 5]) =
          .error (.malformedRule (.key ['X', 'Y'])) ∧
        (Error.malformedRule (.key ['X', 'Y'])).message =
          "rule key 'XY' must be a single symbol") := by
  obtain ⟨pair, hpair⟩ : ∃ pair : Value, pair = .list [.text ['X'], .text ['A']] := ⟨_, rfl⟩
  have hrule : pair.IsRulePair := ⟨'X', ['A'], Or.inl hpair⟩
  have hbefore : ∀ m ∈ [pair], m.IsRulePair := List.forall_mem_singleton.mpr hrule
  have hshape : (Value.text ['X', 'A']).Fails _ _ := .shape fun a b h => by
    rcases h with h | h
    · nomatch h
    · nomatch h
  have htexts : (Value.tuple [.text ['X'], .int 5]).Fails _ _ :=
    .texts (Or.inr rfl) fun ⟨_, _, _, h⟩ => nomatch h
  have hkey : (Value.list [.text ['X', 'Y'], .text []]).Fails _ _ :=
    .key (Or.inl rfl) (by decide)
  refine ⟨_, pair, rfl, ?_, hrule, ?_, ?_, ?_⟩
  · exact (pairs_read_member_by_member.1 _).2.1 _ rfl
  · exact (pairs_read_member_by_member.1 _).2.2.2.1 [pair] _ [.int 5] (Or.inl rfl) hbefore _ _ hshape
  · exact (pairs_read_member_by_member.1 _).2.2.2.1 [pair] _ [] (Or.inr (Or.inl rfl)) hbefore _ _
      htexts
  · exact (pairs_read_member_by_member.1 _).2.2.2.1 [] _ [.int 5] (Or.inl rfl)
      (List.forall_mem_nil _) _ _ hkey

end Lindenmayer
