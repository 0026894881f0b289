import GuardedMatch.Diagnostic.Queue

/-!
# Words in messages

A diagnostic follows from an earlier mistake if its message mentions the error type.  The words of
the program are quoted in messages, and no mention reaches across a quote.  So a message mentions
the error type just if one of the words in it does.

* `occursIn_append_cons`: nothing occurs across a character that it does not contain.
* `Diagnostic.isFollowOn_binaryMismatch` and the like: which words make a diagnostic a follow-on.
-/

namespace GuardedMatch

/-! ## Occurrences -/

theorem isPrefixOf_append_cons {word : List Char} {mark : Char} (hmark : mark ∉ word)
    (left right : List Char) :
    word.isPrefixOf (left ++ mark :: right) = word.isPrefixOf left := by
  induction word generalizing left with
  | nil => simp
  | cons c word ih =>
    have hc : c ≠ mark := fun heq => hmark (heq ▸ List.mem_cons_self)
    cases left with
    | nil => simp [List.isPrefixOf, hc]
    | cons d left =>
      rw [List.cons_append, List.isPrefixOf_cons_cons, List.isPrefixOf_cons_cons,
        ih fun hmem => hmark (List.mem_cons_of_mem _ hmem)]

/-- What does not contain a character does not occur across it. -/
theorem occursIn_append_cons {word : List Char} {mark : Char} (hmark : mark ∉ word)
    (hword : word ≠ []) (left right : List Char) :
    occursIn word (left ++ mark :: right) = (occursIn word left || occursIn word right) := by
  induction left with
  | nil =>
    have hempty : occursIn word [] = false := by simpa [occursIn] using hword
    have hstart := isPrefixOf_append_cons hmark [] right
    rw [List.nil_append] at hstart
    rw [List.nil_append, hempty, occursIn, hstart]
    cases word with
    | nil => exact absurd rfl hword
    | cons c word => rfl
  | cons c left ih =>
    have hstart := isPrefixOf_append_cons hmark (c :: left) right
    rw [List.cons_append] at hstart
    rw [List.cons_append, occursIn, hstart, ih, occursIn, Bool.or_assoc]

/-- What starts with a character does not occur where there is none. -/
theorem occursIn_eq_false_of_notMem {c : Char} {word text : List Char} (h : c ∉ text) :
    occursIn (c :: word) text = false := by
  induction text with
  | nil => rfl
  | cons d text ih =>
    have hne : c ≠ d := fun heq => h (heq ▸ List.mem_cons_self)
    rw [occursIn, ih fun hmem => h (List.mem_cons_of_mem _ hmem)]
    simp [List.isPrefixOf, hne]

/-! ## Plain words -/

/-- The text does not mention the error type. -/
def Plain (text : String) : Prop := occursIn "<error>".toList text.toList = false

instance (text : String) : Decidable (Plain text) := inferInstanceAs (Decidable (_ = false))

@[simp]
theorem plain_append_quoted_append (before word after : String) :
    Plain (before ++ (quoted word ++ after)) ↔ Plain before ∧ Plain word ∧ Plain after := by
  have hmark : '`' ∉ "<error>".toList := by decide
  have hsplit : (before ++ (quoted word ++ after)).toList =
      before.toList ++ '`' :: (word.toList ++ '`' :: after.toList) := by simp [quoted]
  rw [Plain, hsplit, occursIn_append_cons hmark (by decide),
    occursIn_append_cons hmark (by decide), Bool.or_eq_false_iff, Bool.or_eq_false_iff]
  rfl

@[simp]
theorem plain_append_quoted (before word : String) :
    Plain (before ++ quoted word) ↔ Plain before ∧ Plain word := by
  have h := plain_append_quoted_append before word ""
  have hempty : Plain "" := by decide
  rw [String.append_empty] at h
  simp [h, hempty]

@[simp]
theorem plain_quoted_append (word after : String) :
    Plain (quoted word ++ after) ↔ Plain word ∧ Plain after := by
  have h := plain_append_quoted_append "" word after
  have hempty : Plain "" := by decide
  rw [String.empty_append] at h
  simp [h, hempty]

/-- Numbers mention nothing, and neither do fixed words without angle brackets. -/
theorem plain_of_notMem {text : String} (h : '<' ∉ text.toList) : Plain text :=
  occursIn_eq_false_of_notMem h

theorem bracket_notMem_toString (number : Nat) : '<' ∉ (toString number).toList := by
  intro hmem
  have hdigits : (toString number).toList = Nat.toDigits 10 number := by simp
  rw [hdigits] at hmem
  have hdigit := Nat.isDigit_of_mem_toDigits (by decide) (by decide) hmem
  revert hdigit
  decide

namespace Diagnostic

variable (span : Span)

@[simp]
theorem isFollowOn_withMessage (diagnostic : Diagnostic) (message note : String) :
    ((diagnostic.withMessage message).withNote span note).isFollowOn = false ↔ Plain message :=
  Iff.rfl

theorem isFollowOn_guardAlwaysFalse : (guardAlwaysFalse span).isFollowOn = false := by
  change Plain "this guard can never be true"
  decide

theorem isFollowOn_guardNotBoolean (found : String) :
    (guardNotBoolean span found).isFollowOn = false ↔ Plain found := by
  simp +decide [guardNotBoolean, String.append_assoc]

theorem isFollowOn_unknownType (name : String) :
    (unknownType span name).isFollowOn = false ↔ Plain name := by
  simp +decide [unknownType]

theorem isFollowOn_unknownName (name : String) :
    (unknownName span name).isFollowOn = false ↔ Plain name := by
  simp +decide [unknownName, String.append_assoc]

theorem isFollowOn_unknownComponent (component receiver : String) :
    (unknownComponent span component receiver).isFollowOn = false ↔
      Plain component ∧ Plain receiver := by
  simp +decide [unknownComponent, String.append_assoc]

theorem isFollowOn_incompatiblePattern (expected found : String) :
    (incompatiblePattern span expected found).isFollowOn = false ↔
      Plain expected ∧ Plain found := by
  simp +decide [incompatiblePattern, String.append_assoc]

theorem isFollowOn_varRecord : (varRecord span).isFollowOn = false := by
  change Plain (quoted "var" ++ " cannot name the type of a record pattern")
  decide

theorem isFollowOn_notARecord (found : String) :
    (notARecord span found).isFollowOn = false ↔ Plain found := by
  simp +decide [notARecord]

theorem isFollowOn_componentCount (record : String) (declared given : Nat) :
    (componentCount span record declared given).isFollowOn = false ↔ Plain record := by
  have hnumbers : Plain (" has " ++ (toString declared ++
      (" component(s), but the pattern has " ++ toString given))) := by
    refine plain_of_notMem ?_
    simp only [String.toList_append, List.mem_append, bracket_notMem_toString, or_false, false_or]
    decide
  rw [Nat.toString_eq_repr, Nat.toString_eq_repr] at hnumbers
  simp +decide [componentCount, String.append_assoc, hnumbers]

theorem isFollowOn_unaryMismatch (symbol operand : String) :
    (unaryMismatch span symbol operand).isFollowOn = false ↔ Plain symbol ∧ Plain operand := by
  simp +decide [unaryMismatch, String.append_assoc]

theorem isFollowOn_binaryMismatch (symbol left right : String) :
    (binaryMismatch span symbol left right).isFollowOn = false ↔
      Plain symbol ∧ Plain left ∧ Plain right := by
  simp +decide [binaryMismatch, String.append_assoc]

theorem isFollowOn_unassignedLocal (name : String) :
    (unassignedLocal span name).isFollowOn = false ↔ Plain name := by
  simp +decide [unassignedLocal, String.append_assoc]

theorem isFollowOn_dominatedCase (earlier : Span) :
    (dominatedCase span earlier).isFollowOn = false := by
  change Plain "this case label is dominated by a preceding case label"
  decide

theorem isFollowOn_notExhaustive (selector : String) :
    (notExhaustive span selector).isFollowOn = false ↔ Plain selector := by
  simp +decide [notExhaustive, String.append_assoc]

end Diagnostic

end GuardedMatch
