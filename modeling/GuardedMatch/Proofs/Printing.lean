import GuardedMatch.Name
import GuardedMatch.Syntax.Printer
import GuardedMatch.Syntax.Walk

/-!
# Reading printed guards

The printed text of a guard says how its operators group, so it can be read back.  A text begins
with a head: a word, a call, a unary operator with its operand, or something in parentheses.  Tails
follow: fields, binary operators with their right operands, and tests.  A reader that is given the
least level of an operator takes tails as long as their levels allow, and puts each onto what it
has.  Right operands are printed for a level above that of their operator, so what follows one is
too low to become part of it.

* `readExpr`, `readPattern`: the readers.
* `Blocks`: what may follow a text without becoming part of it.
* `Expr.readBack`, `Pattern.readBack`: what is printed is read back.
* `shape_eq_of_render_eq`: expressions that are printed alike are alike.
-/

namespace GuardedMatch

/-! ## Shapes -/

mutual

/-- What is left of a pattern without numbers and spans, when locals are given by name. -/
inductive PatternShape
  | type (ty binds : Option String)
  | record (ty : Option String) (components : List PatternShape)
  | guarded (patterns : List PatternShape) (condition : ExprShape)
  | any
  | missing

/-- What is left of an expression without numbers, spans and the types that calls return. -/
inductive ExprShape
  | bool (value : Bool)
  | int (value : Int)
  | ident (name : String)
  | field (receiver : ExprShape) (name : String)
  | binary (op : BinaryOp) (left right : ExprShape)
  | unary (op : UnaryOp) (operand : ExprShape)
  | instanceOf (tested : ExprShape) (pattern : PatternShape)
  | call (callee : String) (args : List ExprShape)
  | missing

end

mutual

def Pattern.shape (nameOf : LocalId → String) : Pattern → PatternShape
  | .type _ ty binds _ => .type ty.name (binds.map nameOf)
  | .record _ ty components _ => .record ty.name (Pattern.shapeAll nameOf components)
  | .guarded _ patterns condition _ =>
    .guarded (Pattern.shapeAll nameOf patterns) (condition.shape nameOf)
  | .any .. => .any
  | .missing _ => .missing

def Pattern.shapeAll (nameOf : LocalId → String) : List Pattern → List PatternShape
  | [] => []
  | pattern :: patterns => pattern.shape nameOf :: Pattern.shapeAll nameOf patterns

def Expr.shape (nameOf : LocalId → String) : Expr → ExprShape
  | .bool _ value _ => .bool value
  | .int _ value _ => .int value
  | .ident _ name _ => .ident name
  | .field _ receiver name _ => .field (receiver.shape nameOf) name
  | .binary _ op left right _ => .binary op (left.shape nameOf) (right.shape nameOf)
  | .unary _ op operand _ => .unary op (operand.shape nameOf)
  | .instanceOf _ tested pattern _ => .instanceOf (tested.shape nameOf) (pattern.shape nameOf)
  | .call _ callee args _ _ => .call callee (Expr.shapeAll nameOf args)
  | .missing _ => .missing

def Expr.shapeAll (nameOf : LocalId → String) : List Expr → List ExprShape
  | [] => []
  | expr :: exprs => expr.shape nameOf :: Expr.shapeAll nameOf exprs

end

/-! ## Readers -/

/-- The characters that may stand beside words. -/
def marks : List Char := [' ', '(', ')', '.', ',', '!', '-']

/-- What begins a text, with the rest of the text. -/
abbrev Reader (α : Type) := List Char → Option (α × List Char)

def readWord (chars : List Char) : String × List Char :=
  (String.ofList (chars.takeWhile (· ∉ marks)), chars.dropWhile (· ∉ marks))

def readItems {α : Type} (item : Reader α) : Nat → Reader (List α)
  | 0, _ => none
  | n + 1, chars =>
    match item chars with
    | none => some ([], chars.tail)
    | some (first, rest) =>
      (readItems item n (if rest.head? = some ',' then rest.drop 2 else rest)).map
        (Prod.map (first :: ·) id)

/-- Items with commas between them, up to a closing parenthesis. -/
def readList {α : Type} (item : Reader α) : Reader (List α) := fun chars =>
  readItems item chars.length chars

/-- A word that may stand for nothing. -/
def given (nothing word : String) : Option String := if word = nothing then none else some word

def readPattern : Nat → Reader PatternShape
  | 0, _ => none
  | n + 1, chars =>
    let (word, rest) := readWord chars
    if word = "" then none
    else if word = "_" then some (.any, rest)
    else if rest.head? = some '(' then
      (readList (readPattern n) rest.tail).map
        (Prod.map (.record (given "var" word)) id)
    else
      let (name, rest) := readWord rest.tail
      some (.type (given "var" word) (given "_" name), rest)

/-- What a word stands for: a constant if it is one, and a name otherwise. -/
def ExprShape.ofWord (word : String) : ExprShape :=
  if word = "true" then .bool true
  else if word = "false" then .bool false
  else if word.toList.head?.any Char.isDigit then .int (Nat.ofDigitChars 10 word.toList 0)
  else .ident word

/-- The beginning of an expression, where other expressions are read by `expr`. -/
def readHead (expr : Nat → Reader ExprShape) : Reader ExprShape := fun chars =>
  let (word, rest) := readWord chars
  if rest.head? = some '(' then
    if word = "" then (expr 0 rest.tail).map (Prod.map id List.tail)
    else (readList (expr 0) rest.tail).map (Prod.map (.call word) id)
  else if word = "" then
    ([UnaryOp.not, .neg].find? (·.symbol.toList.isPrefixOf rest)).bind fun op =>
      (expr unaryLevel rest.tail).map (Prod.map (.unary op) id)
  else some (.ofWord word, rest)

/-- What a tail begins with. -/
inductive Lead
  | dot
  | test
  | operator (op : BinaryOp)
deriving DecidableEq

namespace Lead

def all : List Lead := dot :: test :: BinaryOp.all.map operator

def chars : Lead → List Char
  | dot => ['.']
  | test => ' ' :: ("instanceof".toList ++ [' '])
  | operator op => ' ' :: (op.symbol.toList ++ [' '])

def level : Lead → Nat
  | dot => unaryLevel + 1
  | test => instanceOfLevel
  | operator op => op.level

def read (chars : List Char) : Option Lead := all.find? (·.chars.isPrefixOf chars)

end Lead

/-- What follows the beginning of a tail, put onto `shape`. -/
def readTail (expr : Nat → Reader ExprShape) (pattern : Reader PatternShape) (shape : ExprShape) :
    Lead → Reader ExprShape
  | .dot, chars => some ((readWord chars).map (.field shape) id)
  | .test, chars => (pattern chars).map (Prod.map (.instanceOf shape) id)
  | .operator op, chars => (expr (op.level + 1) chars).map (Prod.map (.binary op shape) id)

mutual

/-- An expression in which operators outside parentheses are of the level `least` or higher. -/
def readExpr : Nat → Nat → Reader ExprShape
  | 0, _, _ => none
  | n + 1, least, chars => (readHead (readExpr n) chars).bind fun found =>
    readTails n least found.1 found.2

def readTails : Nat → Nat → ExprShape → Reader ExprShape
  | 0, _, _, _ => none
  | n + 1, least, shape, chars =>
    match Lead.read chars with
    | none => some (shape, chars)
    | some lead =>
      if lead.level < least then some (shape, chars)
      else (readTail (readExpr n) (readPattern n) shape lead (chars.drop lead.chars.length)).bind
        fun found => readTails n least found.1 found.2

end

/-! ## Words -/

/-- A name, a number or a word of the language. -/
structure IsWord (word : String) : Prop where
  ne_empty : word ≠ ""
  plain : ∀ c ∈ word.toList, c ∉ marks

/-- Letters and digits of any kind are no marks, and no letter is a digit. -/
structure IsName (name : String) : Prop where
  other : name ∉ Interner.words
  plain : ∀ c ∈ name.toList, c ∉ marks
  start : name.toList.head?.any Char.isDigit = false

theorem plain_iff {word : String} :
    word.toList.all (!marks.contains ·) = true ↔ ∀ c ∈ word.toList, c ∉ marks := by
  simp

instance (name : String) : Decidable (IsName name) :=
  decidable_of_iff (name ∉ Interner.words ∧ name.toList.all (!marks.contains ·) = true ∧
      name.toList.head?.any Char.isDigit = false)
    ⟨fun h => ⟨h.1, plain_iff.1 h.2.1, h.2.2⟩, fun h => ⟨h.other, plain_iff.2 h.plain, h.start⟩⟩

theorem IsName.isWord {name : String} (h : IsName name) : IsWord name :=
  ⟨fun hname => h.other (by rw [hname]; decide), h.plain⟩

theorem IsName.ne {name word : String} (h : IsName name) (hword : word ∈ Interner.words) :
    name ≠ word := fun hname => h.other (hname ▸ hword)

theorem readWord_append {word : String} {rest : List Char} (h : ∀ c ∈ word.toList, c ∉ marks)
    (hrest : ∀ c ∈ rest.head?, c ∈ marks) : readWord (word.toList ++ rest) = (word, rest) := by
  have hword : ∀ c ∈ word.toList, decide (c ∉ marks) = true := fun c hc => decide_eq_true (h c hc)
  rw [readWord, List.takeWhile_append_of_pos hword, List.dropWhile_append_of_pos hword]
  cases rest with
  | nil => simp
  | cons c rest => simp [hrest c rfl]

theorem readWord_mark {mark : Char} {rest : List Char} (hmark : mark ∈ marks) :
    readWord (mark :: rest) = ("", mark :: rest) := by
  simp [readWord, hmark]

theorem IsWord.read_mark {word : String} (h : IsWord word) {mark : Char} (hmark : mark ∈ marks)
    {rest : List Char} : readWord (word.toList ++ mark :: rest) = (word, mark :: rest) :=
  readWord_append h.plain fun _ hc => Option.some.inj hc ▸ hmark

theorem given_getD {word : String} {name : Option String} (hword : word ∈ Interner.words)
    (h : ∀ text ∈ name, IsName text) : given word (name.getD word) = name := by
  cases name with
  | none => exact if_pos rfl
  | some text => exact if_neg ((h text rfl).ne hword)

theorem isWord_getD {word : String} (hword : IsWord word) {name : Option String}
    (h : ∀ text ∈ name, IsName text) : IsWord (name.getD word) := by
  cases name with
  | none => exact hword
  | some text => exact (h text rfl).isWord

theorem ExprShape.ofWord_name {name : String} (h : IsName name) : ofWord name = .ident name := by
  rw [ofWord, if_neg (h.ne (by decide)), if_neg (h.ne (by decide)), h.start]
  rfl

/-- A number is a word, and it is read as what it is. -/
theorem ExprShape.ofWord_repr (n : Nat) : IsWord n.repr ∧ ofWord n.repr = .int n := by
  have digits : ∀ c ∈ n.repr.toList, c.isDigit = true := fun c hc =>
    Nat.isDigit_of_mem_toDigits (by decide) (by decide) (Nat.toList_repr ▸ hc)
  obtain ⟨c, more, heq⟩ : ∃ c more, n.repr.toList = c :: more :=
    List.exists_cons_of_ne_nil (by rw [Nat.toList_repr]; exact Nat.toDigits_ne_nil)
  have hne : ∀ word : String, (∃ c ∈ word.toList.head?, c.isDigit = false) → n.repr ≠ word := by
    rintro word ⟨c', hc', hdigit⟩ rfl
    rw [digits c' (List.mem_of_mem_head? hc')] at hdigit
    cases hdigit
  refine ⟨⟨fun hempty => ?_, fun c hc hmark => ?_⟩, ?_⟩
  · rw [hempty] at heq
    cases heq
  · have hdigit := List.all_eq_true.1 (by decide : marks.all (!Char.isDigit ·) = true) c hmark
    rw [digits c hc] at hdigit
    cases hdigit
  · rw [ofWord, if_neg (hne _ ⟨'t', rfl, rfl⟩), if_neg (hne _ ⟨'f', rfl, rfl⟩),
      if_pos (by simp [heq, digits c]), Nat.toList_repr, Nat.ofDigitChars_ten_toDigits]

/-! ## What may follow -/

theorem BinaryOp.level_lt (op : BinaryOp) : op.level < unaryLevel := by
  cases op <;> decide

theorem Lead.read_append (lead : Lead) (rest : List Char) :
    Lead.read (lead.chars ++ rest) = some lead := by
  rcases lead with _ | _ | op
  · rfl
  · rfl
  · cases op <;> rfl

theorem Lead.read_eq_none {chars : List Char} (h : ∀ c ∈ chars.head?, c ∉ ['.', ' ']) :
    Lead.read chars = none := by
  refine List.find?_eq_none.2 fun lead _ hlead => ?_
  obtain ⟨more, rfl⟩ := List.isPrefixOf_iff_prefix.1 hlead
  cases lead <;> simp [Lead.chars] at h

/-- What may follow a text in which every operator is of the level `least` or higher. -/
structure Blocks (least : Nat) (rest : List Char) : Prop where
  stop : ∀ c ∈ rest.head?, c ∈ [' ', ')', '.', ',']
  low : ∀ lead ∈ Lead.read rest, lead.level < least

namespace Blocks

variable {least : Nat} {rest : List Char}

theorem mono {more : Nat} (h : Blocks least rest) (hle : least ≤ more) : Blocks more rest :=
  ⟨h.stop, fun lead hlead => Nat.lt_of_lt_of_le (h.low lead hlead) hle⟩

theorem mark (h : Blocks least rest) : ∀ c ∈ rest.head?, c ∈ marks := fun c hc =>
  (by simp [marks] : ∀ c ∈ [' ', ')', '.', ','], c ∈ marks) c (h.stop c hc)

theorem ne_open (h : Blocks least rest) : rest.head? ≠ some '(' := fun hopen =>
  absurd (h.stop '(' hopen) (by decide)

theorem of_head (h : ∀ c ∈ rest.head?, c ∈ [')', ',']) : Blocks least rest := by
  refine ⟨fun c hc => ?_, ?_⟩
  · exact (by simp : ∀ c ∈ [')', ','], c ∈ [' ', ')', '.', ',']) c (h c hc)
  · rw [Lead.read_eq_none fun c hc => (by simp : ∀ c ∈ [')', ','], c ∉ ['.', ' ']) c (h c hc)]
    simp

theorem of_lead {lead : Lead} (h : lead.level < least) (rest : List Char) :
    Blocks least (lead.chars ++ rest) := by
  refine ⟨by cases lead <;> simp [Lead.chars], fun lead' hlead => ?_⟩
  rw [lead.read_append] at hlead
  exact Option.some.inj hlead ▸ h

end Blocks

/-! ## Lists -/

section

variable {α β : Type} (text : α → List Char)

/-- Texts with commas before them. -/
def othersChars (items : List α) : List Char := items.flatMap fun item => ',' :: ' ' :: text item

/-- Texts with commas between them. -/
def listChars : List α → List Char
  | [] => []
  | item :: items => text item ++ othersChars text items

variable {text}

/-- A list is read back if its items are, as far as they are no longer than `size`. -/
theorem readItems_append {item : Reader β} {shape : α → β} {size : Nat} {rest : List Char}
    (hclose : ∀ rest, item (')' :: rest) = none) : ∀ {items : List α} {n : Nat},
    (∀ a ∈ items, ∀ rest, (text a ++ rest).length ≤ size → Blocks 0 rest →
      item (text a ++ rest) = some (shape a, rest)) →
    (listChars text items ++ ')' :: rest).length ≤ n → n ≤ size →
    readItems item n (listChars text items ++ ')' :: rest) = some (items.map shape, rest)
  | [], n + 1, _, _, _ => by simp [readItems, listChars, hclose]
  | a :: items, n, hread, hlen, hsize => by
    have hfirst := hread a List.mem_cons_self
    -- An empty text could not be told from the end of the list.
    have hpos : 0 < (text a).length := by
      refine List.length_pos_iff.2 fun hnil => ?_
      have := hfirst (')' :: rest) (by simp [hnil] at hlen ⊢; omega) (.of_head (by simp))
      rw [hnil, List.nil_append, hclose] at this
      cases this
    have hskip : (if (othersChars text items ++ ')' :: rest).head? = some ',' then
        (othersChars text items ++ ')' :: rest).drop 2 else othersChars text items ++ ')' :: rest) =
          listChars text items ++ ')' :: rest := by
      cases items <;> simp [othersChars, listChars]
    have hle : (listChars text items).length ≤ (othersChars text items).length := by
      cases items with
      | nil => exact Nat.zero_le _
      | cons =>
        simp only [othersChars, listChars, List.flatMap_cons, List.length_append, List.length_cons]
        omega
    rw [listChars, List.append_assoc] at hlen ⊢
    cases n with
    | zero => simp at hlen
    | succ n =>
      have hothers : readItems item n (listChars text items ++ ')' :: rest) =
          some (items.map shape, rest) :=
        readItems_append hclose (fun a ha => hread a (List.mem_cons_of_mem _ ha))
          (by simp only [List.length_append] at hlen ⊢; omega) (by omega)
      have hblocks : Blocks 0 (othersChars text items ++ ')' :: rest) :=
        .of_head (by cases items <;> simp [othersChars])
      simp only [readItems, hfirst _ (Nat.le_trans hlen hsize) hblocks]
      rw [hskip, hothers]
      rfl

theorem readList_append {item : Reader β} {shape : α → β} {items : List α} {rest : List Char}
    (hclose : ∀ rest, item (')' :: rest) = none) (hread : ∀ a ∈ items, ∀ more,
      (text a ++ more).length ≤ (listChars text items ++ ')' :: rest).length → Blocks 0 more →
      item (text a ++ more) = some (shape a, more)) :
    readList item (listChars text items ++ ')' :: rest) = some (items.map shape, rest) :=
  readItems_append hclose hread (Nat.le_refl _) (Nat.le_refl _)

end

/-! ## Clear expressions -/

def Expr.isUnary : Expr → Bool
  | .unary .. => true
  | _ => false

/-- The identifiers in a node itself. -/
def Visit.names (nameOf : LocalId → String) : Visit → List String
  | .binding id => [nameOf id]
  | .pattern (.type _ ty _ _) | .pattern (.record _ ty _ _) => ty.name.toList
  | .expr (.ident _ name _) | .expr (.field _ _ name _) | .expr (.call _ name _ _ _) => [name]
  | _ => []

/-- Neither guarded patterns nor negative numbers nor fields of unary expressions. -/
def Visit.isPlain : Visit → Bool
  | .pattern (.guarded ..) | .pattern (.missing _) | .expr (.missing _) => false
  | .expr (.int _ value _) => 0 ≤ value
  | .expr (.field _ receiver _ _) => !receiver.isUnary
  | _ => true

/-- Everything that is met is plain, and its identifiers are names. -/
def AllClear (nameOf : LocalId → String) (visits : List Visit) : Prop :=
  ∀ visit ∈ visits, (∀ name ∈ visit.names nameOf, IsName name) ∧ visit.isPlain = true

instance (nameOf : LocalId → String) (visits : List Visit) : Decidable (AllClear nameOf visits) :=
  inferInstanceAs (Decidable (∀ visit ∈ visits, _ ∧ _))

variable {nameOf nameOf' : LocalId → String}

theorem AllClear.mono {visits visits' : List Visit} (h : AllClear nameOf visits)
    (hsub : visits' ⊆ visits) : AllClear nameOf visits' := fun visit hvisit => h visit (hsub hvisit)

/-! ## Patterns -/

namespace Pattern

def chars (nameOf : LocalId → String) (pattern : Pattern) : List Char :=
  (pattern.render nameOf).toList

theorem shapeAll_eq (patterns : List Pattern) :
    shapeAll nameOf patterns = patterns.map (shape nameOf) := by
  induction patterns with
  | nil => rfl
  | cons pattern patterns ih => rw [shapeAll, ih, List.map_cons]

theorem toList_renderAll : ∀ patterns : List Pattern,
    (renderAll nameOf patterns).toList = listChars (chars nameOf) patterns
  | [] => rfl
  | [pattern] => by simp [renderAll, listChars, othersChars, chars]
  | pattern :: other :: patterns => by
    simp [renderAll, toList_renderAll (other :: patterns), listChars, othersChars, chars]

theorem text_spec {ty : TypeRef} (h : ∀ name ∈ ty.name, IsName name) :
    IsWord ty.text ∧ ty.text ≠ "_" ∧ given "var" ty.text = ty.name := by
  rw [TypeRef.text]
  refine ⟨isWord_getD ⟨by decide, plain_iff.1 (by decide +kernel)⟩ h, ?_, given_getD (by decide) h⟩
  cases hname : ty.name with
  | none => decide
  | some name => exact (h name hname).ne (by decide)

theorem clear_of_mem {id : PatternId} {ty : TypeRef} {components : List Pattern} {span : Span}
    {pattern : Pattern} (h : AllClear nameOf (Pattern.record id ty components span).visits)
    (hmem : pattern ∈ components) : AllClear nameOf pattern.visits := fun visit hvisit => by
  refine h visit (List.mem_cons_of_mem _ ?_)
  rw [visitsAll_eq]
  exact List.mem_flatMap_of_mem hmem hvisit

/-- **A printed pattern is read back.** -/
theorem readBack : ∀ (pattern : Pattern) {least n : Nat} {rest : List Char},
    AllClear nameOf pattern.visits → Blocks least rest → (pattern.chars nameOf ++ rest).length < n →
    readPattern n (pattern.chars nameOf ++ rest) = some (pattern.shape nameOf, rest)
  | _, _, 0, _, _, _, hlen => absurd hlen (Nat.not_lt_zero _)
  | .type id ty binds span, _, n + 1, rest, h, hrest, _ => by
    have hchars : (Pattern.type id ty binds span).chars nameOf =
        ty.text.toList ++ ' ' :: ((binds.map nameOf).getD "_").toList := by
      cases binds <;> simp [chars, render]
    have hty : ∀ name ∈ ty.name, IsName name := fun name hname =>
      (h _ (self_mem_visits _)).1 name (Option.mem_toList.2 hname)
    have hbinds : ∀ name ∈ binds.map nameOf, IsName name := by
      intro name hname
      obtain ⟨binding, hbinding, rfl⟩ := Option.map_eq_some_iff.1 hname
      exact (h (.binding binding) (by simp [visits, hbinding])).1 _ List.mem_cons_self
    obtain ⟨hword, hany, hgiven⟩ := text_spec hty
    have hname : IsWord ((binds.map nameOf).getD "_") :=
      isWord_getD ⟨by decide, plain_iff.1 (by decide +kernel)⟩ hbinds
    have hbinds : given "_" ((binds.map nameOf).getD "_") = binds.map nameOf :=
      given_getD (by decide) hbinds
    simp [hchars, readPattern, hword.read_mark (by decide : ' ' ∈ marks), hword.ne_empty, hany,
      readWord_append hname.plain hrest.mark, hgiven, hbinds, shape]
  | .record id ty components span, _, n + 1, rest, h, hrest, hlen => by
    have hchars : (Pattern.record id ty components span).chars nameOf ++ rest =
        ty.text.toList ++ '(' :: (listChars (chars nameOf) components ++ ')' :: rest) := by
      simp [chars, render, toList_renderAll]
    obtain ⟨hword, hany, hgiven⟩ := text_spec fun name hname =>
      (h _ (self_mem_visits _)).1 name (Option.mem_toList.2 hname)
    have hclose : ∀ rest, readPattern n (')' :: rest) = none := by
      intro rest
      cases n with
      | zero => rfl
      | succ n => simp [readPattern, readWord_mark (by decide : ')' ∈ marks)]
    rw [hchars, List.length_append, List.length_cons] at hlen
    have hlist : readList (readPattern n) (listChars (chars nameOf) components ++ ')' :: rest) =
        some (components.map (shape nameOf), rest) :=
      readList_append hclose (fun component hmem _ hle hrest =>
        component.readBack (clear_of_mem h hmem) hrest (by omega))
    simp [hchars, readPattern, hword.read_mark (by decide : '(' ∈ marks), hword.ne_empty, hany,
      hlist, hgiven, shape, shapeAll_eq]
  | .any .., _, n + 1, rest, _, hrest, _ => by
    have hany : readWord ("_".toList ++ rest) = ("_", rest) :=
      readWord_append (plain_iff.1 (by decide +kernel)) hrest.mark
    simp only [chars, render, readPattern, hany]
    rfl
  | .guarded .., _, _, _, h, _, _ | .missing _, _, _, _, h, _, _ =>
    absurd (h _ (self_mem_visits _)).2 Bool.false_ne_true
termination_by pattern => sizeOf pattern
decreasing_by
  have := List.sizeOf_lt_of_mem hmem
  simp only [Pattern.record.sizeOf_spec]
  omega

end Pattern

/-! ## Expressions -/

namespace Expr

def chars (nameOf : LocalId → String) (least : Nat) (expr : Expr) : List Char :=
  (expr.render nameOf least).toList

theorem shapeAll_eq (exprs : List Expr) : shapeAll nameOf exprs = exprs.map (shape nameOf) := by
  induction exprs with
  | nil => rfl
  | cons expr exprs ih => rw [shapeAll, ih, List.map_cons]

theorem toList_renderAll : ∀ exprs : List Expr,
    (renderAll nameOf exprs).toList = listChars (chars nameOf 0) exprs
  | [] => rfl
  | [expr] => by simp [renderAll, listChars, othersChars, chars]
  | expr :: other :: exprs => by
    simp [renderAll, toList_renderAll (other :: exprs), listChars, othersChars, chars]

end Expr

section

variable {least : Nat} {shape shape' : ExprShape} {chars rest : List Char}
  {result : ExprShape × List Char}

/-- Tails that are read in this way whenever there is time enough. -/
def TailsGive (least : Nat) (shape : ExprShape) (rest : List Char)
    (result : ExprShape × List Char) : Prop :=
  ∀ n, rest.length < n → readTails n least shape rest = some result

theorem TailsGive.of_blocks (h : Blocks least rest) : TailsGive least shape rest (shape, rest)
  | n + 1, _ => by
    rw [readTails]
    cases hlead : Lead.read rest with
    | none => rfl
    | some lead => exact if_pos (h.low lead hlead)

theorem TailsGive.cons {lead : Lead} (hlevel : least ≤ lead.level)
    (htail : ∀ n, (chars ++ rest).length < n →
      readTail (readExpr n) (readPattern n) shape lead (chars ++ rest) = some (shape', rest))
    (h : TailsGive least shape' rest result) :
    TailsGive least shape (lead.chars ++ (chars ++ rest)) result
  | n + 1, hlen => by
    have hpos : 0 < lead.chars.length := by cases lead <;> simp [Lead.chars]
    simp only [List.length_append] at hlen
    have htail := htail n (by simp; omega)
    have hrest := h n (by omega)
    simp [readTails, lead.read_append, Nat.not_lt.2 hlevel, htail, hrest]

/-- The same for whole expressions. -/
def ExprGives (least : Nat) (chars : List Char) (result : ExprShape × List Char) : Prop :=
  ∀ n, chars.length < n → readExpr n least chars = some result

theorem ExprGives.of_head (hne : chars ≠ [])
    (hhead : ∀ n, (chars ++ rest).length ≤ n →
      readHead (readExpr n) (chars ++ rest) = some (shape, rest))
    (h : TailsGive least shape rest result) : ExprGives least (chars ++ rest) result
  | n + 1, hlen => by
    have hpos := List.length_pos_iff.2 hne
    have hlt : rest.length < n := by simp at hlen; omega
    rw [readExpr, hhead n (Nat.le_of_lt_succ hlen)]
    exact h n hlt

theorem ExprGives.of_word (word : String) {more : Nat} (hword : IsWord word)
    (hrest : Blocks more rest) (h : TailsGive least (.ofWord word) rest result) :
    ExprGives least (word.toList ++ rest) result := by
  refine .of_head (fun hnil => hword.ne_empty (String.toList_eq_nil_iff.1 hnil)) (fun n _ => ?_) h
  simp [readHead, readWord_append hword.plain hrest.mark, hrest.ne_open, hword.ne_empty]

end

/-- However the tails after the expression are read, it is read together with them. -/
def Expr.ReadsBack (nameOf : LocalId → String) (expr : Expr) : Prop :=
  ∀ ⦃least least' : Nat⦄ ⦃rest : List Char⦄ ⦃result : ExprShape × List Char⦄,
    least ≤ unaryLevel → least ≤ least' → Blocks (least' + 1) rest →
    (expr.isUnary = true → Blocks unaryLevel rest) →
    TailsGive least (expr.shape nameOf) rest result →
    ExprGives least (expr.chars nameOf least' ++ rest) result

namespace Expr

variable {expr inner : Expr} {least : Nat} {body rest : List Char}

theorem ReadsBack.gives (h : expr.ReadsBack nameOf) (hleast : least ≤ unaryLevel)
    (hrest : Blocks least rest) :
    ExprGives least (expr.chars nameOf least ++ rest) (expr.shape nameOf, rest) :=
  h hleast (Nat.le_refl _) (hrest.mono (Nat.le_succ _)) (fun _ => hrest.mono hleast)
    (.of_blocks hrest)

theorem ReadsBack.before (h : inner.ReadsBack nameOf) (lead : Lead) {result : ExprShape × List Char}
    (hunary : inner.isUnary = true → lead.level < unaryLevel) (hbound : least ≤ unaryLevel)
    (hleast : least ≤ lead.level) (htail : ∀ n, (body ++ rest).length < n →
      readTail (readExpr n) (readPattern n) (inner.shape nameOf) lead (body ++ rest) =
        some (expr.shape nameOf, rest))
    (hrest : TailsGive least (expr.shape nameOf) rest result) :
    ExprGives least (inner.chars nameOf lead.level ++ (lead.chars ++ (body ++ rest))) result :=
  h hbound hleast (.of_lead (Nat.lt_succ_self _) _) (fun hinner => .of_lead (hunary hinner) _)
    (.cons hleast htail hrest)

/-- An operator or a test, which may be in parentheses. -/
theorem ReadsBack.operated (h : inner.ReadsBack nameOf) (lead : Lead) (body : List Char)
    (hlead : lead.level < unaryLevel)
    (hchars : ∀ least, expr.chars nameOf least =
      if lead.level < least then '(' :: (expr.chars nameOf 0 ++ [')'])
      else inner.chars nameOf lead.level ++ (lead.chars ++ body))
    (htail : ∀ n rest, Blocks (lead.level + 1) rest → (body ++ rest).length < n →
      readTail (readExpr n) (readPattern n) (inner.shape nameOf) lead (body ++ rest) =
        some (expr.shape nameOf, rest)) : expr.ReadsBack nameOf := by
  have hopen : ∀ {least least' rest result}, least' ≤ lead.level → least ≤ least' →
      Blocks (least' + 1) rest → TailsGive least (expr.shape nameOf) rest result →
      ExprGives least (expr.chars nameOf least' ++ rest) result := by
    intro least least' rest result hle hleast hrest hgive
    rw [hchars, if_neg (Nat.not_lt.2 hle), List.append_assoc, List.append_assoc]
    have hbound := Nat.le_trans hleast hle
    exact h.before lead (fun _ => hlead) (Nat.le_trans hbound (Nat.le_of_lt hlead)) hbound
      (fun n => htail n rest (hrest.mono (Nat.succ_le_succ hle))) hgive
  intro least least' rest result _ hleast hrest _ hgive
  by_cases hlt : lead.level < least'
  · rw [hchars, if_pos hlt]
    refine .of_head (List.cons_ne_nil _ _) (fun n hlen => ?_) hgive
    have hinner := hopen (Nat.zero_le _) (Nat.le_refl _) (.of_head (by simp))
      (.of_blocks (.of_head (by simp) : Blocks 0 (')' :: rest))) n (by simp at hlen ⊢; omega)
    simp [readHead, readWord_mark (by decide : '(' ∈ marks), hinner]
  · exact hopen (Nat.not_lt.1 hlt) hleast hrest hgive

mutual

/-- **A printed expression is read back.** -/
theorem readBack : ∀ expr : Expr, AllClear nameOf expr.visits → expr.ReadsBack nameOf
  | .bool _ value _, _ => by
    intro least least' rest result _ _ hrest _ h
    cases value with
    | false => exact .of_word "false" ⟨by decide, plain_iff.1 (by decide +kernel)⟩ hrest h
    | true => exact .of_word "true" ⟨by decide, plain_iff.1 (by decide +kernel)⟩ hrest h
  | .int _ value _, hclear => by
    intro least least' rest result _ _ hrest _ h
    obtain ⟨n, rfl⟩ := Int.eq_ofNat_of_zero_le
      (of_decide_eq_true (hclear _ (self_mem_visits _)).2)
    obtain ⟨hword, hshape⟩ := ExprShape.ofWord_repr n
    exact .of_word n.repr hword hrest (hshape.symm ▸ h)
  | .ident _ name _, hclear => by
    intro least least' rest result _ _ hrest _ h
    have hname := (hclear _ (self_mem_visits _)).1 name List.mem_cons_self
    exact .of_word name hname.isWord hrest (ExprShape.ofWord_name hname ▸ h)
  | .field id receiver name span, hclear => by
    intro least least' rest result hleast _ hrest _ h
    obtain ⟨hname, hunary⟩ := hclear _ (self_mem_visits _)
    have hreceiver := receiver.readBack (hclear.mono (List.subset_cons_self _ _))
    have hchars : (Expr.field id receiver name span).chars nameOf least' ++ rest =
        receiver.chars nameOf (unaryLevel + 1) ++ (Lead.dot.chars ++ (name.toList ++ rest)) := by
      simp [chars, render, Lead.chars]
    rw [hchars]
    refine hreceiver.before .dot (fun hreceiver => ?_) hleast (Nat.le_succ_of_le hleast)
      (fun n _ => ?_) h
    · rw [Visit.isPlain, hreceiver] at hunary
      cases hunary
    · rw [readTail, readWord_append (hname name List.mem_cons_self).plain hrest.mark]
      rfl
  | .binary id op left right span, hclear => by
    have hleft := left.readBack (hclear.mono fun _ hvisit => by simp [visits, hvisit])
    have hright := right.readBack (hclear.mono fun _ hvisit => by simp [visits, hvisit])
    refine hleft.operated (.operator op) (right.chars nameOf (op.level + 1)) op.level_lt
      (fun least => ?_) fun n rest hrest hlen => ?_
    · by_cases h : op.level < least <;>
        simp [chars, render, parenthesize, h, Lead.chars, Lead.level]
    · rw [readTail, hright.gives op.level_lt hrest n hlen]
      rfl
  | .unary id op operand span, hclear => by
    intro least least' rest result _ _ _ hrest h
    have hoperand := operand.readBack (hclear.mono (List.subset_cons_self _ _))
    have hchars : (Expr.unary id op operand span).chars nameOf least' =
        op.symbol.toList ++ operand.chars nameOf unaryLevel := by
      simp [chars, render]
    rw [hchars]
    refine .of_head (by cases op <;> simp [UnaryOp.symbol]) (fun n hlen => ?_) h
    have hlt : (operand.chars nameOf unaryLevel ++ rest).length < n := by
      cases op <;> simp [UnaryOp.symbol] at hlen ⊢ <;> omega
    have hread := hoperand.gives (Nat.le_refl _) (hrest rfl) n hlt
    cases op with
    | not => simp [UnaryOp.symbol, readHead, readWord_mark (by decide : '!' ∈ marks), hread, shape]
    | neg => simp [UnaryOp.symbol, readHead, readWord_mark (by decide : '-' ∈ marks), hread, shape]
  | .instanceOf id tested pattern span, hclear => by
    have htested := tested.readBack (hclear.mono fun _ hvisit => by simp [visits, hvisit])
    refine htested.operated .test (pattern.chars nameOf) (by decide)
      (fun least => ?_) fun n rest hrest hlen => ?_
    · by_cases h : instanceOfLevel < least <;>
        simp [chars, render, parenthesize, h, Lead.chars, Lead.level, Pattern.chars]
    · have hpattern : AllClear nameOf pattern.visits :=
        hclear.mono fun _ hvisit => by simp [visits, hvisit]
      rw [readTail, pattern.readBack hpattern hrest hlen]
      rfl
  | .call id callee args ty span, hclear => by
    intro least least' rest result _ _ hrest _ h
    have hargs := readBackAll args (hclear.mono (List.subset_cons_self _ _))
    have hname := ((hclear _ (self_mem_visits _)).1 callee List.mem_cons_self).isWord
    have hchars : (Expr.call id callee args ty span).chars nameOf least' =
        callee.toList ++ '(' :: (listChars (chars nameOf 0) args ++ [')']) := by
      simp [chars, render, toList_renderAll]
    rw [hchars]
    refine .of_head (by simp) (fun n hlen => ?_) h
    have hclose : ∀ rest, readExpr n 0 (')' :: rest) = none := by
      intro rest
      cases n with
      | zero => rfl
      | succ n => simp [readExpr, readHead, readWord_mark (by decide : ')' ∈ marks), UnaryOp.symbol]
    have hlist : readList (readExpr n 0) (listChars (chars nameOf 0) args ++ ')' :: rest) =
        some (args.map (shape nameOf), rest) :=
      readList_append hclose fun arg hmem more hle hmore =>
        (hargs arg hmem).gives (Nat.zero_le _) hmore n (by simp at hlen hle ⊢; omega)
    simp [readHead, hname.read_mark (by decide : '(' ∈ marks), hname.ne_empty, hlist, shape,
      shapeAll_eq]
  | .missing _, hclear => absurd (hclear _ (self_mem_visits _)).2 Bool.false_ne_true

theorem readBackAll : ∀ exprs : List Expr, AllClear nameOf (visitsAll exprs) →
    ∀ expr ∈ exprs, expr.ReadsBack nameOf
  | first :: exprs, hclear, expr, hmem => by
    rcases List.mem_cons.1 hmem with heq | hmem
    · exact heq ▸ first.readBack (hclear.mono (List.subset_append_left _ _))
    · exact readBackAll exprs (hclear.mono (List.subset_append_right _ _)) expr hmem

end

end Expr

/-- **Expressions that are printed alike are alike**: what is read from the text is the shape of
both, so the parentheses that are printed tell how operators group. -/
theorem shape_eq_of_render_eq {expr expr' : Expr} (h : AllClear nameOf expr.visits)
    (h' : AllClear nameOf' expr'.visits) (htext : expr.render nameOf 0 = expr'.render nameOf' 0) :
    expr.shape nameOf = expr'.shape nameOf' := by
  have read : ∀ {nameOf : LocalId → String} {expr : Expr}, AllClear nameOf expr.visits →
      ExprGives 0 (expr.render nameOf 0).toList (expr.shape nameOf, []) := by
    intro nameOf expr h
    have := (expr.readBack h).gives (Nat.zero_le _) (.of_head (by simp) : Blocks 0 [])
    rwa [List.append_nil] at this
  have hread := read h _ (Nat.lt_succ_self _)
  rw [htext, read h' _ (Nat.lt_succ_self _)] at hread
  exact (Prod.mk.inj (Option.some.inj hread)).1.symm

/-- `!(a + 1 instanceof Box(var s, _)) && f(x - y, b.c) == -2`, with its own numbers and spans. -/
def twoTests (k : Nat) : Expr :=
  let span : Span := ⟨k, k + 1⟩
  .binary k .and
    (.unary (k + 1) .not (.instanceOf (k + 2)
      (.binary (k + 3) .add (.ident (k + 4) "a" span) (.int (k + 5) 1 span) span)
      (.record k ⟨some "Box", span⟩ [.type (k + 1) ⟨none, span⟩ (some k) span, .any (k + 2) span]
        span) span) span)
    (.binary (k + 6) .eq
      (.call (k + 7) "f"
        [.binary (k + 8) .sub (.ident (k + 9) "x" span) (.ident (k + 10) "y" span) span,
          .field (k + 11) (.ident (k + 12) "b" span) "c" span] ⟨none, span⟩ span)
      (.unary (k + 13) .neg (.int (k + 14) 2 span) span) span) span

theorem shape_eq_of_render_eq_twoTests :
    (twoTests 0).render (fun _ => "s") 0 =
      "!(a + 1 instanceof Box(var s, _)) && f(x - y, b.c) == -2" ∧
    (twoTests 0).shape (fun _ => "s") = (twoTests 9).shape (fun _ => "s") :=
  ⟨by decide +kernel,
    shape_eq_of_render_eq (by decide +kernel) (by decide +kernel) (by decide +kernel)⟩

end GuardedMatch
