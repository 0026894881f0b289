import GuardedMatch.Index

/-!
# Sets of locals

A set of locals in words of 64 bits: a local is bit `id % 64` of word `id / 64`, and words that are
not stored count as zero.  Words are added when a local beyond the last one is inserted and are
never taken away, so sets with the same members may have different words, and then they are not
equal.

* `contains_insert`, `contains_erase`, `contains_inter`, `contains_union`, `contains_ofList`:
  membership after each operation is that of sets.
* `isSubset_iff`: one set is a subset of another if all its members are in the other.
* `mem_toList`, `pairwise_toList`, `size_eq`: the list of a set holds exactly its members, in
  ascending order, and the bits that are set are as many.
-/

namespace GuardedMatch

structure LocalSet where
  words : List (BitVec 64)
deriving DecidableEq

namespace LocalSet

/-- The bit of a local in its word. -/
def bit (id : Nat) : BitVec 64 := BitVec.twoPow 64 (id % 64)

/-- Add words that are zero until there are `count`. -/
def pad (words : List (BitVec 64)) (count : Nat) : List (BitVec 64) :=
  words ++ List.replicate (count - words.length) 0

def empty : LocalSet := ⟨[]⟩

def contains (set : LocalSet) (id : Nat) : Bool :=
  set.words[id / 64]?.any fun word => word &&& bit id != 0

def insert (set : LocalSet) (id : Nat) : LocalSet :=
  ⟨(pad set.words (id / 64 + 1)).modify (id / 64) (· ||| bit id)⟩

def erase (set : LocalSet) (id : Nat) : LocalSet :=
  ⟨set.words.modify (id / 64) (· &&& ~~~bit id)⟩

/-- The places of the bits that are set in a word. -/
def places (word : BitVec 64) : List Nat :=
  if word = 0 then [] else (List.range 64).filter fun place => word &&& bit place != 0

/-- The members in ascending order. -/
def toList (set : LocalSet) : List Nat :=
  set.words.zipIdx.flatMap fun entry => (places entry.1).map (64 * entry.2 + ·)

/-- The number of members. -/
def size (set : LocalSet) : Nat :=
  set.words.foldl (fun count word => count + word.cpop.toNat) 0

/-- The common members, in as many words as the first set has. -/
def inter (set other : LocalSet) : LocalSet :=
  ⟨List.zipWith (· &&& ·) set.words (pad other.words set.words.length)⟩

/-- The members of either set, in as many words as one of them has. -/
def union (set other : LocalSet) : LocalSet :=
  ⟨List.zipWith (· ||| ·) (pad set.words other.words.length) (pad other.words set.words.length)⟩

def isSubset (set other : LocalSet) : Bool :=
  (List.zipWith (· &&& ~~~·) set.words (pad other.words set.words.length)).all (· == 0)

def ofList (locals : List Nat) : LocalSet := locals.foldl insert empty

/-! ## Words -/

/-- The word at a position, stored or not. -/
def word (words : List (BitVec 64)) (position : Nat) : BitVec 64 := words[position]?.getD 0

section

variable {words others : List (BitVec 64)} {position : Nat}

theorem word_of_le (h : words.length ≤ position) : word words position = 0 := by
  rw [word, List.getElem?_eq_none h]
  rfl

theorem length_pad (words : List (BitVec 64)) (count : Nat) :
    (pad words count).length = max words.length count := by
  rw [pad, List.length_append, List.length_replicate]
  omega

theorem word_pad (words : List (BitVec 64)) (count position : Nat) :
    word (pad words count) position = word words position := by
  rw [word, pad, List.getElem?_append, word]
  split
  next => rfl
  next hout =>
    rw [List.getElem?_eq_none (Nat.not_lt.1 hout), List.getElem?_replicate]
    split <;> rfl

theorem word_modify (change : BitVec 64 → BitVec 64) (place : Nat) :
    word (words.modify place change) position =
      if place = position ∧ position < words.length then change (word words position)
      else word words position := by
  rw [word, List.getElem?_modify, word]
  by_cases hlt : position < words.length
  · rw [List.getElem?_eq_getElem hlt]
    by_cases hplace : place = position <;> simp [hlt, hplace]
  · simp [hlt]

theorem word_zipWith (combine : BitVec 64 → BitVec 64 → BitVec 64)
    (hle : words.length ≤ others.length) : word (List.zipWith combine words others) position =
      if position < words.length then combine (word words position) (word others position)
      else 0 := by
  simp only [word, List.getElem?_zipWith]
  by_cases hlt : position < words.length
  · simp [hlt, Nat.lt_of_lt_of_le hlt hle]
  · simp [hlt]

theorem all_zero_iff : words.all (· == 0) = true ↔ ∀ position, word words position = 0 := by
  rw [List.all_eq_true]
  constructor
  · intro h position
    by_cases hlt : position < words.length
    · rw [word, List.getElem?_eq_getElem hlt]
      exact beq_iff_eq.1 (h _ (List.getElem_mem hlt))
    · exact word_of_le (Nat.not_lt.1 hlt)
  · intro h bits hbits
    obtain ⟨position, hlt, rfl⟩ := List.getElem_of_mem hbits
    have hword := h position
    rw [word, List.getElem?_eq_getElem hlt] at hword
    exact beq_iff_eq.2 hword

end

theorem getLsbD_bit (id place : Nat) : (bit id).getLsbD place = decide (id % 64 = place) := by
  have hlt : id % 64 < 64 := Nat.mod_lt _ (by decide)
  simp [bit, BitVec.getLsbD_twoPow, hlt]

/-- Masking a word with a bit asks for that bit. -/
theorem and_bit_bne_zero (word : BitVec 64) (id : Nat) :
    (word &&& bit id != 0) = word.getLsbD (id % 64) := by
  cases hbit : word.getLsbD (id % 64) with
  | false =>
    rw [bne_eq_false_iff_eq]
    refine BitVec.eq_of_getLsbD_eq fun place _ => ?_
    by_cases heq : id % 64 = place
    · simp [BitVec.getLsbD_and, getLsbD_bit, ← heq, hbit]
    · simp [BitVec.getLsbD_and, getLsbD_bit, heq]
  | true =>
    rw [bne_iff_ne]
    intro hzero
    have hand := congrArg (BitVec.getLsbD · (id % 64)) hzero
    simp [BitVec.getLsbD_and, getLsbD_bit, hbit] at hand

theorem contains_eq (set : LocalSet) (id : Nat) :
    set.contains id = (word set.words (id / 64)).getLsbD (id % 64) := by
  rw [contains, word]
  cases set.words[id / 64]? with
  | none => simp
  | some bits => exact and_bit_bne_zero bits id

theorem eq_iff_of_div_eq {id other : Nat} (h : id / 64 = other / 64) :
    id % 64 = other % 64 ↔ id = other :=
  ⟨fun hmod => by omega, fun heq => by rw [heq]⟩

/-! ## Members -/

@[simp]
theorem contains_empty (id : Nat) : empty.contains id = false := rfl

@[simp]
theorem contains_insert (set : LocalSet) (id other : Nat) :
    (set.insert id).contains other = (decide (id = other) || set.contains other) := by
  rw [contains_eq, contains_eq, insert, word_modify, word_pad, length_pad]
  by_cases hword : id / 64 = other / 64
  · rw [if_pos ⟨hword, by omega⟩, BitVec.getLsbD_or, getLsbD_bit, Bool.or_comm]
    simp only [eq_iff_of_div_eq hword]
  · have hne : id ≠ other := fun h => hword (by rw [h])
    rw [if_neg fun h => hword h.1, decide_eq_false hne, Bool.false_or]

@[simp]
theorem contains_erase (set : LocalSet) (id other : Nat) :
    (set.erase id).contains other = (decide (id ≠ other) && set.contains other) := by
  have hplace : other % 64 < 64 := Nat.mod_lt _ (by decide)
  rw [contains_eq, contains_eq, erase, word_modify]
  by_cases hword : id / 64 = other / 64
  · split
    next =>
      rw [BitVec.getLsbD_and, BitVec.getLsbD_not, getLsbD_bit, Bool.and_comm]
      simp [hplace, eq_iff_of_div_eq hword]
    next hout =>
      rw [word_of_le (Nat.not_lt.1 fun hlt => hout ⟨hword, hlt⟩)]
      simp
  · have hne : id ≠ other := fun h => hword (by rw [h])
    rw [if_neg fun h => hword h.1, decide_eq_true hne, Bool.true_and]

@[simp]
theorem contains_inter (set other : LocalSet) (id : Nat) :
    (set.inter other).contains id = (set.contains id && other.contains id) := by
  rw [contains_eq, contains_eq, contains_eq, inter, word_zipWith _ (by rw [length_pad]; omega),
    word_pad]
  split
  next => exact BitVec.getLsbD_and
  next hout =>
    rw [word_of_le (Nat.not_lt.1 hout)]
    simp

@[simp]
theorem contains_union (set other : LocalSet) (id : Nat) :
    (set.union other).contains id = (set.contains id || other.contains id) := by
  rw [contains_eq, contains_eq, contains_eq, union,
    word_zipWith _ (by rw [length_pad, length_pad]; omega), word_pad, word_pad, length_pad]
  split
  next => exact BitVec.getLsbD_or
  next hout =>
    have hwords : set.words.length ≤ id / 64 := by omega
    have hothers : other.words.length ≤ id / 64 := by omega
    rw [word_of_le hwords, word_of_le hothers]
    simp

theorem isSubset_iff {set other : LocalSet} :
    set.isSubset other = true ↔ ∀ id, set.contains id = true → other.contains id = true := by
  have hword : ∀ position, word (List.zipWith (· &&& ~~~·) set.words
      (pad other.words set.words.length)) position =
        word set.words position &&& ~~~word other.words position := by
    intro position
    rw [word_zipWith _ (by rw [length_pad]; omega), word_pad]
    split
    next => rfl
    next hout =>
      rw [word_of_le (Nat.not_lt.1 hout)]
      simp
  rw [isSubset, all_zero_iff]
  simp only [hword, contains_eq]
  constructor
  · intro h id hid
    have hzero := congrArg (BitVec.getLsbD · (id % 64)) (h (id / 64))
    simpa [hid, Nat.mod_lt] using hzero
  · intro h position
    refine BitVec.eq_of_getLsbD_eq fun place hplace => ?_
    have hbit := h (64 * position + place)
    rw [Nat.mul_add_div (by decide), Nat.mul_add_mod, Nat.div_eq_of_lt hplace,
      Nat.mod_eq_of_lt hplace, Nat.add_zero] at hbit
    simpa [hplace] using hbit

theorem contains_ofList {locals : List Nat} {id : Nat} :
    (ofList locals).contains id = true ↔ id ∈ locals := by
  suffices h : ∀ set : LocalSet,
      (locals.foldl insert set).contains id = true ↔ set.contains id = true ∨ id ∈ locals by
    simpa [ofList] using h empty
  induction locals with
  | nil => simp
  | cons first rest ih =>
    intro set
    rw [List.foldl_cons, ih, contains_insert, Bool.or_eq_true, decide_eq_true_eq, List.mem_cons,
      @eq_comm _ first id, or_assoc, or_left_comm]

/-! ## The list of members -/

theorem places_eq (word : BitVec 64) : places word = (List.range 64).filter word.getLsbD := by
  rw [places]
  split
  next hzero => simp [hzero]
  next =>
    refine List.filter_congr fun place hplace => ?_
    rw [and_bit_bne_zero, Nat.mod_eq_of_lt (List.mem_range.1 hplace)]

@[simp]
theorem mem_toList {set : LocalSet} {id : Nat} : id ∈ set.toList ↔ set.contains id = true := by
  simp only [toList, List.mem_flatMap, List.mem_map, places_eq, List.mem_filter, List.mem_range,
    List.mem_zipIdx_iff_getElem?, contains_eq, word]
  constructor
  · rintro ⟨entry, hentry, place, ⟨hplace, hbit⟩, rfl⟩
    rw [Nat.mul_add_div (by decide), Nat.mul_add_mod, Nat.div_eq_of_lt hplace, Nat.add_zero, hentry,
      Nat.mod_eq_of_lt hplace]
    exact hbit
  · intro hbit
    cases hword : set.words[id / 64]? with
    | none => simp [hword] at hbit
    | some bits =>
      rw [hword] at hbit
      exact ⟨(bits, id / 64), hword, id % 64, ⟨Nat.mod_lt _ (by decide), hbit⟩,
        Nat.div_add_mod id 64⟩

theorem pairwise_toList (set : LocalSet) : set.toList.Pairwise (· < ·) := by
  rw [toList, List.pairwise_flatMap]
  constructor
  · intro entry _
    rw [List.pairwise_map, places_eq]
    exact (List.pairwise_lt_range.filter _).imp fun h => Nat.add_lt_add_left h _
  · have hpositions : set.words.zipIdx.Pairwise fun one two => one.2 < two.2 := by
      rw [← List.pairwise_map, List.zipIdx_map_snd]
      exact List.pairwise_lt_range'
    refine hpositions.imp fun {one two} hlt => ?_
    simp only [List.mem_map, places_eq, List.mem_filter, List.mem_range]
    rintro _ ⟨place, ⟨hplace, _⟩, rfl⟩ _ ⟨place', _, rfl⟩
    omega

theorem cpop_eq (bits : BitVec 64) : bits.cpop.toNat = (places bits).length := by
  have hrec : ∀ count, bits.cpopNatRec count 0 = (List.range count).countP bits.getLsbD := by
    intro count
    induction count with
    | zero => rfl
    | succ count ih =>
      rw [BitVec.cpopNatRec_succ, BitVec.cpopNatRec_add, ih, List.range_succ, List.countP_append,
        List.countP_singleton]
      cases bits.getLsbD count <;> rfl
  rw [BitVec.toNat_cpop, hrec, places_eq, List.countP_eq_length_filter]

theorem size_eq (set : LocalSet) : set.size = set.toList.length := by
  have h : ∀ (words : List (BitVec 64)) position count,
      words.foldl (fun count word => count + word.cpop.toNat) count = count +
        ((words.zipIdx position).flatMap fun entry =>
          (places entry.1).map (64 * entry.2 + ·)).length := by
    intro words
    induction words with
    | nil => exact fun _ _ => rfl
    | cons word words ih =>
      intro position count
      rw [List.foldl_cons, ih, List.zipIdx_cons, List.flatMap_cons, List.length_append,
        List.length_map, cpop_eq, Nat.add_assoc]
  exact (h set.words 0 0).trans (Nat.zero_add _)

end LocalSet

end GuardedMatch
