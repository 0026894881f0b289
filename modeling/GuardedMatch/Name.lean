import GuardedMatch.Fault

/-!
# Interned names

An interner gives every text a number, its name, and gives the text back.  Names are spread
over sixteen shards by the first bytes of the text; a name packs the shard and the place of the
text among the texts of that shard.

A shard keeps the place of each text beside the text at each place.  Texts are only ever added, so a
place, once given, never moves.
-/

namespace GuardedMatch

structure Name where
  raw : Nat
deriving DecidableEq

namespace Name

/-- The number of places in a shard. -/
def places : Nat := 268435456

/-- The number of shards. -/
def shards : Nat := 16

/-- The name of the empty text. -/
def empty : Name := ⟨0⟩

def pack (shard place : Nat) : Name := ⟨shard * places + place⟩

/-- Pack a shard and a place that have to be in range. -/
def ofParts (shard place : Nat) : Except Fault Name :=
  if shard < shards ∧ place < places then .ok (pack shard place) else .error .nameOutOfRange

def shard (n : Name) : Nat := n.raw / places

def place (n : Name) : Nat := n.raw % places

/-- Names are ordered by their numbers. -/
def before (m n : Name) : Bool := m.raw < n.raw

def text (n : Name) : String :=
  "Name(shard=" ++ toString n.shard ++ ", local=" ++ toString n.place ++ ")"

end Name

/-- The shard of a text: its first eight bytes, read in base 31 with 32 bits, modulo the number of
shards. -/
def shardOf (text : String) : Nat :=
  if text.isEmpty then 0
  else
    let hash := (text.toUTF8.extract 0 8).data.toList.foldl
      (fun (hash : UInt32) byte => hash * 31 + byte.toUInt32) 0
    hash.toNat % Name.shards

theorem shardOf_lt (text : String) : shardOf text < Name.shards := by
  rw [shardOf]
  split
  · decide
  · exact Nat.mod_lt _ (by decide)

/-- The texts of one shard. -/
structure Shard where
  places : Std.ExtTreeMap String Nat compare
  texts : Array String

inductive InternError
  /-- The shard has no place left. -/
  | shardOverflow (shard count : Nat)
deriving DecidableEq

structure Interner where
  shards : Vector Shard Name.shards
  /-- The number of texts in all shards. -/
  count : Nat

namespace Interner

def empty : Interner := ⟨.replicate _ ⟨∅, #[]⟩, 0⟩

/-- The name of a text, which is the next free place of its shard when the text is new. -/
def tryIntern (interner : Interner) (text : String) : Except InternError Name × Interner :=
  have := shardOf_lt text
  let shard := interner.shards[shardOf text]
  match shard.places[text]? with
  | some place => (.ok (.pack (shardOf text) place), interner)
  | none =>
    let place := shard.texts.size
    if place < Name.places then
      let added := ⟨shard.places.insert text place, shard.texts.push text⟩
      (.ok (.pack (shardOf text) place),
        ⟨interner.shards.set (shardOf text) added, interner.count + 1⟩)
    else (.error (.shardOverflow (shardOf text) place), interner)

/-- The name of a text for which there is a place.  If there is none, nothing is added, and the name
is that of the empty text. -/
def intern (interner : Interner) (text : String) : Name × Interner :=
  match interner.tryIntern text with
  | (.ok name, next) => (name, next)
  | (.error _, next) => (.empty, next)

/-- The words of the pattern language. -/
def words : List String := ["", "_", "var", "when", "instanceof", "true", "false"]

/-- A new interner already knows the words of the pattern language. -/
def new : Interner := words.foldl (fun interner word => (interner.intern word).2) empty

def lookup (interner : Interner) (name : Name) : String :=
  (interner.shards[name.shard]?.bind (·.texts[name.place]?)).getD "<unknown>"

/-- The number of texts that have a name. -/
def size (interner : Interner) : Nat := interner.count

def isEmpty (interner : Interner) : Bool := interner.size == 0

end Interner

end GuardedMatch
