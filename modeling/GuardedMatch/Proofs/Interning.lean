import GuardedMatch.Name
import Mathlib.Data.Finset.Card
import Mathlib.Data.List.Forall2
import Mathlib.Data.List.Nodup

/-!
# Names for texts

A shard keeps a map from texts to places beside the list of the texts at these places.  A call adds
a text to both, at the end of the list, and only if the map does not know it and there is a place
left.  So a text keeps the place that it was given, no two texts share one, and nothing stands at
any other place.

* `Shard.Coupled`: the map and the list say the same.  `Shard.Coupled.push`: and still do when a
  text is added.
* `Interner.Exact`: the texts in the shards and their number are those of the texts that were
  interned.
* `Interner.Exact.tryIntern`: what one call does, as long as its shard does not run out of places.
  `Interner.Exact.internAll`: what a series of calls does.
* `Interner.lookup_interned`: what names are good for after any calls.
-/

namespace GuardedMatch

/-! ## Packing -/

namespace Name

theorem shard_pack {shard place : Nat} (h : place < places) : (pack shard place).shard = shard := by
  simp only [Name.shard, pack, places] at h ⊢
  omega

theorem place_pack {shard place : Nat} (h : place < places) : (pack shard place).place = place := by
  simp only [Name.place, pack, places] at h ⊢
  omega

theorem pack_shard_place (name : Name) : pack name.shard name.place = name := by
  simp only [pack, Name.shard, Name.place, Nat.div_add_mod']

end Name

/-! ## One shard -/

namespace Shard

variable {shard : Shard} {text : String}

/-- The map knows the texts of the list, and at which places they stand. -/
def Coupled (shard : Shard) : Prop :=
  ∀ (text : String) (place : Nat),
    shard.places[text]? = some place ↔ shard.texts[place]? = some text

/-- The shard with one text more. -/
def push (shard : Shard) (text : String) : Shard :=
  ⟨shard.places.insert text shard.texts.size, shard.texts.push text⟩

theorem Coupled.getElem?_eq_none (h : shard.Coupled) :
    shard.places[text]? = none ↔ text ∉ shard.texts := by
  rw [Array.mem_iff_getElem?, not_exists, Option.eq_none_iff_forall_ne_some]
  exact forall_congr' fun place => not_congr (h text place)

theorem Coupled.nodup (h : shard.Coupled) : shard.texts.toList.Nodup := by
  refine List.nodup_iff_getElem?_ne_getElem?.mpr fun i j hlt hj heq => ?_
  rw [Array.getElem?_toList, Array.getElem?_toList] at heq
  have hat : shard.texts[j]? = some _ := Array.getElem?_eq_getElem hj
  have hi := (h _ i).mpr (heq.trans hat)
  exact Nat.ne_of_lt hlt (Option.some.inj (hi.symm.trans ((h _ j).mpr hat)))

/-- A text that is new is added to both. -/
theorem Coupled.push (h : shard.Coupled) (hnew : text ∉ shard.texts) :
    (shard.push text).Coupled := by
  intro other place
  simp only [Shard.push, Std.ExtTreeMap.getElem?_insert, Array.getElem?_push,
    Std.LawfulEqCmp.compare_eq_iff_eq]
  by_cases hother : text = other
  · subst hother
    have hnot : shard.texts[place]? ≠ some text := fun hplace =>
      hnew (Array.mem_of_getElem? hplace)
    by_cases hplace : place = shard.texts.size <;> simp [hplace, hnot, eq_comm]
  · rw [if_neg hother, h other place]
    by_cases hplace : place = shard.texts.size
    · simp [hplace, hother]
    · rw [if_neg hplace]

end Shard

namespace Interner

/-! ## One call -/

variable {interner : Interner} {texts more : List String} {text : String} {name : Name}

/-- The shard of a text. -/
def shardFor (interner : Interner) (text : String) : Shard :=
  interner.shards.get ⟨shardOf text, shardOf_lt text⟩

/-- The interner with one text more. -/
def push (interner : Interner) (text : String) : Interner :=
  ⟨interner.shards.set (shardOf text) ((interner.shardFor text).push text) (shardOf_lt text),
    interner.count + 1⟩

theorem get_push (interner : Interner) (text : String) (shard : Fin Name.shards) :
    (interner.push text).shards.get shard =
      if shardOf text = shard then (interner.shardFor text).push text
      else interner.shards.get shard :=
  Vector.getElem_set (shardOf_lt text) shard.2

theorem tryIntern_eq (interner : Interner) (text : String) : interner.tryIntern text =
    match (interner.shardFor text).places[text]? with
    | some place => (.ok (.pack (shardOf text) place), interner)
    | none =>
      let place := (interner.shardFor text).texts.size
      if place < Name.places then (.ok (.pack (shardOf text) place), interner.push text)
      else (.error (.shardOverflow (shardOf text) place), interner) := rfl

/-- A text stands at the place that a name says. -/
def Has (interner : Interner) (text : String) (name : Name) : Prop :=
  ∃ place < Name.places, name = .pack (shardOf text) place ∧
    (interner.shardFor text).texts[place]? = some text

theorem Has.push (h : interner.Has text name) (other : String) :
    (interner.push other).Has text name := by
  obtain ⟨place, hlt, hname, hplace⟩ := h
  refine ⟨place, hlt, hname, ?_⟩
  rw [shardFor, get_push]
  split
  next hshard =>
    have hsame : interner.shardFor other = interner.shardFor text := by simp [shardFor, hshard]
    rw [hsame, Shard.push, Array.getElem?_push, if_neg, hplace]
    exact Nat.ne_of_lt (Array.getElem?_eq_some_iff.mp hplace).1
  next => exact hplace

/-- The texts that were interned are in their shards, and are counted once each. -/
structure Exact (interner : Interner) (texts : List String) : Prop where
  coupled : ∀ shard, (interner.shards.get shard).Coupled
  mem_iff : ∀ shard text,
    text ∈ (interner.shards.get shard).texts ↔ text ∈ texts ∧ shardOf text = shard
  room : ∀ shard, (interner.shards.get shard).texts.size ≤ Name.places
  count : interner.count = texts.toFinset.card

/-- No shard gets more different texts than it has places. -/
def Fits (texts : List String) : Prop :=
  ∀ shard, (texts.toFinset.filter (shardOf · = shard)).card ≤ Name.places

theorem Fits.of_append (h : Fits (texts ++ more)) : Fits texts := by
  intro shard
  refine (Finset.card_le_card (Finset.filter_subset_filter _ ?_)).trans (h shard)
  rw [List.toFinset_append]
  exact Finset.subset_union_left

theorem fits_of_length (h : texts.length ≤ Name.places) : Fits texts := fun _ =>
  (Finset.card_filter_le _ _).trans ((List.toFinset_card_le texts).trans h)

theorem exact_empty : empty.Exact [] := by
  constructor <;> simp [empty, Vector.get, Shard.Coupled]

namespace Exact

theorem size_eq (h : interner.Exact texts) (shard : Fin Name.shards) :
    (interner.shards.get shard).texts.size =
      (texts.toFinset.filter (shardOf · = shard)).card := by
  rw [← Array.length_toList, ← List.toFinset_card_of_nodup (h.coupled shard).nodup]
  congr 1
  ext text
  simp [h.mem_iff]

theorem mem_shardFor (h : interner.Exact texts) :
    text ∈ (interner.shardFor text).texts ↔ text ∈ texts := by
  simp [shardFor, h.mem_iff]

/-- A text that is known may be interned again. -/
theorem again (h : interner.Exact texts) (htext : text ∈ texts) :
    interner.Exact (texts ++ [text]) := by
  have hmem : ∀ other, other ∈ texts ++ [text] ↔ other ∈ texts := by simp +contextual [htext]
  refine ⟨h.coupled, fun shard other => ?_, h.room, ?_⟩
  · rw [h.mem_iff, hmem]
  · rw [h.count]
    congr 1
    ext other
    rw [List.mem_toFinset, List.mem_toFinset, hmem]

/-- A text that is new is added to its shard. -/
theorem push (h : interner.Exact texts) (htext : text ∉ texts)
    (hroom : (interner.shardFor text).texts.size < Name.places) :
    (interner.push text).Exact (texts ++ [text]) := by
  refine ⟨fun shard => ?_, fun shard other => ?_, fun shard => ?_, ?_⟩
  · rw [get_push]
    split
    next => exact (h.coupled _).push (mt h.mem_shardFor.mp htext)
    next => exact h.coupled shard
  · rw [get_push, List.mem_append, List.mem_singleton]
    split
    next hshard =>
      rw [Shard.push, Array.mem_push, shardFor, h.mem_iff]
      grind
    next hshard =>
      rw [h.mem_iff]
      grind
  · rw [get_push]
    split
    next =>
      rw [Shard.push, Array.size_push]
      exact hroom
    next => exact h.room shard
  · rw [Interner.push, h.count, List.toFinset_append, List.toFinset_cons, List.toFinset_nil,
      insert_empty_eq, Finset.union_singleton, Finset.card_insert_of_notMem (by simpa using htext)]

/-- There is a place for a text that is new. -/
theorem size_lt (h : interner.Exact texts) (htext : text ∉ texts)
    (hfits : Fits (texts ++ [text])) : (interner.shardFor text).texts.size < Name.places := by
  have hcard := hfits (shardOf text)
  rw [List.toFinset_append, List.toFinset_cons, List.toFinset_nil, insert_empty_eq,
    Finset.union_singleton, Finset.filter_insert, if_pos rfl,
    Finset.card_insert_of_notMem (by simp [htext])] at hcard
  rw [shardFor, h.size_eq]
  exact hcard

/-- What is known by a name is given it again. -/
theorem tryIntern_of_has (h : interner.Exact texts) (hname : interner.Has text name) :
    interner.tryIntern text = (.ok name, interner) := by
  obtain ⟨place, -, rfl, hplace⟩ := hname
  have hknown : (interner.shardFor text).places[text]? = some place :=
    (h.coupled _ text place).mpr hplace
  rw [tryIntern_eq, hknown]

/-- **One call.**  If there is a place for the text it is given a name, and every name that was
given before stays. -/
theorem tryIntern (h : interner.Exact texts) (hfits : Fits (texts ++ [text])) :
    ∃ name next, interner.tryIntern text = (.ok name, next) ∧ next.Exact (texts ++ [text]) ∧
      next.Has text name ∧ ∀ {other name'}, interner.Has other name' → next.Has other name' := by
  by_cases htext : text ∈ texts
  · obtain ⟨place, hplace⟩ := Array.mem_iff_getElem?.mp (h.mem_shardFor.mpr htext)
    have hlt := (Array.getElem?_eq_some_iff.mp hplace).1.trans_le (h.room _)
    have hhas : interner.Has text (.pack (shardOf text) place) := ⟨place, hlt, rfl, hplace⟩
    exact ⟨_, _, h.tryIntern_of_has hhas, h.again htext, hhas, id⟩
  · have hroom := h.size_lt htext hfits
    have hnew := (h.coupled ⟨shardOf text, shardOf_lt text⟩).getElem?_eq_none.mpr
      (mt h.mem_shardFor.mp htext)
    refine ⟨.pack (shardOf text) (interner.shardFor text).texts.size, interner.push text, ?_,
      h.push htext hroom, ⟨_, hroom, rfl, ?_⟩, fun hother => hother.push text⟩
    · rw [tryIntern_eq, shardFor, hnew]
      exact if_pos hroom
    · rw [shardFor, get_push, if_pos rfl, Shard.push, Array.getElem?_push, if_pos rfl]

end Exact

/-! ## Any number of calls -/

/-- The interner after texts have been interned one after the other. -/
def internAll (interner : Interner) (texts : List String) : Interner :=
  texts.foldl (fun interner text => (interner.intern text).2) interner

/-- The names that the calls give. -/
def names (interner : Interner) : List String → List Name
  | [] => []
  | text :: texts => (interner.intern text).1 :: (interner.intern text).2.names texts

/-- What the calls answer. -/
def answers (interner : Interner) : List String → List (Except InternError Name)
  | [] => []
  | text :: texts => (interner.tryIntern text).1 :: (interner.tryIntern text).2.answers texts

/-- What a series of calls leaves. -/
structure Serves (interner : Interner) (texts more : List String) : Prop where
  answers : interner.answers more = (interner.names more).map .ok
  exact : (interner.internAll more).Exact (texts ++ more)
  has : List.Forall₂ (interner.internAll more).Has more (interner.names more)
  keeps : ∀ {text name}, interner.Has text name → (interner.internAll more).Has text name

/-- **A series of calls.**  As long as no shard runs out of places, every text is given a name, and
stands where its name says. -/
theorem Exact.internAll (h : interner.Exact texts) (hfits : Fits (texts ++ more)) :
    interner.Serves texts more := by
  induction more generalizing interner texts with
  | nil => exact ⟨rfl, by rwa [List.append_nil], .nil, id⟩
  | cons text more ih =>
    rw [List.append_cons] at hfits
    obtain ⟨name, next, hcall, hnext, hhas, hkeeps⟩ := h.tryIntern hfits.of_append
    have hintern : interner.intern text = (name, next) := by rw [intern, hcall]
    have hrest := ih hnext hfits
    refine ⟨?_, ?_, ?_, fun hother => ?_⟩
    · rw [Interner.answers, names, hcall, hintern, hrest.answers]
      rfl
    · rw [List.append_cons, Interner.internAll, List.foldl_cons, hintern]
      exact hrest.exact
    · rw [names, Interner.internAll, List.foldl_cons, hintern]
      exact .cons (hrest.keeps hhas) hrest.has
    · rw [Interner.internAll, List.foldl_cons, hintern]
      exact hrest.keeps (hkeeps hother)

/-! ## What names are good for -/

theorem Has.lookup (h : interner.Has text name) : interner.lookup name = text := by
  obtain ⟨place, hlt, rfl, hplace⟩ := h
  rw [Interner.lookup, Name.shard_pack hlt, Name.place_pack hlt,
    Vector.getElem?_eq_getElem (shardOf_lt text)]
  exact congrArg (·.getD "<unknown>") hplace

theorem map_lookup_eq {given : List String} {names : List Name}
    (hnames : List.Forall₂ interner.Has given names) : names.map interner.lookup = given := by
  induction hnames with
  | nil => rfl
  | cons hname _ ih => rw [List.map_cons, hname.lookup, ih]

theorem Exact.intern_eq (h : interner.Exact texts) (hname : interner.Has text name) :
    (interner.intern text).1 = name := by
  rw [intern, h.tryIntern_of_has hname]

/-- Texts that stand where names say would be given these names again. -/
theorem Exact.names_eq (h : interner.Exact texts) {given : List String} {names : List Name}
    (hnames : List.Forall₂ interner.Has given names) :
    names = given.map fun text => (interner.intern text).1 := by
  induction hnames with
  | nil => rfl
  | cons hname _ ih => rw [List.map_cons, h.intern_eq hname, ← ih]

/-- Where a name is known, a text that was interned stands there. -/
theorem Exact.lookup_or (h : interner.Exact texts) (name : Name) :
    interner.lookup name = "<unknown>" ∨ ∃ text ∈ texts, interner.Has text name := by
  rw [Interner.lookup]
  by_cases hshard : name.shard < Name.shards
  · rw [Vector.getElem?_eq_getElem hshard, Option.bind_some]
    cases hplace : (interner.shards.get ⟨name.shard, hshard⟩).texts[name.place]? with
    | none => exact .inl rfl
    | some text =>
      obtain ⟨htext, hsame⟩ := (h.mem_iff _ _).mp (Array.mem_of_getElem? hplace)
      refine .inr ⟨text, htext, name.place, Nat.mod_lt _ (by decide), ?_, ?_⟩
      · rw [hsame, Name.pack_shard_place]
      · simp only [shardFor, hsame]
        exact hplace
  · rw [Vector.getElem?_eq_none (Nat.le_of_not_lt hshard)]
    exact .inl rfl

/-- What a new interner knows after some calls. -/
theorem serves_empty (hfits : Fits (words ++ texts)) :
    empty.Serves [] words ∧ new.Serves words texts := by
  have hwords : empty.Serves [] words := exact_empty.internAll hfits.of_append
  exact ⟨hwords, hwords.exact.internAll hfits⟩

/-- **Names are given for good.**  Whatever texts are interned in a new interner, as long as no
shard gets more texts than it has places: no call fails, those at the start among them; two calls
give the same name just when they are given the same text; at every later point a name leads to its
text, and the name of the empty text is the first one; the size is the number of different texts,
those known from the start among them; and a name that was given to no text is unknown. -/
theorem lookup_interned (texts : List String) (hfits : Fits (words ++ texts)) :
    empty.answers words ++ new.answers texts = (empty.names words ++ new.names texts).map .ok ∧
    (∀ i j : Nat, (new.names texts)[i]? = (new.names texts)[j]? ↔ texts[i]? = texts[j]?) ∧
    (∀ earlier, earlier <+: texts →
      (new.names earlier).map (new.internAll texts).lookup = earlier ∧
      ((new.internAll earlier).intern "").1 = Name.empty) ∧
    (new.internAll texts).size = (words ++ texts).toFinset.card ∧
    ∀ name, name ∉ empty.names words → name ∉ new.names texts →
      (new.internAll texts).lookup name = "<unknown>" := by
  obtain ⟨hwords, hnew⟩ := serves_empty hfits
  have hexact := hnew.exact
  have hnames := hnew.has
  refine ⟨?_, fun i j => ?_, fun earlier hearlier => ?_, hexact.count, fun name hold hnone => ?_⟩
  · rw [List.map_append, hwords.answers, hnew.answers]
  · -- Names and texts are images of each other.
    have hback := map_lookup_eq hnames
    have hforth := hexact.names_eq hnames
    constructor
    · intro h
      rw [← hback, List.getElem?_map, List.getElem?_map, h]
    · intro h
      rw [hforth, List.getElem?_map, List.getElem?_map, h]
  · obtain ⟨later, rfl⟩ := hearlier
    rw [← List.append_assoc] at hfits
    have hbefore := (serves_empty hfits.of_append).2
    have hafter := hbefore.exact.internAll hfits
    refine ⟨?_, hbefore.exact.intern_eq (hbefore.keeps ?_)⟩
    · have hstay : new.internAll (earlier ++ later) = (new.internAll earlier).internAll later :=
        List.foldl_append
      rw [hstay]
      exact map_lookup_eq (hbefore.has.imp fun _ _ h => hafter.keeps h)
    · have hfirst : (empty.intern "").1 = Name.empty := by decide +kernel
      have hhas := (List.forall₂_cons.mp hwords.has).1
      rwa [hfirst] at hhas
  · rcases hexact.lookup_or name with hunknown | ⟨text, htext, hname⟩
    · exact hunknown
    · have hgiven := hexact.intern_eq hname
      have hold' := hexact.names_eq (hwords.has.imp fun _ _ h => hnew.keeps h)
      rcases List.mem_append.mp htext with htext | htext
      · rw [hold'] at hold
        exact absurd (List.mem_map.mpr ⟨text, htext, hgiven⟩) hold
      · rw [hexact.names_eq hnames] at hnone
        exact absurd (List.mem_map.mpr ⟨text, htext, hgiven⟩) hnone

/-- Calls with a text that comes twice, one that is known from the start and the answer for unknown
names. -/
def pointTwice : List String := ["Point", "x", "Point", "when", "<unknown>"]

theorem lookup_interned_pointTwice :
    Fits (words ++ pointTwice) ∧
    empty.answers words ++ new.answers pointTwice =
      (empty.names words ++ new.names pointTwice).map .ok ∧
    (new.names pointTwice)[0]? = (new.names pointTwice)[2]? ∧
    (new.names pointTwice)[0]? ≠ (new.names pointTwice)[1]? ∧
    (new.names pointTwice).map (new.internAll pointTwice).lookup = pointTwice ∧
    ((new.internAll ["Point"]).intern "").1 = Name.empty ∧
    (new.internAll pointTwice).size = 10 ∧
    (new.internAll pointTwice).lookup ⟨268435455⟩ = "<unknown>" := by
  have hfits : Fits (words ++ pointTwice) := fits_of_length (by decide)
  obtain ⟨hanswers, hsame, hlater, hsize, hunknown⟩ := lookup_interned pointTwice hfits
  refine ⟨hfits, hanswers, (hsame 0 2).mpr rfl, fun h => absurd ((hsame 0 1).mp h) (by decide),
    (hlater pointTwice List.prefix_rfl).1, (hlater ["Point"] (by decide)).2, ?_, ?_⟩
  · rw [hsize]
    decide
  · exact hunknown _ (by decide +kernel) (by decide +kernel)

end Interner

end GuardedMatch
