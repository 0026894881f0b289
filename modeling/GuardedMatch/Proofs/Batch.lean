import GuardedMatch.Diagnostic.Queue
import Mathlib.Data.List.Sort

/-!
# The queue as a batch

A queue answers one offer at a time, from what waits, a count and whether its marker was queued.
Seen from its end, a series of offers is a list from which follow-ons, repetitions and what is
beyond the limit have been dropped, in this order: `QueueConfig.select`.  What a queue keeps is
coupled to that list by `Queue.Holds`, the invariant of a series: the marker is not there before the
limit is reached, so that a search for repetitions never meets it, and nothing is searched after
that.  `Queue.Batch` says all that can be asked of a queue in terms of the list.

* `QueueConfig.select_append`: one more offer adds what the queue accepts.
* `StablySorted.split_last`: where the last entry goes in a stable sort.
* `Queue.Holds.add`: an offer keeps the invariant.
* `Queue.batch_of_reached`: every queue is a batch of what was offered since it was last flushed.
-/

namespace GuardedMatch

/-! ## Dropping repetitions one at a time -/

theorem eraseDupsBy_loop_append {α : Type} (same : α → α → Bool) (list : List α) (last : α)
    (kept : List α) :
    List.eraseDupsBy.loop same (list ++ [last]) kept =
      List.eraseDupsBy.loop same list kept ++
        if (List.eraseDupsBy.loop same list kept).any (same last) then [] else [last] := by
  induction list generalizing kept with
  | nil =>
    cases hany : kept.any (same last) with
    | true => simp [List.eraseDupsBy.loop, hany]
    | false => simp [List.eraseDupsBy.loop, hany]
  | cons first rest ih =>
    rw [List.cons_append, List.eraseDupsBy.loop, List.eraseDupsBy.loop]
    cases kept.any (same first) with
    | true => exact ih kept
    | false => exact ih (first :: kept)

theorem eraseDupsBy_append {α : Type} (same : α → α → Bool) (list : List α) (last : α) :
    (list ++ [last]).eraseDupsBy same =
      list.eraseDupsBy same ++ if (list.eraseDupsBy same).any (same last) then [] else [last] :=
  eraseDupsBy_loop_append same list last []

/-! ## Stable sorting -/

/-- What waits by its offsets, and at one offset in the order in which it was. -/
structure StablySorted (list sorted : List Queued) : Prop where
  perm : sorted.Perm list
  ordered : sorted.Pairwise fun a b => a.offset ≤ b.offset
  stable : ∀ key, sorted.filter (·.offset == key) = list.filter (·.offset == key)

/-- An ordered list is what is below a key, what has it and what is above it. -/
theorem filter_append_of_ordered {sorted : List Queued}
    (h : sorted.Pairwise fun a b => a.offset ≤ b.offset) (key : Nat) :
    sorted = sorted.filter (·.offset < key) ++
      (sorted.filter (·.offset == key) ++ sorted.filter (key < ·.offset)) := by
  induction sorted with
  | nil => rfl
  | cons first rest ih =>
    obtain ⟨hfirst, hrest⟩ := List.pairwise_cons.mp h
    have hnone : ∀ (test : Queued → Bool), (∀ entry ∈ rest, test entry = false) →
        rest.filter test = [] := by
      intro test htest
      exact List.filter_eq_nil_iff.mpr fun entry hentry => by simp [htest entry hentry]
    rcases Nat.lt_trichotomy first.offset key with hlt | heq | hgt
    · simpa [hlt, Nat.ne_of_lt hlt, Nat.not_lt_of_gt hlt] using ih hrest
    · have hbelow := hnone (fun entry => decide (entry.offset < key)) fun entry hentry => by
        have := hfirst entry hentry
        simp; omega
      have hsplit := ih hrest
      rw [hbelow, List.nil_append] at hsplit
      simpa [heq, hbelow] using hsplit
    · have hbelow := hnone (fun entry => decide (entry.offset < key)) fun entry hentry => by
        have := hfirst entry hentry
        simp; omega
      have hequal := hnone (fun entry => entry.offset == key) fun entry hentry => by
        have := hfirst entry hentry
        simp; omega
      have hsplit := ih hrest
      rw [hbelow, hequal, List.nil_append, List.nil_append] at hsplit
      simpa [hgt, Nat.ne_of_gt hgt, Nat.not_lt_of_gt hgt, hbelow, hequal] using hsplit

namespace StablySorted

variable {list sorted : List Queued}

theorem mergeSort (list : List Queued) :
    StablySorted list (list.mergeSort fun a b => a.offset ≤ b.offset) := by
  have htrans : ∀ a b c : Queued, decide (a.offset ≤ b.offset) = true →
      decide (b.offset ≤ c.offset) = true → decide (a.offset ≤ c.offset) = true := by
    simp only [decide_eq_true_eq]
    omega
  have htotal : ∀ a b : Queued,
      (decide (a.offset ≤ b.offset) || decide (b.offset ≤ a.offset)) = true := by
    simp only [Bool.or_eq_true, decide_eq_true_eq]
    omega
  have hperm := List.mergeSort_perm list fun a b => decide (a.offset ≤ b.offset)
  refine ⟨hperm, by simpa using List.pairwise_mergeSort htrans htotal list, ?_⟩
  intro key
  -- The entries of one key are in order, so that sorting does not move them past each other.
  have hkey : (list.filter (·.offset == key)).Pairwise fun a b =>
      decide (a.offset ≤ b.offset) = true := by
    refine List.pairwise_of_forall_mem_list fun a ha b hb => ?_
    have ha' := (List.mem_filter.mp ha).2
    have hb' := (List.mem_filter.mp hb).2
    simp only [beq_iff_eq, decide_eq_true_eq] at *
    omega
  have hsub := (List.sublist_mergeSort htrans htotal hkey List.filter_sublist).filter
    (·.offset == key)
  rw [List.filter_filter] at hsub
  simp only [Bool.and_self] at hsub
  exact (hsub.eq_of_length (hperm.filter _).length_eq.symm).symm

/-- The last entry goes behind all that are not above it. -/
theorem split_last {last : Queued} (h : StablySorted (list ++ [last]) sorted) :
    ∃ before after, sorted = before ++ last :: after ∧
      (∀ entry ∈ list, entry.offset ≤ last.offset → entry ∈ before) ∧
      ∀ entry ∈ after, entry ∈ list ∧ last.offset < entry.offset := by
  have hequal := h.stable last.offset
  rw [List.filter_append, List.filter_singleton, beq_self_eq_true, cond_true] at hequal
  have hsplit := filter_append_of_ordered h.ordered last.offset
  rw [hequal] at hsplit
  refine ⟨sorted.filter (·.offset < last.offset) ++ list.filter (·.offset == last.offset),
    sorted.filter (last.offset < ·.offset), ?_, ?_, ?_⟩
  · simpa using hsplit
  · intro entry hentry hle
    rcases Nat.lt_or_eq_of_le hle with hlt | heq
    · refine List.mem_append_left _ (List.mem_filter.mpr ⟨h.perm.mem_iff.mpr ?_, by simpa⟩)
      exact List.mem_append_left _ hentry
    · exact List.mem_append_right _ (List.mem_filter.mpr ⟨hentry, by simpa⟩)
  · intro entry hentry
    obtain ⟨hmem, hgt⟩ := List.mem_filter.mp hentry
    have hgt : last.offset < entry.offset := by simpa using hgt
    rcases List.mem_append.mp (h.perm.mem_iff.mp hmem) with hlist | hlast
    · exact ⟨hlist, hgt⟩
    · rw [List.mem_singleton.mp hlast] at hgt
      omega

end StablySorted

/-! ## What is selected from a list -/

namespace Diagnostic

/-- Whether a diagnostic says the same about the same place as another. -/
def repeats (diagnostic other : Diagnostic) : Bool :=
  other.offset == diagnostic.offset && other.code == diagnostic.code

/-- The span a diagnostic belongs to. -/
def place (diagnostic : Diagnostic) : Span := diagnostic.primarySpan?.getD Span.none

theorem offset_eq (diagnostic : Diagnostic) : diagnostic.offset = diagnostic.place.start := by
  rw [offset, place]
  cases diagnostic.primarySpan? <;> rfl

end Diagnostic

namespace QueueConfig

variable {config : QueueConfig}

/-- What is left of a list when follow-ons are dropped. -/
def firstHand (config : QueueConfig) (offered : List Diagnostic) : List Diagnostic :=
  if config.filterFollowOn then offered.filter (!·.isFollowOn) else offered

/-- What is left of it when, after that, all that repeats something kept is dropped. -/
def distinct (config : QueueConfig) (offered : List Diagnostic) : List Diagnostic :=
  if config.deduplicate then (config.firstHand offered).eraseDupsBy Diagnostic.repeats
  else config.firstHand offered

/-- What is left of it within the limit. -/
def select (config : QueueConfig) (offered : List Diagnostic) : List Diagnostic :=
  if config.limit = 0 then config.distinct offered
  else (config.distinct offered).take config.limit

/-- Whether an offer that comes after others is one to select, the limit apart. -/
def admits (config : QueueConfig) (kept : List Diagnostic) (diagnostic : Diagnostic) : Bool :=
  !(config.filterFollowOn && diagnostic.isFollowOn) &&
    !(config.deduplicate && kept.any diagnostic.repeats)

theorem firstHand_append (config : QueueConfig) (offered : List Diagnostic)
    (diagnostic : Diagnostic) :
    config.firstHand (offered ++ [diagnostic]) = config.firstHand offered ++
      if config.filterFollowOn && diagnostic.isFollowOn then [] else [diagnostic] := by
  cases hfilter : config.filterFollowOn with
  | false => simp [firstHand, hfilter]
  | true => cases hfollow : diagnostic.isFollowOn <;> simp [firstHand, hfilter, hfollow]

theorem distinct_append (config : QueueConfig) (offered : List Diagnostic)
    (diagnostic : Diagnostic) :
    config.distinct (offered ++ [diagnostic]) = config.distinct offered ++
      if config.admits (config.distinct offered) diagnostic then [diagnostic] else [] := by
  rw [admits, distinct, distinct, firstHand_append]
  cases hfollow : config.filterFollowOn && diagnostic.isFollowOn with
  | true => simp
  | false =>
    cases hdedup : config.deduplicate with
    | false => simp
    | true =>
      simp only [Bool.false_eq_true, if_false, if_true, eraseDupsBy_append]
      cases ((config.firstHand offered).eraseDupsBy Diagnostic.repeats).any diagnostic.repeats <;>
        simp

theorem select_nil (config : QueueConfig) : config.select [] = [] := by
  simp [select, distinct, firstHand, List.eraseDupsBy, List.eraseDupsBy.loop]

theorem select_of_limit_eq_zero (h : config.limit = 0) (offered : List Diagnostic) :
    config.select offered = config.distinct offered := if_pos h

theorem select_of_limit_pos (h : 0 < config.limit) (offered : List Diagnostic) :
    config.select offered = (config.distinct offered).take config.limit :=
  if_neg (Nat.ne_of_gt h)

theorem length_select_le (h : 0 < config.limit) (offered : List Diagnostic) :
    (config.select offered).length ≤ config.limit := by
  rw [select_of_limit_pos h]
  exact List.length_take_le _ _

/-- One more offer is selected if the limit leaves room for it and it is one to select. -/
theorem select_append (config : QueueConfig) (offered : List Diagnostic)
    (diagnostic : Diagnostic) :
    config.select (offered ++ [diagnostic]) = config.select offered ++
      if (config.limit = 0 ∨ (config.select offered).length < config.limit) ∧
        config.admits (config.select offered) diagnostic then [diagnostic] else [] := by
  rcases Nat.eq_zero_or_pos config.limit with hzero | hlimit
  · simp only [select_of_limit_eq_zero hzero, distinct_append, hzero, true_or, true_and]
  · simp only [select_of_limit_pos hlimit, distinct_append, Nat.ne_of_gt hlimit, false_or]
    by_cases hroom : (config.distinct offered).length < config.limit
    · -- Nothing has been cut off so far.
      rw [List.take_of_length_le (Nat.le_of_lt hroom)]
      simp only [hroom, true_and]
      refine List.take_of_length_le ?_
      rw [List.length_append]
      split
      next => exact hroom
      next => exact Nat.le_of_lt hroom
    · have hfull : ((config.distinct offered).take config.limit).length = config.limit := by
        rw [List.length_take]
        omega
      rw [List.take_append_of_le_length (by omega), if_neg (by omega), List.append_nil]

/-- What waits when these are kept: each at its offset, and the marker after those that reach the
limit. -/
def queued (config : QueueConfig) (kept : List Diagnostic) : List Queued :=
  kept.map (fun diagnostic => ⟨diagnostic, diagnostic.offset⟩) ++
    if 0 < config.limit ∧ kept.length = config.limit then
      kept.getLast?.toList.map fun trigger =>
        ⟨.tooManyErrors trigger.place config.limit, trigger.place.stop⟩
    else []

end QueueConfig

/-! ## Queues -/

namespace Queue

variable {config : QueueConfig} {offered : List Diagnostic} {queue : Queue}

/-- The queue comes from a new one by offers and flushes, and this is what it was offered since
the last flush. -/
inductive Reached (config : QueueConfig) : List Diagnostic → Queue → Prop
  | new : Reached config [] (Queue.new config)
  | add {offered : List Diagnostic} {queue : Queue} (h : Reached config offered queue)
      (diagnostic : Diagnostic) : Reached config (offered ++ [diagnostic]) (queue.add diagnostic).2
  | flush {offered : List Diagnostic} {queue : Queue} (h : Reached config offered queue) :
      Reached config [] queue.flush.2

theorem Reached.addAll (h : Reached config offered queue) (more : List Diagnostic) :
    Reached config (offered ++ more) (queue.addAll more) := by
  induction more generalizing offered queue with
  | nil =>
    rw [List.append_nil]
    exact h
  | cons first rest ih =>
    rw [List.append_cons]
    exact ih (h.add first)

/-- A queue keeps what is selected from a list. -/
structure Holds (config : QueueConfig) (offered : List Diagnostic) (queue : Queue) : Prop where
  config_eq : queue.config = config
  errorCount : queue.errorCount = (config.select offered).length
  limitReported : queue.limitReported = queue.limitReached
  waiting : queue.waiting.toList = config.queued (config.select offered)

theorem holds_new (config : QueueConfig) : Holds config [] (new config) := by
  refine ⟨rfl, ?_, ?_, ?_⟩
  · rw [config.select_nil]
    rfl
  · rw [limitReached, ← Bool.decide_and]
    exact (decide_eq_false fun hreached => Nat.not_le_of_lt hreached.1 hreached.2).symm
  · rw [config.select_nil, QueueConfig.queued]
    simp [new]

namespace Holds

theorem limitReached_iff (h : Holds config offered queue) :
    queue.limitReached = true ↔ 0 < config.limit ∧ queue.errorCount = config.limit := by
  rw [limitReached, h.config_eq, Bool.and_eq_true, decide_eq_true_eq, decide_eq_true_eq]
  refine and_congr_right fun hlimit => ?_
  have hle := QueueConfig.length_select_le hlimit offered
  rw [← h.errorCount] at hle
  omega

theorem limitReached_eq_false (h : Holds config offered queue) :
    queue.limitReached = false ↔
      config.limit = 0 ∨ (config.select offered).length < config.limit := by
  rw [← Bool.not_eq_true, h.limitReached_iff, ← h.errorCount]
  have hle : 0 < config.limit → queue.errorCount ≤ config.limit := fun hlimit =>
    h.errorCount ▸ QueueConfig.length_select_le hlimit offered
  omega

/-- Below the limit nothing waits but what was accepted. -/
theorem unmarked (h : Holds config offered queue) (hroom : queue.limitReached = false) :
    queue.waiting.toList =
      (config.select offered).map fun diagnostic => ⟨diagnostic, diagnostic.offset⟩ := by
  rw [h.waiting, QueueConfig.queued, if_neg, List.append_nil]
  rw [← h.errorCount, ← h.limitReached_iff, hroom]
  exact Bool.false_ne_true

/-- At the limit the marker waits, for what was accepted last. -/
theorem marked (h : Holds config offered queue) (hreached : queue.limitReached = true) :
    ∃ trigger, (config.select offered).getLast? = some trigger ∧ queue.waiting.toList =
      ((config.select offered).map fun diagnostic => ⟨diagnostic, diagnostic.offset⟩) ++
        [⟨Diagnostic.tooManyErrors trigger.place config.limit, trigger.place.stop⟩] := by
  obtain ⟨hlimit, hcount⟩ := h.limitReached_iff.mp hreached
  rw [h.errorCount] at hcount
  cases hlast : (config.select offered).getLast? with
  | none =>
    rw [List.getLast?_eq_none_iff.mp hlast, List.length_nil] at hcount
    omega
  | some trigger =>
    refine ⟨trigger, rfl, ?_⟩
    rw [h.waiting, QueueConfig.queued, if_pos ⟨hlimit, hcount⟩, hlast]
    rfl

/-- What a queue drops is what is not selected. -/
theorem drops_iff (h : Holds config offered queue) (diagnostic : Diagnostic) :
    queue.drops diagnostic = false ↔
      (config.limit = 0 ∨ (config.select offered).length < config.limit) ∧
        config.admits (config.select offered) diagnostic = true := by
  rw [drops, ← h.limitReached_eq_false, QueueConfig.admits, h.config_eq, Bool.or_assoc,
    Bool.or_eq_false_iff, ← Bool.not_or, Bool.not_eq_true']
  refine and_congr_right fun hroom => ?_
  have hduplicate : queue.isDuplicate diagnostic =
      (config.select offered).any diagnostic.repeats := by
    rw [isDuplicate, ← Array.any_toList, h.unmarked hroom, List.any_map]
    rfl
  rw [hduplicate]

/-- The answer to an offer says whether it is selected. -/
theorem answer (h : Holds config offered queue) (diagnostic : Diagnostic) :
    config.select (offered ++ [diagnostic]) =
      config.select offered ++ if (queue.add diagnostic).1 then [diagnostic] else [] := by
  rw [QueueConfig.select_append, add_eq]
  cases hdrops : queue.drops diagnostic with
  | true =>
    rw [if_neg fun hselected => by simp [(h.drops_iff diagnostic).mpr hselected] at hdrops]
    rfl
  | false =>
    rw [if_pos ((h.drops_iff diagnostic).mp hdrops)]
    rfl

/-- An offer that is accepted is the last, and the marker that may follow is for it. -/
theorem accept (h : Holds config offered queue) (hroom : queue.limitReached = false)
    {diagnostic : Diagnostic} (hselect : config.select (offered ++ [diagnostic]) =
      config.select offered ++ [diagnostic]) :
    Holds config (offered ++ [diagnostic]) (queue.accept diagnostic) := by
  have hreported := h.limitReported.trans hroom
  have hcount : (config.select (offered ++ [diagnostic])).length = queue.errorCount + 1 := by
    rw [hselect, List.length_append, h.errorCount]
    rfl
  have hwaiting := h.unmarked hroom
  have hle : 0 < config.limit → (config.select (offered ++ [diagnostic])).length ≤ config.limit :=
    fun hlimit => QueueConfig.length_select_le hlimit _
  rw [Queue.accept, mark]
  split
  next hreached =>
    simp only [limitReached, h.config_eq, Bool.and_eq_true, decide_eq_true_eq] at hreached
    refine ⟨h.config_eq, hcount.symm, ?_, ?_⟩
    · simp [limitReached, h.config_eq, hreached.1]
    · rw [QueueConfig.queued, if_pos ⟨hreached.1.1, by have := hle hreached.1.1; omega⟩, hselect]
      simp [hwaiting, marker, h.config_eq, Diagnostic.place]
  next hreached =>
    simp only [hreported, limitReached, h.config_eq, Bool.not_false, Bool.and_true,
      Bool.and_eq_true, decide_eq_true_eq] at hreached
    refine ⟨h.config_eq, hcount.symm, ?_, ?_⟩
    · simp only [hreported, limitReached, h.config_eq, ← Bool.decide_and]
      exact (decide_eq_false hreached).symm
    · rw [QueueConfig.queued, if_neg (by omega), hselect]
      simp [hwaiting]

/-- **An offer keeps the invariant.** -/
theorem add (h : Holds config offered queue) (diagnostic : Diagnostic) :
    Holds config (offered ++ [diagnostic]) (queue.add diagnostic).2 := by
  have hanswer := h.answer diagnostic
  rw [add_eq] at hanswer ⊢
  cases hdrops : queue.drops diagnostic with
  | true =>
    simp only [hdrops, if_true, Bool.false_eq_true, if_false, List.append_nil] at hanswer ⊢
    exact ⟨h.config_eq, hanswer ▸ h.errorCount, h.limitReported, hanswer ▸ h.waiting⟩
  | false =>
    simp only [hdrops, Bool.false_eq_true, if_false, if_true] at hanswer ⊢
    exact h.accept (h.limitReached_eq_false.mpr ((h.drops_iff diagnostic).mp hdrops).1) hanswer

theorem flush_eq (h : Holds config offered queue) :
    ∃ sorted, StablySorted queue.waiting.toList sorted ∧
      queue.flush = (sorted.map (·.diagnostic), new config) :=
  ⟨_, .mergeSort queue.waiting.toList, by rw [Queue.flush, new, h.config_eq]⟩

theorem of_reached (h : Reached config offered queue) : Holds config offered queue := by
  induction h with
  | new => exact holds_new config
  | add _ diagnostic ih => exact ih.add diagnostic
  | flush _ ih =>
    obtain ⟨_, -, hflush⟩ := ih.flush_eq
    rw [hflush]
    exact holds_new config

end Holds

/-- All that a queue answers, in terms of the list that was offered. -/
structure Batch (config : QueueConfig) (offered : List Diagnostic) (queue : Queue) : Prop where
  /-- Offering one more answers whether it is selected from the whole list. -/
  answer : ∀ diagnostic, config.select (offered ++ [diagnostic]) =
    config.select offered ++ if (queue.add diagnostic).1 then [diagnostic] else []
  errorCount : queue.errorCount = (config.select offered).length
  limitReached : queue.limitReached = true ↔ 0 < config.limit ∧ queue.errorCount = config.limit
  /-- Below the limit what was selected waits, in order, and nothing else. -/
  unmarked : queue.limitReached = false → queue.limitReported = false ∧ queue.waiting.toList =
    (config.select offered).map fun diagnostic => ⟨diagnostic, diagnostic.offset⟩
  /-- At the limit one marker waits after the rest, for what was accepted last. -/
  marked : queue.limitReached = true → queue.limitReported = true ∧
    ∃ trigger, (config.select offered).getLast? = some trigger ∧ queue.waiting.toList =
      ((config.select offered).map fun diagnostic => ⟨diagnostic, diagnostic.offset⟩) ++
        [⟨Diagnostic.tooManyErrors trigger.place config.limit, trigger.place.stop⟩] ∧
    -- It is listed after that, if its span is not reversed.
    (trigger.place.start ≤ trigger.place.stop → ∃ before after, queue.flush.1 =
      before ++ Diagnostic.tooManyErrors trigger.place config.limit :: after ∧
        trigger ∈ before ∧ trigger ∉ after)
  size : queue.size = queue.errorCount + if queue.limitReached then 1 else 0
  /-- A flush lists what waits, sorted by offset, and leaves a new queue. -/
  flush : ∃ sorted, StablySorted queue.waiting.toList sorted ∧
    queue.flush = (sorted.map (·.diagnostic), new config)

/-- The marker is listed after what it is for. -/
theorem Holds.marker_after {trigger : Diagnostic} (h : Holds config offered queue)
    (hlast : (config.select offered).getLast? = some trigger)
    {marker : Diagnostic} (hwaiting : queue.waiting.toList =
      ((config.select offered).map fun diagnostic => ⟨diagnostic, diagnostic.offset⟩) ++
        [⟨marker, trigger.place.stop⟩])
    (hspan : trigger.place.start ≤ trigger.place.stop) :
    ∃ before after, queue.flush.1 = before ++ marker :: after ∧
      trigger ∈ before ∧ trigger ∉ after := by
  obtain ⟨sorted, hsorted, hflush⟩ := h.flush_eq
  rw [hwaiting] at hsorted
  obtain ⟨before, after, rfl, hbefore, hafter⟩ := hsorted.split_last
  refine ⟨before.map (·.diagnostic), after.map (·.diagnostic), by simp [hflush], ?_, ?_⟩
  · have hmem := List.mem_map_of_mem (List.mem_of_getLast? hlast)
      (f := fun diagnostic => (⟨diagnostic, diagnostic.offset⟩ : Queued))
    rw [← Diagnostic.offset_eq] at hspan
    exact List.mem_map_of_mem (hbefore _ hmem hspan)
  · intro hmem
    obtain ⟨entry, hentry, rfl⟩ := List.mem_map.mp hmem
    obtain ⟨hlist, hgt⟩ := hafter entry hentry
    obtain ⟨diagnostic, -, rfl⟩ := List.mem_map.mp hlist
    have hle : diagnostic.offset ≤ diagnostic.place.stop := diagnostic.offset_eq ▸ hspan
    exact Nat.not_lt_of_ge hle hgt

/-- However a queue was used, it answers as the list it was offered since the last flush says. -/
theorem batch_of_reached (hreached : Reached config offered queue) :
    Batch config offered queue := by
  have h := Holds.of_reached hreached
  refine ⟨h.answer, h.errorCount, h.limitReached_iff, ?_, ?_, ?_, h.flush_eq⟩
  · intro hlimit
    exact ⟨h.limitReported.trans hlimit, h.unmarked hlimit⟩
  · intro hlimit
    obtain ⟨trigger, hlast, hwaiting⟩ := h.marked hlimit
    exact ⟨h.limitReported.trans hlimit, trigger, hlast, hwaiting, h.marker_after hlast hwaiting⟩
  · rw [size, ← Array.length_toList, h.errorCount]
    cases hlimit : queue.limitReached with
    | false =>
      rw [h.unmarked hlimit, List.length_map]
      rfl
    | true =>
      obtain ⟨trigger, -, hwaiting⟩ := h.marked hlimit
      rw [hwaiting, List.length_append, List.length_map]
      rfl

/-- A repetition, a follow-on and one offer too many. -/
def fiveOffers : List Diagnostic :=
  [.unknownName ⟨5, 9⟩ "a", .unknownName ⟨5, 6⟩ "b", .incompatiblePattern ⟨2, 3⟩ "<error>" "Box",
    .unknownType ⟨1, 8⟩ "Bax", .unknownType ⟨0, 1⟩ "Bex"]

/-- A queue for two that was used for these offers before is a batch of them. -/
theorem batch_of_fiveOffers :
    Batch ⟨2, true, true⟩ fiveOffers
        (((new ⟨2, true, true⟩).addAll fiveOffers).flush.2.addAll fiveOffers) ∧
      QueueConfig.select ⟨2, true, true⟩ fiveOffers =
        [.unknownName ⟨5, 9⟩ "a", .unknownType ⟨1, 8⟩ "Bax"] :=
  ⟨batch_of_reached ((Reached.new.addAll fiveOffers).flush.addAll fiveOffers),
    by decide +kernel⟩

end Queue

end GuardedMatch
