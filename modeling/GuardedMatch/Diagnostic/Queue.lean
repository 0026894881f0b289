import GuardedMatch.Diagnostic.Basic

/-!
# The diagnostic queue

Passes offer diagnostics and the queue decides which to accept.  It drops what only follows
from an earlier mistake, what repeats an accepted diagnostic at the same place, and everything
after the error limit.  When the limit is reached a marker is listed after the accepted
diagnostics.  Flushing lists everything by offset; at one offset the order of acceptance stays.
-/

namespace GuardedMatch

structure QueueConfig where
  /-- The greatest number of accepted diagnostics; zero for no limit. -/
  limit : Nat
  filterFollowOn : Bool
  deduplicate : Bool
deriving DecidableEq

namespace QueueConfig

def default : QueueConfig := ⟨10, true, true⟩

/-- Accept everything. -/
def unlimited : QueueConfig := ⟨0, false, false⟩

end QueueConfig

/-- Whether `word` occurs somewhere in a text. -/
def occursIn (word : List Char) : List Char → Bool
  | [] => word.isEmpty
  | c :: text => word.isPrefixOf (c :: text) || occursIn word text

namespace Diagnostic

/-- A message that mentions the error type follows from the mistake that led to it. -/
def isFollowOn (diagnostic : Diagnostic) : Bool :=
  occursIn "<error>".toList diagnostic.message.toList

/-- The start of the primary span. -/
def offset (diagnostic : Diagnostic) : Nat :=
  match diagnostic.primarySpan? with
  | some span => span.start
  | none => 0

end Diagnostic

/-- A diagnostic that waits to be listed, and the offset at which it is listed. -/
structure Queued where
  diagnostic : Diagnostic
  offset : Nat
deriving DecidableEq

structure Queue where
  /-- What waits, in the order in which it came. -/
  waiting : Array Queued
  /-- The number of accepted diagnostics. -/
  errorCount : Nat
  /-- Whether the marker of the limit waits. -/
  limitReported : Bool
  config : QueueConfig

namespace Queue

def new (config : QueueConfig) : Queue := ⟨#[], 0, false, config⟩

def limitReached (queue : Queue) : Bool :=
  0 < queue.config.limit && queue.config.limit ≤ queue.errorCount

/-- Whether something waits that says the same about the same place. -/
def isDuplicate (queue : Queue) (diagnostic : Diagnostic) : Bool :=
  queue.waiting.any fun queued =>
    queued.offset == diagnostic.offset && queued.diagnostic.code == diagnostic.code

/-- The marker stands at the span of what reached the limit, and is listed at its stop. -/
def marker (queue : Queue) (trigger : Diagnostic) : Queued :=
  let span := trigger.primarySpan?.getD Span.none
  ⟨.tooManyErrors span queue.config.limit, span.stop⟩

/-- The marker follows what has reached the limit, once. -/
def mark (queue : Queue) (trigger : Diagnostic) : Queue :=
  if queue.limitReached && !queue.limitReported then
    { queue with limitReported := true, waiting := queue.waiting.push (queue.marker trigger) }
  else queue

def accept (queue : Queue) (diagnostic : Diagnostic) : Queue :=
  mark { queue with
    errorCount := queue.errorCount + 1
    waiting := queue.waiting.push ⟨diagnostic, diagnostic.offset⟩ } diagnostic

/-- Offer a diagnostic; the answer says whether it was accepted. -/
def add (queue : Queue) (diagnostic : Diagnostic) : Bool × Queue :=
  if queue.limitReached then (false, queue)
  else if queue.config.filterFollowOn && diagnostic.isFollowOn then (false, queue)
  else if queue.config.deduplicate && queue.isDuplicate diagnostic then (false, queue)
  else (true, queue.accept diagnostic)

/-- Offer diagnostics in order. -/
def addAll (queue : Queue) (diagnostics : List Diagnostic) : Queue :=
  diagnostics.foldl (fun queue diagnostic => (queue.add diagnostic).2) queue

/-- The diagnostics that wait, the marker included, in the order in which they came. -/
def diagnostics (queue : Queue) : List Diagnostic := queue.waiting.toList.map (·.diagnostic)

def size (queue : Queue) : Nat := queue.waiting.size

def isEmpty (queue : Queue) : Bool := queue.waiting.isEmpty

/-- List everything by offset, and start anew. -/
def flush (queue : Queue) : List Diagnostic × Queue :=
  ((queue.waiting.toList.mergeSort fun a b => a.offset ≤ b.offset).map (·.diagnostic),
    { queue with waiting := #[], errorCount := 0, limitReported := false })

/-! ## What an offer changes -/

variable {queue : Queue} {diagnostic : Diagnostic}

theorem addAll_append (queue : Queue) (first rest : List Diagnostic) :
    queue.addAll (first ++ rest) = (queue.addAll first).addAll rest := List.foldl_append

/-- What is accepted waits, and a marker may follow it. -/
theorem accept_spec (queue : Queue) (diagnostic : Diagnostic) :
    (queue.accept diagnostic).config = queue.config ∧
    (queue.accept diagnostic).errorCount = queue.errorCount + 1 ∧
    ∃ markers : List Queued, (queue.accept diagnostic).waiting.toList =
      queue.waiting.toList ++ ⟨diagnostic, diagnostic.offset⟩ :: markers ∧
      ∀ marker ∈ markers, marker.diagnostic.code = .tooManyErrors := by
  rw [accept, mark]
  split
  · exact ⟨rfl, rfl, [queue.marker diagnostic], by simp [marker], List.forall_mem_singleton.2 rfl⟩
  · exact ⟨rfl, rfl, [], by simp, nofun⟩

/-- What a queue has no use for. -/
def drops (queue : Queue) (diagnostic : Diagnostic) : Bool :=
  queue.limitReached || (queue.config.filterFollowOn && diagnostic.isFollowOn) ||
    (queue.config.deduplicate && queue.isDuplicate diagnostic)

theorem add_eq (queue : Queue) (diagnostic : Diagnostic) : queue.add diagnostic =
    if queue.drops diagnostic then (false, queue) else (true, queue.accept diagnostic) := by
  rw [add, drops]
  cases queue.limitReached <;> cases queue.config.filterFollowOn && diagnostic.isFollowOn <;> rfl

/-- An offer is dropped or accepted, as the answer says. -/
theorem add_cases (queue : Queue) (diagnostic : Diagnostic) :
    queue.add diagnostic = (false, queue) ∨
      queue.add diagnostic = (true, queue.accept diagnostic) := by
  rw [add_eq]
  cases queue.drops diagnostic
  · exact .inr rfl
  · exact .inl rfl

theorem config_add (queue : Queue) (diagnostic : Diagnostic) :
    (queue.add diagnostic).2.config = queue.config := by
  rcases add_cases queue diagnostic with h | h
  · rw [h]
  · rw [h, (queue.accept_spec diagnostic).1]

theorem config_addAll (queue : Queue) (offered : List Diagnostic) :
    (queue.addAll offered).config = queue.config := by
  induction offered generalizing queue with
  | nil => rfl
  | cons first rest ih => exact (ih _).trans (config_add queue first)

/-- A queue without limits accepts everything, and there is no marker. -/
theorem add_unlimited (h : queue.config = .unlimited) (diagnostic : Diagnostic) :
    (queue.add diagnostic).2 = { queue with
      waiting := queue.waiting.push ⟨diagnostic, diagnostic.offset⟩
      errorCount := queue.errorCount + 1 } := by
  simp [add, limitReached, h, QueueConfig.unlimited, accept, mark]

theorem diagnostics_addAll (h : queue.config = .unlimited) (offered : List Diagnostic) :
    (queue.addAll offered).diagnostics = queue.diagnostics ++ offered := by
  induction offered generalizing queue with
  | nil => exact (List.append_nil _).symm
  | cons first rest ih =>
    have hrest := ih ((config_add queue first).trans h)
    rw [show queue.addAll (first :: rest) = (queue.add first).2.addAll rest from rfl, hrest,
      add_unlimited h]
    simp [diagnostics]

/-- What waits was offered, but for the marker of the limit. -/
theorem mem_add {offered : Diagnostic} (h : diagnostic ∈ (queue.add offered).2.diagnostics) :
    diagnostic ∈ queue.diagnostics ∨ diagnostic = offered ∨ diagnostic.code = .tooManyErrors := by
  rcases add_cases queue offered with hadd | hadd
  · rw [hadd] at h
    exact .inl h
  · rw [hadd] at h
    obtain ⟨-, -, markers, hwaiting, hmarkers⟩ := queue.accept_spec offered
    rw [diagnostics, hwaiting, List.map_append, List.mem_append, List.map_cons, List.mem_cons] at h
    refine h.imp_right (Or.imp_right fun hmarker => ?_)
    obtain ⟨marker, hmem, rfl⟩ := List.mem_map.1 hmarker
    exact hmarkers marker hmem

theorem mem_add_of_mem (h : diagnostic ∈ queue.diagnostics) (offered : Diagnostic) :
    diagnostic ∈ (queue.add offered).2.diagnostics := by
  rcases add_cases queue offered with hadd | hadd
  · rwa [hadd]
  · obtain ⟨-, -, markers, hwaiting, -⟩ := queue.accept_spec offered
    rw [hadd, diagnostics, hwaiting, List.map_append]
    exact List.mem_append_left _ h

theorem mem_addAll {offered : List Diagnostic}
    (h : diagnostic ∈ (queue.addAll offered).diagnostics) :
    diagnostic ∈ queue.diagnostics ∨ diagnostic ∈ offered ∨ diagnostic.code = .tooManyErrors := by
  induction offered generalizing queue with
  | nil => exact .inl h
  | cons first rest ih =>
    rcases ih h with hfirst | hrest | hmarker
    · rcases mem_add hfirst with hqueue | rfl | hmarker
      · exact .inl hqueue
      · exact .inr (.inl List.mem_cons_self)
      · exact .inr (.inr hmarker)
    · exact .inr (.inl (List.mem_cons_of_mem _ hrest))
    · exact .inr (.inr hmarker)

theorem mem_addAll_of_mem (h : diagnostic ∈ queue.diagnostics) (offered : List Diagnostic) :
    diagnostic ∈ (queue.addAll offered).diagnostics := by
  induction offered generalizing queue with
  | nil => exact h
  | cons first rest ih => exact ih (mem_add_of_mem h first)

theorem mem_flush : diagnostic ∈ queue.flush.1 ↔ diagnostic ∈ queue.diagnostics := by
  simp [flush, diagnostics, List.mem_mergeSort]

/-- Nothing has been offered to a queue that drops nothing. -/
def IsSilent (queue : Queue) : Prop := queue.config = .unlimited ∧ queue.waiting = #[]

theorem isSilent_new : (new .unlimited).IsSilent := ⟨rfl, rfl⟩

theorem isSilent_iff (h : queue.config = .unlimited) :
    queue.IsSilent ↔ queue.diagnostics = [] := by
  simp [IsSilent, h, diagnostics]

theorem IsSilent.mem_add (h : queue.IsSilent) (diagnostic : Diagnostic) :
    diagnostic ∈ (queue.add diagnostic).2.diagnostics := by
  simp [diagnostics, add_unlimited h.1]

@[simp]
theorem not_isSilent_add : ¬ (queue.add diagnostic).2.IsSilent := by
  rintro ⟨hconfig, hwaiting⟩
  rw [config_add] at hconfig
  simp [add_unlimited hconfig] at hwaiting

theorem IsSilent.of_addAll {offered : List Diagnostic} (h : (queue.addAll offered).IsSilent) :
    queue.IsSilent ∧ offered = [] := by
  induction offered generalizing queue with
  | nil => exact ⟨h, rfl⟩
  | cons first rest ih =>
    have hfirst : (queue.add first).2.IsSilent := (ih h).1
    exact absurd hfirst not_isSilent_add

end Queue

end GuardedMatch
