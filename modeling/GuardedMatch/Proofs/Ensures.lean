import Mathlib.Logic.Basic

/-!
# Passes that may stop

The passes are actions on a state that may stop with an error.  `Ensures` says how an action ends
when it is run from a state: with an answer and a state of which something holds, or with an
error that is expected.  There is one rule for each way in which actions are put together.
-/

namespace GuardedMatch

/-- From this state the action ends as `post` says, or stops with an error as `bad` says. -/
def Ensures {ε σ α : Type} (action : EStateM ε σ α) (state : σ) (bad : ε → Prop)
    (post : α → σ → Prop) : Prop :=
  match EStateM.run action state with
  | .ok answer after => post answer after
  | .error error _ => bad error

/-- What comes next starts from the answer and the state that an action ends with. -/
theorem run_bind {ε σ α β : Type} {action : EStateM ε σ α} {next : α → EStateM ε σ β}
    {state after : σ} {answer : α} (h : EStateM.run action state = .ok answer after) :
    EStateM.run (action >>= next) state = EStateM.run (next answer) after := by
  rw [EStateM.run] at h
  simp only [EStateM.run, Bind.bind, EStateM.bind, h]

namespace Ensures

variable {ε σ α β : Type} {state : σ} {bad : ε → Prop} {post : α → σ → Prop}
variable {action : EStateM ε σ α} {post' : α → σ → Prop} {next : β → EStateM ε σ α}

theorem of_ok {answer : α} {after : σ} (h : Ensures action state bad post)
    (hrun : EStateM.run action state = .ok answer after) : post answer after := by
  rwa [Ensures, hrun] at h

theorem of_error {error : ε} {after : σ} (h : Ensures action state bad post)
    (hrun : EStateM.run action state = .error error after) :
    bad error := by
  rwa [Ensures, hrun] at h

theorem exists_ok (h : Ensures action state bad post) (hbad : ∀ error, ¬ bad error) :
    ∃ answer after, EStateM.run action state = .ok answer after ∧ post answer after := by
  cases hrun : EStateM.run action state with
  | ok answer after => exact ⟨answer, after, rfl, h.of_ok hrun⟩
  | error error after => exact absurd (h.of_error hrun) (hbad error)

/-- What holds of every answer and every state is ensured by any action. -/
theorem always (h : ∀ answer after, post answer after) :
    Ensures action state (fun _ => True) post := by
  rw [Ensures]
  split
  next => exact h _ _
  next => trivial

theorem imp {bad' : ε → Prop} (h : Ensures action state bad post)
    (hbad : ∀ error, bad error → bad' error)
    (hpost : ∀ answer after, post answer after → post' answer after) :
    Ensures action state bad' post' := by
  rw [Ensures] at h ⊢
  split at h
  next => exact hpost _ _ h
  next => exact hbad _ h

theorem mono (h : Ensures action state bad post)
    (hpost : ∀ answer after, post answer after → post' answer after) :
    Ensures action state bad post' := h.imp (fun _ => id) hpost

theorem and {bad' : ε → Prop} (h : Ensures action state bad post)
    (h' : Ensures action state bad' post') :
    Ensures action state bad fun answer after => post answer after ∧ post' answer after := by
  rw [Ensures] at h h' ⊢
  split at h
  next hrun =>
    rw [hrun] at h'
    exact ⟨h, h'⟩
  next => exact h

theorem pure {answer : α} (h : post answer state) :
    Ensures (Pure.pure answer : EStateM ε σ α) state bad post := h

theorem throw {error : ε} (h : bad error) :
    Ensures (MonadExcept.throw error : EStateM ε σ α) state bad post := h

theorem bind {action : EStateM ε σ β}
    (h : Ensures action state bad fun answer after => Ensures (next answer) after bad post) :
    Ensures (action >>= next) state bad post := by
  rw [Ensures] at h
  rw [Ensures]
  simp only [EStateM.run, Bind.bind, EStateM.bind] at h ⊢
  cases haction : action state with
  | ok answer after =>
    rw [haction] at h
    exact h
  | error error after =>
    rw [haction] at h
    exact h

/-- What an action ensures is all that the rest relies on. -/
theorem seq {action : EStateM ε σ β} {post' : β → σ → Prop} (h : Ensures action state bad post')
    (hnext : ∀ answer mid, post' answer mid → Ensures (next answer) mid bad post) :
    Ensures (action >>= next) state bad post := bind (h.mono hnext)

theorem skip {action : EStateM ε σ β}
    (h : ∀ answer mid, Ensures (next answer) mid (fun _ => True) post) :
    Ensures (action >>= next) state (fun _ => True) post := bind (always h)

theorem modify_bind {change : σ → σ} {next : PUnit → EStateM ε σ α}
    (h : Ensures (next ⟨⟩) (change state) bad post) :
    Ensures (modify change >>= next) state bad post := h

theorem get_bind {next : σ → EStateM ε σ α} (h : Ensures (next state) state bad post) :
    Ensures (MonadState.get >>= next) state bad post := h

theorem modifies {change : σ → σ} {post : PUnit → σ → Prop} (h : post ⟨⟩ (change state)) :
    Ensures (modify change : EStateM ε σ PUnit) state bad post := h

theorem discards {action : EStateM ε σ β} {post : PUnit → σ → Prop}
    (h : Ensures action state bad fun _ after => post ⟨⟩ after) :
    Ensures (Functor.discard action) state bad post := by
  rw [Ensures] at h
  rw [Ensures]
  simp only [EStateM.run, Functor.discard, Functor.mapConst, EStateM.map, Function.comp_def] at h ⊢
  cases haction : action state with
  | ok answer after =>
    rw [haction] at h
    exact h
  | error error after =>
    rw [haction] at h
    exact h

/-- A loop keeps what each round hands to the next, where `inv` speaks of what is still to do. -/
theorem foldlM {f : α → β → EStateM ε σ α} (inv : List β → α → σ → Prop)
    (hstep : ∀ b rest a s, inv (b :: rest) a s → Ensures (f a b) s bad (inv rest)) :
    ∀ (bs : List β) (a : α) (s : σ), inv bs a s → Ensures (bs.foldlM f a) s bad (inv [])
  | [], _, _, h => h
  | b :: bs, a, s, h => by
    rw [List.foldlM_cons]
    exact bind ((hstep b bs a s h).mono fun a' s' h' => foldlM inv hstep bs a' s' h')

theorem forM {f : β → EStateM ε σ PUnit} (inv : List β → σ → Prop)
    (hstep : ∀ b rest s, inv (b :: rest) s → Ensures (f b) s bad fun _ => inv rest) :
    ∀ (bs : List β) (s : σ), inv bs s → Ensures (bs.forM f) s bad fun _ => inv []
  | [], _, h => h
  | b :: bs, s, h => bind ((hstep b bs s h).mono fun _ s' h' => forM inv hstep bs s' h')

theorem mapM_rest {f : β → EStateM ε σ α} (inv : List β → σ → Prop)
    (hstep : ∀ b rest s, inv (b :: rest) s → Ensures (f b) s bad fun _ => inv rest) :
    ∀ (bs : List β) (s : σ), inv bs s →
      Ensures (bs.mapM f) s bad fun answers s' => inv [] s' ∧ answers.length = bs.length
  | [], _, h => ⟨h, rfl⟩
  | b :: bs, s, h => by
    rw [List.mapM_cons]
    refine bind ((hstep b bs s h).mono fun a s' h' => bind ?_)
    refine (mapM_rest inv hstep bs s' h').mono fun as s'' h'' => ?_
    exact pure ⟨h''.1, congrArg Nat.succ h''.2⟩

/-- A list of answers keeps what each of them keeps. -/
theorem mapM {f : β → EStateM ε σ α} (inv : σ → Prop) (bs : List β)
    (hstep : ∀ b ∈ bs, ∀ s, inv s → Ensures (f b) s bad fun _ => inv) :
    ∀ s, inv s → Ensures (bs.mapM f) s bad fun _ => inv := by
  induction bs with
  | nil => exact fun _ h => h
  | cons b bs ih =>
    intro s h
    rw [List.mapM_cons]
    refine bind ((hstep b List.mem_cons_self s h).mono fun a s' h' => ?_)
    have hrest := ih (fun b hb => hstep b (List.mem_cons_of_mem _ hb)) s' h'
    exact bind (hrest.mono fun _ _ h => h)

end Ensures

end GuardedMatch
