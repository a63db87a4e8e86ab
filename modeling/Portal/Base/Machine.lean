import Mathlib.Data.List.Basic
import Mathlib.Data.List.Induction

/-!
# Runs of a partial step function, with the transitions they take

A machine is a function `step : σ → α → Option σ`: what the action `α` makes of the state, `none`
when the state does not allow it.  `Run step s₀ tr s` says that `tr` is the list of the transitions
(state before, action, state after) of one run from `s₀` to `s`, oldest first, so that a law about
runs can speak of what a step found, what it was and what it left.

* `Run.invariant`      an invariant that every step keeps, on runs whose steps meet a condition;
* `Run.traced`, `Run.history`   the same for a property of the state and of the transitions so far;
* `Run.append`, `Run.split`, `Run.at`   runs are cut and joined at any transition;
* `run_trace`          a list of actions, executed.
-/

namespace Portal

structure Trans (σ α : Type*) where
  before : σ
  act : α
  after : σ
deriving DecidableEq

section
variable {σ α : Type*}

inductive Run (step : σ → α → Option σ) (s₀ : σ) : List (Trans σ α) → σ → Prop
  | nil : Run step s₀ [] s₀
  | snoc {tr : List (Trans σ α)} {s s' : σ} {a : α} :
      Run step s₀ tr s → step s a = some s' → Run step s₀ (tr ++ [⟨s, a, s'⟩]) s'

variable {step : σ → α → Option σ} {s₀ : σ}

/-- **History rule**: `I` holds of no transitions at the start and every step keeps it; each step
taken may be assumed to meet `C`, which may look at the transitions before it. -/
theorem Run.traced {I : List (Trans σ α) → σ → Prop} {C : List (Trans σ α) → Trans σ α → Prop}
    (h0 : I [] s₀)
    (hstep : ∀ tr s a s', Run step s₀ tr s → step s a = some s' → C tr ⟨s, a, s'⟩ → I tr s →
      I (tr ++ [⟨s, a, s'⟩]) s')
    {tr : List (Trans σ α)} {s : σ} (hr : Run step s₀ tr s)
    (hC : ∀ l t l', tr = l ++ t :: l' → C l t) : I tr s := by
  induction hr with
  | nil => exact h0
  | @snoc tr s s' a hr hs ih =>
    refine hstep _ _ _ _ hr hs (hC _ _ [] rfl) (ih (fun l t l' e => ?_))
    exact hC l t (l' ++ [⟨s, a, s'⟩]) (by rw [e, List.append_assoc]; rfl)

theorem Run.history {I : List (Trans σ α) → σ → Prop} {C : Trans σ α → Prop}
    (h0 : I [] s₀)
    (hstep : ∀ tr s a s', Run step s₀ tr s → step s a = some s' → C ⟨s, a, s'⟩ → I tr s →
      I (tr ++ [⟨s, a, s'⟩]) s')
    {tr : List (Trans σ α)} {s : σ} (hr : Run step s₀ tr s) (hC : ∀ t ∈ tr, C t) : I tr s :=
  Run.traced (C := fun _ t => C t) h0 hstep hr (fun l t l' e => hC t (by simp [e]))

/-- **Invariant rule**: `I` holds at the start and every step that meets `C` keeps it. -/
theorem Run.invariant {I : σ → Prop} {C : Trans σ α → Prop} (h0 : I s₀)
    (hstep : ∀ s a s', step s a = some s' → C ⟨s, a, s'⟩ → I s → I s')
    {tr : List (Trans σ α)} {s : σ} (hr : Run step s₀ tr s) (hC : ∀ t ∈ tr, C t) : I s :=
  Run.history (I := fun _ s => I s) h0 (fun _ s a s' _ => hstep s a s') hr hC

theorem Run.append {tr tr' : List (Trans σ α)} {s s' : σ} (h : Run step s₀ tr s)
    (h' : Run step s tr' s') : Run step s₀ (tr ++ tr') s' := by
  induction h' with
  | nil => rw [List.append_nil]; exact h
  | snoc _ hs ih => rw [← List.append_assoc]; exact ih.snoc hs

theorem Run.of_snoc {tr : List (Trans σ α)} {t : Trans σ α} {s : σ}
    (h : Run step s₀ (tr ++ [t]) s) :
    Run step s₀ tr t.before ∧ step t.before t.act = some t.after ∧ t.after = s := by
  generalize hw : tr ++ [t] = w at h
  cases h with
  | nil => exact absurd hw (by simp)
  | snoc h1 h2 =>
    obtain ⟨rfl, ht⟩ := List.append_inj' hw rfl
    rw [(List.cons.inj ht).1]
    exact ⟨h1, h2, rfl⟩

theorem Run.split {tr tr' : List (Trans σ α)} {s' : σ} (h : Run step s₀ (tr ++ tr') s') :
    ∃ s, Run step s₀ tr s ∧ Run step s tr' s' := by
  induction tr' using List.reverseRecOn generalizing s' with
  | nil => exact ⟨s', by rwa [List.append_nil] at h, Run.nil⟩
  | append_singleton l t ih =>
    rw [← List.append_assoc] at h
    obtain ⟨h1, h2, rfl⟩ := h.of_snoc
    obtain ⟨s, ha, hb⟩ := ih h1
    exact ⟨s, ha, hb.snoc h2⟩

theorem Run.at {a b : List (Trans σ α)} {t : Trans σ α} {s : σ} (h : Run step s₀ (a ++ t :: b) s) :
    Run step s₀ a t.before ∧ step t.before t.act = some t.after ∧ Run step t.after b s := by
  have h' : Run step s₀ ((a ++ [t]) ++ b) s := by rwa [List.append_assoc]
  obtain ⟨s1, h1, h2⟩ := h'.split
  obtain ⟨h3, hs, rfl⟩ := h1.of_snoc
  exact ⟨h3, hs, h2⟩

theorem cut {β : Type*} (l : List β) (i : Nat) (h : i < l.length) :
    l.take i ++ l[i] :: l.drop (i + 1) = l := by
  rw [List.getElem_cons_drop h, List.take_append_drop]

theorem forall_cut {β : Type*} {C : List β → β → Prop} {l : List β}
    (h : ∀ i : Fin l.length, C (l.take i) (l.get i)) {a b : List β} {t : β} (e : l = a ++ t :: b) :
    C a t := by
  subst e
  have hlt : a.length < (a ++ t :: b).length := by simp
  have hat := h ⟨a.length, hlt⟩
  simpa using hat

/-! ## execution -/

/-- the transitions of a list of actions, and where they end -/
def exec (step : σ → α → Option σ) : σ → List α → Option (List (Trans σ α) × σ)
  | s, [] => some ([], s)
  | s, a :: as =>
    match step s a with
    | none => none
    | some s' =>
      match exec step s' as with
      | none => none
      | some (tr, s'') => some (⟨s, a, s'⟩ :: tr, s'')

theorem run_of_exec {as : List α} {s s' : σ} {tr : List (Trans σ α)}
    (h : exec step s as = some (tr, s')) : Run step s tr s' := by
  induction as generalizing s tr with
  | nil =>
    simp only [exec, Option.some.injEq, Prod.mk.injEq] at h
    obtain ⟨rfl, rfl⟩ := h
    exact Run.nil
  | cons a as ih =>
    unfold exec at h
    split at h
    · exact absurd h (by simp)
    · rename_i s1 hs
      split at h
      · exact absurd h (by simp)
      · rename_i tr1 s2 he
        simp only [Option.some.injEq, Prod.mk.injEq] at h
        obtain ⟨rfl, rfl⟩ := h
        exact Run.append (Run.nil.snoc hs) (ih he)

/-- the transitions of a list of actions, and where they end, when all of them can be taken -/
def trace (step : σ → α → Option σ) (s : σ) (as : List α) : List (Trans σ α) :=
  ((exec step s as).map Prod.fst).getD []

def final (step : σ → α → Option σ) (s : σ) (as : List α) : σ :=
  ((exec step s as).map Prod.snd).getD s

theorem run_trace {s : σ} {as : List α} (h : (exec step s as).isSome) :
    Run step s (trace step s as) (final step s as) := by
  obtain ⟨⟨tr, s'⟩, he⟩ := Option.isSome_iff_exists.mp h
  unfold trace final
  rw [he]
  exact run_of_exec he

theorem forall_trace_cons {C : Trans σ α → Prop} {s s' : σ} {a : α} {as : List α}
    (hs : step s a = some s') (ha : C ⟨s, a, s'⟩) (h : ∀ t ∈ trace step s' as, C t) :
    ∀ t ∈ trace step s (a :: as), C t := by
  unfold trace at h ⊢
  cases he : exec step s' as with
  | none => simp [exec, hs, he]
  | some r =>
    rw [he] at h
    have hcons : exec step s (a :: as) = some (⟨s, a, s'⟩ :: r.1, r.2) := by simp only [exec, hs, he]
    rw [hcons]
    intro t ht
    rcases List.mem_cons.mp ht with rfl | ht
    · exact ha
    · exact h t ht

theorem run_trace_of_snd {τ : Type*} {step : σ × τ → α → Option (σ × τ)} {s : σ × τ} {as : List α}
    (h : (exec step s as).isSome) {t : τ} (ht : (final step s as).2 = t) :
    Run step s (trace step s as) ((final step s as).1, t) := by
  rw [← ht]
  exact run_trace h

end
end Portal
