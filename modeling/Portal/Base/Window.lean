import Mathlib.Data.List.Basic
import Mathlib.Data.List.Perm.Basic

/-!
# A pruned log of events bounds every window

Events are logged by their time and the log is pruned of the old ones now and then, at times that
need not come in order.  `Old w n events kept` says that every event the log no longer keeps is at
least `w` old at `n`; `Within w k events` that no window shorter than `w` holds more than `k` of
them.

* `Old.prune`, `Old.push`   pruning by `n` and logging keep it;
* `Within.push`             an event logged while the log keeps fewer than `k` leaves every window
                            with at most `k`.
-/

namespace Portal

/-- every event that is not kept is at least `w` old at `n` -/
def Old (w n : Int) (events kept : List Int) : Prop :=
  ∃ gone, events.Perm (gone ++ kept) ∧ ∀ t ∈ gone, w ≤ n - t

/-- no window shorter than `w` holds more than `k` events -/
def Within (w : Int) (k : Nat) (events : List Int) : Prop :=
  ∀ lo hi, hi - lo < w → (events.filter (fun t => lo ≤ t ∧ t ≤ hi)).length ≤ k

section
variable {w n : Int} {k : Nat} {events kept : List Int}

theorem Old.nil (w n : Int) : Old w n [] [] :=
  ⟨[], List.Perm.refl _, fun t h => absurd h (by simp)⟩

theorem Old.prune {m : Int} (h : Old w n events kept) (hm : m ≤ n) :
    Old w n events (kept.filter (fun t => m - t < w)) := by
  obtain ⟨gone, h1, h2⟩ := h
  refine ⟨gone ++ kept.filter (fun t => !decide (m - t < w)), ?_, ?_⟩
  · have hsplit := (List.filter_append_perm (fun t => decide (m - t < w)) kept).symm
    have hswap := hsplit.trans List.perm_append_comm
    rw [List.append_assoc]
    exact h1.trans (hswap.append_left gone)
  · intro t ht
    rcases List.mem_append.mp ht with ht | ht
    · exact h2 t ht
    · have := (List.mem_filter.mp ht).2
      simp only [Bool.not_eq_true', decide_eq_false_iff_not] at this
      omega

theorem Old.push (h : Old w n events kept) (t : Int) : Old w n (events ++ [t]) (kept ++ [t]) := by
  obtain ⟨gone, h1, h2⟩ := h
  refine ⟨gone, ?_, h2⟩
  rw [← List.append_assoc]
  exact h1.append_right [t]

theorem Within.nil (w : Int) (k : Nat) : Within w k [] := fun _ _ _ => Nat.zero_le k

/-- **An event logged while the log keeps fewer than `k` leaves every window with at most `k`.** -/
theorem Within.push (h : Within w k events) (ho : Old w n events kept) (hk : kept.length < k) :
    Within w k (events ++ [n]) := by
  intro lo hi hlt
  rw [List.filter_append]
  by_cases hn : lo ≤ n ∧ n ≤ hi
  · obtain ⟨gone, h1, h2⟩ := ho
    -- what is not kept lies before the window
    have hgone : gone.filter (fun t => lo ≤ t ∧ t ≤ hi) = [] := by
      rw [List.filter_eq_nil_iff]
      intro t ht hin
      have := h2 t ht
      have hin' : lo ≤ t ∧ t ≤ hi := by simpa using hin
      omega
    have hlen : (events.filter (fun t => lo ≤ t ∧ t ≤ hi)).length ≤ kept.length := by
      have hp := (h1.filter (fun t => decide (lo ≤ t ∧ t ≤ hi))).length_eq
      rw [List.filter_append, hgone, List.nil_append] at hp
      rw [hp]
      exact List.length_filter_le _ _
    rw [List.length_append]
    have hone : ([n].filter (fun t => lo ≤ t ∧ t ≤ hi)).length ≤ 1 := List.length_filter_le _ _
    omega
  · have hnil : [n].filter (fun t => lo ≤ t ∧ t ≤ hi) = [] := by
      rw [List.filter_eq_nil_iff]
      intro t ht hin
      obtain rfl := List.mem_singleton.mp ht
      exact hn (by simpa using hin)
    rw [hnil, List.append_nil]
    exact h lo hi hlt

end
end Portal
