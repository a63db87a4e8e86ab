import Mathlib.Data.List.Forall2

/-!
# Computations that refuse, with a record of what they held

A gate is a computation that either refuses with an error or answers and says which checks it made
on the way, so that a law can speak of what was checked and not only of what was decided.

* `Gate.hold`     one check, recorded when it passes;
* `Gate.ask`      a condition that may refuse and leaves no record;
* `Gate.each`     the same computation on every element, in order;
* `bind_eq_ok`, `hold_eq_ok`, `ask_eq_ok`, `each_eq_ok`   what an answer says of the parts.
-/

namespace Portal

/-- an answer with the checks made, or a refusal -/
def Gate (ε κ α : Type) := Except ε (α × List κ)

namespace Gate

variable {ε κ α β : Type}

instance [DecidableEq ε] [DecidableEq κ] [DecidableEq α] : DecidableEq (Gate ε κ α) :=
  inferInstanceAs (DecidableEq (Except ε (α × List κ)))

def ok (a : α) (log : List κ) : Gate ε κ α := Except.ok (a, log)

def refuse (e : ε) : Gate ε κ α := Except.error e

/-- one after the other, the records in this order -/
def andThen (g : Gate ε κ α) (k : α → Gate ε κ β) : Gate ε κ β :=
  match g with
  | Except.error e => Except.error e
  | Except.ok (a, log) =>
    match k a with
    | Except.error e => Except.error e
    | Except.ok (b, log') => Except.ok (b, log ++ log')

instance : Monad (Gate ε κ) where
  pure a := ok a []
  bind := andThen

/-- a check that is recorded when it passes -/
def hold (check : κ → Except ε Unit) (c : κ) : Gate ε κ Unit :=
  match check c with
  | .error e => refuse e
  | .ok () => ok () [c]

/-- a condition that leaves no record -/
def ask (g : Except ε α) : Gate ε κ α :=
  match g with
  | .error e => refuse e
  | .ok a => ok a []

def each (f : α → Gate ε κ β) : List α → Gate ε κ (List β)
  | [] => ok [] []
  | a :: l => do
    let b ← f a
    let bs ← each f l
    return b :: bs

/-! ## what an answer says -/

@[simp] theorem pure_eq_ok {a b : α} {log : List κ} :
    (pure a : Gate ε κ α) = ok b log ↔ a = b ∧ log = [] := by
  show (Except.ok (a, []) : Except ε (α × List κ)) = Except.ok (b, log) ↔ _
  simp [eq_comm]

@[simp] theorem ok_inj {a b : α} {log log' : List κ} :
    (ok a log : Gate ε κ α) = ok b log' ↔ a = b ∧ log = log' := by
  show (Except.ok (a, log) : Except ε (α × List κ)) = Except.ok (b, log') ↔ _
  simp

@[simp] theorem refuse_ne_ok {e : ε} {b : α} {log : List κ} :
    (refuse e : Gate ε κ α) = ok b log ↔ False := by
  show (Except.error e : Except ε (α × List κ)) = Except.ok (b, log) ↔ _
  simp

theorem bind_eq_ok {g : Gate ε κ α} {k : α → Gate ε κ β} {b : β} {log : List κ} :
    (g >>= k) = ok b log ↔
      ∃ a l l', g = ok a l ∧ k a = ok b l' ∧ log = l ++ l' := by
  show andThen g k = ok b log ↔ _
  unfold andThen ok
  cases g with
  | error e => simp
  | ok p =>
    obtain ⟨a, l⟩ := p
    simp only
    cases hk : k a with
    | error e =>
      refine ⟨fun h => absurd h (by simp), ?_⟩
      rintro ⟨a', l1, l2, h1, h2, -⟩
      cases h1
      exact absurd (hk.symm.trans h2) (by simp)
    | ok q =>
      obtain ⟨b', l'⟩ := q
      constructor
      · intro h
        cases h
        exact ⟨a, l, l', rfl, hk, rfl⟩
      · rintro ⟨a', l1, l2, h1, h2, rfl⟩
        cases h1
        rw [hk] at h2
        cases h2
        rfl

@[simp] theorem hold_eq_ok {check : κ → Except ε Unit} {c : κ} {u : Unit} {log : List κ} :
    hold check c = ok u log ↔ check c = .ok () ∧ log = [c] := by
  unfold hold
  cases check c with
  | error e => simp
  | ok v => simp [eq_comm]

@[simp] theorem ask_eq_ok {g : Except ε α} {a : α} {log : List κ} :
    ask g = ok a log ↔ g = .ok a ∧ log = [] := by
  unfold ask
  cases g with
  | error e => simp
  | ok b => simp [eq_comm]

/-- **Every element was answered**: the answers and the records, one for each in order. -/
theorem each_eq_ok {f : α → Gate ε κ β} {l : List α} {bs : List β} {log : List κ} :
    each f l = ok bs log ↔ ∃ rs : List (β × List κ),
      List.Forall₂ (fun a r => f a = ok r.1 r.2) l rs ∧ bs = rs.map Prod.fst ∧
        log = rs.flatMap Prod.snd := by
  induction l generalizing bs log with
  | nil =>
    simp only [each, ok_inj, List.forall₂_nil_left_iff]
    constructor
    · rintro ⟨rfl, rfl⟩
      exact ⟨[], rfl, rfl, rfl⟩
    · rintro ⟨rs, rfl, rfl, rfl⟩
      exact ⟨rfl, rfl⟩
  | cons a l ih =>
    simp only [each, bind_eq_ok, pure_eq_ok, List.forall₂_cons_left_iff]
    constructor
    · rintro ⟨b, l1, l2, hf, ⟨cs, l3, l4, hrest, ⟨rfl, rfl⟩, rfl⟩, rfl⟩
      obtain ⟨rs, hrs, rfl, rfl⟩ := ih.mp hrest
      exact ⟨(b, l1) :: rs, ⟨_, _, hf, hrs, rfl⟩, rfl, by simp⟩
    · rintro ⟨_, ⟨r, rs, hf, hrs, rfl⟩, rfl, rfl⟩
      exact ⟨r.1, r.2, rs.flatMap Prod.snd, hf, ⟨rs.map Prod.fst, rs.flatMap Prod.snd, [],
        ih.mpr ⟨rs, hrs, rfl, rfl⟩, ⟨rfl, rfl⟩, by simp⟩, by simp⟩

/-- a plain loop answers exactly when there is an answer for each element -/
theorem mapM_eq_ok {f : α → Except ε β} {l : List α} {bs : List β} :
    l.mapM f = .ok bs ↔ List.Forall₂ (fun a b => f a = .ok b) l bs := by
  induction l generalizing bs with
  | nil =>
    rw [List.mapM_nil, List.forall₂_nil_left_iff]
    exact ⟨fun h => (Except.ok.inj h).symm, fun h => h ▸ rfl⟩
  | cons a l ih =>
    rw [List.mapM_cons, List.forall₂_cons_left_iff]
    cases ha : f a with
    | error e =>
      refine ⟨fun h => absurd h (by simp [bind, Except.bind]), fun h => ?_⟩
      obtain ⟨b, bs', hb, -, -⟩ := h
      exact absurd hb (by simp)
    | ok b =>
      cases hl : l.mapM f with
      | error e =>
        refine ⟨fun h => absurd h (by simp [bind, Except.bind]), fun h => ?_⟩
        obtain ⟨_, bs', -, hbs, -⟩ := h
        exact absurd (hl.symm.trans (ih.mpr hbs)) (by simp)
      | ok bs' =>
        constructor
        · intro h
          exact ⟨b, bs', rfl, ih.mp hl, (Except.ok.inj h).symm⟩
        · intro h
          obtain ⟨_, bs'', hb, hbs, rfl⟩ := h
          cases hb
          cases hl.symm.trans (ih.mpr hbs)
          rfl

theorem map_eq_of_forall₂ {γ : Type} {R : α → β → Prop} {l : List α} {l' : List β} {f : α → γ}
    {g : β → γ} (h : List.Forall₂ R l l') (hfg : ∀ a b, R a b → f a = g b) : l.map f = l'.map g := by
  induction h with
  | nil => rfl
  | cons hab _ ih => rw [List.map_cons, List.map_cons, hfg _ _ hab, ih]

theorem forall₂_trans {γ : Type} {R : α → β → Prop} {S : β → γ → Prop} {l : List α} {l' : List β}
    {l'' : List γ} (h : List.Forall₂ R l l') (h' : List.Forall₂ S l' l'') :
    List.Forall₂ (fun a c => ∃ b, R a b ∧ S b c) l l'' := by
  induction h generalizing l'' with
  | nil =>
    cases h'
    exact List.Forall₂.nil
  | cons hab _ ih =>
    cases h' with
    | cons hbc hrest => exact List.Forall₂.cons ⟨_, hab, hbc⟩ (ih hrest)

theorem exists_of_forall₂ {R : α → β → Prop} {l : List α} {l' : List β} (h : List.Forall₂ R l l')
    {a : α} (ha : a ∈ l) : ∃ b ∈ l', R a b := by
  induction h with
  | nil => exact absurd ha List.not_mem_nil
  | cons hab _ ih =>
    rcases List.mem_cons.mp ha with rfl | ha
    · exact ⟨_, List.mem_cons_self, hab⟩
    · obtain ⟨b, hb, hR⟩ := ih ha
      exact ⟨b, List.mem_cons_of_mem _ hb, hR⟩

end Gate
end Portal
