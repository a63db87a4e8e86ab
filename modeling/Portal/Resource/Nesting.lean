import Portal.Resource.Print

/-!
# How deep a filter nests (`resource/filter.rs`: `MAX_DEPTH`, `Parser`)

The parser hands its depth from rule to rule, one more under a NOT and one more in a parenthesis, and
asks of it only as it enters a parenthesis.

* `Derives`       the grammar, where a parenthesis may stand at the depths allowed;
* `nesting`, `parens`   how deep a text nests, and how deep its deepest parenthesis stands;
* `accepts_iff`   what `parse` accepts: the grammar with no parenthesis deeper than `maxDepth`;
* `nests_within_iff`   when no text is accepted that nests deeper.
-/

namespace Portal
namespace Filter

/-! ## the grammar -/

inductive Part where
  | term
  | factor
  | seq
  | expr

/-- a field, an operator and a value that make a restriction -/
def isRestriction (schema : Option Value) (field : String) (op : Op) (word : String)
    (quoted : Bool) : Bool :=
  (quoted || word ≠ "*" || op = .has) && (fieldPath field).any (known schema)

/-- the tokens of each part at a depth, where parentheses may stand at the depths allowed -/
inductive Derives (allowed : Nat → Prop) (schema : Option Value) : Nat → Part → List Tok → Prop
  | restriction {d : Nat} {field word : String} {op : Op} {quoted : Bool}
      (h : isRestriction schema field op word quoted = true) :
      Derives allowed schema d .term [.word field false, .op op, .word word quoted]
  | not {d : Nat} {ts : List Tok} (h : Derives allowed schema (d + 1) .term ts) :
      Derives allowed schema d .term (.not :: ts)
  | group {d : Nat} {ts : List Tok} (hd : allowed (d + 1))
      (h : Derives allowed schema (d + 1) .expr ts) :
      Derives allowed schema d .term (.opening :: (ts ++ [.closing]))
  | factor {d : Nat} {ts : List Tok} (h : Derives allowed schema d .term ts) :
      Derives allowed schema d .factor ts
  | or {d : Nat} {ts us : List Tok} (h : Derives allowed schema d .factor ts)
      (h' : Derives allowed schema d .term us) : Derives allowed schema d .factor (ts ++ .or :: us)
  | seq {d : Nat} {ts : List Tok} (h : Derives allowed schema d .factor ts) :
      Derives allowed schema d .seq ts
  | next {d : Nat} {ts us : List Tok} (h : Derives allowed schema d .seq ts)
      (h' : Derives allowed schema d .factor us) : Derives allowed schema d .seq (ts ++ us)
  | expr {d : Nat} {ts : List Tok} (h : Derives allowed schema d .seq ts) :
      Derives allowed schema d .expr ts
  | and {d : Nat} {ts us : List Tok} (h : Derives allowed schema d .expr ts)
      (h' : Derives allowed schema d .seq us) : Derives allowed schema d .expr (ts ++ .and :: us)

/-- a text of the grammar, of a length that is parsed at all -/
def IsFilter (schema : Option Value) (text : String) : Prop :=
  Text.utf8Len text.toList ≤ maxLen ∧
    ∃ toks, tokens (Text.charIndices 0 text.toList) = .ok toks ∧
      Derives (fun _ => True) schema 0 .expr (toks.map Prod.snd)

/-! ## depths -/

/-- the deepest place of a text at depth `d` with `n` NOTs before the next term, in parentheses that
stand at the depths of the stack: of the parentheses alone, or of the NOTs as well -/
def deepest (nots : Bool) : Nat → Nat → List Nat → List Tok → Nat
  | _, _, _, [] => 0
  | d, n, stack, .not :: ts =>
    max (if nots then d + n + 1 else 0) (deepest nots d (n + 1) stack ts)
  | d, n, stack, .opening :: ts => max (d + n + 1) (deepest nots (d + n + 1) 0 (d :: stack) ts)
  | d, _, stack, .closing :: ts => deepest nots (stack.head?.getD d) 0 stack.tail ts
  | d, _, stack, _ :: ts => deepest nots d 0 stack ts

def tokensOf (text : String) : List Tok :=
  match tokens (Text.charIndices 0 text.toList) with
  | .error _ => []
  | .ok toks => toks.map Prod.snd

/-- how deep NOTs and parentheses stand in each other -/
def nesting (text : String) : Nat := deepest true 0 0 [] (tokensOf text)

/-- how deep the deepest parenthesis stands -/
def parens (text : String) : Nat := deepest false 0 0 [] (tokensOf text)

example : nesting "NOT (NOT NOT status:* OR spec.a=1)" = 4 ∧
    parens "NOT (NOT NOT status:* OR spec.a=1)" = 2 := by decide +kernel

section
variable {schema : Option Value} {limit d n : Nat} {p : Part} {stack : List Nat} {ts : List Tok}

/-- tokens with no parenthesis too deep are derived with the parentheses allowed -/
theorem derives_of_deepest (h : Derives (fun _ => True) schema d p ts) {b n : Nat}
    (hd : d = b + n) (hn : p = .term ∨ n = 0) (rest : List Tok)
    (hdeep : deepest false b n stack (ts ++ rest) ≤ limit) :
    Derives (fun k => k ≤ limit) schema d p ts ∧ deepest false b 0 stack rest ≤ limit := by
  induction h generalizing b n stack rest with
  | restriction h => exact ⟨.restriction h, hdeep⟩
  | not h ih =>
    obtain ⟨h₁, h₂⟩ := ih (b := b) (n := n + 1) (by omega) (.inl rfl) rest
      (le_trans (le_max_right _ _) hdeep)
    exact ⟨.not h₁, h₂⟩
  | @group d ts _ h ih =>
    rw [List.cons_append, List.append_assoc] at hdeep
    obtain ⟨hopen, hinner⟩ := max_le_iff.mp (show max _ _ ≤ limit from hdeep)
    obtain ⟨h₁, h₂⟩ := ih (b := b + n + 1) (n := 0) (by omega) (.inr rfl) _ hinner
    exact ⟨.group (by omega) h₁, h₂⟩
  | factor h ih =>
    obtain ⟨h₁, h₂⟩ := ih hd (.inl rfl) rest hdeep
    exact ⟨.factor h₁, h₂⟩
  | or h h' ih ih' =>
    obtain rfl : n = 0 := hn.resolve_left (by simp)
    rw [List.append_assoc] at hdeep
    obtain ⟨h₁, h₂⟩ := ih hd (.inr rfl) _ hdeep
    obtain ⟨h₃, h₄⟩ := ih' hd (.inl rfl) rest h₂
    exact ⟨.or h₁ h₃, h₄⟩
  | seq h ih =>
    obtain ⟨h₁, h₂⟩ := ih hd (.inr (hn.resolve_left (by simp))) rest hdeep
    exact ⟨.seq h₁, h₂⟩
  | next h h' ih ih' =>
    obtain rfl : n = 0 := hn.resolve_left (by simp)
    rw [List.append_assoc] at hdeep
    obtain ⟨h₁, h₂⟩ := ih hd (.inr rfl) _ hdeep
    obtain ⟨h₃, h₄⟩ := ih' hd (.inr rfl) rest h₂
    exact ⟨.next h₁ h₃, h₄⟩
  | expr h ih =>
    obtain ⟨h₁, h₂⟩ := ih hd (.inr (hn.resolve_left (by simp))) rest hdeep
    exact ⟨.expr h₁, h₂⟩
  | and h h' ih ih' =>
    obtain rfl : n = 0 := hn.resolve_left (by simp)
    rw [List.append_assoc] at hdeep
    obtain ⟨h₁, h₂⟩ := ih hd (.inr rfl) _ hdeep
    obtain ⟨h₃, h₄⟩ := ih' hd (.inr rfl) rest h₂
    exact ⟨.and h₁ h₃, h₄⟩

theorem deepest_of_derives (h : Derives (fun k => k ≤ limit) schema d p ts) {b n : Nat}
    (hd : d = b + n) (hn : p = .term ∨ n = 0) (rest : List Tok)
    (hdeep : deepest false b 0 stack rest ≤ limit) :
    deepest false b n stack (ts ++ rest) ≤ limit := by
  induction h generalizing b n stack rest with
  | restriction h => exact hdeep
  | not h ih =>
    refine max_le (Nat.zero_le _) ?_
    exact ih (by omega) (.inl rfl) rest hdeep
  | group hopen h ih =>
    rw [List.cons_append, List.append_assoc]
    refine max_le (by omega) ?_
    exact ih (by omega) (.inr rfl) _ hdeep
  | factor h ih => exact ih hd (.inl rfl) rest hdeep
  | or h h' ih ih' =>
    obtain rfl : n = 0 := hn.resolve_left (by simp)
    rw [List.append_assoc]
    exact ih hd (.inr rfl) _ (ih' hd (.inl rfl) rest hdeep)
  | seq h ih => exact ih hd (.inr (hn.resolve_left (by simp))) rest hdeep
  | next h h' ih ih' =>
    obtain rfl : n = 0 := hn.resolve_left (by simp)
    rw [List.append_assoc]
    exact ih hd (.inr rfl) _ (ih' hd (.inr rfl) rest hdeep)
  | expr h ih => exact ih hd (.inr (hn.resolve_left (by simp))) rest hdeep
  | and h h' ih ih' =>
    obtain rfl : n = 0 := hn.resolve_left (by simp)
    rw [List.append_assoc]
    exact ih hd (.inr rfl) _ (ih' hd (.inr rfl) rest hdeep)

end

theorem Derives.mono {allowed : Nat → Prop} {schema : Option Value} {d : Nat} {p : Part}
    {ts : List Tok} (h : Derives allowed schema d p ts) : Derives (fun _ => True) schema d p ts := by
  induction h with
  | restriction h => exact .restriction h
  | not _ ih => exact .not ih
  | group _ _ ih => exact .group trivial ih
  | factor _ ih => exact .factor ih
  | or _ _ ih ih' => exact .or ih ih'
  | seq _ ih => exact .seq ih
  | next _ _ ih ih' => exact .next ih ih'
  | expr _ ih => exact .expr ih
  | and _ _ ih ih' => exact .and ih ih'

/-! ## what the parser takes is derived -/

section
variable {schema : Option Value} {finish : Nat}

/-- what a rule took of its tokens is a part of the grammar -/
def Took (schema : Option Value) (depth : Nat) (part : Part) {toks : Toks} (p : Parsed toks) : Prop :=
  ∃ te, toks = te ++ p.rest ∧ Derives (fun k => k ≤ maxDepth) schema depth part (te.map Prod.snd)

theorem joined (te : Toks) (t : Nat × Tok) {rest tr last : Toks} (h : rest = tr ++ last) :
    te ++ t :: rest = (te ++ t :: tr) ++ last := by
  rw [h, List.append_assoc]
  rfl

theorem took_restriction {depth : Nat} {toks : Toks} {p : Parsed toks}
    (h : restriction schema finish toks = .ok p) : Took schema depth .term p := by
  unfold restriction at h
  split at h
  · rename_i start field rest
    split at h
    · rename_i q op rest
      split at h
      · rename_i r word quoted rest
        simp only at h
        generalize hv : (if (quoted || decide (word ≠ "*")) = true then some word else none) = value at h
        split at h
        · cases h
        · rename_i hvalue
          split at h
          · cases h
          · rename_i path hpath
            split at h
            · rename_i hknown
              cases h
              refine ⟨[(start, .word field false), (q, .op op), (r, .word word quoted)], rfl,
                .restriction ?_⟩
              unfold isRestriction
              rw [hpath, Option.any_some, hknown, Bool.and_true]
              by_contra hno
              rw [Bool.or_eq_true, not_or] at hno
              rw [if_neg hno.1] at hv
              exact hvalue ⟨hv.symm, by simpa using hno.2⟩
            · cases h
      · cases h
    · cases h
  · cases h

/-- the terms of these tokens, and of what is left of them -/
def TermSound (schema : Option Value) (finish depth bound : Nat) : Prop :=
  ∀ toks : Toks, toks.length ≤ bound → ∀ p, term schema finish depth toks = .ok p →
    Took schema depth .term p

section
variable {depth bound : Nat} {toks : Toks}

theorem took_orLoop (hterm : TermSound schema finish depth bound) (hlen : toks.length ≤ bound)
    {left p : Parsed toks} (hleft : Took schema depth .factor left)
    (h : orLoop schema finish depth toks left = .ok p) : Took schema depth .factor p := by
  induction hm : left.rest.length using Nat.strong_induction_on generalizing left with
  | _ m ih =>
    rw [orLoop] at h
    split at h
    · rename_i q rest heq
      have hshort := left.shorter
      rw [heq, List.length_cons] at hshort
      split at h
      · cases h
      · rename_i right hright
        obtain ⟨te, htoks, hte⟩ := hleft
        obtain ⟨tr, hrest, htr⟩ := hterm rest (by omega) right hright
        have hless : right.rest.length < m := by
          have := right.shorter
          rw [← hm, heq, List.length_cons]
          omega
        refine ih _ hless ⟨te ++ (q, .or) :: tr, ?_, ?_⟩ h rfl
        · exact (htoks.trans (congrArg (te ++ ·) heq)).trans (joined te (q, .or) hrest)
        · rw [List.map_append, List.map_cons]
          exact .or hte htr
    · exact Except.ok.inj h ▸ hleft

theorem took_factor (hterm : TermSound schema finish depth bound) (hlen : toks.length ≤ bound)
    {p : Parsed toks} (h : factor schema finish depth toks = .ok p) : Took schema depth .factor p := by
  rw [factor] at h
  split at h
  · cases h
  · rename_i left hleft
    obtain ⟨te, htoks, hte⟩ := hterm toks hlen left hleft
    exact took_orLoop hterm hlen ⟨te, htoks, .factor hte⟩ h

theorem took_seqLoop (hterm : TermSound schema finish depth bound) (hlen : toks.length ≤ bound)
    {left p : Parsed toks} (hleft : Took schema depth .seq left)
    (h : seqLoop schema finish depth toks left = .ok p) : Took schema depth .seq p := by
  induction hm : left.rest.length using Nat.strong_induction_on generalizing left with
  | _ m ih =>
    rw [seqLoop] at h
    split at h
    · split at h
      · cases h
      · rename_i right hright
        have hshort := left.shorter
        obtain ⟨te, htoks, hte⟩ := hleft
        obtain ⟨tr, hrest, htr⟩ := took_factor hterm (by omega) hright
        refine ih _ (hm ▸ right.shorter) ⟨te ++ tr, ?_, ?_⟩ h rfl
        · rw [List.append_assoc, ← hrest]
          exact htoks
        · rw [List.map_append]
          exact .next hte htr
    · exact Except.ok.inj h ▸ hleft

theorem took_seq (hterm : TermSound schema finish depth bound) (hlen : toks.length ≤ bound)
    {p : Parsed toks} (h : seq schema finish depth toks = .ok p) : Took schema depth .seq p := by
  rw [seq] at h
  split at h
  · cases h
  · rename_i left hleft
    obtain ⟨te, htoks, hte⟩ := took_factor hterm hlen hleft
    exact took_seqLoop hterm hlen ⟨te, htoks, .seq hte⟩ h

theorem took_andLoop (hterm : TermSound schema finish depth bound) (hlen : toks.length ≤ bound)
    {left p : Parsed toks} (hleft : Took schema depth .expr left)
    (h : andLoop schema finish depth toks left = .ok p) : Took schema depth .expr p := by
  induction hm : left.rest.length using Nat.strong_induction_on generalizing left with
  | _ m ih =>
    rw [andLoop] at h
    split at h
    · rename_i q rest heq
      have hshort := left.shorter
      rw [heq, List.length_cons] at hshort
      split at h
      · cases h
      · rename_i right hright
        obtain ⟨te, htoks, hte⟩ := hleft
        obtain ⟨tr, hrest, htr⟩ := took_seq hterm (by omega) hright
        have hless : right.rest.length < m := by
          have := right.shorter
          rw [← hm, heq, List.length_cons]
          omega
        refine ih _ hless ⟨te ++ (q, .and) :: tr, ?_, ?_⟩ h rfl
        · exact (htoks.trans (congrArg (te ++ ·) heq)).trans (joined te (q, .and) hrest)
        · rw [List.map_append, List.map_cons]
          exact .and hte htr
    · exact Except.ok.inj h ▸ hleft

theorem took_expr (hterm : TermSound schema finish depth bound) (hlen : toks.length ≤ bound)
    {p : Parsed toks} (h : expr schema finish depth toks = .ok p) :
    depth ≤ maxDepth ∧ Took schema depth .expr p := by
  rw [expr] at h
  split at h
  · cases h
  · rename_i hdepth
    split at h
    · cases h
    · rename_i left hleft
      obtain ⟨te, htoks, hte⟩ := took_seq hterm hlen hleft
      exact ⟨not_lt.mp hdepth, took_andLoop hterm hlen ⟨te, htoks, .expr hte⟩ h⟩

end

/-- **What a term takes is derived**, with no parenthesis deeper than `maxDepth`. -/
theorem termSound (bound depth : Nat) : TermSound schema finish depth bound := by
  induction bound generalizing depth with
  | zero =>
    intro toks hlen p h
    have := p.shorter
    omega
  | succ bound ih =>
    intro toks hlen p h
    rw [term.eq_def] at h
    split at h
    · rename_i q rest
      rw [List.length_cons] at hlen
      split at h
      · cases h
      · rename_i inner hinner
        cases h
        obtain ⟨te, hrest, hte⟩ := ih (depth + 1) rest (by omega) inner hinner
        exact ⟨(q, .not) :: te, congrArg ((q, Tok.not) :: ·) hrest, .not hte⟩
    · rename_i q rest
      rw [List.length_cons] at hlen
      split at h
      · cases h
      · rename_i inner hinner
        obtain ⟨hdepth, te, hrest, hte⟩ := took_expr (ih (depth + 1)) (by omega) hinner
        split at h
        · rename_i r rest' heq
          cases h
          refine ⟨(q, .opening) :: (te ++ [(r, .closing)]), ?_, ?_⟩
          · show (q, Tok.opening) :: rest = (q, .opening) :: (te ++ [(r, .closing)]) ++ rest'
            rw [hrest, heq, List.cons_append, List.append_assoc]
            rfl
          · rw [List.map_cons, List.map_append]
            exact .group hdepth hte
        · cases h
    · exact took_restriction h

/-! ## what is derived is read -/

theorem starts_of_derives {allowed : Nat → Prop} {d : Nat} {p : Part} {ts : List Tok}
    (h : Derives allowed schema d p ts) : ∃ t us, ts = t :: us ∧ startsFactor (some t) = true := by
  induction h with
  | restriction => exact ⟨_, _, rfl, rfl⟩
  | not => exact ⟨_, _, rfl, rfl⟩
  | group => exact ⟨_, _, rfl, rfl⟩
  | factor _ ih | seq _ ih | expr _ ih => exact ih
  | or _ _ ih | next _ _ ih | and _ _ ih =>
    obtain ⟨t, us, rfl, ht⟩ := ih
    exact ⟨t, _, rfl, ht⟩

theorem reads_restriction {field word : String} {op : Op} {quoted : Bool}
    (h : isRestriction schema field op word quoted = true) {depth p q r : Nat} (rest : Toks) :
    ∃ e, Reads (term schema finish depth)
      ((p, .word field false) :: (q, .op op) :: (r, .word word quoted) :: rest) e rest := by
  simp only [isRestriction, Bool.and_eq_true] at h
  obtain ⟨hvalue, hfield⟩ := h
  obtain ⟨path, hpath, hknown⟩ := (Option.any_eq_true _ _).mp hfield
  refine ⟨.cmp path op (if (quoted || decide (word ≠ "*")) = true then some word else none),
    by simp only [List.length_cons]; omega, ?_⟩
  rw [term, restriction]
  · simp only [hpath, hknown, if_true]
    rw [if_neg]
    rintro ⟨hnone, hop⟩
    rw [Bool.or_eq_true, decide_eq_true_eq] at hvalue
    rw [if_pos (hvalue.resolve_right hop)] at hnone
    cases hnone
  all_goals simp

theorem orLoop_ends {depth : Nat} {rest : Toks} (h : rest.head?.map Prod.snd ≠ some .or) (e : Expr) :
    Loops (orLoop schema finish depth) e rest e rest := by
  intro toks h₀
  refine ⟨h₀, ?_⟩
  rw [orLoop]
  split
  · rename_i p rest' heq
    change rest = _ at heq
    exact absurd (by rw [heq]; rfl) h
  · rfl

/-- the loop of `seq` goes on with one more factor -/
theorem seqLoop_more {depth : Nat} {left e f : Expr} {ts mid r : Toks}
    (hstart : startsFactor (ts.head?.map Prod.snd) = true)
    (hreads : Reads (factor schema finish depth) ts e mid)
    (hloop : Loops (seqLoop schema finish depth) (.and left e) mid f r) :
    Loops (seqLoop schema finish depth) left ts f r := by
  obtain ⟨hlt, hr⟩ := hreads
  intro toks h₀
  obtain ⟨h', hl⟩ := hloop toks (hlt.trans h₀)
  refine ⟨h', ?_⟩
  rw [seqLoop, if_pos (by exact hstart)]
  simp only [hr]
  exact hl

/-- what each rule makes of tokens, before what may follow them there -/
def CanRead (schema : Option Value) (finish depth : Nat) : Part → List Tok → Prop
  | .term, ts => ∀ te rest, te.map Prod.snd = ts →
    ∃ e, Reads (term schema finish depth) (te ++ rest) e rest
  | .factor, ts => ∀ te rest, te.map Prod.snd = ts →
    ∃ e, ∀ f r, Loops (orLoop schema finish depth) e rest f r →
      Reads (factor schema finish depth) (te ++ rest) f r
  | .seq, ts => ∀ te rest, te.map Prod.snd = ts → rest.head?.map Prod.snd ≠ some .or →
    ∃ e, ∀ f r, Loops (seqLoop schema finish depth) e rest f r →
      Reads (seq schema finish depth) (te ++ rest) f r
  | .expr, ts => ∀ te rest, te.map Prod.snd = ts → depth ≤ maxDepth → Stops rest →
    ∃ e, ∀ f r, Loops (andLoop schema finish depth) e rest f r →
      Reads (expr schema finish depth) (te ++ rest) f r

theorem CanRead.reads_factor {depth : Nat} {ts : List Tok} (h : CanRead schema finish depth .factor ts)
    {te rest : Toks} (hte : te.map Prod.snd = ts) (hrest : rest.head?.map Prod.snd ≠ some .or) :
    ∃ e, Reads (factor schema finish depth) (te ++ rest) e rest := by
  obtain ⟨e, he⟩ := h te rest hte
  exact ⟨e, he e rest (orLoop_ends hrest e)⟩

theorem Stops.not_or {rest : Toks} (h : Stops rest) : rest.head?.map Prod.snd ≠ some .or := by
  intro heq
  rcases h _ heq with h | h <;> cases h

theorem CanRead.reads_seq {depth : Nat} {ts : List Tok} (h : CanRead schema finish depth .seq ts)
    {te rest : Toks} (hte : te.map Prod.snd = ts) (hrest : Stops rest) :
    ∃ e, Reads (seq schema finish depth) (te ++ rest) e rest := by
  obtain ⟨e, he⟩ := h te rest hte hrest.not_or
  exact ⟨e, he e rest (seqLoop_done schema finish depth hrest e)⟩

theorem CanRead.reads_expr {depth : Nat} {ts : List Tok} (h : CanRead schema finish depth .expr ts)
    (hdepth : depth ≤ maxDepth) {te rest : Toks} (hte : te.map Prod.snd = ts) (hrest : Ends rest) :
    ∃ e, Reads (expr schema finish depth) (te ++ rest) e rest := by
  obtain ⟨e, he⟩ := h te rest hte hdepth (fun t ht => .inr (hrest t ht))
  exact ⟨e, he e rest (andLoop_done schema finish depth hrest e)⟩

/-- **What is derived is read**, each part by its rule. -/
theorem canRead_of_derives {d : Nat} {p : Part} {ts : List Tok}
    (h : Derives (fun k => k ≤ maxDepth) schema d p ts) : CanRead schema finish d p ts := by
  induction h with
  | restriction h =>
    intro te rest hte
    obtain ⟨⟨p, t⟩, te, rfl, rfl, ht₁⟩ := List.map_eq_cons_iff.mp hte
    obtain ⟨⟨q, t⟩, te, rfl, rfl, ht₂⟩ := List.map_eq_cons_iff.mp ht₁
    obtain ⟨⟨r, t⟩, te, rfl, rfl, ht₃⟩ := List.map_eq_cons_iff.mp ht₂
    obtain rfl := List.map_eq_nil_iff.mp ht₃
    exact reads_restriction h rest
  | not h ih =>
    intro te rest hte
    obtain ⟨⟨p, t⟩, te, rfl, rfl, hte'⟩ := List.map_eq_cons_iff.mp hte
    obtain ⟨e, he⟩ := ih te rest hte'
    exact ⟨.not e, reads_not he⟩
  | group hd h ih =>
    intro te rest hte
    obtain ⟨⟨p, t⟩, te, rfl, rfl, hte'⟩ := List.map_eq_cons_iff.mp hte
    obtain ⟨te, tc, rfl, hinner, htc⟩ := List.map_eq_append_iff.mp hte'
    obtain ⟨⟨q, t⟩, tc', rfl, rfl, htc'⟩ := List.map_eq_cons_iff.mp htc
    obtain rfl := List.map_eq_nil_iff.mp htc'
    have hends : Ends ((q, Tok.closing) :: rest) := fun t ht => (Option.some.inj ht).symm
    obtain ⟨e, he⟩ := CanRead.reads_expr ih hd hinner hends
    refine ⟨e, ?_⟩
    rw [List.cons_append, List.append_assoc]
    exact reads_group he
  | factor h ih =>
    intro te rest hte
    obtain ⟨e, he⟩ := ih te rest hte
    exact ⟨e, fun f r => (orChain schema finish _).first he⟩
  | or h h' ih ih' =>
    intro te rest hte
    obtain ⟨ta, tb, rfl, hta, htb⟩ := List.map_eq_append_iff.mp hte
    obtain ⟨⟨p, t⟩, tb, rfl, rfl, htb'⟩ := List.map_eq_cons_iff.mp htb
    obtain ⟨ea, hea⟩ := ih ta ((p, Tok.or) :: (tb ++ rest)) hta
    obtain ⟨eb, heb⟩ := ih' tb rest htb'
    refine ⟨.or ea eb, fun f r hloop => ?_⟩
    rw [List.append_assoc]
    exact hea f r ((orChain schema finish _).more heb hloop)
  | seq h ih =>
    intro te rest hte hrest
    obtain ⟨e, hlt, he⟩ := CanRead.reads_factor ih hte hrest
    refine ⟨e, fun f r hloop => ?_⟩
    obtain ⟨h', hl⟩ := hloop (te ++ rest) hlt
    exact ⟨h', by rw [seq, he]; exact hl⟩
  | next h h' ih ih' =>
    intro te rest hte hrest
    obtain ⟨ta, tb, rfl, hta, htb⟩ := List.map_eq_append_iff.mp hte
    obtain ⟨t, us, hts, hstart⟩ := starts_of_derives h'
    obtain ⟨⟨q, t'⟩, tb', rfl, rfl, -⟩ := List.map_eq_cons_iff.mp (htb.trans hts)
    have hhead : ((((q, t') :: tb') ++ rest).head?.map Prod.snd) ≠ some Tok.or := by
      intro heq
      cases heq
      cases hstart
    obtain ⟨ea, hea⟩ := ih ta (((q, t') :: tb') ++ rest) hta hhead
    obtain ⟨eb, heb⟩ := CanRead.reads_factor ih' htb hrest
    refine ⟨.and ea eb, fun f r hloop => ?_⟩
    rw [List.append_assoc]
    exact hea f r (seqLoop_more hstart heb hloop)
  | @expr d ts h ih =>
    intro te rest hte hdepth hrest
    obtain ⟨e, he⟩ := CanRead.reads_seq ih hte hrest
    exact ⟨e, fun f r => (andChain schema finish d hdepth).first he⟩
  | @and d ts us h h' ih ih' =>
    intro te rest hte hdepth hrest
    obtain ⟨ta, tb, rfl, hta, htb⟩ := List.map_eq_append_iff.mp hte
    obtain ⟨⟨p, t⟩, tb, rfl, rfl, htb'⟩ := List.map_eq_cons_iff.mp htb
    have hstops : Stops ((p, Tok.and) :: (tb ++ rest)) := fun t ht => .inl (Option.some.inj ht).symm
    obtain ⟨ea, hea⟩ := ih ta ((p, Tok.and) :: (tb ++ rest)) hta hdepth hstops
    obtain ⟨eb, heb⟩ := CanRead.reads_seq ih' htb' hrest
    refine ⟨.and ea eb, fun f r hloop => ?_⟩
    rw [List.append_assoc]
    exact hea f r ((andChain schema finish d hdepth).more heb hloop)

end

/-! ## texts -/

section
variable {schema : Option Value} {text : String}

/-- **What is accepted**: a text of the grammar with no parenthesis deeper than `maxDepth`. -/
theorem accepts_iff : (∃ f, parse schema text = .ok f) ↔
    IsFilter schema text ∧ parens text ≤ maxDepth := by
  unfold parse IsFilter parens tokensOf
  constructor
  · rintro ⟨f, h⟩
    split at h
    · cases h
    · rename_i hlen
      split at h
      · cases h
      · rename_i toks htoks
        split at h
        · cases h
        · split at h
          · cases h
          · rename_i parsed hparsed
            split at h
            · rename_i hempty
              obtain ⟨-, te, hte, hderives⟩ := took_expr (termSound toks.length 0) le_rfl hparsed
              rw [List.isEmpty_iff.mp hempty, List.append_nil] at hte
              subst hte
              have hdeep : deepest false 0 0 [] (toks.map Prod.snd ++ []) ≤ maxDepth :=
                deepest_of_derives hderives rfl (.inr rfl) [] (Nat.zero_le _)
              rw [List.append_nil] at hdeep
              exact ⟨⟨not_lt.mp hlen, toks, htoks, hderives.mono⟩, by simpa only [htoks] using hdeep⟩
            · cases h
  · rintro ⟨⟨hlen, toks, htoks, hderives⟩, hdeep⟩
    rw [htoks] at hdeep ⊢
    have hdeep' : deepest false 0 0 [] (toks.map Prod.snd ++ []) ≤ maxDepth := by
      rw [List.append_nil]
      exact hdeep
    have hlimited := (derives_of_deepest hderives rfl (.inr rfl) [] hdeep').1
    have hends : Ends [] := fun t ht => by cases ht
    have hreads : ∃ e, Reads (expr schema (Text.utf8Len text.toList) 0) (toks ++ []) e [] :=
      CanRead.reads_expr (canRead_of_derives hlimited) (Nat.zero_le _) rfl hends
    rw [List.append_nil] at hreads
    obtain ⟨e, hlt, he⟩ := hreads
    have hne : toks.isEmpty = false := by
      cases toks with
      | nil => exact absurd hlt (Nat.lt_irrefl 0)
      | cons => rfl
    refine ⟨e, ?_⟩
    rw [if_neg (not_lt.mpr hlen)]
    simp only [hne, he]
    rfl

/-- **No text that nests deeper is accepted**, but where NOTs alone take it past its parentheses. -/
theorem nests_within_iff :
    ((∃ f, parse schema text = .ok f) → nesting text ≤ maxDepth) ↔
      (IsFilter schema text → nesting text ≤ maxDepth ∨ maxDepth < parens text) := by
  rw [accepts_iff]
  constructor
  · intro h hfilter
    by_cases hparens : maxDepth < parens text
    · exact .inr hparens
    · exact .inl (h ⟨hfilter, not_lt.mp hparens⟩)
  · rintro h ⟨hfilter, hparens⟩
    exact (h hfilter).resolve_right (not_lt.mpr hparens)

end

/-- thirty-three NOTs before one restriction -/
def manyNots : String := String.ofList ((List.replicate 33 "NOT ".toList).flatten ++ "status:*".toList)

/-- **A filter that nests too deep is accepted.** -/
theorem accepts_manyNots : ¬ ∀ schema text, (∃ f, parse schema text = .ok f) →
    nesting text ≤ maxDepth := by
  intro hall
  have hparse : (parse none manyNots).toBool = true ∧ nesting manyNots = 33 := by decide +kernel
  obtain ⟨hok, hnesting⟩ := hparse
  have hle : nesting manyNots ≤ maxDepth := by
    refine hall none manyNots ?_
    cases h : parse none manyNots with
    | ok f => exact ⟨f, rfl⟩
    | error e =>
      rw [h] at hok
      cases hok
  rw [hnesting] at hle
  exact absurd hle (by decide)

end Filter
end Portal
