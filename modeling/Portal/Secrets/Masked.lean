import Portal.Plan.Diff
import Portal.Secrets.Scan

/-!
# What is refused and what is masked (`secret_scan.rs`: `find`, `masked`)

A value that is refused where it is sent should be masked where it is answered.  The three go by the name
a value stands under, but only one of them through arrays, and only one reads the query of an address.

* `follow`         what stands at a path;
* `follow_masked`  a leaf is masked by its name when it is the member itself, else by its shape and words;
* `maskText_eq`    a text is kept exactly when every word that counts is the mask already;
* `Agrees`, `Covered`   nothing found is kept, and no literal passes; what that takes of the input;
* `agrees_iff`     **the one is the other**.
-/

namespace Portal

namespace Secrets

open Text Import Pipelines

/-! ## paths -/

def Step.of (v : Value) : Step → Option Value
  | .member key => v.get? key
  | .item n => v.asArray.bind (fun items => items[n]?)

def follow (v : Value) : List Step → Option Value
  | [] => some v
  | s :: path => (s.of v).bind (fun w => follow w path)

theorem follow_mapStrings (f : String → String) (v : Value) (path : List Step) :
    follow (v.mapStrings f) path = (follow v path).map (Value.mapStrings f) := by
  induction path generalizing v with
  | nil => rfl
  | cons s path ih =>
    have hstep : s.of (v.mapStrings f) = (s.of v).map (Value.mapStrings f) := by
      cases s with
      | member key => exact Value.get?_mapStrings f v key
      | item n =>
        unfold Step.of
        rw [Value.asArray_mapStrings]
        cases v.asArray with
        | none => rfl
        | some items => exact List.getElem?_map
    unfold follow
    rw [hstep]
    cases s.of v with
    | none => rfl
    | some w => exact ih w

section
variable {x : Readings}

theorem maskFields_eq (fields : List (String × Value)) : maskFields x fields
    = fields.map (fun p => (p.1, if secretName x p.1 && holdsSecret p.2 then hidden else mask x p.2)) := by
  induction fields with
  | nil => rfl
  | cons p fields ih =>
    obtain ⟨key, v⟩ := p
    rw [maskFields, ih, List.map_cons]

theorem maskItems_eq (items : List Value) : maskItems x items = items.map (mask x) := by
  induction items with
  | nil => rfl
  | cons v items ih => rw [maskItems, ih, List.map_cons]

/-- a value masked where it stands: by the name it is the member of, or by its shape -/
def maskAt (x : Readings) (byName : Bool) (v : Value) : Value :=
  if byName && holdsSecret v then hidden else mask x v

/-! ## what becomes of a leaf -/

theorem follow_leaf {v : Value} (hv : v.Ordered) : ∀ {named direct : Bool} {l : Leaf},
    l ∈ leaves (secretName x) named direct v →
      follow v l.path = some l.value ∧
        follow (maskAt x (named && direct) v) l.path
          = some (maskAt x (l.named && l.direct) l.value) := by
  induction v using Value.induction with
  | array items ih =>
    intro named direct l hl
    obtain ⟨i, v, hi, l', hl', rfl⟩ := mem_itemLeaves.1 hl
    have hmem := List.mem_of_getElem? hi
    obtain ⟨h1, h2⟩ := ih v hmem ((orderedItems_iff items).1 hv v hmem) hl'
    rw [Bool.and_false] at h2
    rw [Nat.zero_add]
    constructor
    · show (items[i]?).bind (fun w => follow w l'.path) = _
      rw [hi]
      exact h1
    · have hat : maskAt x (named && direct) (.array items) = .array (items.map (mask x)) := by
        unfold maskAt
        rw [show holdsSecret (.array items) = false from rfl, Bool.and_false, if_neg (by decide), mask,
          maskItems_eq]
      rw [hat]
      show ((items.map (mask x))[i]?).bind (fun w => follow w l'.path) = _
      rw [List.getElem?_map, hi]
      exact h2
  | object fields ih =>
    intro named direct l hl
    obtain ⟨⟨key, v⟩, hp, l', hl', rfl⟩ := mem_memberLeaves.1 hl
    obtain ⟨h1, h2⟩ := ih (key, v) hp ((Value.orderedFields_iff fields).1 hv.2 (key, v) hp) hl'
    have hlookup : fields.lookup key = some v := (OrdMap.lookup_eq_of_mem hv.1 key v).1 hp
    rw [Bool.and_true] at h2
    constructor
    · show (fields.lookup key).bind (fun w => follow w l'.path) = _
      rw [hlookup]
      exact h1
    · have hat : maskAt x (named && direct) (.object fields)
          = .object (fields.map (fun p => (p.1, maskAt x (secretName x p.1) p.2))) := by
        unfold maskAt
        rw [show holdsSecret (.object fields) = false from rfl, Bool.and_false, if_neg (by decide), mask,
          maskFields_eq]
      rw [hat]
      show ((fields.map _).lookup key).bind (fun w => follow w l'.path) = _
      rw [Value.lookup_map_members (fun k => maskAt x (secretName x k)), hlookup]
      exact h2
  | null =>
    intro named direct l hl
    obtain rfl := List.mem_singleton.1 hl
    exact ⟨rfl, rfl⟩
  | bool b =>
    intro named direct l hl
    obtain rfl := List.mem_singleton.1 hl
    exact ⟨rfl, rfl⟩
  | number n =>
    intro named direct l hl
    obtain rfl := List.mem_singleton.1 hl
    exact ⟨rfl, rfl⟩
  | string text =>
    intro named direct l hl
    obtain rfl := List.mem_singleton.1 hl
    exact ⟨rfl, rfl⟩

/-- **Leaf**: a leaf is masked by its name when it is the member itself, else by its shape and words. -/
theorem follow_masked {v : Value} (hv : v.Ordered) {l : Leaf}
    (hl : l ∈ leaves (secretName x) false false v) :
    follow v l.path = some l.value ∧ follow (masked x v) l.path
      = some ((maskAt x (l.named && l.direct) l.value).mapStrings maskWordsOf) := by
  obtain ⟨h1, h2⟩ := follow_leaf hv hl
  refine ⟨h1, ?_⟩
  unfold masked
  rw [follow_mapStrings]
  have hroot : maskAt x (false && false) v = mask x v := rfl
  rw [← hroot, h2]
  rfl

end

/-! ## words -/

/-- a word that counts: the one after `Bearer` or `Basic`, or one shaped like a credential -/
def counts (before : List (List Char)) (word : List Char) : Bool :=
  sameLower "bearer" (before.getLast?.getD []) || sameLower "basic" (before.getLast?.getD []) ||
    credentialShaped word

def HasWord (text : List Char) : Prop :=
  ∃ before word after, split (· = ' ') text = before ++ word :: after ∧ counts before word ∧
    word ≠ Pipelines.mask.toList

theorem maskWords_eq (seen : List (List Char)) (words : List (List Char)) :
    maskWords (seen.getLast?.getD []) words = words ↔
      ∀ before word after, words = before ++ word :: after → counts (seen ++ before) word = true →
        word = Pipelines.mask.toList := by
  induction words generalizing seen with
  | nil => exact ⟨fun _ before word after h => absurd h (by simp), fun _ => rfl⟩
  | cons w words ih =>
    have hlast : (seen ++ [w]).getLast?.getD [] = w := by
      rw [List.getLast?_append_of_ne_nil _ (List.cons_ne_nil _ _)]
      rfl
    have htail := ih (seen ++ [w])
    rw [hlast] at htail
    have hhead : (if sameLower "bearer" (seen.getLast?.getD []) || sameLower "basic"
        (seen.getLast?.getD []) || credentialShaped w then Pipelines.mask.toList else w) = w ↔
          (counts seen w = true → w = Pipelines.mask.toList) := by
      show (if counts seen w = true then _ else _) = w ↔ _
      by_cases hc : counts seen w = true
      · rw [if_pos hc]
        exact ⟨fun h _ => h.symm, fun h => (h hc).symm⟩
      · rw [if_neg hc]
        exact ⟨fun _ h => absurd h hc, fun _ => rfl⟩
    rw [maskWords, List.cons.injEq, hhead, htail]
    constructor
    · rintro ⟨h1, h2⟩ before word after heq hcounts
      cases before with
      | nil =>
        obtain ⟨rfl, -⟩ := List.cons.inj heq
        rw [List.append_nil] at hcounts
        exact h1 hcounts
      | cons b before =>
        obtain ⟨rfl, hrest⟩ := List.cons.inj heq
        refine h2 before word after hrest ?_
        rw [List.append_assoc]
        exact hcounts
    · intro h
      refine ⟨fun hc => h [] w words rfl (by rwa [List.append_nil]), ?_⟩
      intro before word after heq hcounts
      refine h (w :: before) word after (by rw [heq]; rfl) ?_
      rw [List.append_assoc] at hcounts
      exact hcounts

theorem maskWords_noBlank (previous : List Char) {words : List (List Char)}
    (h : ∀ w ∈ words, ' ' ∉ w) : ∀ w ∈ maskWords previous words, ' ' ∉ w := by
  induction words generalizing previous with
  | nil => exact fun w hw => absurd hw List.not_mem_nil
  | cons v words ih =>
    intro w hw
    rw [maskWords] at hw
    rcases List.mem_cons.1 hw with rfl | hw
    · split
      · decide
      · exact h v List.mem_cons_self
    · exact ih v (fun u hu => h u (List.mem_cons_of_mem v hu)) w hw

/-- **Text**: a text is kept exactly when every word that counts is the mask already. -/
theorem maskText_eq (text : List Char) : maskText text = text ↔ ¬ HasWord text := by
  have hblank : ∀ w ∈ split (· = ' ') text, ' ' ∉ w := fun w hw => not_mem_of_mem_split hw
  have hne : maskWords [] (split (· = ' ') text) ≠ [] := by
    cases hs : split (· = ' ') text with
    | nil => exact absurd hs (split_ne_nil _ text)
    | cons w words => exact List.cons_ne_nil _ _
  have hwords : maskText text = text ↔
      maskWords [] (split (· = ' ') text) = split (· = ' ') text := by
    unfold maskText
    constructor
    · intro h
      have hsplit := split_intercalate hne (maskWords_noBlank [] hblank)
      rw [h] at hsplit
      exact hsplit.symm
    · intro h
      rw [h, intercalate_split]
  rw [hwords]
  refine (maskWords_eq [] _).trans ?_
  unfold HasWord
  constructor
  · rintro h ⟨before, word, after, heq, hc, hne⟩
    exact hne (h before word after heq hc)
  · intro h before word after heq hc
    by_contra hne
    exact h ⟨before, word, after, heq, hc, hne⟩

/-! ## what is found and what is kept -/

section
variable {x : Readings}

theorem not_shaped_mask : credentialShaped Pipelines.mask.toList = false := by decide +kernel

theorem not_hasWord_mask : ¬ HasWord Pipelines.mask.toList :=
  (maskText_eq _).1 (by decide +kernel)

theorem hidden_kept : hidden.mapStrings maskWordsOf = hidden := by
  show Value.string (String.ofList (maskText Pipelines.mask.toList)) = .string Pipelines.mask
  rw [(maskText_eq _).2 not_hasWord_mask, String.ofList_toList]

/-- a text that is masked wherever it stands -/
def Masks (v : Value) : Prop :=
  ∃ text, v = .string text ∧ (credentialShaped text.toList = true ∨ HasWord text.toList)

theorem not_masks_hidden : ¬ Masks hidden := by
  rintro ⟨text, htext, h⟩
  obtain rfl := Value.string.inj htext
  rcases h with h | h
  · rw [not_shaped_mask] at h
    exact nomatch h
  · exact not_hasWord_mask h

theorem string_masked (text : String) :
    (mask x (.string text)).mapStrings maskWordsOf ≠ .string text ↔ Masks (.string text) := by
  unfold mask
  by_cases hs : credentialShaped text.toList = true
  · rw [if_pos hs, hidden_kept]
    have hmasks : Masks (.string text) := ⟨text, rfl, Or.inl hs⟩
    refine ⟨fun _ => hmasks, fun _ heq => ?_⟩
    rw [← heq] at hmasks
    exact not_masks_hidden hmasks
  · rw [if_neg hs]
    have hkept : Value.string (maskWordsOf text) = .string text ↔ maskText text.toList = text.toList := by
      unfold maskWordsOf
      constructor
      · intro h
        have htext := congrArg String.toList (Value.string.inj h)
        rw [String.toList_ofList] at htext
        exact htext
      · intro h
        rw [h, String.ofList_toList]
    show ¬ Value.string (maskWordsOf text) = .string text ↔ _
    rw [hkept, maskText_eq, not_not]
    constructor
    · exact fun h => ⟨text, rfl, Or.inr h⟩
    · rintro ⟨text', htext, h⟩
      obtain rfl := Value.string.inj htext
      exact h.resolve_left hs

theorem leaf_masked {l : Leaf} (hl : l.listed x = true) :
    (maskAt x (l.named && l.direct) l.value).mapStrings maskWordsOf ≠ l.value ↔
      (l.named = true ∧ l.direct = true ∧ l.value ≠ hidden) ∨ Masks l.value := by
  obtain ⟨path, named, direct, v⟩ := l
  dsimp only at hl ⊢
  have hholds : holdsSecret v = true := by
    cases v with
    | string text =>
      unfold Leaf.listed at hl
      dsimp only at hl
      show (!isVariableReference text) = true
      cases hv : isVariableReference text
      · rfl
      · rw [hv] at hl
        exact nomatch hl
    | number n => rfl
    | bool b => rfl
    | null => exact nomatch hl
    | array items => exact nomatch hl
    | object fields => exact nomatch hl
  unfold maskAt
  rw [hholds, Bool.and_true]
  by_cases hb : (named && direct) = true
  · rw [if_pos hb, hidden_kept]
    rw [Bool.and_eq_true] at hb
    constructor
    · exact fun h => Or.inl ⟨hb.1, hb.2, fun heq => h heq.symm⟩
    · rintro (⟨-, -, h⟩ | h) heq
      · exact h heq.symm
      · rw [← heq] at h
        exact not_masks_hidden h
  · rw [if_neg hb]
    rw [Bool.and_eq_true] at hb
    have hright : (named = true ∧ direct = true ∧ v ≠ hidden) ∨ Masks v ↔ Masks v :=
      ⟨fun h => h.resolve_left (fun hc => hb ⟨hc.1, hc.2.1⟩), Or.inr⟩
    rw [hright]
    cases v with
    | string text => exact string_masked text
    | number n => exact ⟨fun h => absurd rfl h, fun ⟨_, h, _⟩ => (nomatch h)⟩
    | bool b => exact ⟨fun h => absurd rfl h, fun ⟨_, h, _⟩ => (nomatch h)⟩
    | null => exact nomatch hholds
    | array items => exact nomatch hholds
    | object fields => exact nomatch hholds

theorem refused_of_direct (v : Value) : ∀ {named direct : Bool} {l : Leaf},
    l ∈ leaves secretKeys.contains named direct v → l.named = true → l.direct = true →
      holdsSecret l.value = true → (named = true ∧ direct = true ∧ l.value = v) ∨ Refused v := by
  have hscalar : ∀ {w : Value} {named direct : Bool} {l : Leaf}, l ∈ [⟨[], named, direct, w⟩] →
      l.named = true → l.direct = true → (named = true ∧ direct = true ∧ l.value = w) ∨ Refused w := by
    intro w named direct l hl hn hd
    obtain rfl := List.mem_singleton.1 hl
    exact Or.inl ⟨hn, hd, rfl⟩
  induction v using Value.induction with
  | array items ih =>
    intro named direct l hl hn hd hv
    obtain ⟨i, w, hi, l', hl', rfl⟩ := mem_itemLeaves.1 hl
    have hmem := List.mem_of_getElem? hi
    rcases ih w hmem hl' hn hd hv with ⟨-, hc, -⟩ | h
    · exact nomatch hc
    · exact Or.inr (Refused.item hmem h)
  | object fields ih =>
    intro named direct l hl hn hd hv
    obtain ⟨⟨key, w⟩, hp, l', hl', rfl⟩ := mem_memberLeaves.1 hl
    rcases ih (key, w) hp hl' hn hd hv with ⟨hkey, -, hw⟩ | h
    · refine Or.inr (Refused.key hp hkey ?_)
      dsimp only at hw
      rw [← hw]
      exact hv
    · exact Or.inr (Refused.member hp h)
  | null => exact fun hl hn hd _ => hscalar hl hn hd
  | bool b => exact fun hl hn hd _ => hscalar hl hn hd
  | number n => exact fun hl hn hd _ => hscalar hl hn hd
  | string text => exact fun hl hn hd _ => hscalar hl hn hd

/-- no scalar but null or a whole `${VAR}` stands under a secret's key, as the member or inside arrays -/
def NoLiteral (v : Value) : Prop :=
  ∀ l ∈ leaves secretKeys.contains false false v, l.named = true → holdsSecret l.value = false

/-- what is found is not kept where an answer is masked, and a manifest that passes has no literal -/
def Agrees (x : Readings) (v : Value) : Prop :=
  (∀ path ∈ walk x [] false v, follow (masked x v) path ≠ follow v path) ∧
    (findLiteralSecret v = none → NoLiteral v)

/-- what is found is the member of its name itself, or a text that is masked anywhere; and no array
under a secret's key holds a literal, unless the manifest is refused for another one -/
def Covered (x : Readings) (v : Value) : Prop :=
  (∀ l ∈ leaves (secretName x) false false v, l.listed x = true →
    (l.named = true ∧ l.direct = true ∧ l.value ≠ hidden) ∨ Masks l.value) ∧
  ((∀ l ∈ leaves secretKeys.contains false false v, l.named = true → l.direct = false →
    holdsSecret l.value = false) ∨ Refused v)

theorem found_masked_iff {v : Value} (hv : v.Ordered) :
    (∀ path ∈ walk x [] false v, follow (masked x v) path ≠ follow v path) ↔
      ∀ l ∈ leaves (secretName x) false false v, l.listed x = true →
        (l.named = true ∧ l.direct = true ∧ l.value ≠ hidden) ∨ Masks l.value := by
  have hleaf : ∀ l ∈ leaves (secretName x) false false v, l.listed x = true →
      (follow (masked x v) l.path ≠ follow v l.path ↔
        (l.named = true ∧ l.direct = true ∧ l.value ≠ hidden) ∨ Masks l.value) := by
    intro l hl hlisted
    obtain ⟨h1, h2⟩ := follow_masked hv hl
    rw [h1, h2, ← leaf_masked hlisted, ne_eq, Option.some.injEq]
  rw [walk_eq v [] false false]
  unfold foundIn
  constructor
  · intro h l hl hlisted
    exact (hleaf l hl hlisted).1 (h l.path (List.mem_map.2 ⟨l, List.mem_filter.2 ⟨hl, hlisted⟩, rfl⟩))
  · intro h path hpath
    obtain ⟨l, hl, rfl⟩ := List.mem_map.1 hpath
    obtain ⟨hl, hlisted⟩ := List.mem_filter.1 hl
    exact (hleaf l hl hlisted).2 (h l hl hlisted)

theorem passes_iff (v : Value) : (findLiteralSecret v = none → NoLiteral v) ↔
    (∀ l ∈ leaves secretKeys.contains false false v, l.named = true → l.direct = false →
      holdsSecret l.value = false) ∨ Refused v := by
  have hrefused := findLiteralSecret_isSome v
  constructor
  · intro h
    by_cases hr : Refused v
    · exact Or.inr hr
    · rw [← hrefused, Option.not_isSome_iff_eq_none] at hr
      exact Or.inl (fun l hl hn _ => h hr l hl hn)
  · intro h hnone l hl hn
    have hr : ¬ Refused v := by
      rw [← hrefused, hnone]
      exact fun hc => nomatch hc
    cases hd : l.direct with
    | false => exact h.resolve_right hr l hl hn hd
    | true =>
      by_contra hholds
      rw [Bool.not_eq_false] at hholds
      rcases refused_of_direct v hl hn hd hholds with ⟨hc, -, -⟩ | hc
      · exact nomatch hc
      · exact hr hc

/-- **What is refused is masked, and what passes holds no literal, exactly where the input is covered.** -/
theorem agrees_iff (x : Readings) {v : Value} (hv : v.Ordered) : Agrees x v ↔ Covered x v :=
  and_congr (found_masked_iff hv) (passes_iff v)

end

/-! ## an input -/

/-- lower case for letters of ASCII, and no text an address -/
def ascii : Readings := ⟨fun c => [c.toLower], fun _ => none⟩

def listed : Value := .object [("password", .array [.string "abc"])]

theorem ordered_listed : listed.Ordered :=
  ⟨List.pairwise_singleton _ _, ⟨trivial, trivial⟩, trivial⟩

theorem agrees_iff_of_listed : Agrees ascii listed ↔ Covered ascii listed := agrees_iff ascii ordered_listed

/-- a password in a list is found and kept -/
theorem listed_kept : ¬ Agrees ascii listed := by
  rintro ⟨hfound, -⟩
  exact hfound [.member "password", .item 0] (by decide +kernel) (by decide +kernel)

end Secrets

end Portal
