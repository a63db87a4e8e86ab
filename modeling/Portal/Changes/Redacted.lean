import Portal.Base.Alike
import Portal.Base.Pieces
import Portal.Import.Bundle
import Portal.Plan.Diff

/-!
# What a diff shows of a credential (`api/changes.rs`: `is_sensitive_path`, `redact`)

A line of a diff is redacted by the last name of its path.  The diff prints a leaf under its own path, but a
value that meets another kind of value it prints whole, and a member of an object under a secret's name under
its own.

* `isSensitivePath`, `redact`   what is redacted: the last segment's name is one of `SECRET_KEYS`;
* `sensitive_member`, `sensitive_item`   a member goes by its key, an item by its array;
* `Exposed`         a value with a secret, printed where the path does not end in such a name;
* `shown_alike`     two bases alike but for secrets that are not exposed show the same lines;
* `exposed_line`    one that is exposed is shown;
* `hides_iff`       **a diff hides the secrets of both manifests exactly when it exposes none**.
-/

namespace Portal

namespace Redact

open Text Import Value

/-! ## redaction -/

/-- whether a text is the name of a secret up to its first `[` -/
def isSensitiveSegment (segment : List Char) : Bool :=
  let clean := (split (· = '[') segment).head?.getD segment
  secretKeys.any (fun k => k.toList = clean)

/-- whether the field at a path holds a credential by its name -/
def isSensitivePath (path : String) : Bool :=
  isSensitiveSegment ((split (· = '.') path.toList).getLast?.getD path.toList)

def redacted : Value := .string "[REDACTED]"

def redact (fields : List FieldChange) : List FieldChange :=
  fields.map (fun f =>
    if isSensitivePath f.path then
      { f with fromValue := f.fromValue.map (fun _ => redacted), toValue := f.toValue.map (fun _ => redacted) }
    else f)

def shown (fields : List FieldChange) : List FieldChange :=
  fields.filter (fun f => !isSensitivePath f.path)

theorem shown_redact (fields : List FieldChange) : shown (redact fields) = shown fields := by
  induction fields with
  | nil => rfl
  | cons f fields ih =>
    unfold shown redact at ih ⊢
    rw [List.map_cons, List.filter_cons, List.filter_cons, ih]
    cases h : isSensitivePath f.path with
    | true =>
      have hpath : isSensitivePath (if true = true then
          { f with
            fromValue := f.fromValue.map (fun _ => redacted)
            toValue := f.toValue.map (fun _ => redacted) }
          else f).path = true := h
      rw [hpath]
      rfl
    | false =>
      have hpath : isSensitivePath (if false = true then
          { f with
            fromValue := f.fromValue.map (fun _ => redacted)
            toValue := f.toValue.map (fun _ => redacted) }
          else f).path = false := h
      rw [hpath]
      rfl

theorem shown_append (a b : List FieldChange) : shown (a ++ b) = shown a ++ shown b :=
  List.filter_append ..

theorem shown_flatMap {ι : Type*} (l : List ι) (g : ι → List FieldChange) :
    shown (l.flatMap g) = l.flatMap (fun i => shown (g i)) := by
  induction l with
  | nil => rfl
  | cons i l ih => rw [List.flatMap_cons, List.flatMap_cons, shown_append, ih]

/-! ## paths -/

theorem split_of_notMem {c : Char} {s : List Char} (h : c ∉ s) : split (· = c) s = [s] :=
  split_of_none (fun _ hd => decide_eq_false (fun heq => h (heq ▸ hd)))

theorem getLast?_split_append {c : Char} {t : List Char} (ht : c ∉ t) (s : List Char) :
    (split (· = c) (s ++ t)).getLast? = (split (· = c) s).getLast?.map (· ++ t) := by
  by_cases hc : c ∈ s
  · -- cut at the last separator
    obtain ⟨a, b, hrev, hb⟩ := List.eq_append_cons_of_mem (List.mem_reverse.2 hc)
    have hs : s = b.reverse ++ c :: a.reverse := by
      have h := congrArg List.reverse hrev
      rw [List.reverse_reverse, List.reverse_append, List.reverse_cons, List.append_assoc] at h
      exact h
    have ha : c ∉ a.reverse := fun h => hb (List.mem_reverse.1 h)
    have hat : c ∉ a.reverse ++ t := fun h => (List.mem_append.1 h).elim ha ht
    rw [hs, List.append_assoc, List.cons_append, split_append_sep (decide_eq_true rfl),
      split_append_sep (decide_eq_true rfl), split_of_notMem ha, split_of_notMem hat]
    rw [List.getLast?_concat, List.getLast?_concat]
    rfl
  · have hst : c ∉ s ++ t := fun h => (List.mem_append.1 h).elim hc ht
    rw [split_of_notMem hc, split_of_notMem hst]
    rfl

theorem sensitive_member (path key : String) :
    isSensitivePath (memberPath path key) = isSensitivePath key := by
  have hpath : (memberPath path key).toList = path.toList ++ '.' :: key.toList := by
    unfold memberPath
    rw [String.toList_append, String.toList_append, List.append_assoc]
    rfl
  unfold isSensitivePath
  rw [hpath, split_append_sep (by decide), List.getLast?_append_of_ne_nil _ (split_ne_nil _ _)]
  cases h : (split (· = '.') key.toList).getLast? with
  | none => exact absurd (List.getLast?_eq_none_iff.1 h) (split_ne_nil _ _)
  | some segment => rfl

theorem sensitive_item (path : String) (i : Nat) :
    isSensitivePath (itemPath path i) = isSensitivePath path := by
  have hpath : (itemPath path i).toList = path.toList ++ ('[' :: (i.repr.toList ++ [']'])) := by
    unfold itemPath
    rw [String.toList_append, String.toList_append, String.toList_append, List.append_assoc,
      List.append_assoc]
    rfl
  have hdigits : '.' ∉ '[' :: (i.repr.toList ++ [']']) := by
    intro h
    rcases List.mem_cons.1 h with h | h
    · exact absurd h (by decide)
    · rcases List.mem_append.1 h with h | h
      · have hc : '.' ∈ Nat.toDigits 10 i := by simpa using h
        exact absurd (Nat.isDigit_of_mem_toDigits (by omega) (by omega) hc) (by decide)
      · exact absurd (List.mem_singleton.1 h) (by decide)
  unfold isSensitivePath
  rw [hpath, getLast?_split_append hdigits]
  cases h : (split (· = '.') path.toList).getLast? with
  | none => exact absurd (List.getLast?_eq_none_iff.1 h) (split_ne_nil _ _)
  | some segment =>
    show isSensitiveSegment (segment ++ _) = isSensitiveSegment segment
    unfold isSensitiveSegment
    rw [split_append_sep (by decide)]
    cases hs : split (· = '[') segment with
    | nil => exact absurd hs (split_ne_nil _ _)
    | cons w ws => rfl

/-! ## the cases of a diff, equal values among them -/

theorem pair_induction {P : Option Value → Option Value → Prop}
    (whole : ∀ c d, Whole c d → P c d)
    (members : ∀ c d cs ds, Compared c d cs ds →
      (∀ key, P (cs.lookup key) (ds.lookup key)) → P c d)
    (items : ∀ c d cs ds, ComparedItems c d cs ds → (∀ i : Nat, P cs[i]? ds[i]?) → P c d)
    (c d : Option Value) : P c d := by
  induction hn : Value.weightOpt c + Value.weightOpt d using Nat.strong_induction_on
    generalizing c d with
  | _ n ih =>
    subst hn
    by_cases hmembers : ∃ cs ds, Compared c d cs ds
    · obtain ⟨cs, ds, h⟩ := hmembers
      exact members c d cs ds h (fun key => ih _ (h.weight_lt key) _ _ rfl)
    · by_cases hitems : ∃ cs ds, ComparedItems c d cs ds
      · obtain ⟨cs, ds, h⟩ := hitems
        exact items c d cs ds h (fun i => ih _ (h.weight_lt i) _ _ rfl)
      · exact whole c d ⟨fun cs ds h => hmembers ⟨cs, ds, h⟩, fun cs ds h => hitems ⟨cs, ds, h⟩⟩

theorem line_of_whole {path : String} {c d : Option Value} (h : Whole c d) {f : FieldChange}
    (hf : f ∈ diffAt path c d) : f = ⟨path, c, d⟩ := by
  have hleaf : ∀ (v : Value) (leaf : String × Value), (∀ fields, v = .object fields → fields = []) →
      (∀ items, v = .array items → items = []) → leaf ∈ collectLeaves path v → leaf = (path, v) := by
    intro v leaf hobject harray hmem
    cases v with
    | object fields =>
      obtain rfl := hobject fields rfl
      rw [collectLeaves] at hmem
      split at hmem
      · exact List.mem_singleton.1 hmem
      · exact absurd hmem List.not_mem_nil
    | array items =>
      obtain rfl := harray items rfl
      exact List.mem_singleton.1 hmem
    | _ => exact List.mem_singleton.1 hmem
  by_cases heq : c = d
  · rw [heq, diffAt_self] at hf
    exact absurd hf List.not_mem_nil
  · cases c with
    | none =>
      cases d with
      | none => exact absurd rfl heq
      | some d =>
        rw [diffAt_added, Option.map_some, Option.getD_some] at hf
        obtain ⟨leaf, hmem, rfl⟩ := List.mem_map.1 hf
        have hone := hleaf d leaf
          (fun fields hd => by
            by_contra hne
            exact h.1 _ _ (hd ▸ Compared.added hne))
          (fun items hd => by
            by_contra hne
            exact h.2 _ _ (hd ▸ ComparedItems.added hne)) hmem
        rw [hone]
    | some c =>
      cases d with
      | none =>
        rw [diffAt_removed, Option.map_some, Option.getD_some] at hf
        obtain ⟨leaf, hmem, rfl⟩ := List.mem_map.1 hf
        have hone := hleaf c leaf
          (fun fields hc => by
            by_contra hne
            exact h.1 _ _ (hc ▸ Compared.removed hne))
          (fun items hc => by
            by_contra hne
            exact h.2 _ _ (hc ▸ ComparedItems.removed hne)) hmem
        rw [hone]
      | some d =>
        rw [diffAt_whole heq h (Or.inr ⟨rfl, rfl⟩)] at hf
        exact List.mem_singleton.1 hf

/-! ## alike sides -/

section
variable {isSecret : String → Bool} {below : Bool} {c c' d : Option Value}

theorem alikeFields_ne_nil {cs cs' : List (String × Value)}
    (h : List.Forall₂ (AlikeMember isSecret below) cs cs') (hne : cs ≠ []) : cs' ≠ [] := by
  intro hnil
  rw [hnil, List.forall₂_nil_right_iff] at h
  exact hne h

theorem compared_alike {cs ds : List (String × Value)} (h : Compared c d cs ds)
    (ha : AlikeOpt isSecret below c c') :
    ∃ cs', Compared c' d cs' ds ∧ List.Forall₂ (AlikeMember isSecret below) cs cs' := by
  cases h with
  | both =>
    cases c' with
    | none => exact nomatch ha
    | some w =>
      rcases alike_cases ha with ⟨-, h⟩ | ⟨-, h, -⟩ | ⟨_, _, h, -⟩ | ⟨l, cs', hl, rfl, h⟩
      · exact nomatch h
      · exact nomatch h
      · exact nomatch h
      · obtain rfl := Value.object.inj hl
        exact ⟨cs', Compared.both cs' ds, h⟩
  | removed hne =>
    cases c' with
    | none => exact nomatch ha
    | some w =>
      rcases alike_cases ha with ⟨-, h⟩ | ⟨-, h, -⟩ | ⟨_, _, h, -⟩ | ⟨l, cs', hl, rfl, h⟩
      · exact nomatch h
      · exact nomatch h
      · exact nomatch h
      · obtain rfl := Value.object.inj hl
        exact ⟨cs', Compared.removed (alikeFields_ne_nil h hne), h⟩
  | added hne =>
    cases c' with
    | none => exact ⟨[], Compared.added hne, List.Forall₂.nil⟩
    | some w => exact nomatch ha

theorem comparedItems_alike {cs ds : List Value} (h : ComparedItems c d cs ds)
    (ha : AlikeOpt isSecret below c c') :
    ∃ cs', ComparedItems c' d cs' ds ∧ List.Forall₂ (Value.Alike isSecret below) cs cs' := by
  have hne' : ∀ {cs cs' : List Value}, List.Forall₂ (Value.Alike isSecret below) cs cs' → cs ≠ [] →
      cs' ≠ [] := by
    intro cs cs' h hne hnil
    rw [hnil, List.forall₂_nil_right_iff] at h
    exact hne h
  cases h with
  | both =>
    cases c' with
    | none => exact nomatch ha
    | some w =>
      rcases alike_cases ha with ⟨-, h⟩ | ⟨-, h, -⟩ | ⟨l, cs', hl, rfl, h⟩ | ⟨_, _, h, -⟩
      · exact nomatch h
      · exact nomatch h
      · obtain rfl := Value.array.inj hl
        exact ⟨cs', ComparedItems.both cs' ds, h⟩
      · exact nomatch h
  | removed hne =>
    cases c' with
    | none => exact nomatch ha
    | some w =>
      rcases alike_cases ha with ⟨-, h⟩ | ⟨-, h, -⟩ | ⟨l, cs', hl, rfl, h⟩ | ⟨_, _, h, -⟩
      · exact nomatch h
      · exact nomatch h
      · obtain rfl := Value.array.inj hl
        exact ⟨cs', ComparedItems.removed (hne' h hne), h⟩
      · exact nomatch h
  | added hne =>
    cases c' with
    | none => exact ⟨[], ComparedItems.added hne, List.Forall₂.nil⟩
    | some w => exact nomatch ha

theorem whole_alike (h : Whole c d) (ha : AlikeOpt isSecret below c c') : Whole c' d := by
  constructor
  · intro cs ds hc
    obtain ⟨cs', hc', -⟩ := compared_alike hc (alikeOpt_symm ha)
    exact h.1 cs' ds hc'
  · intro cs ds hc
    obtain ⟨cs', hc', -⟩ := comparedItems_alike hc (alikeOpt_symm ha)
    exact h.2 cs' ds hc'

theorem ordered_alike (ha : AlikeOpt isSecret below c c') (hc : OrderedOpt c) : OrderedOpt c' := by
  cases c with
  | none =>
    cases c' with
    | none => exact hc
    | some w => exact nomatch ha
  | some v =>
    cases c' with
    | none => exact nomatch ha
    | some w => exact orderedOpt_some (ordered_of_alike ha (hc v rfl))

end

/-! ## what is exposed -/

def isSecretKey (key : String) : Bool := secretKeys.contains key

/-- the first of two values has a secret that is printed under a path that is not redacted: `redactedPath`
is whether the path where they meet is, `below` whether they stand under a secret's name -/
inductive Exposed : Bool → Bool → Option Value → Option Value → Prop
  | whole {below : Bool} {v : Value} {d : Option Value} :
    Whole (some v) d → HasSecret isSecretKey below v → Exposed false below (some v) d
  | member {redactedPath below : Bool} {c d : Option Value} {cs ds : List (String × Value)}
    (key : String) : Compared c d cs ds →
    Exposed (isSensitivePath key) (below || isSecretKey key) (cs.lookup key) (ds.lookup key) →
    Exposed redactedPath below c d
  | item {redactedPath below : Bool} {c d : Option Value} {cs ds : List Value} (i : Nat) :
    ComparedItems c d cs ds → Exposed redactedPath below cs[i]? ds[i]? → Exposed redactedPath below c d

/-- **Where nothing is exposed, a value alike but for its secrets shows the same lines.** -/
theorem shown_alike (c d : Option Value) : ∀ {path : String} {below : Bool} {c' : Option Value},
    OrderedOpt c → OrderedOpt d → AlikeOpt isSecretKey below c c' →
    ¬ Exposed (isSensitivePath path) below c d →
    shown (diffAt path c d) = shown (diffAt path c' d) := by
  induction c, d using pair_induction with
  | whole c d hwhole =>
    intro path below c' hc hd ha hnone
    cases hp : isSensitivePath path with
    | true =>
      -- the one line there may be is redacted
      have hnil : ∀ c₁, Whole c₁ d → shown (diffAt path c₁ d) = [] := by
        intro c₁ h₁
        unfold shown
        rw [List.filter_eq_nil_iff]
        intro f hf
        rw [line_of_whole h₁ hf]
        dsimp only
        rw [hp]
        decide
      rw [hnil c hwhole, hnil c' (whole_alike hwhole ha)]
    | false =>
      rw [hp] at hnone
      cases c with
      | none =>
        cases c' with
        | none => rfl
        | some w => exact nomatch ha
      | some v =>
        cases c' with
        | none => exact nomatch ha
        | some w => rw [eq_of_alike ha (fun hs => hnone (Exposed.whole hwhole hs))]
  | members c d cs ds hcompared ih =>
    intro path below c' hc hd ha hnone
    obtain ⟨cs', hcompared', hmembers⟩ := compared_alike hcompared ha
    obtain ⟨⟨-, hcs⟩, -, hds⟩ := hcompared.ordered hc hd
    have hkeys : unionKeys cs' ds = unionKeys cs ds := by
      unfold unionKeys
      rw [keys_of_forall₂ (fun p q h => h.1) hmembers]
    rw [diffAt_members hcompared hc hd, diffAt_members hcompared' (ordered_alike ha hc) hd, hkeys,
      shown_flatMap, shown_flatMap]
    refine List.flatMap_congr (fun key _ => ?_)
    refine ih key (hcs key) (hds key) (alikeOpt_member hmembers key) (fun he => hnone ?_)
    rw [sensitive_member] at he
    exact Exposed.member key hcompared he
  | items c d cs ds hcompared ih =>
    intro path below c' hc hd ha hnone
    obtain ⟨cs', hcompared', hitems⟩ := comparedItems_alike hcompared ha
    rw [diffAt_items hcompared, diffAt_items hcompared', ← hitems.length_eq, shown_flatMap,
      shown_flatMap]
    refine List.flatMap_congr (fun i _ => ?_)
    obtain ⟨hcs, hds⟩ := hcompared.ordered hc hd i
    refine ih i hcs hds (alikeOpt_item hitems i) (fun he => hnone ?_)
    rw [sensitive_item] at he
    exact Exposed.item i hcompared he

/-- the texts of a value that may be absent -/
def textsOpt (v : Option Value) : List String := (v.map Value.texts).getD []

theorem mem_textsOpt_lookup {fields : List (String × Value)} {key text : String}
    (h : text ∈ textsOpt (fields.lookup key)) : text ∈ textsOpt (some (.object fields)) := by
  cases hv : fields.lookup key with
  | none =>
    rw [hv] at h
    exact absurd h List.not_mem_nil
  | some v =>
    rw [hv] at h
    refine mem_fieldTexts.2 ⟨(key, v), ?_, h⟩
    obtain ⟨a, b, heq, -⟩ := List.lookup_eq_some_iff.1 hv
    rw [heq]
    simp

theorem mem_textsOpt_item {items : List Value} {i : Nat} {text : String}
    (h : text ∈ textsOpt items[i]?) : text ∈ textsOpt (some (.array items)) := by
  cases hv : items[i]? with
  | none =>
    rw [hv] at h
    exact absurd h List.not_mem_nil
  | some v =>
    rw [hv] at h
    exact mem_itemTexts.2 ⟨v, List.mem_of_getElem? hv, h⟩

theorem text_of_line (c d : Option Value) : ∀ {path : String} {f : FieldChange} {w : Value}
    {text : String}, OrderedOpt c → OrderedOpt d → f ∈ diffAt path c d → f.fromValue = some w →
    text ∈ w.texts → text ∈ textsOpt c := by
  induction c, d using pair_induction with
  | whole c d hwhole =>
    intro path f w text hc hd hf hw ht
    rw [line_of_whole hwhole hf] at hw
    dsimp only at hw
    rw [hw]
    exact ht
  | members c d cs ds hcompared ih =>
    intro path f w text hc hd hf hw ht
    obtain ⟨⟨-, hcs⟩, -, hds⟩ := hcompared.ordered hc hd
    rw [diffAt_members hcompared hc hd] at hf
    obtain ⟨key, -, hf⟩ := List.mem_flatMap.1 hf
    have hmem := mem_textsOpt_lookup (ih key (hcs key) (hds key) hf hw ht)
    cases hcompared with
    | both => exact hmem
    | removed => exact hmem
    | added => exact absurd hmem List.not_mem_nil
  | items c d cs ds hcompared ih =>
    intro path f w text hc hd hf hw ht
    rw [diffAt_items hcompared] at hf
    obtain ⟨i, -, hf⟩ := List.mem_flatMap.1 hf
    obtain ⟨hcs, hds⟩ := hcompared.ordered hc hd i
    have hmem := mem_textsOpt_item (ih i hcs hds hf hw ht)
    cases hcompared with
    | both => exact hmem
    | removed => exact hmem
    | added => exact absurd hmem List.not_mem_nil

/-- a value that may be absent, its secrets replaced -/
def blindOpt (mark : String) (below : Bool) (c : Option Value) : Option Value :=
  c.map (blind isSecretKey mark below)

theorem alike_blindOpt (mark : String) (below : Bool) (c : Option Value) :
    AlikeOpt isSecretKey below c (blindOpt mark below c) := by
  cases c with
  | none => exact trivial
  | some v => exact alike_blind v below

theorem lookup_blindFields (mark : String) (below : Bool) (fields : List (String × Value))
    (key : String) : (blindFields isSecretKey mark below fields).lookup key
      = blindOpt mark (below || isSecretKey key) (fields.lookup key) := by
  induction fields with
  | nil => rfl
  | cons p fields ih =>
    obtain ⟨k, v⟩ := p
    rw [blindFields, List.lookup_cons, List.lookup_cons, ih]
    cases hk : key == k with
    | true =>
      rw [beq_iff_eq.1 hk]
      rfl
    | false => rfl

theorem getElem?_blindItems (mark : String) (below : Bool) (items : List Value) (i : Nat) :
    (blindItems isSecretKey mark below items)[i]? = blindOpt mark below items[i]? := by
  rw [blindItems_eq, List.getElem?_map]
  rfl

theorem compared_blind {mark : String} {below : Bool} {c d : Option Value}
    {cs ds : List (String × Value)} (h : Compared c d cs ds) :
    Compared (blindOpt mark below c) d (blindFields isSecretKey mark below cs) ds := by
  cases h with
  | both => exact Compared.both _ _
  | removed hne =>
    refine Compared.removed (fun hnil => hne ?_)
    rw [blindFields_eq] at hnil
    exact List.map_eq_nil_iff.1 hnil
  | added hne => exact Compared.added hne

theorem comparedItems_blind {mark : String} {below : Bool} {c d : Option Value} {cs ds : List Value}
    (h : ComparedItems c d cs ds) :
    ComparedItems (blindOpt mark below c) d (blindItems isSecretKey mark below cs) ds := by
  cases h with
  | both => exact ComparedItems.both _ _
  | removed hne =>
    refine ComparedItems.removed (fun hnil => hne ?_)
    rw [blindItems_eq] at hnil
    exact List.map_eq_nil_iff.1 hnil
  | added hne => exact ComparedItems.added hne

/-- **Where a secret is exposed, what it is replaced by is shown.** -/
theorem exposed_line {mark : String} {redactedPath below : Bool} {c d : Option Value}
    (h : Exposed redactedPath below c d) : ∀ {path : String}, isSensitivePath path = redactedPath →
    (below = true → Nested path) → OrderedOpt c → OrderedOpt d → mark ∉ textsOpt d →
    ∃ f ∈ diffAt path (blindOpt mark below c) d, isSensitivePath f.path = false ∧
      ∃ w, f.fromValue = some w ∧ mark ∈ w.texts := by
  induction h with
  | @whole below v d hwhole hsecret =>
    intro path hp hnested hc hd hfresh
    have hmark : mark ∈ (blind isSecretKey mark below v).texts := mark_mem_blind hsecret
    have hne : blindOpt mark below (some v) ≠ d := by
      rintro rfl
      exact hfresh hmark
    have hwhole' : Whole (blindOpt mark below (some v)) d :=
      whole_alike hwhole (alike_blindOpt mark below (some v))
    have hrooted : Nested path ∨ ((blindOpt mark below (some v)).isSome ∧ d.isSome) := by
      cases d with
      | some d => exact Or.inr ⟨rfl, rfl⟩
      | none =>
        -- alone it is a scalar, and at the top no scalar is a secret
        left
        cases hsecret with
        | scalar _ => exact hnested rfl
        | item hv _ => exact absurd (ComparedItems.removed (List.ne_nil_of_mem hv)) (hwhole.2 _ _)
        | member hv _ => exact absurd (Compared.removed (List.ne_nil_of_mem hv)) (hwhole.1 _ _)
    refine ⟨⟨path, blindOpt mark below (some v), d⟩, ?_, hp, _, rfl, hmark⟩
    rw [diffAt_whole hne hwhole' hrooted]
    exact List.mem_singleton_self _
  | @member redactedPath below c d cs ds key hcompared _ ih =>
    intro path hp hnested hc hd hfresh
    obtain ⟨⟨-, hcs⟩, -, hds⟩ := hcompared.ordered hc hd
    have hfresh' : mark ∉ textsOpt (ds.lookup key) := by
      intro hmem
      have hmem := mem_textsOpt_lookup hmem
      cases hcompared with
      | both => exact hfresh hmem
      | removed => exact absurd hmem List.not_mem_nil
      | added => exact hfresh hmem
    obtain ⟨f, hf, hpath, hw⟩ := ih (sensitive_member path key) (fun _ => nested_member path key)
      (hcs key) (hds key) hfresh'
    refine ⟨f, ?_, hpath, hw⟩
    rw [diffAt_members (compared_blind hcompared)
      (ordered_alike (alike_blindOpt mark below c) hc) hd, List.mem_flatMap]
    rw [← lookup_blindFields] at hf
    refine ⟨key, ?_, hf⟩
    by_contra hkey
    obtain ⟨hnone, hnone'⟩ := lookup_none_of_not_mem_unionKeys hkey
    rw [hnone, hnone', diffAt_self] at hf
    exact List.not_mem_nil hf
  | @item redactedPath below c d cs ds i hcompared _ ih =>
    intro path hp hnested hc hd hfresh
    obtain ⟨hcs, hds⟩ := hcompared.ordered hc hd i
    have hfresh' : mark ∉ textsOpt ds[i]? := by
      intro hmem
      have hmem := mem_textsOpt_item hmem
      cases hcompared with
      | both => exact hfresh hmem
      | removed => exact absurd hmem List.not_mem_nil
      | added => exact hfresh hmem
    obtain ⟨f, hf, hpath, hw⟩ := ih ((sensitive_item path i).trans hp) (fun _ => nested_item path i)
      hcs hds hfresh'
    refine ⟨f, ?_, hpath, hw⟩
    rw [diffAt_items (comparedItems_blind hcompared), List.mem_flatMap]
    rw [← getElem?_blindItems] at hf
    refine ⟨i, ?_, hf⟩
    by_contra hi
    rw [List.mem_range] at hi
    rw [List.getElem?_eq_none (by omega), List.getElem?_eq_none (by omega), diffAt_self] at hf
    exact List.not_mem_nil hf

/-! ## the sides exchanged -/

/-- the line as the other side sees it -/
def swap (f : FieldChange) : FieldChange := ⟨f.path, f.toValue, f.fromValue⟩

theorem swap_swap (f : FieldChange) : swap (swap f) = f := rfl

theorem swap_injective : Function.Injective swap := fun f g h => by
  rw [← swap_swap f, h, swap_swap]

theorem shown_swap (fields : List FieldChange) : shown (fields.map swap) = (shown fields).map swap :=
  List.filter_map ..

theorem compared_swap {c d : Option Value} {cs ds : List (String × Value)} (h : Compared c d cs ds) :
    Compared d c ds cs := by
  cases h with
  | both => exact Compared.both ds cs
  | removed hne => exact Compared.added hne
  | added hne => exact Compared.removed hne

theorem comparedItems_swap {c d : Option Value} {cs ds : List Value} (h : ComparedItems c d cs ds) :
    ComparedItems d c ds cs := by
  cases h with
  | both => exact ComparedItems.both ds cs
  | removed hne => exact ComparedItems.added hne
  | added hne => exact ComparedItems.removed hne

theorem diffAt_swap (c d : Option Value) : ∀ {path : String}, OrderedOpt c → OrderedOpt d →
    diffAt path d c = (diffAt path c d).map swap := by
  have hone : ∀ (path : String) (v : Option Value), diffAt path none v = (diffAt path v none).map swap := by
    intro path v
    rw [diffAt_added, diffAt_removed, List.map_map]
    rfl
  induction c, d using pair_induction with
  | whole c d hwhole =>
    intro path hc hd
    cases c with
    | none =>
      rw [hone, List.map_map]
      exact (List.map_id _).symm
    | some c =>
      cases d with
      | none => exact hone path (some c)
      | some d =>
        by_cases heq : some c = some d
        · rw [heq, diffAt_self]
          rfl
        · have hwhole' : Whole (some d) (some c) :=
            ⟨fun cs ds h => hwhole.1 ds cs (compared_swap h), fun cs ds h => hwhole.2 ds cs (comparedItems_swap h)⟩
          rw [diffAt_whole heq hwhole (Or.inr ⟨rfl, rfl⟩),
            diffAt_whole (Ne.symm heq) hwhole' (Or.inr ⟨rfl, rfl⟩)]
          rfl
  | members c d cs ds hcompared ih =>
    intro path hc hd
    obtain ⟨⟨-, hcs⟩, -, hds⟩ := hcompared.ordered hc hd
    rw [diffAt_members hcompared hc hd, diffAt_members (compared_swap hcompared) hd hc, unionKeys_comm,
      List.map_flatMap]
    exact List.flatMap_congr (fun key _ => ih key (hcs key) (hds key))
  | items c d cs ds hcompared ih =>
    intro path hc hd
    rw [diffAt_items hcompared, diffAt_items (comparedItems_swap hcompared), Nat.max_comm, List.map_flatMap]
    refine List.flatMap_congr (fun i _ => ?_)
    obtain ⟨hcs, hds⟩ := hcompared.ordered hc hd i
    exact ih i hcs hds

/-! ## whole manifests -/

/-- a manifest; its metadata is any object in order, as it is written -/
abbrev Manifest := ResourceEnvelope { v : Value // v.Ordered }

def metaOf (m : Option Manifest) : Option Value := m.map (fun e => e.metadata.1)

def specOf (m : Option Manifest) : Option Value := m.map (fun e => e.spec)

/-- two manifests that differ in secrets only, or none -/
def AlikeManifest : Option Manifest → Option Manifest → Prop
  | none, none => True
  | some m, some m' => m.kind = m'.kind ∧ Value.Alike isSecretKey false m.metadata.1 m'.metadata.1 ∧
      Value.Alike isSecretKey false m.spec m'.spec
  | _, _ => False

def shownDiff (base head : Option Manifest) : List FieldChange :=
  shown (redact (diff Subtype.val base head).fields)

/-- the secrets of the base say nothing of the lines that are not redacted, nor do those of the head -/
def Hides (base head : Option Manifest) : Prop :=
  (∀ base', AlikeManifest base base' → shownDiff base' head = shownDiff base head) ∧
    ∀ head', AlikeManifest head head' → shownDiff base head' = shownDiff base head

/-- a secret of the first manifest is printed under a path that is not redacted -/
def Exposes (m other : Option Manifest) : Prop :=
  Exposed false false (metaOf m) (metaOf other) ∨ Exposed false false (specOf m) (specOf other)

def OrderedManifest (m : Option Manifest) : Prop := OrderedOpt (specOf m)

theorem ordered_meta (m : Option Manifest) : OrderedOpt (metaOf m) := by
  intro w h
  obtain ⟨e, -, rfl⟩ := Option.map_eq_some_iff.1 h
  exact e.metadata.2

theorem shownDiff_eq (base head : Option Manifest) : shownDiff base head
    = shown (diffAt "metadata" (metaOf base) (metaOf head))
      ++ shown (diffAt "spec" (specOf base) (specOf head)) := by
  unfold shownDiff
  rw [shown_redact, ← shown_append]
  cases base with
  | none =>
    cases head with
    | none =>
      show shown [] = shown (diffAt "metadata" none none ++ diffAt "spec" none none)
      rw [diffAt_self, diffAt_self]
      rfl
    | some h =>
      show shown ((envelopeLeaves Subtype.val h).map _) = _
      unfold envelopeLeaves
      rw [List.map_append]
      refine congrArg shown (congrArg₂ _ ?_ ?_)
      · exact (diffAt_added "metadata" (some h.metadata.1)).symm
      · exact (diffAt_added "spec" (some h.spec)).symm
  | some b =>
    cases head with
    | none =>
      show shown ((envelopeLeaves Subtype.val b).map _) = _
      unfold envelopeLeaves
      rw [List.map_append]
      refine congrArg shown (congrArg₂ _ ?_ ?_)
      · exact (diffAt_removed "metadata" (some b.metadata.1)).symm
      · exact (diffAt_removed "spec" (some b.spec)).symm
    | some h => rfl

theorem alike_parts {m m' : Option Manifest} (h : AlikeManifest m m') :
    AlikeOpt isSecretKey false (metaOf m) (metaOf m') ∧
      AlikeOpt isSecretKey false (specOf m) (specOf m') := by
  cases m with
  | none =>
    cases m' with
    | none => exact ⟨trivial, trivial⟩
    | some e => exact nomatch h
  | some e =>
    cases m' with
    | none => exact nomatch h
    | some e' => exact h.2

def blindManifest (mark : String) (m : Manifest) : Manifest where
  kind := m.kind
  metadata := ⟨blind isSecretKey mark false m.metadata.1,
    ordered_of_alike (alike_blind m.metadata.1 false) m.metadata.2⟩
  spec := blind isSecretKey mark false m.spec

theorem alike_blindManifest (mark : String) (m : Option Manifest) :
    AlikeManifest m (m.map (blindManifest mark)) := by
  cases m with
  | none => exact trivial
  | some m => exact ⟨rfl, alike_blind m.metadata.1 false, alike_blind m.spec false⟩

theorem metaOf_blind (mark : String) (m : Option Manifest) :
    metaOf (m.map (blindManifest mark)) = blindOpt mark false (metaOf m) := by
  cases m <;> rfl

theorem specOf_blind (mark : String) (m : Option Manifest) :
    specOf (m.map (blindManifest mark)) = blindOpt mark false (specOf m) := by
  cases m <;> rfl

theorem fresh_of_shown {base head : Option Manifest} (hb : OrderedManifest base)
    (hh : OrderedManifest head) {f : FieldChange} {w : Value} {mark : String}
    (hf : f ∈ shownDiff base head) (hw : f.fromValue = some w) (ht : mark ∈ w.texts) :
    mark ∈ textsOpt (metaOf base) ++ textsOpt (specOf base) := by
  rw [shownDiff_eq] at hf
  rcases List.mem_append.1 hf with hf | hf
  · exact List.mem_append_left _
      (text_of_line _ _ (ordered_meta base) (ordered_meta head) (List.mem_filter.1 hf).1 hw ht)
  · exact List.mem_append_right _ (text_of_line _ _ hb hh (List.mem_filter.1 hf).1 hw ht)

theorem hides_base_iff {base head : Option Manifest} (hb : OrderedManifest base)
    (hh : OrderedManifest head) :
    (∀ base', AlikeManifest base base' → shownDiff base' head = shownDiff base head) ↔
      ¬ Exposes base head := by
  have hroot : isSensitivePath "metadata" = false ∧ isSensitivePath "spec" = false := by
    constructor <;> decide +kernel
  constructor
  · intro hhides hexposed
    obtain ⟨mark, hmark⟩ := exists_fresh ((textsOpt (metaOf base) ++ textsOpt (specOf base))
      ++ (textsOpt (metaOf head) ++ textsOpt (specOf head)))
    simp only [List.mem_append, not_or] at hmark
    have hsame := hhides _ (alike_blindManifest mark base)
    have hline : ∃ f ∈ shownDiff (base.map (blindManifest mark)) head,
        ∃ w, f.fromValue = some w ∧ mark ∈ w.texts := by
      rw [shownDiff_eq, metaOf_blind, specOf_blind]
      rcases hexposed with h | h
      · obtain ⟨f, hf, hpath, hw⟩ := exposed_line h hroot.1 (fun hc => nomatch hc) (ordered_meta base)
          (ordered_meta head) hmark.2.1
        exact ⟨f, List.mem_append_left _ (List.mem_filter.2 ⟨hf, by rw [hpath]; rfl⟩), hw⟩
      · obtain ⟨f, hf, hpath, hw⟩ := exposed_line h hroot.2 (fun hc => nomatch hc) hb hh hmark.2.2
        exact ⟨f, List.mem_append_right _ (List.mem_filter.2 ⟨hf, by rw [hpath]; rfl⟩), hw⟩
    obtain ⟨f, hf, w, hw, ht⟩ := hline
    rw [hsame] at hf
    rcases List.mem_append.1 (fresh_of_shown hb hh hf hw ht) with h | h
    · exact hmark.1.1 h
    · exact hmark.1.2 h
  · intro hnone base' ha
    obtain ⟨hm, hs⟩ := alike_parts ha
    rw [shownDiff_eq, shownDiff_eq]
    have hmeta := shown_alike _ _ (ordered_meta base) (ordered_meta head) hm
      (by rw [hroot.1]; exact fun h => hnone (Or.inl h))
    have hspec := shown_alike _ _ hb hh hs
      (by rw [hroot.2]; exact fun h => hnone (Or.inr h))
    rw [hmeta, hspec]

theorem shownDiff_swap {base head : Option Manifest} (hb : OrderedManifest base)
    (hh : OrderedManifest head) : shownDiff head base = (shownDiff base head).map swap := by
  rw [shownDiff_eq, shownDiff_eq, diffAt_swap _ _ (ordered_meta base) (ordered_meta head),
    diffAt_swap _ _ hb hh, shown_swap, shown_swap, List.map_append]

/-- **A diff hides the secrets of both manifests exactly when it exposes none of either.** -/
theorem hides_iff {base head : Option Manifest} (hb : OrderedManifest base)
    (hh : OrderedManifest head) : Hides base head ↔ ¬ Exposes base head ∧ ¬ Exposes head base := by
  have hswap : (∀ head', AlikeManifest head head' → shownDiff base head' = shownDiff base head) ↔
      ∀ head', AlikeManifest head head' → shownDiff head' base = shownDiff head base := by
    refine forall_congr' (fun head' => forall_congr' (fun ha => ?_))
    have hh' : OrderedManifest head' := ordered_alike (alike_parts ha).2 hh
    rw [shownDiff_swap hb hh', shownDiff_swap hb hh]
    exact (List.map_injective_iff.2 swap_injective).eq_iff.symm
  unfold Hides
  rw [hswap, hides_base_iff hb hh, hides_base_iff hh hb]

/-! ## a manifest -/

/-- a pipeline's request with a password, and one that is a text -/
def withPassword (password : String) : Manifest :=
  ⟨"Pipeline", plainMeta, .object [("http", .object [("password", .string password)])]⟩

def turnedOff : Manifest := ⟨"Pipeline", plainMeta, .object [("http", .string "off")]⟩

theorem ordered_withPassword (password : String) : OrderedManifest (some (withPassword password)) :=
  orderedOpt_some ⟨List.pairwise_singleton _ _, ⟨List.pairwise_singleton _ _, trivial, trivial⟩, trivial⟩

theorem ordered_turnedOff : OrderedManifest (some turnedOff) :=
  orderedOpt_some ⟨List.pairwise_singleton _ _, trivial, trivial⟩

theorem hides_iff_of_turnedOff : Hides (some (withPassword "a")) (some turnedOff) ↔
    ¬ Exposes (some (withPassword "a")) (some turnedOff) ∧
      ¬ Exposes (some turnedOff) (some (withPassword "a")) :=
  hides_iff (ordered_withPassword "a") ordered_turnedOff

/-- a password is shown where the object that holds it becomes a text -/
theorem password_shown : ¬ Hides (some (withPassword "a")) (some turnedOff) := by
  rintro ⟨hbase, -⟩
  have halike : AlikeManifest (some (withPassword "a")) (some (withPassword "b")) := by
    refine ⟨rfl, alike_refl _ _, ?_⟩
    refine alike_object.2 (List.Forall₂.cons ⟨rfl, ?_⟩ List.Forall₂.nil)
    refine alike_object.2 (List.Forall₂.cons ⟨rfl, ?_⟩ List.Forall₂.nil)
    exact Or.inr ⟨by decide +kernel, rfl, rfl⟩
  have hsame := hbase _ halike
  revert hsame
  decide +kernel

end Redact

end Portal
