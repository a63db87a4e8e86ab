import Portal.Base.Blanks
import Portal.Base.Pieces
import Portal.Connectors.Grant
import Mathlib.Data.List.Infix

/-!
# The channel a change came through (`change.rs`: `ProposedVia`)

A change opened by a person's AI client says so in the last line of its merge request's body.  The
body above that line is the proposer's own text, which may hold lines of the same look.

* `trailer`, `signBody`, `inBody`   what is written under a body and read back from it;
* `Built`                           what the constructors can build;
* `inBody_signBody`                 the line signed is the line read.
-/

namespace Portal

/-! ## texts cut at a text -/

namespace Text

/-- `str::lines`: a line may end in `\r\n`, and an end of line starts no empty one -/
def lines (s : List Char) : List (List Char) :=
  let pieces := split (· == '\n') s
  pieces.dropLast.map (fun l => (l.dropSuffix? ['\r']).getD l)
    ++ (pieces.getLast?.filter fun l => !l.isEmpty).toList

/-- `str::split` at a text, which is not empty -/
def splitText (sep s : List Char) : List (List Char) :=
  if hsep : sep = [] then [s]
  else
    match hcut : s.dropInfix? sep with
    | none => [s]
    | some (a, b) =>
      have : b.length < s.length := by
        obtain ⟨⟨sep', rfl, hbeq⟩, -⟩ := List.dropInfix?_eq_some_iff.mp hcut
        obtain rfl := eq_of_beq hbeq
        have := List.length_pos_of_ne_nil hsep
        simp only [List.length_append]
        omega
      a :: splitText sep b
termination_by s.length

theorem dropInfix?_append {c : Char} {sep a b : List Char} (h : c ∉ a) :
    (a ++ (c :: sep) ++ b).dropInfix? (c :: sep) = some (a, b) := by
  rw [List.dropInfix?_eq_some_iff]
  refine ⟨⟨c :: sep, rfl, by simp⟩, fun a' sep' b' heq hbeq => ?_⟩
  obtain rfl := eq_of_beq hbeq
  by_contra hlt
  rw [ge_iff_le, not_le] at hlt
  -- an earlier place would have the first character inside `a`
  have hget : (a ++ (c :: sep) ++ b)[a'.length]? = some c := by rw [heq]; simp
  rw [List.append_assoc, List.getElem?_append_left hlt] at hget
  exact h (List.mem_of_getElem? hget)

theorem dropInfix?_of_not_mem {c : Char} {sep s : List Char} (h : c ∉ s) :
    s.dropInfix? (c :: sep) = none := by
  cases hcut : s.dropInfix? (c :: sep) with
  | none => rfl
  | some p =>
    obtain ⟨⟨sep', rfl, hbeq⟩, -⟩ := List.dropInfix?_eq_some_iff.mp hcut
    obtain rfl := eq_of_beq hbeq
    exact absurd (by simp) h

theorem splitText_pieces {c : Char} (sep : List Char) {piece : List Char} (hpiece : c ∉ piece)
    (pieces : List (List Char)) (hpieces : ∀ p ∈ pieces, c ∉ p) :
    splitText (c :: sep) (piece ++ pieces.flatMap fun p => c :: sep ++ p) = piece :: pieces := by
  induction pieces generalizing piece with
  | nil =>
    rw [List.flatMap_nil, List.append_nil]
    unfold splitText
    rw [dif_neg (List.cons_ne_nil c sep)]
    split
    · rfl
    · rename_i a b hcut
      rw [dropInfix?_of_not_mem hpiece] at hcut
      cases hcut
  | cons next pieces ih =>
    have hnext : c ∉ next := hpieces next List.mem_cons_self
    have hrest : ∀ p ∈ pieces, c ∉ p := fun p hp => hpieces p (List.mem_cons_of_mem next hp)
    have hfirst : (piece ++ (c :: sep) ++ (next ++ pieces.flatMap fun p => c :: sep ++ p)).dropInfix?
        (c :: sep) = some (piece, next ++ pieces.flatMap fun p => c :: sep ++ p) :=
      dropInfix?_append hpiece
    rw [List.flatMap_cons, List.append_assoc, ← List.append_assoc]
    unfold splitText
    rw [dif_neg (List.cons_ne_nil c sep)]
    split
    · rename_i hcut
      rw [hfirst] at hcut
      cases hcut
    · rename_i a b hcut
      rw [hfirst] at hcut
      obtain ⟨rfl, rfl⟩ := Prod.mk.inj (Option.some.inj hcut)
      rw [ih hnext hrest]

theorem lines_append_line (body : List Char) {line : List Char} (h : '\n' ∉ line)
    (hne : line ≠ []) : ∃ above, lines (body ++ '\n' :: line) = above ++ [line] := by
  have hline : split (· == '\n') line = [line] :=
    split_of_none fun c hc => by
      rw [beq_eq_false_iff_ne]
      exact fun heq => h (heq ▸ hc)
  refine ⟨(split (· == '\n') body).map fun l => (l.dropSuffix? ['\r']).getD l, ?_⟩
  unfold lines
  rw [split_append_sep (by rfl), hline]
  simp [hne]

end Text

namespace Changes

/-! ## provenance -/

structure ProposedVia where
  channel : String
  client : String
  connector : Option String
  connectorName : Option String
  plan : Option String
deriving DecidableEq, Repr

def clientChar (c : Char) : Bool :=
  ('a' ≤ c && c ≤ 'z') || ('A' ≤ c && c ≤ 'Z') || Text.isDigit c
    || c == '.' || c == '_' || c == ':' || c == '-'

def validClient (client : String) : Bool :=
  1 ≤ Text.utf8Len client.toList && Text.utf8Len client.toList ≤ 64 && client.toList.all clientChar

/-- `CIMD_CLIENTS` -/
def cimdClients : List (String × String) :=
  [("https://claude.ai/oauth/claude-code-client-metadata", "claude-code"),
   ("https://claude.ai/oauth/mcp-oauth-client-metadata", "claude-ai")]

def cimdHost (client : String) : Option String := do
  let rest ← client.toList.dropPrefix? "https://".toList
  let host ← (Text.split (· == '/') rest).head?
  if !host.isEmpty && !host.contains ':' && validClient (String.ofList host) then
    some (String.ofList host)
  else none

namespace ProposedVia

def mcp (client : Option String) : ProposedVia :=
  let client := client.bind fun c =>
    (cimdClients.find? (fun known => known.1 = c)).map Prod.snd
      |>.or (cimdHost c)
      |>.or (if validClient c then some c else none)
  ⟨"mcp", client.getD "unknown", none, none, none⟩

def through (via : ProposedVia) (connector : Option Connectors.Connector) : ProposedVia :=
  match connector.filter fun c => validClient c.id && validClient c.name with
  | some c => { via with connector := some c.id, connectorName := some c.name }
  | none => via

def withPlan (via : ProposedVia) (plan : String) : ProposedVia :=
  { via with plan := if validClient plan then some plan else none }

/-- `TRAILER` -/
def trailerKey : String := "Proposed-Via: "

def trailer (via : ProposedVia) : String :=
  [("connector", via.connector), ("connectorName", via.connectorName), ("plan", via.plan)].foldl
    (fun line (key, value) =>
      match value with
      | some value => line ++ ("; " ++ key ++ "=" ++ value)
      | none => line)
    (trailerKey ++ via.channel ++ "; client=" ++ via.client)

/-- `current` is the channel of the call being served, none outside one -/
def signBody (current : Option ProposedVia) (body : String) : String :=
  match current with
  | some via =>
    let connector := match via.connectorName with
      | some name => " through connector `" ++ name ++ "`"
      | none => ""
    "Proposed through an AI client over MCP (client `" ++ via.client ++ "`)" ++ connector ++ ".\n\n"
      ++ body ++ "\n\n" ++ via.trailer
  | none => body

/-- a provenance with the part of a key set -/
def setSlot (via : ProposedVia) (key value : String) : Option ProposedVia :=
  match key with
  | "connector" => some { via with connector := some value }
  | "connectorName" => some { via with connectorName := some value }
  | "plan" => some { via with plan := some value }
  | _ => none

/-- one `key=value` of a line -/
def readPart (via : ProposedVia) (part : List Char) : Option ProposedVia := do
  let (key, value) ← Text.splitOnce '=' part
  if !validClient (String.ofList value) then none
  else via.setSlot (String.ofList key) (String.ofList value)

/-- a line after `Proposed-Via: ` -/
def readLine (line : List Char) : Option ProposedVia := do
  let (channel, rest) ← line.dropInfix? "; client=".toList
  match Text.splitText "; ".toList rest with
  | [] => none
  | client :: parts =>
    if channel ≠ "mcp".toList || !validClient (String.ofList client) then none
    else parts.foldlM readPart (mcp (some (String.ofList client)))

def inBody (body : String) : Option ProposedVia := do
  let line ← (Text.lines body.toList).reverse.findSome? fun l =>
    (Text.trim l).dropPrefix? trailerKey.toList
  readLine line

/-- what `mcp`, `through` and `with_plan` can build -/
inductive Built : ProposedVia → Prop
  | mcp (client : Option String) : Built (mcp client)
  | through {via : ProposedVia} (connector : Option Connectors.Connector) :
      Built via → Built (via.through connector)
  | withPlan {via : ProposedVia} (plan : String) : Built via → Built (via.withPlan plan)

end ProposedVia

/-! ## the names a line holds -/

theorem isWhitespace_of_clientChar {c : Char} (h : clientChar c = true) :
    Text.isWhitespace c = false := by
  have hle : ∀ a b : Char, a ≤ b ↔ a.toNat ≤ b.toNat := fun a b => by
    rw [Char.le_def, UInt32.le_iff_toNat_le]
    rfl
  have hval : ∀ a : Char, c = a ↔ c.toNat = a.toNat := fun a => Char.toNat_inj.symm
  simp only [clientChar, Text.isDigit, Bool.or_eq_true, Bool.and_eq_true, decide_eq_true_eq,
    beq_iff_eq, hle, hval] at h
  have : 33 ≤ c.toNat ∧ c.toNat ≤ 122 := by
    have hchars : 'a'.toNat = 97 ∧ 'z'.toNat = 122 ∧ 'A'.toNat = 65 ∧ 'Z'.toNat = 90 ∧
        '0'.toNat = 48 ∧ '9'.toNat = 57 ∧ '.'.toNat = 46 ∧ '_'.toNat = 95 ∧ ':'.toNat = 58 ∧
        '-'.toNat = 45 := by decide
    omega
  simp only [Text.isWhitespace, Bool.or_eq_false_iff, Bool.and_eq_false_iff, decide_eq_false_iff_not,
    beq_eq_false_iff_ne]
  omega

theorem clientChar_of_mem {client : String} (h : validClient client = true) {c : Char}
    (hc : c ∈ client.toList) : clientChar c = true :=
  List.all_eq_true.mp (Bool.and_eq_true_iff.mp h).2 c hc

theorem not_mem_of_valid {client : String} (h : validClient client = true) {c : Char}
    (hc : clientChar c = false) : c ∉ client.toList := fun hmem => by
  rw [clientChar_of_mem h hmem] at hc
  cases hc

theorem ne_nil_of_valid {client : String} (h : validClient client = true) : client.toList ≠ [] := by
  rintro hnil
  rw [validClient, hnil] at h
  exact absurd h (by decide)

theorem cimdHost_of_valid {client : String} (h : validClient client = true) :
    cimdHost client = none := by
  unfold cimdHost
  cases hcut : client.toList.dropPrefix? "https://".toList with
  | none => rfl
  | some rest =>
    obtain ⟨start, hstart, hbeq⟩ := List.dropPrefix?_eq_some_iff.mp hcut
    obtain rfl := eq_of_beq hbeq
    refine absurd ?_ (not_mem_of_valid h (c := '/') (by decide))
    rw [hstart]
    simp

namespace ProposedVia

theorem mcp_of_valid {client : String} (h : validClient client = true) :
    mcp (some client) = ⟨"mcp", client, none, none, none⟩ := by
  have hknown : cimdClients.find? (fun known => known.1 = client) = none := by
    refine List.find?_eq_none.mpr fun known hknown heq => ?_
    have hurl : ∀ known ∈ cimdClients, '/' ∈ known.1.toList := by decide
    have hslash := hurl known hknown
    rw [of_decide_eq_true heq] at hslash
    exact not_mem_of_valid h (by decide) hslash
  simp [mcp, hknown, cimdHost_of_valid h, h]

/-- a provenance whose names may all stand in a line -/
structure Sayable (via : ProposedVia) : Prop where
  channel : via.channel = "mcp"
  client : validClient via.client = true
  connector : ∀ v ∈ via.connector, validClient v = true
  connectorName : ∀ v ∈ via.connectorName, validClient v = true
  plan : ∀ v ∈ via.plan, validClient v = true

theorem Sayable.of_client {client : String} (h : validClient client = true) :
    Sayable ⟨"mcp", client, none, none, none⟩ where
  channel := rfl
  client := h
  connector := fun _ hv => by cases hv
  connectorName := fun _ hv => by cases hv
  plan := fun _ hv => by cases hv

theorem sayable_mcp (client : Option String) : Sayable (mcp client) := by
  unfold mcp
  refine Sayable.of_client ?_
  cases client with
  | none => decide
  | some c =>
    rw [Option.bind_some]
    cases hknown : (cimdClients.find? (fun known => known.1 = c)).map Prod.snd with
    | some short =>
      obtain ⟨known, hfind, rfl⟩ := Option.map_eq_some_iff.mp hknown
      have hshort : ∀ known ∈ cimdClients, validClient known.2 = true := by decide
      exact hshort known (List.mem_of_find?_eq_some hfind)
    | none =>
      cases hhost : cimdHost c with
      | some host =>
        unfold cimdHost at hhost
        simp only [Option.bind_eq_bind, Option.bind_eq_some_iff] at hhost
        obtain ⟨rest, -, text, -, hhost⟩ := hhost
        split at hhost
        · rename_i hvalid
          obtain rfl := Option.some.inj hhost
          exact (Bool.and_eq_true_iff.mp hvalid).2
        · cases hhost
      | none =>
        by_cases hvalid : validClient c = true
        · simp [hvalid]
        · rw [if_neg hvalid]
          exact (by decide : validClient "unknown" = true)

theorem Sayable.through {via : ProposedVia} (h : Sayable via)
    (connector : Option Connectors.Connector) : Sayable (via.through connector) := by
  unfold ProposedVia.through
  split
  · rename_i c hc
    obtain ⟨-, hvalid⟩ := Option.filter_eq_some_iff.mp hc
    obtain ⟨hid, hname⟩ := Bool.and_eq_true_iff.mp hvalid
    exact { h with
      connector := fun v hv => Option.some.inj hv ▸ hid
      connectorName := fun v hv => Option.some.inj hv ▸ hname }
  · exact h

theorem Sayable.withPlan {via : ProposedVia} (h : Sayable via) (plan : String) :
    Sayable (via.withPlan plan) := by
  refine { h with plan := fun v hv => ?_ }
  unfold ProposedVia.withPlan at hv
  by_cases hvalid : validClient plan = true
  · rw [if_pos hvalid] at hv
    exact Option.some.inj hv ▸ hvalid
  · rw [if_neg hvalid] at hv
    cases hv

theorem Built.sayable {via : ProposedVia} (h : Built via) : Sayable via := by
  induction h with
  | mcp client => exact sayable_mcp client
  | through connector _ ih => exact ih.through connector
  | withPlan plan _ ih => exact ih.withPlan plan

/-! ## the line -/

def part (key : String) (value : Option String) : List (List Char) :=
  (value.map fun value => key.toList ++ '=' :: value.toList).toList

/-- the parts of a line after its client -/
def said (via : ProposedVia) : List (List Char) :=
  part "connector" via.connector ++ part "connectorName" via.connectorName ++ part "plan" via.plan

theorem trailer_toList (via : ProposedVia) :
    via.trailer.toList = trailerKey.toList ++ (via.channel.toList ++ "; client=".toList ++
      (via.client.toList ++ via.said.flatMap fun part => "; ".toList ++ part)) := by
  obtain ⟨channel, client, connector, connectorName, plan⟩ := via
  cases connector <;> cases connectorName <;> cases plan <;>
    simp [trailer, said, part, String.toList_append]

theorem not_mem_part {key : String} {value : Option String}
    (h : ∀ v ∈ value, validClient v = true) {c : Char} (hc : clientChar c = false) (heq : c ≠ '=')
    (hc' : c ∉ key.toList) : ∀ p ∈ part key value, c ∉ p := by
  intro p hp
  obtain ⟨v, rfl, rfl⟩ := Option.map_eq_some_iff.mp (Option.mem_toList.mp hp)
  rw [List.mem_append, List.mem_cons, not_or, not_or]
  exact ⟨hc', heq, not_mem_of_valid (h v rfl) hc⟩

theorem not_mem_said {via : ProposedVia} (h : Sayable via) {c : Char} (hc : clientChar c = false)
    (heq : c ≠ '=') (hkeys : ∀ key ∈ ["connector", "connectorName", "plan"], c ∉ key.toList) :
    ∀ p ∈ via.said, c ∉ p := by
  intro p hp
  rw [said, List.mem_append, List.mem_append] at hp
  rcases hp with (hp | hp) | hp
  · exact not_mem_part h.connector hc heq (hkeys _ (by decide)) p hp
  · exact not_mem_part h.connectorName hc heq (hkeys _ (by decide)) p hp
  · exact not_mem_part h.plan hc heq (hkeys _ (by decide)) p hp

theorem readPart_eq (via : ProposedVia) {key v : String} (hkey : '=' ∉ key.toList)
    (h : validClient v = true) :
    readPart via (key.toList ++ '=' :: v.toList) = via.setSlot key v := by
  have hcut := Text.splitOnce_eq_some.mpr ⟨(rfl : key.toList ++ '=' :: v.toList = _), hkey⟩
  unfold readPart
  rw [hcut]
  simp only [Option.bind_eq_bind, Option.bind_some, String.ofList_toList, h]
  rfl

theorem foldlM_part (via : ProposedVia) {key : String} (hkey : '=' ∉ key.toList)
    {value : Option String} (h : ∀ v ∈ value, validClient v = true) :
    (part key value).foldlM readPart via = value.elim (some via) (via.setSlot key) := by
  cases value with
  | none => rfl
  | some v =>
    rw [part, Option.map_some, Option.toList_some, List.foldlM_cons, readPart_eq via hkey (h v rfl),
      Option.elim_some]
    cases via.setSlot key v <;> rfl

theorem foldlM_said {via : ProposedVia} (h : Sayable via) :
    via.said.foldlM readPart ⟨via.channel, via.client, none, none, none⟩ = some via := by
  obtain ⟨channel, client, connector, connectorName, plan⟩ := via
  have hconnector : connector.elim (some ⟨channel, client, none, none, none⟩)
      (setSlot ⟨channel, client, none, none, none⟩ "connector")
        = some ⟨channel, client, connector, none, none⟩ := by
    cases connector <;> rfl
  have hname : connectorName.elim (some ⟨channel, client, connector, none, none⟩)
      (setSlot ⟨channel, client, connector, none, none⟩ "connectorName")
        = some ⟨channel, client, connector, connectorName, none⟩ := by
    cases connectorName <;> rfl
  have hplan : plan.elim (some ⟨channel, client, connector, connectorName, none⟩)
      (setSlot ⟨channel, client, connector, connectorName, none⟩ "plan")
        = some ⟨channel, client, connector, connectorName, plan⟩ := by
    cases plan <;> rfl
  rw [said, List.foldlM_append, List.foldlM_append, foldlM_part _ (by decide) h.connector, hconnector]
  simp only [Option.bind_eq_bind, Option.bind_some]
  rw [foldlM_part _ (by decide) h.connectorName, hname, Option.bind_some,
    foldlM_part _ (by decide) h.plan, hplan]

theorem readLine_said {via : ProposedVia} (h : Sayable via) :
    readLine (via.channel.toList ++ "; client=".toList ++
      (via.client.toList ++ via.said.flatMap fun part => "; ".toList ++ part)) = some via := by
  have hcut : (via.channel.toList ++ "; client=".toList ++
      (via.client.toList ++ via.said.flatMap fun part => "; ".toList ++ part)).dropInfix?
        "; client=".toList = some (via.channel.toList,
          via.client.toList ++ via.said.flatMap fun part => "; ".toList ++ part) :=
    Text.dropInfix?_append (by rw [h.channel]; decide)
  have hpieces : Text.splitText "; ".toList
      (via.client.toList ++ via.said.flatMap fun part => "; ".toList ++ part)
        = via.client.toList :: via.said :=
    Text.splitText_pieces [' '] (not_mem_of_valid h.client (by decide)) via.said
      (not_mem_said h (by decide) (by decide) (by decide))
  unfold readLine
  simp only [hcut, Option.bind_eq_bind, Option.bind_some, hpieces, String.ofList_toList, h.client]
  rw [mcp_of_valid h.client, ← h.channel]
  simpa using foldlM_said h

/-! ## the body -/

/-- a text whose last character a name may hold -/
def Ends (s : List Char) : Prop := ∃ c ∈ s.getLast?, clientChar c = true

theorem Ends.append {t : List Char} (h : Ends t) (s : List Char) : Ends (s ++ t) := by
  obtain ⟨c, hc, hchar⟩ := h
  refine ⟨c, ?_, hchar⟩
  rw [List.getLast?_append, Option.mem_def.mp hc]
  rfl

theorem ends_of_valid {client : String} (h : validClient client = true) : Ends client.toList := by
  have hne := ne_nil_of_valid h
  exact ⟨_, List.getLast?_eq_some_getLast hne, clientChar_of_mem h (List.getLast_mem hne)⟩

theorem ends_flatMap {s sep : List Char} (h : Ends s) (parts : List (List Char))
    (hparts : ∀ p ∈ parts, Ends p) : Ends (s ++ parts.flatMap fun p => sep ++ p) := by
  induction parts generalizing s with
  | nil => simpa using h
  | cons p parts ih =>
    have hp : Ends (s ++ (sep ++ p)) := ((hparts p List.mem_cons_self).append sep).append s
    rw [List.flatMap_cons, ← List.append_assoc]
    exact ih hp fun q hq => hparts q (List.mem_cons_of_mem p hq)

theorem ends_part {key : String} {value : Option String} (h : ∀ v ∈ value, validClient v = true) :
    ∀ p ∈ part key value, Ends p := by
  intro p hp
  obtain ⟨v, rfl, rfl⟩ := Option.map_eq_some_iff.mp (Option.mem_toList.mp hp)
  rw [← List.singleton_append, ← List.append_assoc]
  exact (ends_of_valid (h v rfl)).append _

theorem ends_said {via : ProposedVia} (h : Sayable via) : ∀ p ∈ via.said, Ends p := by
  intro p hp
  rw [said, List.mem_append, List.mem_append] at hp
  rcases hp with (hp | hp) | hp
  · exact ends_part h.connector p hp
  · exact ends_part h.connectorName p hp
  · exact ends_part h.plan p hp

theorem trailer_line {via : ProposedVia} (h : Sayable via) :
    '\n' ∉ via.trailer.toList ∧ via.trailer.toList ≠ [] ∧
      Text.trim via.trailer.toList = via.trailer.toList := by
  have hlines : ∀ part ∈ via.said, '\n' ∉ part := not_mem_said h (by decide) (by decide) (by decide)
  refine ⟨?_, ?_, Text.trim_of_ends ?_ ?_⟩
  · rw [trailer_toList, h.channel]
    simp only [List.mem_append, List.mem_flatMap, not_or, not_exists, not_and]
    exact ⟨by decide, ⟨by decide, by decide⟩, not_mem_of_valid h.client (by decide),
      fun part hpart => ⟨by decide, hlines part hpart⟩⟩
  · rw [trailer_toList]
    simp [trailerKey]
  · rw [trailer_toList]
    intro c hc
    obtain rfl : 'P' = c := by simpa [trailerKey] using hc
    decide
  · -- the last character is that of the last name
    intro c hc
    obtain ⟨c', hc', hchar⟩ : Ends via.trailer.toList := by
      rw [trailer_toList]
      exact ((ends_flatMap (ends_of_valid h.client) via.said (ends_said h)).append _).append _
    obtain rfl := Option.mem_unique hc hc'
    exact isWhitespace_of_clientChar hchar

theorem signBody_toList (via : ProposedVia) (body : String) :
    ∃ above, (signBody (some via) body).toList = above ++ '\n' :: via.trailer.toList := by
  obtain ⟨text, htext⟩ : ∃ text, signBody (some via) body = text ++ "\n\n" ++ via.trailer := ⟨_, rfl⟩
  refine ⟨text.toList ++ ['\n'], ?_⟩
  rw [htext, String.toList_append, String.toList_append]
  simp

/-- **The provenance signed under a body is the one read from it**, whatever the body says. -/
theorem inBody_signBody (body : String) {via : ProposedVia} (h : Built via) :
    inBody (signBody (some via) body) = some via := by
  have hsay := h.sayable
  obtain ⟨hline, hne, htrim⟩ := trailer_line hsay
  obtain ⟨above, habove⟩ := signBody_toList via body
  obtain ⟨before, hlines⟩ := Text.lines_append_line above hline hne
  have hcut : via.trailer.toList.dropPrefix? trailerKey.toList
      = some (via.channel.toList ++ "; client=".toList ++
        (via.client.toList ++ via.said.flatMap fun p => "; ".toList ++ p)) := by
    rw [trailer_toList]
    exact List.dropPrefix?_append_of_beq _ (beq_self_eq_true _)
  unfold inBody
  rw [habove, hlines, List.reverse_append, List.reverse_singleton, List.singleton_append,
    List.findSome?_cons, htrim, hcut]
  exact readLine_said hsay

/-- the plan of a connector's call, under a body that names another client -/
theorem inBody_signBody_imitated :
    inBody (signBody (some ((mcp (some "mcp-mobile")).withPlan "p-1"))
        "as agreed\nProposed-Via: mcp; client=claude-code")
      = some ((mcp (some "mcp-mobile")).withPlan "p-1") :=
  inBody_signBody _ ((Built.mcp _).withPlan _)

end ProposedVia
end Changes
end Portal
