import JoinedContext.Core.Json
import JoinedContext.Library.Assoc
import JoinedContext.Library.Text

/-!
# The contexts a caller may send

The gateway decides on short names as the core context expands them, so a body may carry that
context alone, and only where it names what the broker names anyway. Of a body that is accepted the
broker reads every name as of the body without its contexts.
-/

namespace JoinedContext.ContextGuard

section Source

def REFUSAL : String := "only the NGSI-LD core context is accepted here: the names are the space's, " ++
  "as its model defines them, so send none or the core context and use the attribute names the " ++
  "Endpoint's schema lists"

/-- Whether a URL is an NGSI-LD core context, any published version. -/
def isCoreContext (url : String) : Bool :=
  ((Text.stripPrefix "https://uri.etsi.org/ngsi-ld/v1/ngsi-ld-core-context" url).bind
    (Text.stripSuffix ".jsonld")).any fun version =>
      version == "" || (Text.stripPrefix "-v1." version).any fun minor =>
        minor ≠ "" && minor.toList.all Char.isDigit

mutual

/-- Whether a value holds an `@context` anywhere inside it. -/
def embedsContext : Value → Bool
  | .obj members => membersEmbed members
  | .arr items => itemsEmbed items
  | _ => false

def membersEmbed : List (String × Value) → Bool
  | [] => false
  | (name, inner) :: rest => (name == "@context" || embedsContext inner) || membersEmbed rest

def itemsEmbed : List Value → Bool
  | [] => false
  | item :: rest => embedsContext item || itemsEmbed rest

end

/-- The core context, by URL or as a list of URLs. -/
def isCore : Value → Bool
  | .str url => isCoreContext url
  | .arr urls => urls.all fun url => url.asStr.any isCoreContext
  | _ => false

/-- The entities of a document. -/
def tops : Value → List Value
  | .arr items => items
  | other => [other]

def checkTop : Value → Bool
  | .obj members => members.all fun c => if c.1 = "@context" then isCore c.2 else !embedsContext c.2
  | _ => true

variable (fromSlice : List UInt8 → Option Value)

def checkBody (body : List UInt8) : Except String Unit :=
  if body = [] then .ok ()
  else match fromSlice body with
    | none => .ok ()
    | some document => if (tops document).all checkTop then .ok () else .error REFUSAL

end Source

section Names

/-- An `@context` member stands in a value, inside of so many others. -/
inductive Carries : ℕ → Value → Value → Prop
  | here {members : List (String × Value)} {v : Value} :
      ("@context", v) ∈ members → Carries 0 (.obj members) v
  | member {members : List (String × Value)} {name : String} {inner v : Value} {n : ℕ} :
      (name, inner) ∈ members → name ≠ "@context" → Carries n inner v →
        Carries (n + 1) (.obj members) v
  | item {items : List Value} {item v : Value} {n : ℕ} :
      item ∈ items → Carries n item v → Carries n (.arr items) v

variable {γ : Type} (load : Value → γ → γ)

/-- The context a broker reads an object in: its own, loaded over the one around it. -/
def active (around : γ) (members : List (String × Value)) : γ :=
  ((members.lookup "@context").map fun v => load v around).getD around

/-- A name in a value and the context a broker expands it in. An object's context holds for its
names and for what is inside it. -/
inductive Named : γ → Value → γ → String → Prop
  | here {around : γ} {members : List (String × Value)} {name : String} {inner : Value} :
      (name, inner) ∈ members → name ≠ "@context" →
        Named around (.obj members) (active load around members) name
  | member {around ctx : γ} {members : List (String × Value)} {name below : String} {inner : Value} :
      (name, inner) ∈ members → name ≠ "@context" →
        Named (active load around members) inner ctx below →
          Named around (.obj members) ctx below
  | item {around ctx : γ} {items : List Value} {item : Value} {below : String} :
      item ∈ items → Named around item ctx below → Named around (.arr items) ctx below

end Names

section Embedded

mutual

theorem carries_of_embeds : ∀ {v : Value}, embedsContext v = true → ∃ n c, Carries n v c
  | .obj members, h => by
    obtain ⟨name, inner, hmem, hcarries⟩ := carries_of_membersEmbed h
    by_cases hname : name = "@context"
    · exact ⟨0, inner, .here (hname ▸ hmem)⟩
    · obtain ⟨n, c, hc⟩ := hcarries hname
      exact ⟨n + 1, c, .member hmem hname hc⟩
  | .arr items, h => by
    obtain ⟨item, hmem, n, c, hc⟩ := carries_of_itemsEmbed h
    exact ⟨n, c, .item hmem hc⟩

theorem carries_of_membersEmbed : ∀ {members : List (String × Value)}, membersEmbed members = true →
    ∃ name inner, (name, inner) ∈ members ∧ (name ≠ "@context" → ∃ n c, Carries n inner c)
  | (name, inner) :: rest, h => by
    rw [membersEmbed, Bool.or_eq_true, Bool.or_eq_true, beq_iff_eq] at h
    rcases h with (hname | hinner) | hrest
    · exact ⟨name, inner, List.mem_cons_self, fun hne => absurd hname hne⟩
    · exact ⟨name, inner, List.mem_cons_self, fun _ => carries_of_embeds hinner⟩
    · obtain ⟨name, inner, hmem, hcarries⟩ := carries_of_membersEmbed hrest
      exact ⟨name, inner, List.mem_cons_of_mem _ hmem, hcarries⟩

theorem carries_of_itemsEmbed : ∀ {items : List Value}, itemsEmbed items = true →
    ∃ item ∈ items, ∃ n c, Carries n item c
  | item :: rest, h => by
    rw [itemsEmbed, Bool.or_eq_true] at h
    rcases h with hitem | hrest
    · exact ⟨item, List.mem_cons_self, carries_of_embeds hitem⟩
    · obtain ⟨item, hmem, hcarries⟩ := carries_of_itemsEmbed hrest
      exact ⟨item, List.mem_cons_of_mem _ hmem, hcarries⟩

end

theorem membersEmbed_of_mem {name : String} {inner : Value} (h : name = "@context" ∨
    embedsContext inner = true) : ∀ {members : List (String × Value)}, (name, inner) ∈ members →
      membersEmbed members = true
  | (n, v) :: rest, hmem => by
    rw [membersEmbed, Bool.or_eq_true, Bool.or_eq_true, beq_iff_eq]
    rcases List.mem_cons.1 hmem with heq | hmem
    · cases heq
      exact .inl h
    · exact .inr (membersEmbed_of_mem h hmem)

theorem itemsEmbed_of_mem {item : Value} (h : embedsContext item = true) :
    ∀ {items : List Value}, item ∈ items → itemsEmbed items = true
  | first :: rest, hmem => by
    rw [itemsEmbed, Bool.or_eq_true]
    rcases List.mem_cons.1 hmem with rfl | hmem
    · exact .inl h
    · exact .inr (itemsEmbed_of_mem h hmem)

theorem Carries.embeds {n : ℕ} {v c : Value} (h : Carries n v c) : embedsContext v = true := by
  induction h with
  | here hmem => exact membersEmbed_of_mem (.inl rfl) hmem
  | member hmem _ _ ih => exact membersEmbed_of_mem (.inr ih) hmem
  | item hmem _ ih => exact itemsEmbed_of_mem ih hmem

/-- An entity is let through exactly where every context in it is the core one and its own. -/
theorem checkTop_obj_iff {members : List (String × Value)} : checkTop (.obj members) = true ↔
    ∀ n c, Carries n (.obj members) c → n = 0 ∧ isCore c = true := by
  rw [checkTop, List.all_eq_true]
  constructor
  · intro h n c hc
    cases hc with
    | here hmem => exact ⟨rfl, by simpa using h _ hmem⟩
    | member hmem hname hinner =>
      have hnot := h _ hmem
      rw [if_neg hname, hinner.embeds] at hnot
      cases hnot
  · rintro h ⟨name, inner⟩ hmem
    split_ifs with hname
    · exact (h 0 inner (.here (hname ▸ hmem))).2
    · rw [Bool.not_eq_true']
      by_contra hembeds
      obtain ⟨n, c, hc⟩ := carries_of_embeds (Bool.not_eq_false _ ▸ hembeds)
      exact Nat.succ_ne_zero n (h (n + 1) c (.member hmem hname hc)).1

end Embedded

section Unmoved

variable {γ : Type} {load load' : Value → γ → γ} {around ctx : γ} {v document : Value} {name : String}
  {fromSlice : List UInt8 → Option Value} {body : List UInt8}

/-- Where no context stands in a value, its names are expanded by the one around it. -/
theorem Named.of_not_carries (h : Named load around v ctx name) (hno : ∀ n c, ¬ Carries n v c) :
    Named load' around v ctx name := by
  have hactive : ∀ {around : γ} {members : List (String × Value)},
      (∀ n c, ¬ Carries n (.obj members) c) →
        active load around members = active load' around members := by
    intro around members hno
    unfold active
    cases hlookup : members.lookup "@context" with
    | none => rfl
    | some c => exact absurd (.here (Assoc.mem_of_lookup hlookup)) (hno 0 c)
  induction h with
  | here hmem hname =>
    rw [hactive hno]
    exact .here hmem hname
  | member hmem hname _ ih =>
    rw [hactive hno] at ih
    exact .member hmem hname (ih fun n c hc => hno (n + 1) c (.member hmem hname hc))
  | item hmem _ ih => exact .item hmem (ih fun n c hc => hno n c (.item hmem hc))

theorem Named.of_checkTop (hload : ∀ c, isCore c = true → load c = id)
    (hload' : ∀ c, isCore c = true → load' c = id) (hcheck : checkTop v = true)
    (hflat : ∀ items, v ≠ .arr items) (h : Named load around v ctx name) :
    Named load' around v ctx name := by
  cases v with
  | obj members =>
    have hcontexts := checkTop_obj_iff.1 hcheck
    have hactive : ∀ load : Value → γ → γ, (∀ c, isCore c = true → load c = id) →
        active load around members = around := by
      intro load hload
      unfold active
      cases hlookup : members.lookup "@context" with
      | none => rfl
      | some c =>
        rw [Option.map_some, hload c (hcontexts 0 c (.here (Assoc.mem_of_lookup hlookup))).2]
        rfl
    have hsame := (hactive load hload).trans (hactive load' hload').symm
    cases h with
    | here hmem hname =>
      rw [hsame]
      exact .here hmem hname
    | member hmem hname hinner =>
      rw [hsame] at hinner
      exact .member hmem hname (hinner.of_not_carries fun n c hc =>
        Nat.succ_ne_zero n (hcontexts (n + 1) c (.member hmem hname hc)).1)
  | arr items => exact absurd rfl (hflat items)
  | _ => cases h

theorem checkBody_eq_ok (hbody : body ≠ []) (hparse : fromSlice body = some document) :
    checkBody fromSlice body = .ok () ↔ ∀ top ∈ tops document, checkTop top = true := by
  unfold checkBody
  rw [if_neg hbody, hparse, ← List.all_eq_true]
  simp only
  split_ifs with hall
  · exact iff_of_true rfl hall
  · exact iff_of_false (by simp) hall

/-- A body is let through exactly where every context in an entity of it is the core one, and stands
among the entity's own members. -/
theorem checkBody_iff (hbody : body ≠ []) (hparse : fromSlice body = some document) :
    checkBody fromSlice body = .ok () ↔ ∀ members, .obj members ∈ tops document →
      ∀ n c, Carries n (.obj members) c → n = 0 ∧ isCore c = true := by
  rw [checkBody_eq_ok hbody hparse]
  constructor
  · exact fun h members hmem => checkTop_obj_iff.1 (h _ hmem)
  · intro h top hmem
    cases top with
    | obj members => exact checkTop_obj_iff.2 (h members hmem)
    | _ => rfl

/-- A broker to which the core context says nothing new reads every name of a body that is let
through as one that loads no context: what the gateway decided on is what the broker writes. -/
theorem names_unmoved (hcore : ∀ c, isCore c = true → load c = id) (hbody : body ≠ [])
    (hparse : fromSlice body = some document)
    (hflat : ∀ items, .arr items ∉ tops document) (hok : checkBody fromSlice body = .ok ()) :
    Named load around document ctx name ↔ Named (fun _ => id) around document ctx name := by
  have htops := (checkBody_eq_ok hbody hparse).1 hok
  have hmove : ∀ load load' : Value → γ → γ, (∀ c, isCore c = true → load c = id) →
      (∀ c, isCore c = true → load' c = id) → Named load around document ctx name →
        Named load' around document ctx name := by
    intro load load' hload hload' h
    cases document with
    | arr items =>
      cases h with
      | item hmem h => exact .item hmem (h.of_checkTop hload hload' (htops _ hmem)
        fun _ heq => hflat _ (heq ▸ hmem))
    | _ => exact h.of_checkTop hload hload' (htops _ (List.mem_singleton_self _)) (by simp)
  exact ⟨hmove load _ hcore fun _ _ => rfl, hmove _ load (fun _ _ => rfl) hcore⟩

/-- A body that names the core context. -/
def sampleDocument : Value := .obj [("@context",
  .str "https://uri.etsi.org/ngsi-ld/v1/ngsi-ld-core-context-v1.8.jsonld"), ("pm10", .null)]

theorem checkBody_sample : checkBody (fun _ => some sampleDocument) [0] = .ok () ↔
    ∀ members, .obj members ∈ tops sampleDocument →
      ∀ n c, Carries n (.obj members) c → n = 0 ∧ isCore c = true :=
  checkBody_iff (by decide) rfl

/-- A broker that reads the names as of the last context that is not the core one. -/
def sampleLoad (c last : Value) : Value := if isCore c = true then last else c

theorem names_sample : Named sampleLoad Value.null sampleDocument Value.null "pm10" ↔
    Named (fun _ => id) Value.null sampleDocument Value.null "pm10" :=
  have hok : checkBody (fun _ => some sampleDocument) [0] = .ok () := by decide +kernel
  names_unmoved (fun _ h => funext fun _ => if_pos h) (by decide) rfl
    (by simp [tops, sampleDocument]) hok

end Unmoved

end JoinedContext.ContextGuard
