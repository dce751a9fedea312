import JoinedContext.Auth.Subject
import JoinedContext.Library.Assoc
import JoinedContext.Library.Machine

/-!
# Previews beside main

The tables of the merged repository, with the Endpoints and spaces of every preview that renders. A
preview's Endpoint under a slug that is taken, or on a tenant that is answered for, is left out, and
what is added answers the preview's readers alone.
-/

namespace JoinedContext.Gateway.Previews

open Auth

/-- What a repository renders: its Endpoints, and the surfaces of its spaces. -/
structure Render where
  endpoints : List Endpoint
  spaces : List Endpoint
  segments : ∀ s ∈ spaces, s.slug = s.space := by simp

structure Preview extends Render where
  readers : Finset String

inductive Kind where
  | endpoint
  | space
deriving DecidableEq

/-- An Endpoint or a space as it is served, with the preview that added it, by its number, and whom it
answers then. -/
structure Surface extends Endpoint where
  kind : Kind
  preview : Option (ℕ × PreviewReaders)

def Surface.path (s : Surface) : String :=
  match s.kind with
  | .endpoint => "/api/endpoint/" ++ s.slug
  | .space => "/cs/" ++ s.slug

/-- The tables, with how many previews they hold. -/
structure Tables where
  endpoints : List Surface
  spaces : List Surface
  audited : List String
  previews : List (String × PreviewReaders) := []
  loaded : ℕ := 0

section Source

/-- The tables of the merged repository. -/
def main (merged : Render) (audited : List String) : Tables where
  endpoints := merged.endpoints.map fun e => ⟨e, .endpoint, none⟩
  spaces := merged.spaces.map fun e => ⟨e, .space, none⟩
  audited := audited

/-- A surface closed to everyone whom the reader table does not name. -/
def closed (kind : Kind) (n : ℕ) (readers : Finset String) (e : Endpoint) : Surface where
  toEndpoint := { e with audience := .projectList, allowedProjects := [] }
  kind := kind
  preview := some (n, ⟨readers, e.audience⟩)

namespace Tables

variable (t : Tables)

def surfaces : List Surface := t.endpoints ++ t.spaces

def slugs : List String := t.endpoints.map fun s => s.slug

/-- Every tenant already answered for. -/
def segments : List String := t.spaces.map (fun s => s.space) ++ t.endpoints.map fun s => s.space

def readersOf (slug : String) (readers : PreviewReaders) : Tables :=
  { t with audited := slug :: t.audited, previews := Assoc.put slug readers t.previews }

def pushEndpoint (slugs segments : List String) (readers : Finset String) (t : Tables) (e : Endpoint) : Tables :=
  if e.slug ∈ slugs ∨ e.space ∈ segments then t
  else
    let t := t.readersOf e.slug ⟨readers, e.audience⟩
    { t with endpoints := t.endpoints ++ [closed .endpoint t.loaded readers e] }

def pushSpace (segments : List String) (readers : Finset String) (t : Tables) (e : Endpoint) : Tables :=
  if e.space ∈ segments then t
  else
    let t := t.readersOf e.slug ⟨readers, e.audience⟩
    { t with spaces := t.spaces ++ [closed .space t.loaded readers e] }

def load (p : Preview) : Tables :=
  let slugs := t.slugs
  let segments := t.segments
  let t := p.endpoints.foldl (pushEndpoint slugs segments p.readers) t
  let t := p.spaces.foldl (pushSpace segments p.readers) t
  { t with loaded := t.loaded + 1 }

/-- The Endpoints of a preview that are let through. -/
def newEndpoints (p : Preview) : List Surface :=
  (p.endpoints.filter fun e => ¬(e.slug ∈ t.slugs ∨ e.space ∈ t.segments)).map
    (closed .endpoint t.loaded p.readers)

/-- The spaces of a preview that are let through. -/
def newSpaces (p : Preview) : List Surface :=
  (p.spaces.filter fun e => ¬e.space ∈ t.segments).map (closed .space t.loaded p.readers)

def new (p : Preview) : List Surface := t.newEndpoints p ++ t.newSpaces p

end Tables

def loadWithPreviews (merged : Render) (audited : List String) (previews : List Preview) : Tables :=
  Machine.run Tables.load (main merged audited) previews

end Source

section Property

variable (projects : List String)

/-- A preview's surface answers its own readers and nobody else, whatever project of theirs a caller
names. -/
structure Answers (t : Tables) (s : Surface) (readers : PreviewReaders) : Prop where
  listed : t.previews.lookup s.slug = some readers
  audited : s.slug ∈ t.audited
  anonymous : s.admits none = false
  closed : ∀ project ∈ projects, s.admits (some project) = false
  subject : ∀ (gateway : Gateway) (now : Instant) (claims : Claims) (caller : Caller),
    gateway.previews = t.previews → subjectFrom gateway s.toEndpoint now claims = .ok caller →
      claims.sub ∈ readers.readers

/-- What was served before is served as it was, no surface of a preview has a slug, a path or, another's,
a tenant of any other, and each answers its readers alone. -/
structure Beside (before t : Tables) : Prop where
  endpoints : ∃ more, t.endpoints = before.endpoints ++ more ∧ ∀ s ∈ more, s.preview.isSome
  spaces : ∃ more, t.spaces = before.spaces ++ more ∧ ∀ s ∈ more, s.preview.isSome
  same : ∀ s ∈ before.surfaces, t.previews.lookup s.slug = before.previews.lookup s.slug ∧
    (s.slug ∈ t.audited ↔ s.slug ∈ before.audited)
  apart : t.surfaces.Pairwise fun a b => a.preview.isSome ∨ b.preview.isSome →
    a.slug ≠ b.slug ∧ a.path ≠ b.path
  tenants : ∀ a ∈ t.surfaces, ∀ b ∈ t.surfaces, b.preview.isSome →
    a.preview.map Prod.fst ≠ b.preview.map Prod.fst → a.space ≠ b.space
  answers : ∀ s ∈ t.surfaces, ∀ n readers, s.preview = some (n, readers) → Answers projects t s readers

/-- What is let through of a preview has a slug and a segment each of its own, no Endpoint the segment of
a space or a space the slug of an Endpoint, and none is of a project that callers belong to. -/
structure Apart (t : Tables) (p : Preview) : Prop where
  endpoints : ((t.newEndpoints p).map fun s => s.slug).Nodup
  spaces : ((t.newSpaces p).map fun s => s.slug).Nodup
  crossed : (∀ e ∈ t.newEndpoints p, ∀ s ∈ t.spaces ++ t.newSpaces p, e.slug ≠ s.slug) ∧
    ∀ s ∈ t.newSpaces p, ∀ e ∈ t.endpoints, s.slug ≠ e.slug
  projects : ∀ s ∈ t.newEndpoints p ++ t.newSpaces p, s.project ∉ projects

end Property

section Load

variable {t : Tables} {p : Preview} {slugs segments : List String} {readers : Finset String} {s : Surface}
  {slug : String}

/-- Whom a preview's surface answers. -/
def Surface.answered (s : Surface) : PreviewReaders := (s.preview.map Prod.snd).getD ⟨∅, .public⟩

/-- The tables with one more surface of a preview. -/
def Tables.add (t : Tables) (s : Surface) : Tables where
  endpoints := if s.kind = .endpoint then t.endpoints ++ [s] else t.endpoints
  spaces := if s.kind = .space then t.spaces ++ [s] else t.spaces
  audited := s.slug :: t.audited
  previews := Assoc.put s.slug s.answered t.previews
  loaded := t.loaded

theorem foldl_pushEndpoint (endpoints : List Endpoint) (t : Tables) :
    endpoints.foldl (Tables.pushEndpoint slugs segments readers) t =
      ((endpoints.filter fun e => ¬(e.slug ∈ slugs ∨ e.space ∈ segments)).map
        (closed .endpoint t.loaded readers)).foldl Tables.add t := by
  induction endpoints generalizing t with
  | nil => rfl
  | cons e endpoints ih =>
    rw [List.foldl_cons, ih, Tables.pushEndpoint]
    by_cases h : e.slug ∈ slugs ∨ e.space ∈ segments
    · rw [if_pos h, List.filter_cons_of_neg (by rw [decide_eq_true_eq]; exact not_not_intro h)]
    · rw [if_neg h, List.filter_cons_of_pos (by rw [decide_eq_true_eq]; exact h), List.map_cons,
        List.foldl_cons]
      rfl

theorem foldl_pushSpace (spaces : List Endpoint) (t : Tables) :
    spaces.foldl (Tables.pushSpace segments readers) t =
      ((spaces.filter fun e => ¬e.space ∈ segments).map (closed .space t.loaded readers)).foldl
        Tables.add t := by
  induction spaces generalizing t with
  | nil => rfl
  | cons e spaces ih =>
    rw [List.foldl_cons, ih, Tables.pushSpace]
    by_cases h : e.space ∈ segments
    · rw [if_pos h, List.filter_cons_of_neg (by simpa using h)]
    · rw [if_neg h, List.filter_cons_of_pos (by simpa using h), List.map_cons, List.foldl_cons]
      rfl

theorem foldl_add (added : List Surface) (t : Tables) : added.foldl Tables.add t =
    { endpoints := t.endpoints ++ added.filter fun s => s.kind = .endpoint
      spaces := t.spaces ++ added.filter fun s => s.kind = .space
      audited := (added.map fun s => s.slug).reverse ++ t.audited
      previews := added.foldl (fun l s => Assoc.put s.slug s.answered l) t.previews
      loaded := t.loaded } := by
  induction added generalizing t with
  | nil => simp
  | cons s added ih =>
    rw [List.foldl_cons, ih]
    cases hkind : s.kind <;> simp [Tables.add, hkind]

theorem load_eq : t.load p = { (t.new p).foldl Tables.add t with loaded := t.loaded + 1 } := by
  have hendpoints : p.endpoints.foldl (Tables.pushEndpoint t.slugs t.segments p.readers) t =
      (t.newEndpoints p).foldl Tables.add t := foldl_pushEndpoint p.endpoints t
  have hloaded : ((t.newEndpoints p).foldl Tables.add t).loaded = t.loaded := by rw [foldl_add]
  have hspaces : p.spaces.foldl (Tables.pushSpace t.segments p.readers)
      ((t.newEndpoints p).foldl Tables.add t) = (t.new p).foldl Tables.add t := by
    rw [foldl_pushSpace, hloaded, Tables.new, List.foldl_append]
    rfl
  have hsame : ((t.new p).foldl Tables.add t).loaded = t.loaded := by rw [foldl_add]
  unfold Tables.load
  simp only [hendpoints, hspaces, hsame]

/-- What a preview adds is its own, closed, and on a tenant nobody answers for yet. -/
structure New (t : Tables) (p : Preview) (s : Surface) : Prop where
  preview : ∃ audience, s.preview = some (t.loaded, ⟨p.readers, audience⟩)
  closed : s.audience = .projectList ∧ s.allowedProjects = []
  tenant : s.space ∉ t.segments

theorem mem_newEndpoints (h : s ∈ t.newEndpoints p) : New t p s ∧ s.kind = .endpoint ∧ s.slug ∉ t.slugs := by
  obtain ⟨e, he, rfl⟩ := List.mem_map.1 h
  have hlet := (List.mem_filter.1 he).2
  simp only [not_or, decide_eq_true_eq] at hlet
  exact ⟨⟨⟨e.audience, rfl⟩, ⟨rfl, rfl⟩, hlet.2⟩, rfl, hlet.1⟩

theorem mem_newSpaces (h : s ∈ t.newSpaces p) : New t p s ∧ s.kind = .space ∧ s.slug = s.space := by
  obtain ⟨e, he, rfl⟩ := List.mem_map.1 h
  obtain ⟨hmem, hlet⟩ := List.mem_filter.1 he
  simp only [decide_eq_true_eq] at hlet
  exact ⟨⟨⟨e.audience, rfl⟩, ⟨rfl, rfl⟩, hlet⟩, rfl, p.segments e hmem⟩

theorem mem_new (h : s ∈ t.new p) : New t p s := by
  rcases List.mem_append.1 h with h | h
  · exact (mem_newEndpoints h).1
  · exact (mem_newSpaces h).1

theorem filter_new : (t.new p).filter (fun s => s.kind = .endpoint) = t.newEndpoints p ∧
    (t.new p).filter (fun s => s.kind = .space) = t.newSpaces p := by
  unfold Tables.new
  rw [List.filter_append, List.filter_append]
  constructor
  · rw [List.filter_eq_self.2 fun s hs => by simp [(mem_newEndpoints hs).2.1],
      List.filter_eq_nil_iff.2 fun s hs => by simp [(mem_newSpaces hs).2.1], List.append_nil]
  · rw [List.filter_eq_nil_iff.2 fun s hs => by simp [(mem_newEndpoints hs).2.1],
      List.filter_eq_self.2 fun s hs => by simp [(mem_newSpaces hs).2.1], List.nil_append]

theorem load_endpoints : (t.load p).endpoints = t.endpoints ++ t.newEndpoints p := by
  rw [load_eq, foldl_add, filter_new.1]

theorem load_spaces : (t.load p).spaces = t.spaces ++ t.newSpaces p := by
  rw [load_eq, foldl_add, filter_new.2]

theorem mem_audited_load : slug ∈ (t.load p).audited ↔ (∃ s ∈ t.new p, s.slug = slug) ∨ slug ∈ t.audited := by
  rw [load_eq, foldl_add]
  simp

theorem lookup_previews_load : (t.load p).previews.lookup slug =
    ((((t.new p).filter fun s => s.slug = slug).getLast?.map Surface.answered) <|>
      t.previews.lookup slug) := by
  rw [load_eq, foldl_add]
  exact Assoc.lookup_foldl_put _ _

theorem surfaces_load : ((t.load p).surfaces).Perm (t.surfaces ++ t.new p) := by
  unfold Tables.surfaces Tables.new
  rw [load_endpoints, load_spaces, List.append_assoc, List.append_assoc]
  refine List.Perm.append_left _ ?_
  rw [← List.append_assoc, ← List.append_assoc]
  exact List.perm_append_comm.append_right _

theorem mem_surfaces_load : s ∈ (t.load p).surfaces ↔ s ∈ t.surfaces ∨ s ∈ t.new p := by
  rw [surfaces_load.mem_iff, List.mem_append]

end Load

section Invariant

variable {projects : List String} {before t : Tables} {p : Preview} {s : Surface}

/-- The tables as loads leave them: what was there before first, then the surfaces of previews, each
closed, listed and audited, on tenants apart; and the reader table names them alone. -/
structure Sound (before t : Tables) : Prop where
  endpoints : ∃ more, t.endpoints = before.endpoints ++ more ∧ ∀ s ∈ more, s.preview.isSome
  spaces : ∃ more, t.spaces = before.spaces ++ more ∧ ∀ s ∈ more, s.preview.isSome
  segments : ∀ s ∈ t.spaces, s.slug = s.space
  closed : ∀ s ∈ t.surfaces, s.preview.isSome → s.audience = .projectList ∧ s.allowedProjects = []
  held : ∀ s ∈ t.surfaces, s.preview.isSome → (t.previews.lookup s.slug).isSome ∧ s.slug ∈ t.audited
  listed : ∀ slug readers, t.previews.lookup slug = some readers →
    ∃ s ∈ t.surfaces, s.slug = slug ∧ ∃ n, s.preview = some (n, readers)
  audited : ∀ slug ∈ t.audited,
    slug ∈ before.audited ∨ ∃ s ∈ t.surfaces, s.preview.isSome ∧ s.slug = slug
  kept : ∀ slug ∈ before.audited, slug ∈ t.audited
  numbers : ∀ s ∈ t.surfaces, ∀ n readers, s.preview = some (n, readers) → n < t.loaded
  tenants : ∀ a ∈ t.surfaces, ∀ b ∈ t.surfaces, b.preview.isSome →
    a.preview.map Prod.fst ≠ b.preview.map Prod.fst → a.space ≠ b.space

theorem preview_of_mem_main {merged : Render} {audited : List String}
    (hs : s ∈ (main merged audited).surfaces) : s.preview = none := by
  rcases List.mem_append.1 hs with hs | hs
  · obtain ⟨e, -, rfl⟩ := List.mem_map.1 hs
    rfl
  · obtain ⟨e, -, rfl⟩ := List.mem_map.1 hs
    rfl

theorem Sound.main (merged : Render) (audited : List String) :
    Sound (main merged audited) (main merged audited) := by
  have hfalse : ∀ s ∈ (Previews.main merged audited).surfaces, s.preview.isSome → False :=
    fun s hs hsome => by simp [preview_of_mem_main hs] at hsome
  refine ⟨⟨[], by simp, by simp⟩, ⟨[], by simp, by simp⟩, fun s hs => ?_,
    fun s hs hsome => (hfalse s hs hsome).elim, fun s hs hsome => (hfalse s hs hsome).elim,
    fun slug readers hlookup => ?_, fun slug hslug => Or.inl hslug, fun slug hslug => hslug,
    fun s hs n readers hpreview => ?_, fun a _ b hb hsome => (hfalse b hb hsome).elim⟩
  · obtain ⟨e, he, rfl⟩ := List.mem_map.1 hs
    exact merged.segments e he
  · cases hlookup
  · cases (preview_of_mem_main hs).symm.trans hpreview

theorem mem_segments (h : s ∈ t.surfaces) : s.space ∈ t.segments := by
  unfold Tables.segments
  rcases List.mem_append.1 h with h | h
  · exact List.mem_append_right _ (List.mem_map.2 ⟨s, h, rfl⟩)
  · exact List.mem_append_left _ (List.mem_map.2 ⟨s, h, rfl⟩)

theorem New.answered (h : New t p s) : s.preview = some (t.loaded, s.answered) := by
  obtain ⟨audience, hpreview⟩ := h.preview
  unfold Surface.answered
  rw [hpreview]
  rfl

theorem Sound.load (h : Sound before t) : Sound before (t.load p) where
  endpoints := by
    obtain ⟨more, hmore, hsome⟩ := h.endpoints
    refine ⟨more ++ t.newEndpoints p, by rw [load_endpoints, hmore, List.append_assoc], fun s hs => ?_⟩
    rcases List.mem_append.1 hs with hs | hs
    · exact hsome s hs
    · rw [(mem_newEndpoints hs).1.answered]
      rfl
  spaces := by
    obtain ⟨more, hmore, hsome⟩ := h.spaces
    refine ⟨more ++ t.newSpaces p, by rw [load_spaces, hmore, List.append_assoc], fun s hs => ?_⟩
    rcases List.mem_append.1 hs with hs | hs
    · exact hsome s hs
    · rw [(mem_newSpaces hs).1.answered]
      rfl
  segments s hs := by
    rw [load_spaces] at hs
    rcases List.mem_append.1 hs with hs | hs
    · exact h.segments s hs
    · exact (mem_newSpaces hs).2.2
  closed s hs hsome := by
    rcases mem_surfaces_load.1 hs with hs | hs
    · exact h.closed s hs hsome
    · exact (mem_new hs).closed
  held s hs hsome := by
    rw [mem_audited_load, lookup_previews_load]
    rcases mem_surfaces_load.1 hs with hs | hs
    · obtain ⟨hlookup, haudited⟩ := h.held s hs hsome
      refine ⟨?_, Or.inr haudited⟩
      rw [Option.orElse_eq_orElse, Option.orElse_eq_or, Option.isSome_or, hlookup, Bool.or_true]
    · refine ⟨?_, Or.inl ⟨s, hs, rfl⟩⟩
      have hmem : s ∈ (t.new p).filter fun a => a.slug = s.slug := List.mem_filter.2 ⟨hs, by simp⟩
      rw [List.getLast?_eq_some_getLast (List.ne_nil_of_mem hmem)]
      rfl
  listed slug readers hlookup := by
    rw [lookup_previews_load] at hlookup
    rcases Option.eq_none_or_eq_some ((t.new p).filter fun s => s.slug = slug).getLast? with hlast | ⟨s, hlast⟩
    · rw [hlast] at hlookup
      obtain ⟨s, hs, hslug⟩ := h.listed slug readers hlookup
      exact ⟨s, mem_surfaces_load.2 (Or.inl hs), hslug⟩
    · rw [hlast] at hlookup
      obtain rfl : s.answered = readers := Option.some.inj hlookup
      obtain ⟨hs, hslug⟩ := List.mem_filter.1 (List.mem_of_getLast? hlast)
      exact ⟨s, mem_surfaces_load.2 (Or.inr hs), of_decide_eq_true hslug, _, (mem_new hs).answered⟩
  audited slug hslug := by
    rcases mem_audited_load.1 hslug with ⟨s, hs, rfl⟩ | hslug
    · exact Or.inr ⟨s, mem_surfaces_load.2 (Or.inr hs), by rw [(mem_new hs).answered]; rfl, rfl⟩
    · refine (h.audited slug hslug).imp_right ?_
      rintro ⟨s, hs, hsome⟩
      exact ⟨s, mem_surfaces_load.2 (Or.inl hs), hsome⟩
  kept slug hslug := mem_audited_load.2 (Or.inr (h.kept slug hslug))
  numbers s hs n readers hpreview := by
    have hloaded : (t.load p).loaded = t.loaded + 1 := by rw [load_eq]
    rw [hloaded]
    rcases mem_surfaces_load.1 hs with hs | hs
    · exact Nat.lt_succ_of_lt (h.numbers s hs n readers hpreview)
    · rw [(mem_new hs).answered] at hpreview
      obtain ⟨rfl, -⟩ := Prod.mk.inj (Option.some.inj hpreview)
      exact Nat.lt_succ_self _
  tenants a ha b hb hsome hne := by
    rcases mem_surfaces_load.1 ha with ha | ha
    · rcases mem_surfaces_load.1 hb with hb | hb
      · exact h.tenants a ha b hb hsome hne
      · exact fun heq => (mem_new hb).tenant (heq ▸ mem_segments ha)
    · rcases mem_surfaces_load.1 hb with hb | hb
      · exact fun heq => (mem_new ha).tenant (heq ▸ mem_segments hb)
      · rw [(mem_new ha).answered, (mem_new hb).answered] at hne
        exact absurd rfl hne

end Invariant

section Slugs

variable {projects : List String} {before t : Tables} {p : Preview} {s : Surface}

/-- Two surfaces, one of them a preview's, under two slugs. -/
def Distinct (a b : Surface) : Prop := a.preview.isSome ∨ b.preview.isSome → a.slug ≠ b.slug

theorem Distinct.symm {a b : Surface} (h : Distinct a b) : Distinct b a := fun hsome => (h hsome.symm).symm

/-- The slugs are distinct, and no preview's surface is of a project that callers belong to. -/
def Core (projects : List String) (t : Tables) : Prop :=
  t.surfaces.Pairwise Distinct ∧ ∀ s ∈ t.surfaces, s.preview.isSome → s.project ∉ projects

theorem pairwise_distinct {l : List Surface} (hsome : ∀ s ∈ l, s.preview.isSome) :
    l.Pairwise Distinct ↔ (l.map fun s => s.slug).Nodup := by
  rw [List.Nodup, List.pairwise_map]
  constructor
  · intro h
    exact h.imp_of_mem fun ha _ hab => hab (Or.inl (hsome _ ha))
  · intro h
    exact h.imp (S := Distinct) fun hab _ => hab

/-- A load keeps the slugs distinct exactly where what is let through is apart. -/
theorem core_load_iff (hsegments : ∀ s ∈ t.spaces, s.slug = s.space) :
    Core projects (t.load p) ↔ Core projects t ∧ Apart projects t p := by
  have hsome : ∀ s ∈ t.new p, s.preview.isSome := fun s hs => by
    rw [(mem_new hs).answered]
    rfl
  have hleft : ∀ s ∈ t.newEndpoints p, s ∈ t.new p := fun s hs => List.mem_append_left _ hs
  have hright : ∀ s ∈ t.newSpaces p, s ∈ t.new p := fun s hs => List.mem_append_right _ hs
  unfold Core
  rw [surfaces_load.pairwise_iff fun {a b} => Distinct.symm, List.pairwise_append]
  constructor
  · rintro ⟨⟨hold, hnew, hcross⟩, hprojects⟩
    obtain ⟨hendpoints, hspaces, hbetween⟩ := List.pairwise_append.1 hnew
    refine ⟨⟨hold, fun s hs => hprojects s (mem_surfaces_load.2 (Or.inl hs))⟩,
      (pairwise_distinct fun s hs => hsome s (hleft s hs)).1 hendpoints,
      (pairwise_distinct fun s hs => hsome s (hright s hs)).1 hspaces, ⟨fun e he s hs => ?_,
        fun s hs e he => ?_⟩, fun s hs => hprojects s (mem_surfaces_load.2 (Or.inr hs)) (hsome s hs)⟩
    · rcases List.mem_append.1 hs with hs | hs
      · exact (hcross s (List.mem_append_right _ hs) e (hleft e he) (Or.inr (hsome e (hleft e he)))).symm
      · exact hbetween e he s hs (Or.inl (hsome e (hleft e he)))
    · exact (hcross e (List.mem_append_left _ he) s (hright s hs) (Or.inr (hsome s (hright s hs)))).symm
  · rintro ⟨⟨hold, hprojects⟩, hapart⟩
    refine ⟨⟨hold, List.pairwise_append.2
      ⟨(pairwise_distinct fun s hs => hsome s (hleft s hs)).2 hapart.endpoints,
        (pairwise_distinct fun s hs => hsome s (hright s hs)).2 hapart.spaces,
        fun e he s hs _ => hapart.crossed.1 e he s (List.mem_append_right _ hs)⟩, ?_⟩, fun s hs => ?_⟩
    · intro a ha b hb _
      rcases List.mem_append.1 ha with ha | ha
      · rcases List.mem_append.1 hb with hb | hb
        · exact fun heq => (mem_newEndpoints hb).2.2 (List.mem_map.2 ⟨a, ha, heq⟩)
        · exact (hapart.crossed.2 b hb a ha).symm
      · rcases List.mem_append.1 hb with hb | hb
        · exact (hapart.crossed.1 b hb a (List.mem_append_left _ ha)).symm
        · intro heq
          have hsegment := mem_segments (List.mem_append_right t.endpoints ha)
          rw [← hsegments a ha, heq, (mem_newSpaces hb).2.2] at hsegment
          exact (mem_newSpaces hb).1.tenant hsegment
    · rcases mem_surfaces_load.1 hs with hs | hs
      · exact hprojects s hs
      · exact fun _ => hapart.projects s hs

/-- Loads keep the slugs distinct exactly where each is of a preview that is apart. -/
theorem core_run_iff {ps : List Preview} (hsound : Sound before t) (hcore : Core projects t) :
    Core projects (Machine.run Tables.load t ps) ↔ Machine.Along Tables.load (Apart projects) t ps := by
  have hback : ∀ (ps : List Preview) (t : Tables), Sound before t →
      Core projects (Machine.run Tables.load t ps) → Core projects t := by
    intro ps
    induction ps with
    | nil => exact fun t _ h => h
    | cons p ps ih => exact fun t hsound h => ((core_load_iff hsound.segments).1 (ih _ hsound.load h)).1
  induction ps generalizing t with
  | nil => exact ⟨fun _ => trivial, fun _ => hcore⟩
  | cons p ps ih =>
    rw [Machine.run_cons, Machine.Along]
    constructor
    · intro h
      have hload := hback ps _ hsound.load h
      exact ⟨((core_load_iff hsound.segments).1 hload).2, (ih hsound.load hload).1 h⟩
    · rintro ⟨hapart, halong⟩
      exact (ih hsound.load ((core_load_iff hsound.segments).2 ⟨hcore, hapart⟩)).2 halong

end Slugs

section Answers

variable {projects : List String} {before t : Tables} {s a b : Surface} {n : ℕ} {readers : PreviewReaders}

/-- Whoever a preview's surface answers is one of its readers. -/
theorem mem_readers_of_subjectFrom {gateway : Gateway} {now : Instant} {claims : Claims} {caller : Caller}
    (hlookup : gateway.previews.lookup s.slug = some readers)
    (hok : subjectFrom gateway s.toEndpoint now claims = .ok caller) : claims.sub ∈ readers.readers := by
  unfold subjectFrom at hok
  split_ifs at hok
  unfold asserted at hok
  rw [hlookup] at hok
  simp only [] at hok
  unfold previewReader at hok
  simp only [] at hok
  by_contra hmem
  rw [if_pos (Or.inr hmem)] at hok
  cases hok

theorem path_ne (h : a.slug ≠ b.slug) : a.path ≠ b.path := by
  intro heq
  have hlist := congrArg String.toList heq
  unfold Surface.path at hlist
  cases ha : a.kind <;> cases hb : b.kind <;> simp [ha, hb] at hlist
  · exact h (String.toList_inj.1 hlist)
  · exact h (String.toList_inj.1 hlist)

theorem slug_inj (h : t.surfaces.Pairwise Distinct) (ha : a ∈ t.surfaces) (hb : b ∈ t.surfaces)
    (hsome : a.preview.isSome) (heq : a.slug = b.slug) : a = b := by
  by_contra hne
  have : Std.Symm Distinct := ⟨fun _ _ => Distinct.symm⟩
  exact h.forall ha hb hne (Or.inl hsome) heq

theorem Sound.answers (h : Sound before t) (hcore : Core projects t) (hs : s ∈ t.surfaces)
    (hpreview : s.preview = some (n, readers)) : Answers projects t s readers := by
  have hsome : s.preview.isSome := by simp [hpreview]
  obtain ⟨hlookup, haudited⟩ := h.held s hs hsome
  obtain ⟨haudience, hallowed⟩ := h.closed s hs hsome
  have hlisted : t.previews.lookup s.slug = some readers := by
    obtain ⟨r, hr⟩ := Option.isSome_iff_exists.1 hlookup
    obtain ⟨s', hs', hslug, m, hpreview'⟩ := h.listed s.slug r hr
    obtain rfl := slug_inj hcore.1 hs hs' hsome hslug.symm
    obtain ⟨-, rfl⟩ := Prod.mk.inj (Option.some.inj (hpreview.symm.trans hpreview'))
    exact hr
  refine ⟨hlisted, haudited, ?_, fun project hproject => ?_, fun gateway now claims caller hgateway hok => ?_⟩
  · simp [Endpoint.admits, haudience]
  · have hne : project ≠ s.project := fun heq => hcore.2 s hs hsome (heq ▸ hproject)
    simp [Endpoint.admits, haudience, hallowed, hne]
  · exact mem_readers_of_subjectFrom (hgateway ▸ hlisted) hok

/-- Distinct slugs make previews stand beside what is served without them. -/
theorem Sound.beside (h : Sound before t) (hcore : Core projects t)
    (hbefore : ∀ s ∈ before.surfaces, s.preview = none) (hnone : before.previews = []) :
    Beside projects before t where
  endpoints := h.endpoints
  spaces := h.spaces
  same s hs := by
    have hmem : s ∈ t.surfaces := by
      obtain ⟨more, hmore, -⟩ := h.endpoints
      obtain ⟨more', hmore', -⟩ := h.spaces
      unfold Tables.surfaces at hs ⊢
      rw [hmore, hmore']
      rcases List.mem_append.1 hs with hs | hs
      · exact List.mem_append_left _ (List.mem_append_left _ hs)
      · exact List.mem_append_right _ (List.mem_append_left _ hs)
    -- a preview's surface under this slug would be the surface itself
    have hother : ∀ s' ∈ t.surfaces, s'.preview.isSome → s'.slug = s.slug → False := by
      intro s' hs' hsome hslug
      rw [slug_inj hcore.1 hs' hmem hsome hslug, hbefore s hs] at hsome
      cases hsome
    refine ⟨?_, fun haudited => ?_, h.kept s.slug⟩
    · rw [hnone, List.lookup_nil]
      by_contra hlookup
      obtain ⟨r, hr⟩ := Option.ne_none_iff_exists'.1 hlookup
      obtain ⟨s', hs', hslug, m, hpreview⟩ := h.listed s.slug r hr
      exact hother s' hs' (by simp [hpreview]) hslug
    · rcases h.audited s.slug haudited with haudited | ⟨s', hs', hsome, hslug⟩
      · exact haudited
      · exact (hother s' hs' hsome hslug).elim
  apart := hcore.1.imp fun hab hsome => ⟨hab hsome, path_ne (hab hsome)⟩
  tenants := h.tenants
  answers _ hs _ _ hpreview := h.answers hcore hs hpreview

theorem Sound.core (h : Sound before t) (hbeside : Beside projects before t) : Core projects t := by
  refine ⟨hbeside.apart.imp (S := Distinct) fun hab hsome => (hab hsome).1, fun s hs hsome hproject => ?_⟩
  obtain ⟨⟨n, readers⟩, hpreview⟩ := Option.isSome_iff_exists.1 hsome
  have hclosed := (hbeside.answers s hs n readers hpreview).closed s.project hproject
  simp [Endpoint.admits, (h.closed s hs hsome).1] at hclosed

/-- The previews stand beside main exactly where what is let through of each is apart. -/
theorem beside_iff {merged : Render} {audited : List String} {previews : List Preview} :
    Beside projects (main merged audited) (loadWithPreviews merged audited previews) ↔
      Machine.Along Tables.load (Apart projects) (main merged audited) previews := by
  have hcore : Core projects (main merged audited) := by
    have hfalse : ∀ s ∈ (main merged audited).surfaces, ¬ s.preview.isSome := fun s hs => by
      simp [preview_of_mem_main hs]
    refine ⟨List.pairwise_of_forall_mem_list fun a ha b hb hsome => ?_,
      fun s hs hsome => (hfalse s hs hsome).elim⟩
    exact (hsome.elim (hfalse a ha) (hfalse b hb)).elim
  have hsound : Sound (main merged audited) (loadWithPreviews merged audited previews) :=
    Machine.run_preserves (fun _ _ hs => hs.load) (Sound.main merged audited) previews
  rw [← core_run_iff (Sound.main merged audited) hcore]
  exact ⟨hsound.core, fun h => hsound.beside h (fun _ hs => preview_of_mem_main hs) rfl⟩

/-- A preview's Endpoint of a project of the preview's own. -/
def previewEndpoint (slug space : String) : Endpoint where
  slug := slug
  space := space
  project := "ws-fix-city"
  audience := .public

/-- One preview with two Endpoints under one slug. -/
def sameSlug : Preview where
  readers := {"ann"}
  endpoints := [previewEndpoint "k3" "ws-fix-city-air", previewEndpoint "k3" "ws-fix-city-noise"]
  spaces := []

theorem not_beside : ¬ Beside [] (main ⟨[], [], by simp⟩ []) (loadWithPreviews ⟨[], [], by simp⟩ [] [sameSlug]) := by
  intro h
  have hpair : [closed .endpoint 0 {"ann"} (previewEndpoint "k3" "ws-fix-city-air"),
      closed .endpoint 0 {"ann"} (previewEndpoint "k3" "ws-fix-city-noise")].Pairwise
      fun a b => a.preview.isSome ∨ b.preview.isSome → a.slug ≠ b.slug ∧ a.path ≠ b.path := h.apart
  exact ((List.pairwise_cons.1 hpair).1 _ (List.mem_singleton_self _) (Or.inl rfl)).1 rfl

end Answers

end JoinedContext.Gateway.Previews
