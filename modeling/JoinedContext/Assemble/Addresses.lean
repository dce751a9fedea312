import JoinedContext.Assemble.Identities

/-!
# The addresses of Endpoints and spaces

A layout 2 organization is assembled only if no two projects claim one slug or one segment; a layout 1
repository is loaded as it is. The tables hold the last Endpoint of a slug and the last space of a
segment.
-/

namespace JoinedContext.Assemble

open Jcctl Auth Mqtt

/-- The slug of an Endpoint and whether a ContextSpace is read, as their types read them. -/
structure AddressDecoders where
  endpoint : Value → Option String
  space : Value → Option Unit
  endpoint_slug : ∀ v slug, endpoint v = some slug → (v.get "slug").bind Value.asStr = some slug

inductive Layout where
  | one
  | two
deriving DecidableEq

/-- What a manifest is addressed by. -/
structure Address where
  value : String
  manifest : ResourceId
deriving DecidableEq

section Source

/-- What a manifest claims for its project. -/
def claimOf (repo : Repository) (c : ResourceId × LoadedResource) : Option ((String × String) × String) :=
  let project := projectOfId c.1
  if c.1.kind = "Endpoint" then
    ((c.2.manifest.spec.get "slug").bind Value.asStr).map fun slug =>
      (("the Endpoint slug", slug), project)
  else if c.1.kind = "ContextSpace" then
    some (("the space segment", spaceSegment repo project c.1.name), project)
  else none

def claimedAcross (claim : String × String) (first second : String) : Option AssembleError :=
  if first ≠ second then some (.conflict claim.1 claim.2 first second) else none

def uniqueAcrossProjects (sha : Sha256) (repo : Repository) : Except AssembleError Unit :=
  match Claims.enter claimedAcross (repo.iter.filterMap (claimOf repo)) [] with
  | .error e => .error e
  | .ok () => uniqueIdentities sha repo

def endpointsFrom (d : AddressDecoders) (repo : Repository) : List Address :=
  (Auth.readAs repo "Endpoint" d.endpoint).map fun c => ⟨c.2, c.1⟩

def spacesFrom (d : AddressDecoders) (repo : Repository) : List Address :=
  (Auth.readAs repo "ContextSpace" d.space).map fun c => ⟨spaceSegment repo (projectOfId c.1) c.1.name, c.1⟩

/-- The manifests of a load, each Endpoint and each space. -/
structure Tables where
  endpoints : List Address
  spaces : List Address

def loadFrom (sha : Sha256) (d : AddressDecoders) (repo : Repository) : Layout → Except AssembleError Tables
  | .one => .ok ⟨endpointsFrom d repo, spacesFrom d repo⟩
  | .two =>
    match uniqueAcrossProjects sha repo with
    | .error e => .error e
    | .ok () => .ok ⟨endpointsFrom d repo, spacesFrom d repo⟩

/-- The table a list is installed as: the last of an address stands. -/
def replaced (addresses : List Address) : List (String × ResourceId) :=
  addresses.foldl (fun table a => Assoc.put a.value a.manifest table) []

namespace Tables

variable (t : Tables)

def resolve (slug : String) : Option ResourceId := (replaced t.endpoints).lookup slug

def resolveSpace (segment : String) : Option ResourceId := (replaced t.spaces).lookup segment

end Tables

end Source

section Property

/-- An address resolves to the only manifest that has it. -/
def Resolves (addresses : List Address) (resolve : String → Option ResourceId) : Prop :=
  ∀ a ∈ addresses, resolve a.value = some a.manifest ∧ ∀ b ∈ addresses, b.value = a.value → b = a

/-- Every slug and every segment resolve to the only manifest they are of. -/
structure OneAddress (t : Tables) : Prop where
  slugs : Resolves t.endpoints t.resolve
  segments : Resolves t.spaces t.resolveSpace

/-- No two manifests of one project, in layout 1 no two manifests, have one address. -/
def Apart (layout : Layout) (addresses : List Address) : Prop :=
  ∀ a ∈ addresses, ∀ b ∈ addresses,
    (layout = .two → projectOfId a.manifest = projectOfId b.manifest) → a.value = b.value → a = b

end Property

section Addresses

variable {sha : Sha256} {d : AddressDecoders} {repo : Repository} {layout : Layout} {t : Tables}
  {addresses : List Address}

theorem lookup_replaced (value : String) : (replaced addresses).lookup value =
    ((addresses.filter fun a => a.value = value).getLast?).map Address.manifest := by
  unfold replaced
  rw [Assoc.lookup_foldl_put]
  simp

/-- A list is installed without a loss exactly where it has no address twice. -/
theorem resolves_iff : Resolves addresses (fun value => (replaced addresses).lookup value) ↔
    ∀ a ∈ addresses, ∀ b ∈ addresses, a.value = b.value → a = b := by
  constructor
  · intro h a ha b hb heq
    exact ((h a ha).2 b hb heq.symm).symm
  · intro h a ha
    refine ⟨?_, fun b hb heq => h b hb a ha heq⟩
    have hmem : a ∈ addresses.filter fun b => b.value = a.value :=
      List.mem_filter.2 ⟨ha, by simp⟩
    have hlast := List.getLast?_eq_some_getLast (List.ne_nil_of_mem hmem)
    obtain ⟨hlastMem, hvalue⟩ := List.mem_filter.1 (List.getLast_mem (List.ne_nil_of_mem hmem))
    have heq := h _ hlastMem a ha (of_decide_eq_true hvalue)
    simp only [lookup_replaced, hlast, heq, Option.map_some]

theorem enter_claimedAcross {entries : List ((String × String) × String)} :
    Claims.enter claimedAcross entries [] = .ok () ↔
      entries.Pairwise fun c e => c.1 = e.1 → c.2 = e.2 :=
  Claims.enter_eq_ok (R := Eq) (by simp [claimedAcross]) fun _ _ _ => Eq.trans

/-- Assembled, two manifests of one address are one project's. -/
theorem project_eq_of_unique (hok : uniqueAcrossProjects sha repo = .ok ())
    {c e : ResourceId × LoadedResource} {claim : String × String} {p q : String} (hc : c ∈ repo.iter)
    (he : e ∈ repo.iter) (hclaim : claimOf repo c = some (claim, p)) (hclaim' : claimOf repo e = some (claim, q)) :
    p = q := by
  unfold uniqueAcrossProjects at hok
  cases henter : Claims.enter claimedAcross (repo.iter.filterMap (claimOf repo)) [] with
  | error e =>
    rw [henter] at hok
    cases hok
  | ok _ =>
    have hpair := enter_claimedAcross.1 henter
    by_contra hne
    have : Std.Symm fun a b : (String × String) × String => a.1 = b.1 → a.2 = b.2 :=
      ⟨fun a b hab heq => (hab heq.symm).symm⟩
    exact hne (hpair.forall (List.mem_filterMap.2 ⟨c, hc, hclaim⟩) (List.mem_filterMap.2 ⟨e, he, hclaim'⟩)
      (fun heq => hne (congrArg Prod.snd heq)) rfl)

theorem loadFrom_eq (h : loadFrom sha d repo layout = .ok t) :
    t = ⟨endpointsFrom d repo, spacesFrom d repo⟩ ∧ (layout = .two → uniqueAcrossProjects sha repo = .ok ()) := by
  cases layout with
  | one => exact ⟨(Except.ok.inj h).symm, fun htwo => Layout.noConfusion htwo⟩
  | two =>
    unfold loadFrom at h
    cases hunique : uniqueAcrossProjects sha repo with
    | error e =>
      rw [hunique] at h
      cases h
    | ok _ =>
      rw [hunique] at h
      exact ⟨(Except.ok.inj h).symm, fun _ => rfl⟩

/-- An Endpoint of the table claims its slug for its project. -/
theorem claimOf_of_mem_endpointsFrom {a : Address} (ha : a ∈ endpointsFrom d repo) :
    ∃ m ∈ repo.iter, claimOf repo m = some (("the Endpoint slug", a.value), projectOfId a.manifest) := by
  obtain ⟨c, hc, rfl⟩ := List.mem_map.1 ha
  obtain ⟨m, hm, hkind, hread, hid⟩ := mem_readAs.1 hc
  refine ⟨m, hm, ?_⟩
  unfold claimOf
  rw [if_pos hkind, d.endpoint_slug _ _ hread, hid]
  rfl

/-- A space of the table claims its segment for its project. -/
theorem claimOf_of_mem_spacesFrom {a : Address} (ha : a ∈ spacesFrom d repo) :
    ∃ m ∈ repo.iter, claimOf repo m = some (("the space segment", a.value), projectOfId a.manifest) := by
  obtain ⟨c, hc, rfl⟩ := List.mem_map.1 ha
  obtain ⟨m, hm, hkind, -, hid⟩ := mem_readAs.1 hc
  refine ⟨m, hm, ?_⟩
  unfold claimOf
  rw [if_neg (by rw [hkind]; decide), if_pos hkind, hid]

/-- What claims its addresses for its projects has none in two projects, once assembled. -/
theorem resolves_iff_apart {what : String} (hunique : layout = .two → uniqueAcrossProjects sha repo = .ok ())
    (hclaim : ∀ a ∈ addresses, ∃ m ∈ repo.iter,
      claimOf repo m = some ((what, a.value), projectOfId a.manifest)) :
    Resolves addresses (fun value => (replaced addresses).lookup value) ↔ Apart layout addresses := by
  rw [resolves_iff]
  constructor
  · intro h a ha b hb _ heq
    exact h a ha b hb heq
  · intro h a ha b hb heq
    refine h a ha b hb (fun htwo => ?_) heq
    obtain ⟨m, hm, hma⟩ := hclaim a ha
    obtain ⟨n, hn, hnb⟩ := hclaim b hb
    rw [← heq] at hnb
    exact project_eq_of_unique (hunique htwo) hm hn hma hnb

/-- Every address of a loaded organization resolves to its only manifest exactly where no project, in
layout 1 no organization, has one twice. -/
theorem oneAddress_iff (h : loadFrom sha d repo layout = .ok t) :
    OneAddress t ↔ Apart layout (endpointsFrom d repo) ∧ Apart layout (spacesFrom d repo) := by
  obtain ⟨rfl, hunique⟩ := loadFrom_eq h
  rw [← resolves_iff_apart hunique fun a => claimOf_of_mem_endpointsFrom,
    ← resolves_iff_apart hunique fun a => claimOf_of_mem_spacesFrom]
  exact ⟨fun h => ⟨h.slugs, h.segments⟩, fun h => ⟨h.1, h.2⟩⟩

end Addresses

section Twice

variable {repo : Repository}

/-- Endpoints are read by their slugs, spaces always. -/
def slugs : AddressDecoders where
  endpoint v := (v.get "slug").bind Value.asStr
  space _ := some ()
  endpoint_slug _ _ h := h

def endpointManifest (name slug : String) : RawManifest :=
  { bareManifest "Endpoint" "city" name with spec := .obj [("slug", .str slug)], spec_wellFormed := rfl }

/-- One project's two Endpoints. -/
def twoEndpoints (slug : String) : Repository :=
  (Repository.empty.add "projects/city/air.yaml" (endpointManifest "air" "air")).add
    "projects/city/noise.yaml" (endpointManifest "noise" slug)

theorem uniqueAcrossProjects_eq_ok (hclaims : (repo.iter.filterMap (claimOf repo)).Pairwise
      fun c e => c.1 = e.1 → c.2 = e.2) (hidentities : uniqueIdentities zeros repo = .ok ()) :
    uniqueAcrossProjects zeros repo = .ok () := by
  unfold uniqueAcrossProjects
  rw [enter_claimedAcross.2 hclaims]
  exact hidentities

theorem loadFrom_twoEndpoints (slug : String)
    (hunique : uniqueAcrossProjects zeros (twoEndpoints slug) = .ok ()) :
    loadFrom zeros slugs (twoEndpoints slug) .two =
      .ok ⟨endpointsFrom slugs (twoEndpoints slug), spacesFrom slugs (twoEndpoints slug)⟩ := by
  unfold loadFrom
  rw [hunique]

theorem oneAddress_twoEndpoints :
    OneAddress ⟨endpointsFrom slugs (twoEndpoints "noise"), spacesFrom slugs (twoEndpoints "noise")⟩ ↔
      Apart .two (endpointsFrom slugs (twoEndpoints "noise")) ∧
        Apart .two (spacesFrom slugs (twoEndpoints "noise")) :=
  oneAddress_iff (loadFrom_twoEndpoints "noise" (uniqueAcrossProjects_eq_ok (by decide +kernel)
    (uniqueIdentities_eq_ok.2 (by decide +kernel))))

/-- Two Endpoints of one project under one slug are loaded. -/
theorem not_oneAddress : ∃ t, loadFrom zeros slugs (twoEndpoints "air") .two = .ok t ∧ ¬ OneAddress t := by
  refine ⟨_, loadFrom_twoEndpoints "air" (uniqueAcrossProjects_eq_ok (by decide +kernel)
    (uniqueIdentities_eq_ok.2 (by decide +kernel))), fun hone => ?_⟩
  have heq := (hone.slugs ⟨"air", ⟨"joinedcontext.com", "Endpoint", some "city", "air"⟩⟩
    (by decide +kernel)).2 ⟨"air", ⟨"joinedcontext.com", "Endpoint", some "city", "noise"⟩⟩
    (by decide +kernel) rfl
  exact absurd heq (by decide)

end Twice

end JoinedContext.Assemble
