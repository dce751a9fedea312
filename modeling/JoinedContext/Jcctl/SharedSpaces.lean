import JoinedContext.Jcctl.Manifest

/-!
# References to shared spaces

The load renders a SharedSpaceReference's `endpointRef` as the slug of the Endpoint it names, when
the Endpoint's audience admits the project of the reference. For an Endpoint for its organization it
compares what the Projects of both name, and two projects that name no organization compare as
equal.
-/

namespace JoinedContext.Jcctl.SharedSpaces

section Source

/-- The spec with the slug in place of the reference. -/
def withSlug (slug : String) : Value → Value
  | .obj members =>
    .obj (SortedMap.insertEntry "endpointSlug" (.str slug) (Assoc.without "endpointRef" members))
  | other => other

theorem wellFormed_withSlug (slug : String) {spec : Value} (h : spec.wellFormed = true) :
    (withSlug slug spec).wellFormed = true := by
  cases spec with
  | obj members =>
    simp only [Value.wellFormed, Bool.and_eq_true, decide_eq_true_eq] at h
    simp only [withSlug, Value.wellFormed, Bool.and_eq_true, decide_eq_true_eq]
    have hsorted := List.pairwise_map.1 h.1
    refine ⟨List.pairwise_map.2 (SortedMap.sorted_insertEntry (hsorted.filter _)), ?_⟩
    refine Value.wellFormedMembers_of_forall fun c hc => ?_
    rcases SortedMap.mem_insertEntry hc with rfl | hc
    · rfl
    · exact Value.wellFormed_of_mem_members h.2 (List.mem_of_mem_filter hc)
  | _ => exact h

def rendered (loaded : LoadedResource) (slug : String) : LoadedResource where
  path := loaded.path
  manifest := { loaded.manifest with
    spec := withSlug slug loaded.manifest.spec
    spec_wellFormed := wellFormed_withSlug slug loaded.manifest.spec_wellFormed }

/-- The Organization a Project's spec names. -/
def organizationName (spec : Value) : Option String :=
  (spec.get "organizationRef").bind fun reference =>
    reference.asStr <|> (reference.get "name").bind Value.asStr

variable (repo : Repository)

/-- The specs of the Endpoints by project and name. -/
def endpoints : SortedMap (String ×ₗ String) Value :=
  repo.iter.foldl (fun table c =>
    match c.1.namespace with
    | some project =>
      if c.1.kind = "Endpoint" then table.insert (toLex (project, c.1.name)) c.2.manifest.spec
      else table
    | none => table) SortedMap.empty

/-- The Organization each Project names. -/
def organizations : SortedMap String String :=
  repo.iter.foldl (fun table c =>
    if c.1.kind = "Project" then
      table.insertSome c.1.name (organizationName c.2.manifest.spec)
    else table) SortedMap.empty

def text (reference : Value) (key : String) : String :=
  ((reference.get key).bind Value.asStr).getD ""

def audience (endpoint : Value) : Option String := (endpoint.get "audience").bind Value.asStr

def slugOf (endpoint : Value) : Option String := (endpoint.get "slug").bind Value.asStr

/-- Whether an Endpoint's list names a project. -/
def lists (endpoint : Value) (project : String) : Bool :=
  ((endpoint.get "allowedProjects").bind Value.asArray).any fun allowed =>
    allowed.any fun p => p.asStr == some project

def admitted (endpoint : Value) (project referrer : String) : Bool :=
  if audience endpoint = some "public" then true
  else if audience endpoint = some "organization" then
    (organizations repo).get? referrer == (organizations repo).get? project
  else referrer == project || lists endpoint referrer

/-- What becomes of one resource. -/
inductive Resolution where
  | kept
  | rendered (slug : String)
  | unresolved (why : String)

def resolution (id : ResourceId) (loaded : LoadedResource) : Resolution :=
  if id.kind = "SharedSpaceReference" then
    match loaded.manifest.spec.get "endpointRef" with
    | none => .kept
    | some reference =>
      let project := text reference "project"
      let name := text reference "name"
      let referrer := id.namespace.getD ""
      match (endpoints repo).get? (toLex (project, name)) with
      | none => .unresolved ("endpointRef names Endpoint " ++ project ++ "/" ++ name ++
          ", which the repository does not hold")
      | some endpoint =>
        match slugOf endpoint, admitted repo endpoint project referrer with
        | some slug, true => .rendered slug
        | _, _ => .unresolved ("Endpoint " ++ project ++ "/" ++ name ++
            " is not shared with project " ++ referrer ++ " (EP-15)")
  else .kept

def Resolution.applied (loaded : LoadedResource) : Resolution → LoadedResource
  | .rendered slug => SharedSpaces.rendered loaded slug
  | _ => loaded

def Resolution.why : Resolution → Option String
  | .unresolved why => some why
  | _ => none

/-- The repository with its references rendered, and the ones that could not be. -/
def resolveEndpointRefs : Repository × List (ResourceId × String × String) :=
  (⟨repo.resources.mapEntries fun id loaded => (resolution repo id loaded).applied loaded, by
      intro id loaded h
      rw [SortedMap.get?_mapEntries, Option.map_eq_some_iff] at h
      obtain ⟨before, hbefore, rfl⟩ := h
      rw [← repo.keyed id before hbefore]
      cases resolution repo _ before <;> rfl⟩,
    repo.iter.filterMap fun c => (resolution repo c.1 c.2).why.map fun why => (c.1, c.2.path, why))

end Source

section Spec

variable (repo : Repository)

/-- Whether the audience of a project's Endpoint admits a project; it admits its own. -/
inductive Admits (endpoint : Value) (project referrer : String) : Prop where
  | itself (h : referrer = project)
  | everyone (h : audience endpoint = some "public")
  | organization {organization : String} (h : audience endpoint = some "organization")
      (hproject : (organizations repo).get? project = some organization)
      (hreferrer : (organizations repo).get? referrer = some organization)
  | listed (h : audience endpoint ≠ some "organization") (hlists : lists endpoint referrer = true)

/-- The Endpoint a reference names. -/
def named (reference : Value) : Option Value :=
  (endpoints repo).get? (toLex (text reference "project", text reference "name"))

/-- Whether a project's reference names an Endpoint with this slug that admits the project. -/
def Shared (reference : Value) (referrer slug : String) : Prop :=
  ∃ endpoint, named repo reference = some endpoint ∧ slugOf endpoint = some slug ∧
    Admits repo endpoint (text reference "project") referrer

/-- Whether a resource holds a slug and no reference. -/
def IsRendered (id : ResourceId) (slug : String) : Prop :=
  ∃ loaded, repo.resources.get? id = some loaded ∧
    loaded.manifest.spec.get "endpointSlug" = some (.str slug) ∧
    loaded.manifest.spec.get "endpointRef" = none

/-- Whether every reference is rendered with a slug exactly when it is shared under it, and one that
is not shared stays as it was and is reported. -/
def OpensToAudience : Prop :=
  ∀ c ∈ repo.iter, c.1.kind = "SharedSpaceReference" →
    ∀ reference, c.2.manifest.spec.get "endpointRef" = some reference →
      (∀ slug, IsRendered (resolveEndpointRefs repo).1 c.1 slug ↔
        Shared repo reference (c.1.namespace.getD "") slug) ∧
      ((∀ slug, ¬ Shared repo reference (c.1.namespace.getD "") slug) →
        (resolveEndpointRefs repo).1.resources.get? c.1 = some c.2 ∧
          ∃ why, (c.1, c.2.path, why) ∈ (resolveEndpointRefs repo).2)

/-- Whether the Organization of a reference's project or of its Endpoint's is known, where these are
two projects and the Endpoint is for its organization. -/
def OrganizationsKnown : Prop :=
  ∀ c ∈ repo.iter, c.1.kind = "SharedSpaceReference" →
    ∀ reference, c.2.manifest.spec.get "endpointRef" = some reference →
      ∀ endpoint, named repo reference = some endpoint → (slugOf endpoint).isSome →
        audience endpoint = some "organization" →
          c.1.namespace.getD "" ≠ text reference "project" →
            ((organizations repo).get? (c.1.namespace.getD "")).isSome ∨
              ((organizations repo).get? (text reference "project")).isSome

end Spec

section Resolved

variable {repo : Repository} {c : ResourceId × LoadedResource} {endpoint reference : Value}
  {project referrer slug : String}

/-- The audience, and the organization nobody names, which two projects share. -/
theorem admitted_iff : admitted repo endpoint project referrer = true ↔
    Admits repo endpoint project referrer ∨ audience endpoint = some "organization" ∧
      (organizations repo).get? referrer = none ∧ (organizations repo).get? project = none := by
  unfold admitted
  split_ifs with hpublic horganization
  · exact iff_of_true rfl (Or.inl (.everyone hpublic))
  · rw [beq_iff_eq]
    constructor
    · intro hsame
      rcases hproject : (organizations repo).get? project with _ | organization
      · exact Or.inr ⟨horganization, hsame.trans hproject, rfl⟩
      · exact Or.inl (.organization horganization hproject (hsame.trans hproject))
    · rintro (hadmits | ⟨-, hreferrer, hproject⟩)
      · cases hadmits with
        | itself h => rw [h]
        | everyone h => exact absurd h hpublic
        | organization h hproject hreferrer => rw [hproject, hreferrer]
        | listed h => exact absurd horganization h
      · rw [hproject, hreferrer]
  · rw [Bool.or_eq_true, beq_iff_eq]
    constructor
    · rintro (hitself | hlists)
      · exact Or.inl (.itself hitself)
      · exact Or.inl (.listed horganization hlists)
    · rintro (hadmits | ⟨h, -, -⟩)
      · cases hadmits with
        | itself h => exact Or.inl h
        | everyone h => exact absurd h hpublic
        | organization h => exact absurd h horganization
        | listed h hlists => exact Or.inr hlists
      · exact absurd h horganization

theorem get_withSlug (slug : String) (members : List (String × Value)) :
    (withSlug slug (.obj members)).get "endpointSlug" = some (.str slug) ∧
      (withSlug slug (.obj members)).get "endpointRef" = none := by
  constructor
  · show (SortedMap.insertEntry _ _ _).lookup _ = _
    rw [SortedMap.lookup_insertEntry, if_pos rfl]
  · show (SortedMap.insertEntry _ _ _).lookup _ = _
    rw [SortedMap.lookup_insertEntry, if_neg (by decide), Assoc.lookup_without, if_pos rfl]

theorem get?_resolved (hc : c ∈ repo.iter) : (resolveEndpointRefs repo).1.resources.get? c.1 =
    some ((resolution repo c.1 c.2).applied c.2) := by
  show (repo.resources.mapEntries _).get? c.1 = _
  rw [SortedMap.get?_mapEntries, SortedMap.get?_eq_some.2 hc]
  rfl

theorem mem_unresolved {why : String} (hc : c ∈ repo.iter)
    (hresolution : resolution repo c.1 c.2 = .unresolved why) :
    (c.1, c.2.path, why) ∈ (resolveEndpointRefs repo).2 := by
  refine List.mem_filterMap.2 ⟨c, hc, ?_⟩
  rw [hresolution]
  rfl

/-- A reference is rendered with the slug of the Endpoint it names if the check passes, and else
reported. -/
theorem resolution_cases (hkind : c.1.kind = "SharedSpaceReference")
    (hreference : c.2.manifest.spec.get "endpointRef" = some reference) :
    (∃ endpoint slug, named repo reference = some endpoint ∧ slugOf endpoint = some slug ∧
        admitted repo endpoint (text reference "project") (c.1.namespace.getD "") = true ∧
        resolution repo c.1 c.2 = .rendered slug) ∨
      (∀ endpoint slug, named repo reference = some endpoint → slugOf endpoint = some slug →
        admitted repo endpoint (text reference "project") (c.1.namespace.getD "") = false) ∧
        ∃ why, resolution repo c.1 c.2 = .unresolved why := by
  unfold resolution
  rw [if_pos hkind, hreference]
  dsimp only
  rw [← named]
  rcases hnamed : named repo reference with _ | endpoint
  · refine Or.inr ⟨fun e slug he => ?_, _, rfl⟩
    cases he
  · dsimp only
    rcases hslug : slugOf endpoint with _ | slug
    · refine Or.inr ⟨fun e slug he hs => ?_, _, rfl⟩
      rw [← Option.some.inj he, hslug] at hs
      cases hs
    · rcases hadmitted : admitted repo endpoint (text reference "project") (c.1.namespace.getD "")
        with _ | _
      · refine Or.inr ⟨fun e slug he hs => ?_, _, rfl⟩
        rw [← Option.some.inj he]
        exact hadmitted
      · exact Or.inl ⟨endpoint, slug, rfl, hslug, hadmitted, rfl⟩

theorem isRendered_of_rendered (hc : c ∈ repo.iter)
    (hreference : c.2.manifest.spec.get "endpointRef" = some reference)
    (hresolution : resolution repo c.1 c.2 = .rendered slug) {slug' : String} :
    IsRendered (resolveEndpointRefs repo).1 c.1 slug' ↔ slug' = slug := by
  obtain ⟨members, hmembers⟩ : ∃ members, c.2.manifest.spec = .obj members := by
    cases hspec : c.2.manifest.spec with
    | obj members => exact ⟨members, rfl⟩
    | _ => rw [hspec] at hreference; cases hreference
  have hspec : (rendered c.2 slug).manifest.spec = withSlug slug (.obj members) := by
    rw [← hmembers]
    rfl
  have hget := get?_resolved hc
  rw [hresolution] at hget
  obtain ⟨hslug, href⟩ := get_withSlug slug members
  constructor
  · rintro ⟨loaded, hloaded, hslug', -⟩
    obtain rfl := Option.some.inj (hget.symm.trans hloaded)
    rw [Resolution.applied, hspec, hslug] at hslug'
    cases hslug'
    rfl
  · rintro rfl
    exact ⟨_, hget, hspec ▸ hslug, hspec ▸ href⟩

theorem get?_of_unresolved {why : String} (hc : c ∈ repo.iter)
    (hresolution : resolution repo c.1 c.2 = .unresolved why) :
    (resolveEndpointRefs repo).1.resources.get? c.1 = some c.2 := by
  rw [get?_resolved hc, hresolution]
  rfl

/-- References open shared spaces to their audiences exactly when no reference to an Endpoint of
another project, with a slug and for its organization, has the Organization of both projects
unknown. -/
theorem opensToAudience_iff (repo : Repository) :
    OpensToAudience repo ↔ OrganizationsKnown repo := by
  constructor
  · intro h c hc hkind reference hreference endpoint hnamed hhasSlug horganization hother
    by_contra hunknown
    rw [not_or, Option.not_isSome_iff_eq_none, Option.not_isSome_iff_eq_none] at hunknown
    have hadmitted := admitted_iff.2 (Or.inr ⟨horganization, hunknown⟩)
    rcases resolution_cases hkind hreference with ⟨e, slug, hnamed', hslug, -, hresolution⟩ |
      ⟨hrefused, -⟩
    · obtain rfl := Option.some.inj (hnamed.symm.trans hnamed')
      obtain ⟨e, hnamed'', -, hadmits⟩ := ((h c hc hkind reference hreference).1 slug).1
        ((isRendered_of_rendered hc hreference hresolution).2 rfl)
      obtain rfl := Option.some.inj (hnamed.symm.trans hnamed'')
      cases hadmits with
      | itself hitself => exact hother hitself
      | everyone hpublic => simp [horganization] at hpublic
      | organization _ hproject => simp [hunknown.2] at hproject
      | listed hnot => exact hnot horganization
    · obtain ⟨slug, hslug⟩ := Option.isSome_iff_exists.1 hhasSlug
      simp [hrefused endpoint slug hnamed hslug] at hadmitted
  · intro h c hc hkind reference hreference
    rcases resolution_cases hkind hreference with ⟨e, slug, hnamed, hslug, hadmitted, hresolution⟩ |
      ⟨hrefused, why, hresolution⟩
    · have hadmits : Admits repo e (text reference "project") (c.1.namespace.getD "") := by
        rcases admitted_iff.1 hadmitted with hadmits | ⟨horganization, hunknown⟩
        · exact hadmits
        · by_cases hitself : c.1.namespace.getD "" = text reference "project"
          · exact .itself hitself
          · have hknown := h c hc hkind reference hreference e hnamed (by simp [hslug])
              horganization hitself
            simp [hunknown.1, hunknown.2] at hknown
      have hshared : Shared repo reference (c.1.namespace.getD "") slug :=
        ⟨e, hnamed, hslug, hadmits⟩
      refine ⟨fun slug' => ?_, fun hnone => absurd hshared (hnone slug)⟩
      rw [isRendered_of_rendered hc hreference hresolution]
      constructor
      · rintro rfl
        exact hshared
      · rintro ⟨e', hnamed', hslug', -⟩
        obtain rfl := Option.some.inj (hnamed.symm.trans hnamed')
        exact Option.some.inj (hslug'.symm.trans hslug)
    · refine ⟨fun slug => ?_, fun _ => ⟨get?_of_unresolved hc hresolution, why,
        mem_unresolved hc hresolution⟩⟩
      constructor
      · rintro ⟨loaded, hloaded, -, hnone⟩
        obtain rfl := Option.some.inj ((get?_of_unresolved hc hresolution).symm.trans hloaded)
        rw [hreference] at hnone
        cases hnone
      · rintro ⟨e, hnamed, hslug, hadmits⟩
        have hadmitted := admitted_iff.2 (Or.inl hadmits)
        simp [hrefused e slug hnamed hslug] at hadmitted

def manifest (kind project name : String) (spec : List (String × Value))
    (h : (Value.obj spec).wellFormed = true) : RawManifest where
  apiVersion := API_VERSION
  kind := kind
  metadata := ⟨name, some project, []⟩
  spec := .obj spec
  status := none
  rest_wellFormed := Value.wellFormed_nil
  spec_wellFormed := h

/-- An Endpoint for its organization and another project's reference to it, where the repository
holds neither project's manifest. -/
def strangers : Repository :=
  (Repository.empty.add "projects/helsinki/bikes.yaml" (manifest "Endpoint" "helsinki" "bikes"
    [("audience", .str "organization"), ("slug", .str "scsd2eehkx42n53z2zyd6vshfh7s7irf")]
    (by decide))).add "projects/espoo/shared/city-bikes.yaml"
    (manifest "SharedSpaceReference" "espoo" "city-bikes"
      [("alias", .str "city-bikes"),
        ("endpointRef", .obj [("name", .str "bikes"), ("project", .str "helsinki")])] (by decide))

def cityBikes : ResourceId :=
  ⟨"joinedcontext.com", "SharedSpaceReference", some "espoo", "city-bikes"⟩

/-- A project whose organization nobody names is given the slug of another such project's
Endpoint. -/
theorem opened_to_strangers : ¬ OpensToAudience strangers := by
  intro h
  have hheld : strangers.resources.get? cityBikes = some ⟨"projects/espoo/shared/city-bikes.yaml",
    manifest "SharedSpaceReference" "espoo" "city-bikes" _ _⟩ := rfl
  have hrendered : IsRendered (resolveEndpointRefs strangers).1 cityBikes
    "scsd2eehkx42n53z2zyd6vshfh7s7irf" := ⟨_, rfl, rfl, rfl⟩
  obtain ⟨endpoint, hnamed, -, hadmits⟩ :=
    ((h _ (SortedMap.get?_eq_some.1 hheld) rfl _ rfl).1 _).1 hrendered
  have haudience : audience endpoint = some "organization" := by
    rw [← Option.some.inj hnamed]
    rfl
  have hunknown : (organizations strangers).get? "helsinki" = none := rfl
  cases hadmits with
  | itself hitself => exact absurd hitself (by decide)
  | everyone hpublic => simp [haudience] at hpublic
  | organization _ hproject => exact absurd (hunknown.symm.trans hproject) (by simp)
  | listed hnot => exact hnot haudience

end Resolved

end JoinedContext.Jcctl.SharedSpaces
