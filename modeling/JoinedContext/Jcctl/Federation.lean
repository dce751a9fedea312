import JoinedContext.Core.Policy
import JoinedContext.Jcctl.Manifest
import JoinedContext.Library.Search

/-!
# The federation topology of a repository

A registration makes its Endpoint's space a member of a hub space of the same project. The topology
the registrations declare is checked as a whole: what a registration names is declared, a hub is
served by an Endpoint, and no hub reaches itself, which is looked for by a search from each hub.
-/

namespace JoinedContext.Jcctl.Federation

/-- A repository as it is loaded: the loader takes the manifests of one group only. -/
structure LoadedRepository extends Repository where
  grouped : ∀ id r, resources.get? id = some r → id.group = "joinedcontext.com"

/-- What of the spec of a `ContextSourceRegistration` the topology reads. -/
structure RegistrationSpec where
  contextSpaceRef : Ref
  endpointRef : Option Ref

/-- What reads a spec (`serde`'s derived reader), and where in its file a resource begins. -/
structure Reader where
  fromValue : Value → Option RegistrationSpec
  place : ResourceId → Nat × Nat

abbrev Location := String × Nat × Nat

/-- A name of a project. -/
abbrev Key := WithBot String ×ₗ String

def key (project : Option String) (name : String) : Key := toLex ((project : WithBot String), name)

structure Registration where
  id : ResourceId
  project : Option String
  spec : RegistrationSpec
  location : Location

def Registration.hub (r : Registration) : String := r.spec.contextSpaceRef.nameOf

def Registration.member (r : Registration) : Option String := r.spec.endpointRef.map Ref.nameOf

inductive Problem where
  | undeclared (id : ResourceId) (hub : String)
  | dangling (id : ResourceId) (member : String)
  | unserved (id : ResourceId) (hub : String)
  | loop (id : ResourceId) (hub : String)
deriving DecidableEq

def ResourceId.display (id : ResourceId) : String :=
  match id.namespace with
  | some ns => id.kind ++ "/" ++ ns ++ "/" ++ id.name
  | none => id.kind ++ "/" ++ id.name

def Problem.message : Problem → String
  | .undeclared id hub => ResourceId.display id ++ " registers into space \x60" ++ hub ++
      "\x60, which no ContextSpace of this project declares (CC-13)"
  | .dangling id member => ResourceId.display id ++ " registers Endpoint \x60" ++ member ++
      "\x60, which no manifest of this project declares: a dangling peer (CC-13)"
  | .unserved id hub => ResourceId.display id ++ ": space \x60" ++ hub ++
      "\x60 holds registrations and no Endpoint of this project serves it, so what they " ++
      "register reaches nobody (CC-13)"
  | .loop id hub => ResourceId.display id ++ ": space \x60" ++ hub ++
      "\x60 reaches itself through its registrations, a federation loop (CC-13)"

def spaceOf (spec : Value) : Option String :=
  match spec.get "contextSpaceRef" with
  | some (.str name) => some name
  | some (.obj members) => (members.lookup "name").bind Value.asStr
  | _ => none

section Source

variable (reader : Reader) (repo : LoadedRepository)

def spaces : List (Option String × String) :=
  (repo.iter.filter fun c => c.1.kind = "ContextSpace").map fun c => (c.1.namespace, c.1.name)

/-- The Endpoints whose space can be read, in their order. -/
def served : List (Key × String) :=
  repo.iter.filterMap fun c =>
    if c.1.kind = "Endpoint" then
      (spaceOf c.2.manifest.spec).map fun space => (key c.1.namespace c.1.name, space)
    else none

/-- The space of each Endpoint. -/
def endpoints : SortedMap Key String :=
  (served repo).foldl (fun m c => m.insert c.1 c.2) SortedMap.empty

/-- The registrations that can be read; what the typed reader refuses is a finding elsewhere. -/
def registrations : List Registration :=
  repo.iter.filterMap fun c =>
    if c.1.kind = "ContextSourceRegistration" then
      (reader.fromValue c.2.manifest.spec).map fun spec =>
        ⟨c.1, c.1.namespace, spec, c.2.path, reader.place c.1⟩
    else none

/-- The space of the Endpoint a registration names. -/
def memberSpace (r : Registration) : Option String :=
  r.member.bind fun member => (endpoints repo).get? (key r.project member)

/-- The member spaces of each hub, by one registration more. -/
def addEdge (edges : SortedMap Key (SortedMap String Unit)) (r : Registration) :
    SortedMap Key (SortedMap String Unit) :=
  match memberSpace repo r with
  | some space =>
    edges.insert (key r.project r.hub)
      (((edges.get? (key r.project r.hub)).getD SortedMap.empty).insert space ())
  | none => edges

def edges : SortedMap Key (SortedMap String Unit) :=
  (registrations reader repo).foldl (addEdge repo) SortedMap.empty

/-- The first registration into each hub. -/
def firstOfHub : SortedMap Key (ResourceId × Location) :=
  (registrations reader repo).foldl
    (fun m r => m.orInsert (key r.project r.hub) (r.id, r.location)) SortedMap.empty

def dangling (r : Registration) : List (Location × Problem) :=
  (if (r.project, r.hub) ∈ spaces repo then [] else [(r.location, .undeclared r.id r.hub)]) ++
    match r.member with
    | none => []
    | some member =>
      if ((endpoints repo).get? (key r.project member)).isSome then []
      else [(r.location, .dangling r.id member)]

/-- Whether an Endpoint of the project serves the hub. -/
def isServed (hub : Key) : Bool :=
  (endpoints repo).entries.any fun c => decide (c.1.1 = hub.1 ∧ c.2 = hub.2)

def unserved (first : Key × ResourceId × Location) : List (Location × Problem) :=
  if isServed repo first.1 then [] else [(first.2.2, .unserved first.2.1 first.1.2)]

/-- The members of a space of a project, in their order. -/
def members (project : WithBot String) (space : String) : List String :=
  (((edges reader repo).get? (toLex (project, space))).getD SortedMap.empty).keys

theorem members_eq_nil (project : WithBot String) (space : String)
    (h : space ∉ (edges reader repo).keys.map Prod.snd) :
    members reader repo project space = [] := by
  have hnone : (edges reader repo).get? (toLex (project, space)) = none := by
    rw [← Option.not_isSome_iff_eq_none, ← SortedMap.mem_keys]
    exact fun hmem => h (List.mem_map.2 ⟨_, hmem, rfl⟩)
  rw [members, hnone]
  rfl

def graph (project : WithBot String) : Search.Graph String where
  sources := (edges reader repo).keys.map Prod.snd
  next := members reader repo project
  next_eq_nil := members_eq_nil reader repo project

/-- A hub reaching itself through its members. -/
def looped (first : Key × ResourceId × Location) : List (Location × Problem) :=
  let g := graph reader repo first.1.1
  if g.meets first.1.2 [] ((g.next first.1.2).reverseAux []) then
    [(first.2.2, .loop first.2.1 first.1.2)]
  else []

def federationTopology : List (Location × Problem) :=
  (registrations reader repo).flatMap (dangling repo) ++
    (firstOfHub reader repo).entries.flatMap (unserved repo) ++
      (firstOfHub reader repo).entries.flatMap (looped reader repo)

end Source

section Topology

/-! ## What the registrations declare -/

variable (reader : Reader) (repo : LoadedRepository) (project : Option String)

/-- A project declares a space. -/
def DeclaresSpace (space : String) : Prop :=
  ∃ c ∈ repo.iter, c.1.kind = "ContextSpace" ∧ c.1.namespace = project ∧ c.1.name = space

/-- A project declares an Endpoint, which serves a space. -/
def DeclaresEndpoint (name space : String) : Prop :=
  ∃ c ∈ repo.iter, c.1.kind = "Endpoint" ∧ c.1.namespace = project ∧ c.1.name = name ∧
    spaceOf c.2.manifest.spec = some space

/-- A registration of the project makes the one space a member of the other. -/
def Member (hub space : String) : Prop :=
  ∃ r ∈ registrations reader repo, r.project = project ∧ r.hub = hub ∧
    ∃ name, r.member = some name ∧ DeclaresEndpoint repo project name space

/-- What is found of the topology, and what there is to find. -/
structure Exact (found : List (Location × Problem)) : Prop where
  loops : ∀ project hub,
    (∃ location id, (location, .loop id hub) ∈ found ∧ id.namespace = project) ↔
      Relation.TransGen (Member reader repo project) hub hub
  spaces : ∀ r ∈ registrations reader repo, (r.location, .undeclared r.id r.hub) ∈ found ↔
    ¬DeclaresSpace repo r.project r.hub
  endpoints : ∀ r ∈ registrations reader repo, ∀ name, r.member = some name →
    ((r.location, .dangling r.id name) ∈ found ↔
      ∀ space, ¬DeclaresEndpoint repo r.project name space)
  hubs : ∀ r ∈ registrations reader repo,
    (∃ location id, (location, .unserved id r.hub) ∈ found ∧ id.namespace = r.project) ↔
      ∀ name, ¬DeclaresEndpoint repo r.project name r.hub

end Topology

section Lookups

/-! ## What is under a key -/

variable {reader : Reader} {repo : LoadedRepository} {project : Option String} {name space : String}
  {r : Registration}

theorem key_inj {project' : Option String} {name' : String} :
    key project name = key project' name' ↔ project = project' ∧ name = name' := by
  rw [key, key, toLex_inj]
  exact Prod.mk_inj

/-- A resource's kind, project and name are its own: the group is the one of every manifest. -/
theorem eq_of_kind {c c' : ResourceId × LoadedResource} (hc : c ∈ repo.iter) (hc' : c' ∈ repo.iter)
    (hkind : c.1.kind = c'.1.kind)
    (hkey : key c.1.namespace c.1.name = key c'.1.namespace c'.1.name) : c.1 = c'.1 := by
  have hgroup := repo.grouped c.1 c.2 (SortedMap.get?_eq_some.2 hc)
  have hgroup' := repo.grouped c'.1 c'.2 (SortedMap.get?_eq_some.2 hc')
  obtain ⟨hnamespace, hname⟩ := key_inj.1 hkey
  rcases c with ⟨⟨group, kind, ns, name⟩, loaded⟩
  rcases c' with ⟨⟨group', kind', ns', name'⟩, loaded'⟩
  dsimp only at hkind hgroup hgroup' hnamespace hname
  rw [hgroup, hgroup', hkind, hnamespace, hname]

theorem nodup_served (repo : LoadedRepository) : ((served repo).map Prod.fst).Nodup := by
  have hids : repo.iter.Pairwise fun c c' => c.1 ≠ c'.1 :=
    List.pairwise_map.1 repo.resources.nodup_keys
  rw [List.Nodup, List.pairwise_map, served, List.pairwise_filterMap]
  refine hids.imp_of_mem fun {c c'} hc hc' hne d hd d' hd' heq => hne ?_
  split_ifs at hd hd' with hkind hkind'
  obtain ⟨space, -, rfl⟩ := Option.map_eq_some_iff.1 hd
  obtain ⟨space', -, rfl⟩ := Option.map_eq_some_iff.1 hd'
  exact eq_of_kind hc hc' (hkind.trans hkind'.symm) heq

theorem get?_endpoints :
    (endpoints repo).get? (key project name) = some space ↔
      DeclaresEndpoint repo project name space := by
  rw [endpoints, SortedMap.get?_foldl_insert_empty (nodup_served repo), served, List.mem_filterMap]
  constructor
  · rintro ⟨c, hc, hsome⟩
    split_ifs at hsome with hkind
    obtain ⟨space', hspace, heq⟩ := Option.map_eq_some_iff.1 hsome
    obtain ⟨hkey, rfl⟩ := Prod.mk.inj heq
    obtain ⟨rfl, rfl⟩ := key_inj.1 hkey
    exact ⟨c, hc, hkind, rfl, rfl, hspace⟩
  · rintro ⟨c, hc, hkind, rfl, rfl, hspace⟩
    exact ⟨c, hc, by rw [if_pos hkind, hspace]; rfl⟩

theorem memberSpace_eq_some : memberSpace repo r = some space ↔
    ∃ name, r.member = some name ∧ DeclaresEndpoint repo r.project name space := by
  rw [memberSpace, Option.bind_eq_some_iff]
  exact exists_congr fun name => and_congr_right fun _ => get?_endpoints

theorem mem_foldl_addEdge {k : Key} : ∀ {rs : List Registration}
    {m : SortedMap Key (SortedMap String Unit)},
    space ∈ (((rs.foldl (addEdge repo) m).get? k).getD SortedMap.empty).keys ↔
      (∃ r ∈ rs, key r.project r.hub = k ∧ memberSpace repo r = some space) ∨
        space ∈ ((m.get? k).getD SortedMap.empty).keys
  | [], m => by simp
  | r :: rs, m => by
    have hadd : space ∈ (((addEdge repo m r).get? k).getD SortedMap.empty).keys ↔
        key r.project r.hub = k ∧ memberSpace repo r = some space ∨
          space ∈ ((m.get? k).getD SortedMap.empty).keys := by
      unfold addEdge
      cases hmember : memberSpace repo r with
      | none => simp
      | some member =>
        dsimp only
        rw [SortedMap.get?_insert]
        by_cases hk : k = key r.project r.hub
        · rw [if_pos hk, Option.getD_some, SortedMap.mem_keys, SortedMap.isSome_insert, hk,
            ← SortedMap.mem_keys]
          simp [eq_comm]
        · rw [if_neg hk]
          simp [Ne.symm hk]
    rw [List.foldl_cons, mem_foldl_addEdge, hadd]
    simp only [List.mem_cons, exists_eq_or_imp]
    exact ⟨fun h => h.elim (fun h => .inl (.inr h)) fun h => h.imp_left .inl,
      fun h => h.elim (fun h => h.elim (fun h => .inr (.inl h)) .inl) fun h => .inr (.inr h)⟩

theorem mem_members : space ∈ members reader repo project name ↔
    Member reader repo project name space := by
  have hkey : (toLex ((project : WithBot String), name) : Key) = key project name := rfl
  unfold members
  rw [hkey, edges, mem_foldl_addEdge, Member]
  have hempty : space ∉ (((SortedMap.empty : SortedMap Key (SortedMap String Unit)).get?
      (key project name)).getD SortedMap.empty).keys := List.not_mem_nil
  rw [or_iff_left hempty]
  refine exists_congr fun r => and_congr_right fun _ => ?_
  rw [key_inj, memberSpace_eq_some]
  constructor
  · rintro ⟨⟨rfl, rfl⟩, hmember⟩
    exact ⟨rfl, rfl, hmember⟩
  · rintro ⟨rfl, rfl, hmember⟩
    exact ⟨⟨rfl, rfl⟩, hmember⟩

theorem get?_foldl_first {k : Key} {v : ResourceId × Location} : ∀ {rs : List Registration}
    {m : SortedMap Key (ResourceId × Location)},
    (rs.foldl (fun m r => m.orInsert (key r.project r.hub) (r.id, r.location)) m).get? k = some v →
      (∃ r ∈ rs, key r.project r.hub = k ∧ (r.id, r.location) = v) ∨ m.get? k = some v
  | [], m, h => .inr h
  | r :: rs, m, h => by
    rw [List.foldl_cons] at h
    rcases get?_foldl_first h with ⟨r', hr', hv⟩ | h
    · exact .inl ⟨r', List.mem_cons_of_mem _ hr', hv⟩
    · rw [SortedMap.get?_orInsert] at h
      cases hk : m.get? k with
      | some w =>
        rw [hk] at h
        exact .inr h
      | none =>
        rw [hk] at h
        by_cases heq : k = key r.project r.hub
        · rw [if_pos heq] at h
          exact .inl ⟨r, List.mem_cons_self, heq.symm, Option.some.inj h⟩
        · rw [if_neg heq] at h
          cases h

theorem isSome_foldl_first {k : Key} : ∀ {rs : List Registration}
    {m : SortedMap Key (ResourceId × Location)},
    ((rs.foldl (fun m r => m.orInsert (key r.project r.hub) (r.id, r.location)) m).get? k).isSome ↔
      (∃ r ∈ rs, key r.project r.hub = k) ∨ (m.get? k).isSome
  | [], m => by simp
  | r :: rs, m => by
    rw [List.foldl_cons, isSome_foldl_first, SortedMap.get?_orInsert]
    cases m.get? k with
    | some w => simp
    | none =>
      by_cases hk : k = key r.project r.hub
      · simp [hk]
      · simp [hk, Ne.symm hk]

end Lookups

section Findings

/-! ## What is found -/

variable {reader : Reader} {repo : LoadedRepository} {project : Option String} {hub : String}
  {location : Location} {id : ResourceId}

theorem project_of_mem {r : Registration} (h : r ∈ registrations reader repo) :
    r.project = r.id.namespace := by
  obtain ⟨c, -, hsome⟩ := List.mem_filterMap.1 h
  split_ifs at hsome
  obtain ⟨spec, -, rfl⟩ := Option.map_eq_some_iff.1 hsome
  rfl

theorem mem_spaces : (project, hub) ∈ spaces repo ↔ DeclaresSpace repo project hub := by
  simp [spaces, DeclaresSpace, and_assoc]

theorem isServed_iff : isServed repo (key project hub) = true ↔
    ∃ name, DeclaresEndpoint repo project name hub := by
  rw [isServed, List.any_eq_true]
  constructor
  · rintro ⟨⟨k, space⟩, hmem, heq⟩
    obtain ⟨hproject, rfl⟩ := of_decide_eq_true heq
    have hk : k = key project k.2 := Prod.ext hproject rfl
    refine ⟨k.2, get?_endpoints.1 ?_⟩
    rw [← hk]
    exact SortedMap.get?_eq_some.2 hmem
  · rintro ⟨name, hname⟩
    refine ⟨(key project name, hub), SortedMap.get?_eq_some.1 (get?_endpoints.2 hname), ?_⟩
    exact decide_eq_true ⟨rfl, rfl⟩

theorem mem_dangling {r : Registration} {p : Problem} : (location, p) ∈ dangling repo r ↔
    (location = r.location ∧ p = .undeclared r.id r.hub ∧ ¬DeclaresSpace repo r.project r.hub) ∨
      ∃ name, r.member = some name ∧ (location = r.location ∧ p = .dangling r.id name) ∧
        ∀ space, ¬DeclaresEndpoint repo r.project name space := by
  have hnone : ∀ name, ((endpoints repo).get? (key r.project name)).isSome = false ↔
      ∀ space, ¬DeclaresEndpoint repo r.project name space := fun name => by
    rw [Option.isSome_eq_false_iff, Option.isNone_iff_eq_none, Option.eq_none_iff_forall_ne_some]
    exact forall_congr' fun space => not_congr get?_endpoints
  unfold dangling
  rw [List.mem_append]
  refine or_congr ?_ ?_
  · by_cases hspace : (r.project, r.hub) ∈ spaces repo
    · rw [if_pos hspace]
      simp [mem_spaces.1 hspace]
    · rw [if_neg hspace]
      simp [mt mem_spaces.2 hspace]
  · cases r.member with
    | none => simp
    | some name =>
      dsimp only
      cases hsome : ((endpoints repo).get? (key r.project name)).isSome with
      | true =>
        have hdeclared : ¬∀ space, ¬DeclaresEndpoint repo r.project name space := fun h => by
          rw [(hnone name).2 h] at hsome
          cases hsome
        simp [hdeclared]
      | false => simp [(hnone name).1 hsome]

theorem mem_firstOfHub {k : Key} {v : ResourceId × Location}
    (h : (k, v) ∈ (firstOfHub reader repo).entries) :
    ∃ r ∈ registrations reader repo, key r.project r.hub = k ∧ (r.id, r.location) = v :=
  (get?_foldl_first (SortedMap.get?_eq_some.2 h)).resolve_right (by simp)

theorem exists_mem_firstOfHub {r : Registration} (h : r ∈ registrations reader repo) :
    ∃ v, (key r.project r.hub, v) ∈ (firstOfHub reader repo).entries := by
  obtain ⟨v, hv⟩ := Option.isSome_iff_exists.1 (isSome_foldl_first.2 (.inl ⟨r, h, rfl⟩))
  exact ⟨v, SortedMap.get?_eq_some.1 hv⟩

theorem mem_unserved {first : Key × ResourceId × Location} {p : Problem} :
    (location, p) ∈ unserved repo first ↔ location = first.2.2 ∧
      p = .unserved first.2.1 first.1.2 ∧ isServed repo first.1 = false := by
  unfold unserved
  cases isServed repo first.1 <;> simp

theorem mem_looped {first : Key × ResourceId × Location} {p : Problem} :
    (location, p) ∈ looped reader repo first ↔ location = first.2.2 ∧
      p = .loop first.2.1 first.1.2 ∧ Relation.TransGen
        (graph reader repo first.1.1).Step first.1.2 first.1.2 := by
  rw [← Search.Graph.meets_next_iff]
  unfold looped
  dsimp only
  cases (graph reader repo first.1.1).meets first.1.2 []
    (((graph reader repo first.1.1).next first.1.2).reverseAux []) <;> simp

theorem step_eq (project : Option String) :
    (graph reader repo project).Step = Member reader repo project := by
  funext hub space
  exact propext mem_members

theorem mem_federationTopology {f : Location × Problem} : f ∈ federationTopology reader repo ↔
    (∃ r ∈ registrations reader repo, f ∈ dangling repo r) ∨
      (∃ first ∈ (firstOfHub reader repo).entries, f ∈ unserved repo first) ∨
        ∃ first ∈ (firstOfHub reader repo).entries, f ∈ looped reader repo first := by
  rw [federationTopology, List.mem_append, List.mem_append, List.mem_flatMap, List.mem_flatMap,
    List.mem_flatMap, or_assoc]

/-- What is looked at once for each hub is looked at for the hubs of the registrations. -/
theorem exists_first_iff {P : Key → Prop} :
    (∃ location id, (∃ first ∈ (firstOfHub reader repo).entries, location = first.2.2 ∧
        id = first.2.1 ∧ hub = first.1.2 ∧ P first.1) ∧ id.namespace = project) ↔
      (∃ r ∈ registrations reader repo, r.project = project ∧ r.hub = hub) ∧
        P (key project hub) := by
  constructor
  · rintro ⟨location, id, ⟨⟨k, v⟩, hfirst, -, rfl, rfl, hp⟩, rfl⟩
    obtain ⟨r, hr, rfl, rfl⟩ := mem_firstOfHub hfirst
    have hproject := project_of_mem hr
    exact ⟨⟨r, hr, hproject, rfl⟩, by rw [← hproject]; exact hp⟩
  · rintro ⟨⟨r, hr, rfl, rfl⟩, hp⟩
    obtain ⟨v, hfirst⟩ := exists_mem_firstOfHub hr
    obtain ⟨r', hr', hkey, hv⟩ := mem_firstOfHub hfirst
    refine ⟨v.2, v.1, ⟨_, hfirst, rfl, rfl, rfl, hp⟩, ?_⟩
    rw [← hv, ← project_of_mem hr']
    exact (key_inj.1 hkey).1

theorem mem_loop : (location, .loop id hub) ∈ federationTopology reader repo ↔
    ∃ first ∈ (firstOfHub reader repo).entries, location = first.2.2 ∧ id = first.2.1 ∧
      hub = first.1.2 ∧ Relation.TransGen (graph reader repo first.1.1).Step first.1.2
        first.1.2 := by
  rw [mem_federationTopology]
  constructor
  · rintro (⟨r, -, h⟩ | ⟨first, -, h⟩ | ⟨first, hfirst, h⟩)
    · rcases mem_dangling.1 h with ⟨-, hp, -⟩ | ⟨name, -, ⟨-, hp⟩, -⟩ <;> cases hp
    · cases (mem_unserved.1 h).2.1
    · obtain ⟨hlocation, hp, hloop⟩ := mem_looped.1 h
      obtain ⟨hid, hhub⟩ := Problem.loop.inj hp
      exact ⟨first, hfirst, hlocation, hid, hhub, hloop⟩
  · rintro ⟨first, hfirst, rfl, rfl, rfl, hloop⟩
    exact .inr (.inr ⟨first, hfirst, mem_looped.2 ⟨rfl, rfl, hloop⟩⟩)

theorem mem_unserved_topology : (location, .unserved id hub) ∈ federationTopology reader repo ↔
    ∃ first ∈ (firstOfHub reader repo).entries, location = first.2.2 ∧ id = first.2.1 ∧
      hub = first.1.2 ∧ isServed repo first.1 = false := by
  rw [mem_federationTopology]
  constructor
  · rintro (⟨r, -, h⟩ | ⟨first, hfirst, h⟩ | ⟨first, -, h⟩)
    · rcases mem_dangling.1 h with ⟨-, hp, -⟩ | ⟨name, -, ⟨-, hp⟩, -⟩ <;> cases hp
    · obtain ⟨hlocation, hp, hserved⟩ := mem_unserved.1 h
      obtain ⟨hid, hhub⟩ := Problem.unserved.inj hp
      exact ⟨first, hfirst, hlocation, hid, hhub, hserved⟩
    · cases (mem_looped.1 h).2.1
  · rintro ⟨first, hfirst, rfl, rfl, rfl, hserved⟩
    exact .inr (.inl ⟨first, hfirst, mem_unserved.2 ⟨rfl, rfl, hserved⟩⟩)

/-- What is found of a registration alone. -/
theorem mem_dangling_topology {p : Problem} (hunserved : ∀ id hub, p ≠ .unserved id hub)
    (hloop : ∀ id hub, p ≠ .loop id hub) : (location, p) ∈ federationTopology reader repo ↔
      ∃ r ∈ registrations reader repo, (location, p) ∈ dangling repo r := by
  rw [mem_federationTopology]
  refine or_iff_left ?_
  rintro (⟨first, -, h⟩ | ⟨first, -, h⟩)
  · exact hunserved _ _ (mem_unserved.1 h).2.1
  · exact hloop _ _ (mem_looped.1 h).2.1

/-- A cycle through a hub passes a registration into it. -/
theorem exists_registration_of_loop
    (h : Relation.TransGen (Member reader repo project) hub hub) :
    ∃ r ∈ registrations reader repo, r.project = project ∧ r.hub = hub := by
  obtain ⟨space, ⟨r, hr, hproject, hhub, -⟩, -⟩ := Relation.TransGen.head'_iff.1 h
  exact ⟨r, hr, hproject, hhub⟩

/-- The search ends for every repository, and what is found of the topology is what there is to
find. -/
theorem exact_federationTopology (reader : Reader) (repo : LoadedRepository) :
    Exact reader repo (federationTopology reader repo) where
  loops project hub := by
    have hfirst := @exists_first_iff reader repo project hub fun k =>
      Relation.TransGen (graph reader repo k.1).Step k.2 k.2
    have hloop : Relation.TransGen (graph reader repo (key project hub).1).Step (key project hub).2
        (key project hub).2 ↔ Relation.TransGen (Member reader repo project) hub hub := by
      rw [← step_eq]
      rfl
    simp only [mem_loop]
    rw [hfirst, hloop]
    exact and_iff_right_of_imp exists_registration_of_loop
  spaces r hr := by
    rw [mem_dangling_topology (by simp) (by simp)]
    constructor
    · rintro ⟨r', hr', h⟩
      rcases mem_dangling.1 h with ⟨-, hp, hspace⟩ | ⟨name, -, ⟨-, hp⟩, -⟩
      · obtain ⟨hid, hhub⟩ := Problem.undeclared.inj hp
        rwa [hhub, project_of_mem hr, hid, ← project_of_mem hr']
      · cases hp
    · intro hspace
      exact ⟨r, hr, mem_dangling.2 (.inl ⟨rfl, rfl, hspace⟩)⟩
  endpoints r hr name hname := by
    rw [mem_dangling_topology (by simp) (by simp)]
    constructor
    · rintro ⟨r', hr', h⟩
      rcases mem_dangling.1 h with ⟨-, hp, -⟩ | ⟨name', -, ⟨-, hp⟩, hendpoint⟩
      · cases hp
      · obtain ⟨hid, rfl⟩ := Problem.dangling.inj hp
        rwa [project_of_mem hr, hid, ← project_of_mem hr']
    · intro hendpoint
      exact ⟨r, hr, mem_dangling.2 (.inr ⟨name, hname, ⟨rfl, rfl⟩, hendpoint⟩)⟩
  hubs r hr := by
    have hfirst := @exists_first_iff reader repo r.project r.hub fun k =>
      isServed repo k = false
    simp only [mem_unserved_topology]
    rw [hfirst, ← Bool.not_eq_true, isServed_iff, not_exists]
    exact and_iff_right ⟨r, hr, rfl, rfl⟩

end Findings

end JoinedContext.Jcctl.Federation
