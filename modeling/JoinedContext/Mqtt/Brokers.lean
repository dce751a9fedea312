import JoinedContext.Auth.Principals
import JoinedContext.Mqtt.Isolation

/-!
# The brokers of a repository

Every broker by its release, with the topics the DataSources of its project read, and once more by
the release of its certificate door. The last broker of a release is the one held, and the first door.
-/

namespace JoinedContext.Mqtt

open Auth Jcctl

/-- A DataSource's `mqtt`: the broker it names, if one of the platform, and the topics it reads. -/
structure MqttSource where
  brokerRef : Option String
  topics : List String

structure DataSourceSpec where
  mqtt : Option MqttSource

structure Decoders extends Auth.Decoders where
  broker : Value → Option MqttBrokerSpec
  dataSource : Value → Option DataSourceSpec

/-- The release of a broker, which is its Service, its mesh identity and its Keycloak client too. -/
def releaseName (sha256 : String → String) (project name : String) : String :=
  bounded sha256 ("mqtt-" ++ project ++ "-" ++ name)

/-- The release of a broker's certificate door. -/
def certificateReleaseName (sha256 : String → String) (project name : String) : String :=
  bounded sha256 ("mqtt-" ++ project ++ "-" ++ name ++ "-cert")

/-- A broker of the repository that its kind admits. -/
structure Declared where
  id : ResourceId
  spec : MqttBrokerSpec
  sources : List SourceRange

/-- A DataSource that reads a broker of its project. -/
structure Reader where
  project : String
  broker : String
  topics : List String

namespace Declared

variable (sha256 : String → String) (b : Declared)

def project : String := projectOfId b.id

/-- Whether the broker has a certificate door. -/
def hasDoor : Bool := b.spec.effectiveDeviceAuth.contains .clientCertificate

def release : String := releaseName sha256 b.project b.id.name

def door : String := certificateReleaseName sha256 b.project b.id.name

/-- The entry of the broker, before the topics its runner reads. -/
def entry : Broker where
  name := b.id.name
  project := b.project
  roles := b.spec.roles
  sources := b.sources
  messagesPerSecond := b.spec.limits.messagesPerSecond
  captureTopics := if b.spec.mode = some .capture then captureTopics b.spec.roles else []
  tokens := b.spec.effectiveDeviceAuth.contains .token

end Declared

def Reader.release (sha256 : String → String) (r : Reader) : String :=
  releaseName sha256 r.project r.broker

section Repository

variable (d : Decoders) (repo : Repository)

def declared : List Declared :=
  (Auth.readAs repo "MqttBroker" d.broker).filterMap fun c =>
    match c.2.validate, c.2.sourceRanges with
    | .ok (), .ok sources => some ⟨c.1, c.2, sources⟩
    | _, _ => none

def readers : List Reader :=
  (Auth.readAs repo "DataSource" d.dataSource).filterMap fun c =>
    c.2.mqtt.bind fun mqtt => mqtt.brokerRef.map fun broker =>
      ⟨projectOfId c.1, broker, mqtt.topics⟩

end Repository

def withTopics (sha256 : String → String) (brokers : Brokers) (r : Reader) : Brokers :=
  match brokers.lookup (r.release sha256) with
  | some broker => Assoc.put (r.release sha256)
      { broker with runnerTopics := broker.runnerTopics ++ r.topics } brokers
  | none => brokers

def sortedTopics (broker : Broker) : Broker :=
  { broker with runnerTopics := (broker.runnerTopics.mergeSort (· ≤ ·)).dedup }

/-- The entry of a broker's certificate door. -/
def doorOf (broker : Broker) : Broker :=
  { broker with certificateDoor := true, runnerTopics := [], captureTopics := [] }

/-- A door whose release is served already is not served. -/
def withDoor (brokers : Brokers) (door : String × String) : Brokers :=
  if (brokers.lookup door.1).isSome then brokers
  else match brokers.lookup door.2 with
    | some broker => Assoc.put door.1 (doorOf broker) brokers
    | none => brokers

/-- The doors, each with the release it stands beside. -/
def doorsOf (sha256 : String → String) (brokers : List Declared) : List (String × String) :=
  (brokers.filter Declared.hasDoor).map fun b => (b.door sha256, b.release sha256)

/-- The entries under the brokers' own releases. -/
def releasesOf (sha256 : String → String) (brokers : List Declared) (readers : List Reader) :
    Brokers :=
  let served := brokers.foldl (fun served b => Assoc.put (b.release sha256) b.entry served) []
  (readers.foldl (withTopics sha256) served).map fun c => (c.1, sortedTopics c.2)

def brokersOf (d : Decoders) (repo : Repository) : Brokers :=
  (doorsOf d.sha256 (declared d repo)).foldl withDoor
    (releasesOf d.sha256 (declared d repo) (readers d repo))

/-! ## What a release holds -/

section Lookup

variable {sha256 : String → String} {brokers : List Declared} {rs : List Reader} {held : Brokers}
  {k : String}

/-- The topics read at a release. -/
def topicsAt (sha256 : String → String) (rs : List Reader) (k : String) : List String :=
  (rs.filter fun r => r.release sha256 = k).flatMap Reader.topics

theorem lookup_withTopics (r : Reader) : (withTopics sha256 held r).lookup k =
    (held.lookup k).map fun broker =>
      { broker with runnerTopics := broker.runnerTopics ++ topicsAt sha256 [r] k } := by
  unfold withTopics topicsAt
  by_cases hk : r.release sha256 = k
  · subst hk
    cases hheld : held.lookup (r.release sha256) with
    | none => simp [hheld]
    | some broker => simp [Assoc.lookup_put]
  · rw [List.filter_cons_of_neg (by simpa using hk)]
    cases hheld : held.lookup (r.release sha256) with
    | none => simp
    | some broker =>
      simp only []
      rw [Assoc.lookup_put, if_neg fun h => hk h.symm]
      simp

theorem lookup_foldl_withTopics (rs : List Reader) (held : Brokers) :
    (rs.foldl (withTopics sha256) held).lookup k = (held.lookup k).map fun broker =>
      { broker with runnerTopics := broker.runnerTopics ++ topicsAt sha256 rs k } := by
  induction rs generalizing held with
  | nil => simp [topicsAt]
  | cons r rs ih =>
    rw [List.foldl_cons, ih, lookup_withTopics, Option.map_map]
    congr 1
    funext broker
    have happend : topicsAt sha256 (r :: rs) k = topicsAt sha256 [r] k ++ topicsAt sha256 rs k := by
      unfold topicsAt
      rw [← List.flatMap_append, ← List.filter_append, List.singleton_append]
    simp [happend]

/-- The entry of a release is the last broker's that derives it, with the topics read there. -/
theorem lookup_releasesOf : (releasesOf sha256 brokers rs).lookup k =
    (brokers.filter fun b => b.release sha256 = k).getLast?.map fun b =>
      { b.entry with runnerTopics := ((topicsAt sha256 rs k).mergeSort (· ≤ ·)).dedup } := by
  unfold releasesOf
  simp only []
  rw [Assoc.lookup_map_snd (f := fun _ => sortedTopics), lookup_foldl_withTopics,
    Assoc.lookup_foldl_put]
  cases (brokers.filter fun b => b.release sha256 = k).getLast? <;> rfl

theorem lookup_withDoor {door : String × String} (hrelease : (held.lookup door.2).isSome) :
    (withDoor held door).lookup k =
      (held.lookup k <|> if door.1 = k then (held.lookup door.2).map doorOf else none) := by
  obtain ⟨broker, hbroker⟩ := Option.isSome_iff_exists.1 hrelease
  unfold withDoor
  rw [hbroker]
  split_ifs with hheld hk hk
  · obtain ⟨entry, hentry⟩ := Option.isSome_iff_exists.1 hheld
    rw [← hk, hentry]
    rfl
  · cases held.lookup k <;> rfl
  · simp only []
    rw [Assoc.lookup_put, if_pos hk.symm, ← hk, Option.not_isSome_iff_eq_none.1 hheld]
    rfl
  · simp only []
    rw [Assoc.lookup_put, if_neg fun h => hk h.symm]
    cases held.lookup k <;> rfl

/-- A name no release has is the first door's that derives it. -/
theorem lookup_foldl_withDoor : ∀ {doors : List (String × String)} {held : Brokers},
    (∀ door ∈ doors, (held.lookup door.2).isSome) →
      (doors.foldl withDoor held).lookup k = (held.lookup k <|>
        (doors.find? fun door => door.1 = k).bind fun door => (held.lookup door.2).map doorOf)
  | [], held, _ => by simp
  | door :: doors, held, hrelease => by
    have hdoor := hrelease door List.mem_cons_self
    have hkept : ∀ {release}, (held.lookup release).isSome →
        (withDoor held door).lookup release = held.lookup release := fun h => by
      obtain ⟨broker, hbroker⟩ := Option.isSome_iff_exists.1 h
      rw [lookup_withDoor hdoor, hbroker]
      rfl
    have hrest : ∀ other ∈ doors, (held.lookup other.2).isSome := fun other hother =>
      hrelease other (List.mem_cons_of_mem _ hother)
    rw [List.foldl_cons, lookup_foldl_withDoor fun other hother => by
      rw [hkept (hrest other hother)]
      exact hrest other hother]
    have hfind : (doors.find? fun other => other.1 = k).bind (fun other =>
        ((withDoor held door).lookup other.2).map doorOf) =
        (doors.find? fun other => other.1 = k).bind fun other =>
          (held.lookup other.2).map doorOf := by
      cases hother : doors.find? fun other => other.1 = k with
      | none => rfl
      | some other =>
        rw [Option.bind_some, Option.bind_some, hkept (hrest other (List.mem_of_find?_eq_some hother))]
    rw [hfind, lookup_withDoor hdoor]
    by_cases hk : door.1 = k
    · obtain ⟨broker, hbroker⟩ := Option.isSome_iff_exists.1 hdoor
      rw [if_pos hk, List.find?_cons_of_pos (by simpa using hk), Option.bind_some, hbroker]
      cases held.lookup k <;> rfl
    · rw [if_neg hk, List.find?_cons_of_neg (by simpa using hk)]
      cases held.lookup k <;> rfl

end Lookup

/-! ## Who a release stands for -/

section Served

variable {d : Decoders} {repo : Repository} {release : String} {entry : Broker}

/-- The broker derives the release, as its own or as its door's. -/
def Declared.Derives (sha256 : String → String) (b : Declared) (release : String) : Bool → Prop
  | false => b.release sha256 = release
  | true => b.hasDoor = true ∧ b.door sha256 = release

/-- The entry is the broker's own, and its runner reads what DataSources of its project read there. -/
structure IsOwn (rs : List Reader) (b : Declared) (entry : Broker) : Prop where
  eq : entry = { b.entry with
    runnerTopics := entry.runnerTopics
    captureTopics := if entry.certificateDoor then [] else b.entry.captureTopics
    certificateDoor := entry.certificateDoor }
  topics : ∀ topic ∈ entry.runnerTopics, ∃ r ∈ rs, r.project = b.project ∧ r.broker = b.id.name ∧
    topic ∈ r.topics

/-- A release serves one broker, or the door of one: the only one to derive it so. -/
def OneBroker (d : Decoders) (repo : Repository) : Prop :=
  ∀ release entry, (brokersOf d repo).lookup release = some entry →
    ∃ b ∈ declared d repo, b.Derives d.sha256 release entry.certificateDoor ∧
      IsOwn (readers d repo) b entry ∧
        ∀ c ∈ declared d repo, c.Derives d.sha256 release entry.certificateDoor → c = b

/-- No two brokers have one release, no two doors one that is no broker's, and a topic read at a
broker's release is read by a DataSource of its project that names it. -/
structure ReleasesApart (d : Decoders) (repo : Repository) : Prop where
  releases : ∀ b ∈ declared d repo, ∀ c ∈ declared d repo,
    b.release d.sha256 = c.release d.sha256 → b = c
  doors : ∀ b ∈ declared d repo, ∀ c ∈ declared d repo, b.hasDoor = true → c.hasDoor = true →
    b.door d.sha256 = c.door d.sha256 →
      (∀ other ∈ declared d repo, other.release d.sha256 ≠ b.door d.sha256) → b = c
  readers : ∀ b ∈ declared d repo, ∀ r ∈ readers d repo,
    r.release d.sha256 = b.release d.sha256 → ∀ topic ∈ r.topics,
      ∃ own ∈ readers d repo, own.project = b.project ∧ own.broker = b.id.name ∧
        topic ∈ own.topics

/-- The entry a broker leaves at a release. -/
def entryAt (sha256 : String → String) (rs : List Reader) (b : Declared) (release : String) :
    Broker :=
  { b.entry with runnerTopics := ((topicsAt sha256 rs release).mergeSort (· ≤ ·)).dedup }

theorem mem_topicsAt {sha256 : String → String} {rs : List Reader} {topic : String} :
    topic ∈ topicsAt sha256 rs release ↔
      ∃ r ∈ rs, r.release sha256 = release ∧ topic ∈ r.topics := by
  simp only [topicsAt, List.mem_flatMap, List.mem_filter, decide_eq_true_eq, and_assoc]

theorem lookup_releasesOf_isSome (sha256 : String → String) {brokers : List Declared}
    (rs : List Reader) {b : Declared} (hb : b ∈ brokers) :
    ((releasesOf sha256 brokers rs).lookup (b.release sha256)).isSome := by
  rw [lookup_releasesOf, Option.isSome_map, Option.isSome_iff_ne_none, Ne,
    List.getLast?_eq_none_iff]
  exact List.ne_nil_of_mem (List.mem_filter.2 ⟨hb, by simp⟩)

theorem lookup_brokersOf : (brokersOf d repo).lookup release =
    ((releasesOf d.sha256 (declared d repo) (readers d repo)).lookup release <|>
      ((doorsOf d.sha256 (declared d repo)).find? fun door => door.1 = release).bind fun door =>
        ((releasesOf d.sha256 (declared d repo) (readers d repo)).lookup door.2).map doorOf) := by
  refine lookup_foldl_withDoor fun door hdoor => ?_
  obtain ⟨b, hb, rfl⟩ := List.mem_map.1 hdoor
  exact lookup_releasesOf_isSome _ _ (List.mem_of_mem_filter hb)

theorem lookup_releasesOf_eq_some
    (h : (releasesOf d.sha256 (declared d repo) (readers d repo)).lookup release = some entry) :
    ∃ b ∈ declared d repo, b.release d.sha256 = release ∧
      entryAt d.sha256 (readers d repo) b release = entry := by
  rw [lookup_releasesOf, Option.map_eq_some_iff] at h
  obtain ⟨b, hb, rfl⟩ := h
  obtain ⟨hmem, hrelease⟩ := List.mem_filter.1 (List.mem_of_getLast? hb)
  exact ⟨b, hmem, by simpa using hrelease, rfl⟩

/-- What a release holds: the entry of a broker it is the release of, or of one whose door it is. -/
theorem lookup_brokersOf_cases (h : (brokersOf d repo).lookup release = some entry) :
    (∃ b ∈ declared d repo, b.release d.sha256 = release ∧
      entryAt d.sha256 (readers d repo) b release = entry) ∨
    (∀ b ∈ declared d repo, b.release d.sha256 ≠ release) ∧
      ∃ b ∈ declared d repo, b.Derives d.sha256 release true ∧
        ∃ c ∈ declared d repo, c.release d.sha256 = b.release d.sha256 ∧
          doorOf (entryAt d.sha256 (readers d repo) c (b.release d.sha256)) = entry := by
  rw [lookup_brokersOf] at h
  cases hheld : (releasesOf d.sha256 (declared d repo) (readers d repo)).lookup release with
  | some held =>
    rw [hheld] at h
    cases h
    exact Or.inl (lookup_releasesOf_eq_some hheld)
  | none =>
    rw [hheld] at h
    obtain ⟨door, hdoor, hentry⟩ := Option.bind_eq_some_iff.1 h
    obtain ⟨b, hb, rfl⟩ := List.mem_map.1 (List.mem_of_find?_eq_some hdoor)
    obtain ⟨hmem, hhas⟩ := List.mem_filter.1 hb
    obtain ⟨held, hc, rfl⟩ := Option.map_eq_some_iff.1 hentry
    obtain ⟨c, hcmem, hrelease, rfl⟩ := lookup_releasesOf_eq_some hc
    refine Or.inr ⟨fun other hother heq => ?_, b, hmem, ⟨hhas, ?_⟩, c, hcmem, hrelease, rfl⟩
    · have := lookup_releasesOf_isSome d.sha256 (readers d repo) hother
      rw [heq, hheld] at this
      cases this
    · simpa using List.find?_some hdoor

/-- A broker's release holds an entry of its own form. -/
theorem exists_lookup_release {b : Declared} (hb : b ∈ declared d repo) :
    ∃ c ∈ declared d repo, c.release d.sha256 = b.release d.sha256 ∧
      (brokersOf d repo).lookup (b.release d.sha256) =
        some (entryAt d.sha256 (readers d repo) c (b.release d.sha256)) := by
  obtain ⟨held, hheld⟩ := Option.isSome_iff_exists.1
    (lookup_releasesOf_isSome d.sha256 (readers d repo) hb)
  obtain ⟨c, hc, hrelease, rfl⟩ := lookup_releasesOf_eq_some hheld
  refine ⟨c, hc, hrelease, ?_⟩
  rw [lookup_brokersOf, hheld]
  rfl

/-- The name of a door that is no broker's release holds a door. -/
theorem exists_lookup_door {b : Declared} (hb : b ∈ declared d repo) (hdoor : b.hasDoor = true)
    (hfree : ∀ other ∈ declared d repo, other.release d.sha256 ≠ b.door d.sha256) :
    ∃ entry, (brokersOf d repo).lookup (b.door d.sha256) = some entry ∧
      entry.certificateDoor = true := by
  have hnone : (releasesOf d.sha256 (declared d repo) (readers d repo)).lookup
      (b.door d.sha256) = none := by
    by_contra hne
    obtain ⟨held, hheld⟩ := Option.ne_none_iff_exists'.1 hne
    obtain ⟨c, hc, hrelease, -⟩ := lookup_releasesOf_eq_some hheld
    exact hfree c hc hrelease
  have hfind : ((doorsOf d.sha256 (declared d repo)).find? fun door =>
      door.1 = b.door d.sha256).isSome := by
    rw [List.find?_isSome]
    exact ⟨_, List.mem_map.2 ⟨b, List.mem_filter.2 ⟨hb, hdoor⟩, rfl⟩, by simp⟩
  obtain ⟨door, hfound⟩ := Option.isSome_iff_exists.1 hfind
  obtain ⟨c, hc, rfl⟩ := List.mem_map.1 (List.mem_of_find?_eq_some hfound)
  obtain ⟨held, hheld⟩ := Option.isSome_iff_exists.1 (lookup_releasesOf_isSome
    d.sha256 (readers d repo) (List.mem_of_mem_filter hc))
  refine ⟨doorOf held, ?_, rfl⟩
  rw [lookup_brokersOf, hnone, hfound, Option.bind_some, hheld]
  rfl

theorem oneBroker_iff : OneBroker d repo ↔ ReleasesApart d repo := by
  constructor
  · intro h
    have hreleases : ∀ b ∈ declared d repo, ∀ c ∈ declared d repo,
        b.release d.sha256 = c.release d.sha256 → b = c := fun b hb c hc heq => by
      obtain ⟨last, -, -, hlookup⟩ := exists_lookup_release hb
      obtain ⟨own, -, -, -, hone⟩ := h _ _ hlookup
      exact (hone b hb rfl).trans (hone c hc heq.symm).symm
    refine ⟨hreleases, fun b hb c hc hdoor hdoor' heq hfree => ?_,
      fun b hb r hr heq topic htopic => ?_⟩
    · obtain ⟨entry, hlookup, hform⟩ := exists_lookup_door hb hdoor hfree
      obtain ⟨own, -, -, -, hone⟩ := h _ _ hlookup
      rw [hform] at hone
      exact (hone b hb ⟨hdoor, rfl⟩).trans (hone c hc ⟨hdoor', heq.symm⟩).symm
    · obtain ⟨last, hlast, hrelease, hlookup⟩ := exists_lookup_release hb
      obtain rfl := hreleases last hlast b hb hrelease
      obtain ⟨own, -, -, hown, hone⟩ := h _ _ hlookup
      obtain rfl := hone last hlast rfl
      refine hown.topics topic ?_
      rw [entryAt, List.mem_dedup, List.mem_mergeSort, mem_topicsAt]
      exact ⟨r, hr, heq, htopic⟩
  · intro h release entry hlookup
    have htopics : ∀ b ∈ declared d repo, ∀ topic ∈
        (entryAt d.sha256 (readers d repo) b (b.release d.sha256)).runnerTopics,
        ∃ r ∈ readers d repo, r.project = b.project ∧ r.broker = b.id.name ∧ topic ∈ r.topics :=
      fun b hb topic htopic => by
        rw [entryAt, List.mem_dedup, List.mem_mergeSort, mem_topicsAt] at htopic
        obtain ⟨r, hr, heq, htopic⟩ := htopic
        exact h.readers b hb r hr heq topic htopic
    rcases lookup_brokersOf_cases hlookup with ⟨b, hb, rfl, rfl⟩ | ⟨hfree, b, hb, hder, c, hc, heq, rfl⟩
    · exact ⟨b, hb, rfl, ⟨rfl, htopics b hb⟩, fun c hc hder => h.releases c hc b hb hder⟩
    · obtain rfl := h.releases c hc b hb heq
      obtain ⟨hdoor, rfl⟩ := hder
      refine ⟨c, hb, ⟨hdoor, rfl⟩, ⟨rfl, fun topic htopic => by cases htopic⟩, fun e he hder => ?_⟩
      exact h.doors e he c hb hder.1 hdoor hder.2 fun other hother =>
        hder.2 ▸ hfree other hother

/-- Every client id and every release stands for one manifest exactly where no two manifests that
would be served by it derive it. -/
theorem onePrincipal_and_oneBroker_iff :
    OnePrincipal d.toDecoders repo ∧ OneBroker d repo ↔
      ClientsApart d.toDecoders repo ∧ ReleasesApart d repo :=
  and_congr onePrincipal_iff oneBroker_iff

end Served

section TwoApps

def bareManifest (kind project name : String) : RawManifest where
  apiVersion := API_VERSION
  kind := kind
  metadata := { name, «namespace» := some project, rest := [] }
  spec := .obj []
  status := none
  rest_wellFormed := rfl
  spec_wellFormed := rfl

/-- Every App needs the space `air`, and every Endpoint serves it to everybody. -/
def airDecoders : Decoders where
  serviceAccount := fun _ => none
  pipeline := fun _ => none
  endpoint := fun _ => some { slug := "q-air", contextSpace := "air", isPublic := true }
  reference := fun _ => none
  app := fun _ => some { dataNeeds := ["air"] }
  sha256 := id
  broker := fun _ => none
  dataSource := fun _ => none

/-- Two projects have an App of one name, and the second an Endpoint. -/
def twoApps : Repository :=
  ((Repository.empty.add "p/app.yaml" (bareManifest "App" "p" "map")).add "q/app.yaml"
    (bareManifest "App" "q" "map")).add "q/endpoint.yaml" (bareManifest "Endpoint" "q" "air")

/-- The client of both Apps is admitted on the endpoint of the second. -/
theorem not_onePrincipal_and_oneBroker :
    ¬ (OnePrincipal airDecoders.toDecoders twoApps ∧ OneBroker airDecoders twoApps) := by
  rintro ⟨h, -⟩
  obtain ⟨a, -, -, -, hone⟩ := h.admits "app-map" ["q-air"] "q-air" (by decide +kernel)
    (List.mem_singleton_self _)
  have hp := hone ⟨⟨"joinedcontext.com", "App", some "p", "map"⟩, false⟩
    (Or.inr (by decide +kernel))
  have hq := hone ⟨⟨"joinedcontext.com", "App", some "q", "map"⟩, false⟩
    (Or.inr (by decide +kernel))
  rw [← hq] at hp
  exact absurd hp (by decide)

end TwoApps

end JoinedContext.Mqtt
