import JoinedContext.Library.Claims
import JoinedContext.Mqtt.Brokers

/-!
# Derived identities

The Keycloak clients and Kubernetes ServiceAccounts an organization's objects derive. The assembly
refuses the second object to derive one; the harness every project's pipelines are tested as is no
object of the repository, and its identities are entered nowhere.
-/

namespace JoinedContext.Assemble

open Jcctl Auth Mqtt

inductive What where
  | client
  | account
deriving DecidableEq

def What.text : What → String
  | .client => "the Keycloak client"
  | .account => "the Kubernetes ServiceAccount"

abbrev Identity : Type := What × String

inductive AssembleError where
  | conflict (what value first second : String)
  | derived (what value first second : String)

/-- The hash whose hexadecimal digits end a name that had to be shortened. -/
structure Sha256 where
  hex : String → String
  digits : ∀ s, ∀ c ∈ (hex s).toList, c ∈ "0123456789abcdef".toList
  length : ∀ s, (hex s).toList.length = 64

section Source

variable (sha : Sha256)

/-- The account of a pipeline. -/
def accountName (pipeline : String) : String := bounded sha.hex ("pl-" ++ pipeline)

def kubernetesServiceAccount (project pipeline : String) : String :=
  bounded sha.hex ("pl-" ++ project ++ "-" ++ pipeline)

/-- The account of an App's jobs. -/
def jobAccountName (app : String) : String := bounded sha.hex ("appjob-" ++ app)

def jobKubernetesServiceAccount (project app : String) : String :=
  bounded sha.hex ("appjob-" ++ project ++ "-" ++ app)

/-- The name of each project's pipeline-test harness. -/
def HARNESS : String := "pipeline-test"

/-- What a manifest claims. -/
def claimsOf (id : ResourceId) : List Identity :=
  let project := projectOfId id
  let name := id.name
  if id.kind = "ServiceAccount" then [(.client, keycloakClientId project name)]
  else if id.kind = "Pipeline" then
    [(.client, keycloakClientId project (accountName sha name)),
      (.account, kubernetesServiceAccount sha project name)]
  else if id.kind = "App" then
    [(.client, "app-" ++ name), (.client, keycloakClientId project (jobAccountName sha name)),
      (.account, jobKubernetesServiceAccount sha project name)]
  else if id.kind = "MqttBroker" then
    [(.client, releaseName sha.hex project name), (.client, certificateReleaseName sha.hex project name)]
  else if id.kind = "McpServer" then [(.client, "mcp-" ++ project ++ "-" ++ name)]
  else []

def ownerText (id : ResourceId) : String :=
  "the " ++ id.kind ++ " \x60" ++ id.name ++ "\x60 of the project \x60" ++ projectOfId id ++ "\x60"

def uniqueIdentities (repo : Repository) : Except AssembleError Unit :=
  Claims.enter (fun identity first second => some (.derived identity.1.text identity.2 first second))
    (repo.iter.flatMap fun c => (claimsOf sha c.1).map (·, ownerText c.1)) []

end Source

section Property

variable (sha : Sha256) (repo : Repository)

/-- Whom an identity is derived for. -/
inductive Owner where
  | manifest (id : ResourceId)
  | harness (project : String)
deriving DecidableEq

/-- What a manifest derives: what it claims, and a broker's ServiceAccounts, which are named as its
releases. -/
def identitiesOf (id : ResourceId) : List Identity :=
  claimsOf sha id ++ if id.kind = "MqttBroker" then
    [(.account, releaseName sha.hex (projectOfId id) id.name),
      (.account, certificateReleaseName sha.hex (projectOfId id) id.name)]
  else []

def harnessOf (project : String) : List Identity :=
  [(.client, keycloakClientId project (accountName sha HARNESS)),
    (.account, kubernetesServiceAccount sha project HARNESS)]

def Owner.identities : Owner → List Identity
  | .manifest id => identitiesOf sha id
  | .harness project => harnessOf sha project

def projects : List String := (repo.iter.filter fun c => c.1.kind = "Project").map fun c => c.1.name

/-- The objects of a repository, with the harness of every project. -/
def Owner.In : Owner → Prop
  | .manifest id => id ∈ repo.iter.map Prod.fst
  | .harness project => project ∈ projects repo

/-- Every identity is derived for one object. -/
def OneObject : Prop :=
  ∀ o o' : Owner, o.In repo → o'.In repo → ∀ i ∈ o.identities sha, i ∈ o'.identities sha → o = o'

/-- No manifest derives an identity of a project's harness. -/
def HarnessApart : Prop :=
  ∀ id ∈ repo.iter.map Prod.fst, ∀ project ∈ projects repo, ∀ i ∈ identitiesOf sha id,
    i ∉ harnessOf sha project

def harnessName (project : String) : String := "pl-" ++ project ++ "-" ++ HARNESS

/-- The digits tell the harnesses of two projects apart whose accounts are shortened. -/
def NoCollision : Prop :=
  ∀ p ∈ projects repo, ∀ q ∈ projects repo, 63 < (harnessName p).utf8ByteSize →
    63 < (harnessName q).utf8ByteSize →
    (sha.hex (harnessName p)).toList.take 10 = (sha.hex (harnessName q)).toList.take 10 → p = q

end Property

section Names

variable {sha : Sha256} {name : String}

theorem head_bounded {c : Char} (hhead : name.toList.head? = some c) (hc : c ≠ '-') :
    (bounded sha.hex name).toList.head? = some c := by
  obtain ⟨rest, hname⟩ := List.head?_eq_some_iff.1 hhead
  unfold bounded
  split_ifs
  · exact hhead
  · rw [String.toList_append, String.toList_append, String.toList_ofList, hname]
    obtain ⟨more, hmore⟩ : ∃ more, ((c :: rest).take 52).rdropWhile (· == '-') = c :: more := by
      have hpre := List.rdropWhile_prefix (p := (· == '-')) (l := (c :: rest).take 52)
      cases hdrop : ((c :: rest).take 52).rdropWhile (· == '-') with
      | nil =>
        have := List.rdropWhile_eq_nil_iff.1 hdrop c (by simp)
        exact absurd (beq_iff_eq.1 this) hc
      | cons d more =>
        rw [hdrop] at hpre
        obtain ⟨tail, htail⟩ := hpre
        exact ⟨more, by rw [(List.cons.inj htail).1]⟩
    rw [hmore]
    rfl

theorem bounded_of_lt (sha : Sha256) (h : 63 < name.utf8ByteSize) : ∃ front : List Char,
    (bounded sha.hex name).toList = front ++ (sha.hex name).toList.take 10 := by
  refine ⟨(name.toList.take 52).rdropWhile (· == '-') ++ ['-'], ?_⟩
  rw [bounded, if_neg (by omega), String.toList_append, String.toList_append, String.toList_ofList,
    String.toList_ofList, String.toList_ofList]

theorem length_take_hex (sha : Sha256) (s : String) : ((sha.hex s).toList.take 10).length = 10 := by
  rw [List.length_take, sha.length]
  rfl

/-- The last character of a shortened name is a digit. -/
theorem getLast_bounded (sha : Sha256) (h : 63 < name.utf8ByteSize) : ∃ c, (bounded sha.hex name).toList.getLast? = some c ∧
    c ∈ "0123456789abcdef".toList := by
  obtain ⟨front, hfront⟩ := bounded_of_lt sha h
  have hne : (sha.hex name).toList.take 10 ≠ [] := fun hnil => by
    have := length_take_hex sha name
    rw [hnil] at this
    cases this
  refine ⟨((sha.hex name).toList.take 10).getLast hne, ?_, ?_⟩
  · rw [hfront, List.getLast?_append_of_ne_nil _ hne, List.getLast?_eq_getLast_of_ne_nil hne]
  · exact sha.digits name _ (List.mem_of_mem_take (List.getLast_mem hne))

theorem getLast_harnessName (project : String) : (harnessName project).toList.getLast? = some 't' := by
  unfold harnessName
  rw [String.toList_append]
  exact List.getLast?_append_of_ne_nil _ (by decide)

theorem harnessName_injective : Function.Injective harnessName := by
  intro p q h
  have hlist := congrArg String.toList h
  unfold harnessName at hlist
  rw [String.toList_append, String.toList_append, String.toList_append, String.toList_append,
    String.toList_append, String.toList_append] at hlist
  exact String.toList_inj.1 (List.append_cancel_left (List.append_cancel_right
    (List.append_cancel_right hlist)))

theorem bounded_of_le (h : name.utf8ByteSize ≤ 63) : bounded sha.hex name = name := if_pos h

/-- The harnesses of two projects are derived two accounts. -/
theorem eq_of_harness_account {p q : String}
    (hdigits : 63 < (harnessName p).utf8ByteSize → 63 < (harnessName q).utf8ByteSize →
      (sha.hex (harnessName p)).toList.take 10 = (sha.hex (harnessName q)).toList.take 10 → p = q)
    (h : bounded sha.hex (harnessName p) = bounded sha.hex (harnessName q)) : p = q := by
  have hapart : ∀ {a b : String}, (harnessName a).utf8ByteSize ≤ 63 → 63 < (harnessName b).utf8ByteSize →
      bounded sha.hex (harnessName a) ≠ bounded sha.hex (harnessName b) := fun {a b} ha hb heq => by
    obtain ⟨c, hc, hdigit⟩ := getLast_bounded sha hb
    rw [← heq, bounded_of_le ha, getLast_harnessName] at hc
    cases hc
    exact absurd hdigit (by decide)
  rcases Nat.lt_or_ge 63 (harnessName p).utf8ByteSize with hp | hp
  · rcases Nat.lt_or_ge 63 (harnessName q).utf8ByteSize with hq | hq
    · obtain ⟨front, hfront⟩ := bounded_of_lt sha hp
      obtain ⟨front', hfront'⟩ := bounded_of_lt sha hq
      have hlist : front ++ _ = front' ++ _ := hfront.symm.trans ((congrArg _ h).trans hfront')
      exact hdigits hp hq (List.append_inj_right' hlist (by rw [length_take_hex, length_take_hex]))
    · exact (hapart hq hp h.symm).elim
  · rcases Nat.lt_or_ge 63 (harnessName q).utf8ByteSize with hq | hq
    · exact (hapart hp hq h).elim
    · rw [bounded_of_le hp, bounded_of_le hq] at h
      exact harnessName_injective h

end Names

section Unique

variable {sha : Sha256} {repo : Repository} {id id' : ResourceId} {v : String}

theorem uniqueIdentities_eq_ok : uniqueIdentities sha repo = .ok () ↔
    (repo.iter.flatMap fun c => (claimsOf sha c.1).map (·, ownerText c.1)).Pairwise
      fun c d => c.1 ≠ d.1 :=
  (Claims.enter_eq_ok (R := fun _ _ => False) (by simp) (by simp)).trans
    (by simp only [imp_false, ne_eq])

/-- Accepted, two manifests claim nothing alike. -/
theorem eq_of_mem_claimsOf (hok : uniqueIdentities sha repo = .ok ()) (hid : id ∈ repo.iter.map Prod.fst)
    (hid' : id' ∈ repo.iter.map Prod.fst) {i : Identity} (hi : i ∈ claimsOf sha id)
    (hi' : i ∈ claimsOf sha id') : id = id' := by
  by_contra hne
  obtain ⟨c, hc, rfl⟩ := List.mem_map.1 hid
  obtain ⟨d, hd, rfl⟩ := List.mem_map.1 hid'
  have hpair := (List.pairwise_flatMap.1 (uniqueIdentities_eq_ok.1 hok)).2
  have : Std.Symm fun a b : ResourceId × LoadedResource =>
      ∀ x ∈ (claimsOf sha a.1).map (·, ownerText a.1), ∀ y ∈ (claimsOf sha b.1).map (·, ownerText b.1),
        x.1 ≠ y.1 := ⟨fun a b hab x hx y hy => (hab y hy x hx).symm⟩
  exact hpair.forall hc hd (fun heq => hne (congrArg Prod.fst heq)) _ (List.mem_map_of_mem hi) _
    (List.mem_map_of_mem hi') rfl

/-- The first letter of a ServiceAccount's name tells whose it is. -/
theorem head_of_mem_claimsOf (hi : (.account, v) ∈ claimsOf sha id) :
    v.toList.head? = some 'p' ∨ v.toList.head? = some 'a' := by
  have hpipeline : ∀ name, (bounded sha.hex ("pl-" ++ projectOfId id ++ "-" ++ name)).toList.head? =
      some 'p' := fun name => head_bounded (by simp) (by decide)
  have hjob : ∀ name, (bounded sha.hex ("appjob-" ++ projectOfId id ++ "-" ++ name)).toList.head? =
      some 'a' := fun name => head_bounded (by simp) (by decide)
  unfold claimsOf at hi
  simp only [] at hi
  split_ifs at hi <;> simp at hi
  · exact Or.inl (hi ▸ hpipeline id.name)
  · exact Or.inr (hi ▸ hjob id.name)

/-- What a manifest derives and does not claim is a broker's release, which it claims as a client. -/
theorem mem_identitiesOf {i : Identity} (hi : i ∈ identitiesOf sha id) :
    i ∈ claimsOf sha id ∨
      i.1 = .account ∧ i.2.toList.head? = some 'm' ∧ (.client, i.2) ∈ claimsOf sha id := by
  unfold identitiesOf at hi
  rcases List.mem_append.1 hi with hi | hi
  · exact Or.inl hi
  · split_ifs at hi with hkind
    · have hclaims : claimsOf sha id = [(.client, releaseName sha.hex (projectOfId id) id.name),
          (.client, certificateReleaseName sha.hex (projectOfId id) id.name)] := by
        unfold claimsOf
        simp [hkind]
      have hhead : ∀ rest, (bounded sha.hex ("mqtt-" ++ projectOfId id ++ "-" ++ rest)).toList.head? =
          some 'm' := fun rest => head_bounded (by simp) (by decide)
      rw [hclaims]
      rcases List.mem_cons.1 hi with rfl | hi
      · exact Or.inr ⟨rfl, hhead id.name, List.mem_cons_self⟩
      · obtain rfl := List.mem_singleton.1 hi
        refine Or.inr ⟨rfl, ?_, List.mem_cons_of_mem _ (List.mem_singleton_self _)⟩
        exact head_bounded (by simp) (by decide)
    · cases hi

/-- Accepted, two manifests derive nothing alike. -/
theorem eq_of_mem_identitiesOf (hok : uniqueIdentities sha repo = .ok ())
    (hid : id ∈ repo.iter.map Prod.fst) (hid' : id' ∈ repo.iter.map Prod.fst) {i : Identity}
    (hi : i ∈ identitiesOf sha id) (hi' : i ∈ identitiesOf sha id') : id = id' := by
  obtain ⟨what, v⟩ := i
  have hletters : ∀ {id : ResourceId}, (what, v) ∈ claimsOf sha id → what = .account →
      v.toList.head? = some 'm' → False := fun {id} hclaims hwhat hm => by
    subst hwhat
    rcases head_of_mem_claimsOf hclaims with hp | ha
    · cases hm.symm.trans hp
    · cases hm.symm.trans ha
  rcases mem_identitiesOf hi with hclaims | ⟨hwhat, hm, hclient⟩
  · rcases mem_identitiesOf hi' with hclaims' | ⟨hwhat, hm, -⟩
    · exact eq_of_mem_claimsOf hok hid hid' hclaims hclaims'
    · exact (hletters hclaims hwhat hm).elim
  · rcases mem_identitiesOf hi' with hclaims' | ⟨-, -, hclient'⟩
    · exact (hletters hclaims' hwhat hm).elim
    · exact eq_of_mem_claimsOf hok hid hid' hclient hclient'

/-- The harnesses of two projects derive nothing alike. -/
theorem eq_of_mem_harnessOf {p q : String} {i : Identity}
    (hdigits : 63 < (harnessName p).utf8ByteSize → 63 < (harnessName q).utf8ByteSize →
      (sha.hex (harnessName p)).toList.take 10 = (sha.hex (harnessName q)).toList.take 10 → p = q)
    (hp : i ∈ harnessOf sha p) (hq : i ∈ harnessOf sha q) : p = q := by
  obtain ⟨what, v⟩ := i
  unfold harnessOf at hp hq
  cases what with
  | client =>
    have heq : keycloakClientId p (accountName sha HARNESS) =
        keycloakClientId q (accountName sha HARNESS) := by simp_all
    have hlist := congrArg String.toList heq
    unfold keycloakClientId at hlist
    rw [String.toList_append, String.toList_append, String.toList_append, String.toList_append] at hlist
    exact String.toList_inj.1 (List.append_cancel_right (List.append_cancel_right hlist))
  | account =>
    refine eq_of_harness_account hdigits ?_
    have heq : kubernetesServiceAccount sha p HARNESS = kubernetesServiceAccount sha q HARNESS := by
      simp_all
    exact heq

/-- Every identity an accepted organization derives is derived for one object exactly where no manifest
derives one of a harness. -/
theorem oneObject_iff (hok : uniqueIdentities sha repo = .ok ()) (hsha : NoCollision sha repo) :
    OneObject sha repo ↔ HarnessApart sha repo := by
  constructor
  · intro hone id hid project hproject i hi hi'
    have := hone (.manifest id) (.harness project) hid hproject i hi hi'
    cases this
  · intro hapart o o' ho ho' i hi hi'
    cases o with
    | manifest id =>
      cases o' with
      | manifest id' => rw [eq_of_mem_identitiesOf hok ho ho' hi hi']
      | harness q => exact (hapart id ho q ho' i hi hi').elim
    | harness p =>
      cases o' with
      | manifest id' => exact (hapart id' ho' p ho i hi' hi).elim
      | harness q => rw [eq_of_mem_harnessOf (hsha p ho q ho') hi hi']

end Unique

section Harness

/-- Ten digits of nothing: no name here is shortened. -/
def zeros : Sha256 where
  hex _ := String.ofList (List.replicate 64 '0')
  digits s c hc := by
    rw [String.toList_ofList] at hc
    rw [List.eq_of_mem_replicate hc]
    decide
  length s := by rw [String.toList_ofList, List.length_replicate]

def projectManifest (slug : String) : RawManifest :=
  { bareManifest "Project" slug slug with metadata := { name := slug, «namespace» := none, rest := [] } }

/-- Two projects, the first with a Pipeline. -/
def onePipeline (pipeline : String) : Repository :=
  ((Repository.empty.add "projects/a/project.yaml" (projectManifest "a")).add
    "projects/a-b/project.yaml" (projectManifest "a-b")).add "projects/a/pipeline.yaml"
    (bareManifest "Pipeline" "a" pipeline)

theorem oneObject_harness : OneObject zeros (onePipeline "air") ↔ HarnessApart zeros (onePipeline "air") :=
  oneObject_iff (uniqueIdentities_eq_ok.2 (by decide +kernel)) (by unfold NoCollision; decide +kernel)

/-- The Pipeline `b-pipeline-test` of the project `a` is accepted beside the harness of `a-b`. -/
theorem not_oneObject : uniqueIdentities zeros (onePipeline "b-pipeline-test") = .ok () ∧
    ¬ OneObject zeros (onePipeline "b-pipeline-test") := by
  refine ⟨uniqueIdentities_eq_ok.2 (by decide +kernel), fun hone => ?_⟩
  have hmanifest : (⟨"joinedcontext.com", "Pipeline", some "a", "b-pipeline-test"⟩ : ResourceId) ∈
      (onePipeline "b-pipeline-test").iter.map Prod.fst := by decide +kernel
  have hproject : "a-b" ∈ projects (onePipeline "b-pipeline-test") := by decide +kernel
  have := hone (.manifest _) (.harness "a-b") hmanifest hproject (.account, "pl-a-b-pipeline-test")
    (by decide +kernel) (by decide +kernel)
  cases this

end Harness

end JoinedContext.Assemble
