import JoinedContext.Auth.Subject
import JoinedContext.Library.Outcome
import JoinedContext.Pdp.Project

/-!
# What the groups of a token decide

A token carries its groups twice: plainly, and under the Organization each belongs to. The policies
are matched against the second wherever the token has them; the roles of an endpoint are given by
the first.
-/

namespace JoinedContext.Auth

open Evaluator Project

variable {gateway : Gateway} {endpoint : Endpoint} {now : Instant} {claims : Claims} {s t : Caller}

section Verdicts

/-- Whether every role and every verdict is the same for two subjects. -/
structure SameVerdicts (s t : Subject) : Prop where
  roles : s.roles = t.roles
  assigned : ∀ assignee, s.is assignee = t.is assignee
  decided : ∀ (crates : Crates) (F : Type) [Float64 F] operation request space policies
    hiddenAttributes projection now,
    PolicyPdp.decide crates F s operation request space policies hiddenAttributes projection now =
      PolicyPdp.decide crates F t operation request space policies hiddenAttributes projection now

/-- A decision knows of the caller only which policies are theirs, and whether they may write. -/
theorem decide_congr {s t : Subject} (hassigned : ∀ assignee, s.is assignee = t.is assignee)
    (hreadOnly : s.readOnly = t.readOnly) (crates : Crates) (F : Type) [Float64 F]
    (operation : Operation) (request : Request) (space : String) (policies : List PolicySpec)
    (hiddenAttributes : Finset String) (projection : Option ModelProjectionSpec) (now : Instant) :
    PolicyPdp.decide crates F s operation request space policies hiddenAttributes projection now =
      PolicyPdp.decide crates F t operation request space policies hiddenAttributes projection
        now := by
  have happlies : applies s operation now = applies t operation now := by
    funext policy
    unfold applies
    rw [hassigned]
  have hevaluate : evaluate crates F s operation request space policies now =
      evaluate crates F t operation request space policies now := by
    unfold evaluate permissions prohibitions
    rw [happlies, hreadOnly]
  unfold PolicyPdp.decide
  rw [hevaluate]

theorem SameVerdicts.refl (s : Subject) : SameVerdicts s s :=
  ⟨rfl, fun _ => rfl, fun _ _ _ _ _ _ _ _ _ _ => rfl⟩

/-- Two subjects that differ in nothing but their plain groups fare alike, where the groups of an
Organization are what a policy is matched against. -/
theorem sameVerdicts_of_groups {s : Subject} (groups : Finset String)
    (hsome : s.organizationGroups ≠ none) : SameVerdicts s { s with groups := groups } := by
  have hassigned : ∀ assignee, s.is assignee = ({ s with groups := groups } : Subject).is assignee := by
    intro assignee
    obtain ⟨own, hown⟩ := Option.ne_none_iff_exists'.1 hsome
    simp [Subject.is, Subject.grantGroups, Subject.userPrincipal, hown]
  exact ⟨rfl, hassigned, fun crates F _ => decide_congr hassigned rfl crates F⟩

end Verdicts

section Given

/-- Whether a named role of the endpoint is given by one of the groups. -/
def GivenByGroup (r : EndpointRoles) (groups : List String) (role : String) : Prop :=
  r.appClient = none ∧ ∃ n ∈ r.named, n.role = role ∧
    ∃ subject ∈ n.subjects, subject.user = none ∧ ∃ group ∈ groups, subject.group = some group

/-- Whether a role of the endpoint is given whatever the groups: to every caller, to the user, or by
the roles of the endpoint's app client. -/
def GivenAnyway (r : EndpointRoles) (user : Option String) (clientRoles : List String)
    (role : String) : Prop :=
  r.caller = some role ∨ ∃ n ∈ r.named, n.role = role ∧
    if r.appClient.isSome then n.name ∈ clientRoles
    else ∃ subject ∈ n.subjects, subject.group = none ∧ ∃ u, subject.user = some u ∧ user = some u

theorem names_iff {user : Option String} {groups : Finset String} {subject : Kinds.Subject} :
    EndpointRoles.names user groups subject = true ↔
      (subject.group = none ∧ ∃ u, subject.user = some u ∧ user = some u) ∨
        subject.user = none ∧ ∃ group ∈ groups, subject.group = some group := by
  unfold EndpointRoles.names
  rcases subject with ⟨_ | u, _ | g⟩ <;> simp

theorem mem_heldBy {r : EndpointRoles} {user : Option String} {groups clientRoles : List String}
    {role : String} :
    role ∈ r.heldBy user groups.toFinset clientRoles ↔
      GivenAnyway r user clientRoles role ∨ GivenByGroup r groups role := by
  unfold EndpointRoles.heldBy GivenAnyway GivenByGroup
  rw [List.mem_append, Option.mem_toList, or_assoc]
  refine or_congr_right ?_
  rcases happ : r.appClient with _ | client
  · simp only [List.mem_map, List.mem_filter, Option.isSome_none, Bool.false_eq_true, if_false,
      List.any_eq_true, names_iff, List.mem_toFinset, true_and]
    constructor
    · rintro ⟨n, ⟨hn, subject, hsubject, hnames | hnames⟩, rfl⟩
      · exact Or.inl ⟨n, hn, rfl, subject, hsubject, hnames⟩
      · exact Or.inr ⟨n, hn, rfl, subject, hsubject, hnames⟩
    · rintro (⟨n, hn, rfl, subject, hsubject, hnames⟩ | ⟨n, hn, rfl, subject, hsubject, hnames⟩)
      · exact ⟨n, ⟨hn, subject, hsubject, Or.inl hnames⟩, rfl⟩
      · exact ⟨n, ⟨hn, subject, hsubject, Or.inr hnames⟩, rfl⟩
  · simp only [List.mem_map, List.mem_filter, Option.isSome_some, if_true, decide_eq_true_eq,
      reduceCtorEq, false_and, or_false]
    exact ⟨fun ⟨n, ⟨hn, hname⟩, hrole⟩ => ⟨n, hn, hrole, hname⟩,
      fun ⟨n, hn, hrole, hname⟩ => ⟨n, ⟨hn, hname⟩, hrole⟩⟩

end Given

section Read

/-- Whether the token is decided with its plain groups: a person's is. -/
def readsGroups (gateway : Gateway) (endpoint : Endpoint) (claims : Claims) : Bool :=
  (gateway.previews.lookup endpoint.slug).isSome || (!presented claims &&
    match partyOf gateway claims with
    | .ok (.person _) => true
    | _ => false)

/-- What a `user` subject names a person by. -/
def personPrincipal (claims : Claims) : Option String :=
  let user := claims.preferredUsername.getD claims.sub
  if isServiceAccountUser user then some user else some claims.sub

/-- The subject of a person's token, told apart by what it takes from the plain groups. -/
structure OfPerson (gateway : Gateway) (endpoint : Endpoint) (claims : Claims) (s : Caller) : Prop where
  groups : s.groups = claims.groupNames.toFinset
  principal : s.userPrincipal = personPrincipal claims
  agreement : s.agreement = none
  standing : s.organizationGroups = (inOrganization gateway endpoint claims).2

theorem previewReader_eq_ok {preview : PreviewReaders}
    (h : previewReader gateway endpoint claims preview = .ok s) :
    s = readerOf gateway endpoint claims preview (claims.preferredUsername.getD claims.sub) := by
  unfold previewReader at h
  simp only [] at h
  split_ifs at h
  exact (Except.ok.inj h).symm

theorem person_eq_ok {via : Option String} (h : person gateway endpoint claims via = .ok s) :
    ∃ user project, claims.preferredUsername = some user ∧
      s = personOf gateway endpoint claims user project via := by
  unfold person at h
  rcases huser : claims.preferredUsername with _ | user
  · simp [huser] at h
  · simp only [huser] at h
    refine ⟨user, projectOf gateway endpoint claims.groupNames.toFinset, rfl, ?_⟩
    split_ifs at h
    · exact (Except.ok.inj h).symm
    · rcases hout : refuseOutside gateway endpoint
        (projectOf gateway endpoint claims.groupNames.toFinset) with _ | _
      · simp [hout, bind, Except.bind] at h
      · simp only [hout, bind, Except.bind, pure, Except.pure] at h
        exact (Except.ok.inj h).symm

/-- A token with other plain groups. -/
def withGroups (claims : Claims) (groups : List String) : Claims := { claims with groups := groups }

/-- Two subjects of one token but for its plain groups. -/
structure Beside (s t : Caller) : Prop where
  subject : ∃ groups, t.toSubject = { s.toSubject with groups := groups }
  agreement : t.agreement = s.agreement

theorem dataspaceSubject_groups (h : dataspaceSubject gateway endpoint now claims = .ok s) :
    s.groups = ∅ := by
  unfold dataspaceSubject at h
  split at h
  · split_ifs at h
    split at h
    · cases h
    · split_ifs at h
      obtain rfl := Except.ok.inj h
      rfl
  · cases h

theorem workload_eq_ok {account : Account}
    (h : workload gateway endpoint now claims account = .ok s) :
    s = workloadOf gateway endpoint now claims account := by
  unfold workload at h
  split_ifs at h
  exact (Except.ok.inj h).symm

/-- The subjects a token may get, each by what decides that it is the one. -/
theorem asserted_cases (h : asserted gateway endpoint now claims = .ok s) :
    (∃ preview, gateway.previews.lookup endpoint.slug = some preview ∧
        previewReader gateway endpoint claims preview = .ok s) ∨
      gateway.previews.lookup endpoint.slug = none ∧
        (presented claims = true ∧ dataspaceSubject gateway endpoint now claims = .ok s ∨
          presented claims = false ∧
            ((∃ account, partyOf gateway claims = .ok (.workload account) ∧
                workload gateway endpoint now claims account = .ok s) ∨
              ∃ via, partyOf gateway claims = .ok (.person via) ∧
                person gateway endpoint claims via = .ok s)) := by
  unfold asserted at h
  rcases hpreview : gateway.previews.lookup endpoint.slug with _ | preview <;>
    simp only [hpreview] at h
  · refine Or.inr ⟨rfl, ?_⟩
    unfold subjectOf at h
    split_ifs at h with hpresented
    · exact Or.inl ⟨hpresented, h⟩
    · refine Or.inr ⟨by simpa using hpresented, ?_⟩
      rcases hparty : partyOf gateway claims with e | ⟨account | via⟩ <;>
        simp only [hparty, bind, Except.bind, reduceCtorEq] at h
      · exact Or.inl ⟨account, rfl, h⟩
      · exact Or.inr ⟨via, rfl, h⟩
  · exact Or.inl ⟨preview, rfl, h⟩

theorem asserted_beside {groups : List String} (h : asserted gateway endpoint now claims = .ok s)
    (h' : asserted gateway endpoint now (withGroups claims groups) = .ok t) : Beside s t := by
  have hpresented : presented (withGroups claims groups) = presented claims := rfl
  have hparty : partyOf gateway (withGroups claims groups) = partyOf gateway claims := rfl
  have hcases := asserted_cases h'
  rw [hpresented, hparty] at hcases
  rcases asserted_cases h with ⟨preview, hpreview, h⟩ | ⟨hpreview, ⟨hagreed, h⟩ | ⟨hagreed, h⟩⟩
  · simp only [hpreview, Option.some.injEq, exists_eq_left', reduceCtorEq, false_and,
      or_false] at hcases
    obtain rfl := previewReader_eq_ok h
    obtain rfl := previewReader_eq_ok hcases
    exact ⟨⟨_, rfl⟩, rfl⟩
  · simp only [hpreview, hagreed, reduceCtorEq, false_and, exists_false, false_or, true_and,
      or_false, Bool.true_eq_false] at hcases
    obtain rfl := Except.ok.inj (h.symm.trans hcases)
    exact ⟨⟨_, rfl⟩, rfl⟩
  · simp only [hpreview, hagreed, reduceCtorEq, false_and, exists_false, false_or, true_and,
      Bool.false_eq_true] at hcases
    rcases h with ⟨account, hparty, h⟩ | ⟨via, hparty, h⟩
    · simp only [hparty, Except.ok.injEq, Party.workload.injEq, reduceCtorEq, exists_eq_left',
        false_and, exists_false, or_false] at hcases
      obtain rfl := workload_eq_ok h
      obtain rfl := workload_eq_ok hcases
      exact ⟨⟨_, rfl⟩, rfl⟩
    · simp only [hparty, Except.ok.injEq, Party.person.injEq, reduceCtorEq, exists_eq_left',
        false_and, exists_false, false_or] at hcases
      obtain ⟨user, project, huser, rfl⟩ := person_eq_ok h
      obtain ⟨user', project', huser', rfl⟩ := person_eq_ok hcases
      obtain rfl := Option.some.inj (huser.symm.trans huser')
      exact ⟨⟨_, rfl⟩, rfl⟩

/-- A person's subject holds the plain groups of its token, and no other subject holds any. -/
theorem asserted_reads (h : asserted gateway endpoint now claims = .ok s) :
    if readsGroups gateway endpoint claims then OfPerson gateway endpoint claims s
    else s.groups = ∅ := by
  unfold readsGroups
  rcases asserted_cases h with ⟨preview, hpreview, h⟩ | ⟨hpreview, ⟨hagreed, h⟩ | ⟨hagreed, h⟩⟩
  · rw [if_pos (by simp [hpreview])]
    obtain rfl := previewReader_eq_ok h
    exact ⟨rfl, rfl, rfl, rfl⟩
  · rw [if_neg (by simp [hpreview, hagreed])]
    exact dataspaceSubject_groups h
  · rcases h with ⟨account, hparty, h⟩ | ⟨via, hparty, h⟩
    · rw [if_neg (by simp [hpreview, hparty])]
      obtain rfl := workload_eq_ok h
      rfl
    · rw [if_pos (by simp [hagreed, hparty])]
      obtain ⟨user, project, huser, rfl⟩ := person_eq_ok h
      refine ⟨rfl, ?_, rfl, rfl⟩
      unfold personPrincipal Subject.userPrincipal
      simp [huser, personOf]

end Read

section Agree

/-- Where the plain groups are read, both tokens give the same roles of the endpoint, those given
anyway apart. -/
def GroupsAgree (gateway : Gateway) (endpoint : Endpoint) (claims : Claims) (groups : List String) :
    Prop :=
  readsGroups gateway endpoint claims = true → ∀ role,
    GivenAnyway endpoint.roles (personPrincipal claims) (clientRolesOn endpoint claims) role ∨
      (GivenByGroup endpoint.roles claims.groupNames role ↔
        GivenByGroup endpoint.roles (withGroups claims groups).groupNames role)

theorem subjectFrom_eq_ok (h : subjectFrom gateway endpoint now claims = .ok s) :
    ∃ base, asserted gateway endpoint now claims = .ok base ∧
      s = if base.agreement.isNone then
        withEndpointRoles endpoint base (clientRolesOn endpoint claims) else base := by
  unfold subjectFrom at h
  split_ifs at h
  rcases hbase : asserted gateway endpoint now claims with e | base <;>
    simp only [hbase, bind, Except.bind, reduceCtorEq] at h
  refine ⟨base, rfl, ?_⟩
  split_ifs at h ⊢ <;> exact (Except.ok.inj h).symm

theorem admitOn_eq_ok {federated : Bool}
    (h : admitOn gateway endpoint now claims federated = .ok s) :
    ∃ u, subjectFrom gateway endpoint now claims = .ok u ∧ s.toSubject = u.toSubject := by
  have hscoped : ∀ client, scopedSubject gateway endpoint now claims client = .ok s →
      subjectFrom gateway endpoint now claims = .ok s := by
    intro client h
    unfold scopedSubject at h
    split_ifs at h
    rcases hu : subjectFrom gateway endpoint now claims with e | u <;>
      simp only [hu, bind, Except.bind, reduceCtorEq] at h
    split_ifs at h
    exact h
  unfold admitOn at h
  split_ifs at h
  · exact ⟨s, h, rfl⟩
  · exact ⟨s, hscoped _ h, rfl⟩
  · exact ⟨s, hscoped _ h, rfl⟩
  · unfold exchangedSubject at h
    split_ifs at h
    rcases hu : subjectFrom gateway endpoint now claims with e | u <;>
      simp only [hu, bind, Except.bind, reduceCtorEq] at h
    split_ifs at h
    obtain rfl := Except.ok.inj h
    exact ⟨u, rfl, rfl⟩

theorem mem_roles {clientRoles : List String} (h : OfPerson gateway endpoint claims s)
    {role : String} : role ∈ (withEndpointRoles endpoint s clientRoles).roles ↔
      (role ∈ s.roles ∧ isEndpointRole role = false) ∨
        GivenAnyway endpoint.roles (personPrincipal claims) clientRoles role ∨
          GivenByGroup endpoint.roles claims.groupNames role := by
  unfold withEndpointRoles
  simp only []
  rw [h.groups, h.principal, Finset.mem_union, Finset.mem_filter, List.mem_toFinset, mem_heldBy]
  simp

theorem isEndpointRole_of_given {r : EndpointRoles} {groups : List String} {role : String}
    (h : GivenByGroup r groups role) : isEndpointRole role = true := by
  obtain ⟨-, n, hn, rfl, -⟩ := h
  exact r.endpointRoles n hn

/-- A role the groups of one token give, the other holds only when it is given anyway or by its own
groups: no token asserts a role of an endpoint. -/
theorem given_of_mem {clientRoles groups : List String} {claims' : Claims}
    (h : OfPerson gateway endpoint claims' s) {role : String}
    (hgiven : GivenByGroup endpoint.roles groups role)
    (hmem : role ∈ (withEndpointRoles endpoint s clientRoles).roles) :
    GivenAnyway endpoint.roles (personPrincipal claims') clientRoles role ∨
      GivenByGroup endpoint.roles claims'.groupNames role := by
  refine ((mem_roles h).1 hmem).resolve_left fun hasserted => ?_
  simp [isEndpointRole_of_given hgiven] at hasserted

/-- Two tokens that carry the same groups of Organizations fare alike exactly when their plain groups
give the same roles of the endpoint. -/
theorem verdicts_agree_iff {federated : Bool} {groups : List String} (hjc : claims.jcGroups ≠ none)
    (h : admitOn gateway endpoint now claims federated = .ok s)
    (h' : admitOn gateway endpoint now (withGroups claims groups) federated = .ok t) :
    SameVerdicts s.toSubject t.toSubject ↔ GroupsAgree gateway endpoint claims groups := by
  obtain ⟨u, hu, hsu⟩ := admitOn_eq_ok h
  obtain ⟨v, hv, htv⟩ := admitOn_eq_ok h'
  rw [hsu, htv]
  obtain ⟨base, hbase, rfl⟩ := subjectFrom_eq_ok hu
  obtain ⟨base', hbase', rfl⟩ := subjectFrom_eq_ok hv
  obtain ⟨⟨own, hsubject⟩, hagreement⟩ := asserted_beside hbase hbase'
  have hreads := asserted_reads hbase
  have hreads' := asserted_reads hbase'
  have hsame : readsGroups gateway endpoint (withGroups claims groups) =
    readsGroups gateway endpoint claims := rfl
  have hclient : clientRolesOn endpoint (withGroups claims groups) = clientRolesOn endpoint claims :=
    rfl
  rw [hsame] at hreads'
  rw [hclient]
  unfold GroupsAgree
  by_cases hread : readsGroups gateway endpoint claims = true
  · rw [if_pos hread] at hreads hreads'
    have hnone : base'.agreement.isNone = true := by simp [hreads'.agreement]
    rw [if_pos (by simp [hreads.agreement]), if_pos hnone]
    simp only [hread, forall_true_left]
    constructor
    · intro hverdicts role
      have hiff := Finset.ext_iff.1 hverdicts.roles role
      by_cases hanyway : GivenAnyway endpoint.roles (personPrincipal claims)
        (clientRolesOn endpoint claims) role
      · exact Or.inl hanyway
      · refine Or.inr ⟨fun hgiven => ?_, fun hgiven => ?_⟩
        · have hmem := hiff.1 ((mem_roles hreads).2 (Or.inr (Or.inr hgiven)))
          exact (given_of_mem hreads' hgiven hmem).resolve_left hanyway
        · have hmem := hiff.2 ((mem_roles hreads').2 (Or.inr (Or.inr hgiven)))
          exact (given_of_mem hreads hgiven hmem).resolve_left hanyway
    · intro hagree
      have hroles : (withEndpointRoles endpoint base' (clientRolesOn endpoint claims)).roles =
          (withEndpointRoles endpoint base (clientRolesOn endpoint claims)).roles := by
        ext role
        rw [mem_roles hreads, mem_roles hreads', hsubject]
        have hprincipal : personPrincipal (withGroups claims groups) = personPrincipal claims := rfl
        rw [hprincipal]
        rcases hagree role with hanyway | hgiven
        · simp [hanyway]
        · simp [hgiven]
      have hstands : base.organizationGroups ≠ none := by
        rw [hreads.standing]
        simpa [inOrganization, standing] using hjc
      have hother : (withEndpointRoles endpoint base' (clientRolesOn endpoint claims)).toSubject =
          { (withEndpointRoles endpoint base (clientRolesOn endpoint claims)).toSubject with
            groups := own } := by
        unfold withEndpointRoles at hroles ⊢
        simp only [] at hroles ⊢
        rw [hroles, hsubject]
      rw [hother]
      exact sameVerdicts_of_groups own hstands
  · rw [if_neg hread] at hreads hreads'
    have hown : own = base.groups := by
      rw [hsubject] at hreads'
      exact hreads'.trans hreads.symm
    have hbase : base'.toSubject = base.toSubject := by
      rw [hsubject, hown]
    have heq : (if base'.agreement.isNone then
        withEndpointRoles endpoint base' (clientRolesOn endpoint claims) else base').toSubject =
        (if base.agreement.isNone then
          withEndpointRoles endpoint base (clientRolesOn endpoint claims) else base).toSubject := by
      rw [hagreement]
      unfold withEndpointRoles
      split_ifs
      · simp only [hbase]
      · exact hbase
    rw [heq]
    exact ⟨fun _ hreads => absurd hreads hread, fun _ => .refl _⟩

end Agree

section Analysts

/-! ## A reviewer by a group of another Organization -/

def reviewed : Endpoint where
  slug := "air"
  space := "air"
  project := "city"
  audience := .public
  roles := EndpointRoles.of "city" "air" false [("reviewer", [{ group := some "analysts" }])]

def jana : Claims where
  sub := "5f0c"
  preferredUsername := some "jana"
  jcGroups := some ["/helsinki/members"]
  aud := ["air"]
  exp := 0

def inHelsinki : Gateway where
  organizations := [("city", "helsinki")]

def reviewerReads : PolicySpec where
  assignee := ⟨.role, "endpoint:city/air/reviewer"⟩
  operations := [.single .queryEntity]

/-- A plain group makes a reviewer of a person whose Organization has no such group: the reads of the
one token are refused, those of the other are not. -/
theorem plainGroup_decides :
    ∃ s t, admitOn inHelsinki reviewed 0 jana false = .ok s ∧
      admitOn inHelsinki reviewed 0 (withGroups jana ["/analysts"]) false = .ok t ∧
      jana.jcGroups ≠ none ∧ s.roles ≠ t.roles ∧
      (PolicyPdp.decide storedCrates ℚ s.toSubject .queryEntity {} "air" [reviewerReads] ∅ none
        0).isDeny = true ∧
      (PolicyPdp.decide storedCrates ℚ t.toSubject .queryEntity {} "air" [reviewerReads] ∅ none
        0).isDeny = false := by
  refine ⟨_, _, rfl, rfl, by simp [jana], ?_, ?_, ?_⟩
  · decide
  · decide
  · decide

/-- Two tokens whose plain groups no role of the endpoint names. -/
theorem verdicts_agree_members :
    ∃ s t, admitOn inHelsinki reviewed 0 jana false = .ok s ∧
      admitOn inHelsinki reviewed 0 (withGroups jana ["/members"]) false = .ok t ∧
      SameVerdicts s.toSubject t.toSubject := by
  have hjc : jana.jcGroups ≠ none := by simp [jana]
  have hnone : ∀ groups : List String, "analysts" ∉ groups → ∀ role,
      ¬ GivenByGroup reviewed.roles groups role := by
    rintro groups hgroups role ⟨-, n, hn, -, subject, hsubject, -, group, hgroup, hnames⟩
    obtain rfl := List.mem_singleton.1 hn
    obtain rfl := List.mem_singleton.1 hsubject
    obtain rfl := Option.some.inj hnames
    exact hgroups hgroup
  obtain ⟨s, hs⟩ : ∃ s, admitOn inHelsinki reviewed 0 jana false = .ok s := ⟨_, rfl⟩
  obtain ⟨t, ht⟩ : ∃ t, admitOn inHelsinki reviewed 0 (withGroups jana ["/members"]) false = .ok t :=
    ⟨_, rfl⟩
  refine ⟨s, t, hs, ht, (verdicts_agree_iff hjc hs ht).2 fun _ role => Or.inr ?_⟩
  exact iff_of_false (hnone _ (by decide) role) (hnone _ (by decide) role)

end Analysts

end JoinedContext.Auth
