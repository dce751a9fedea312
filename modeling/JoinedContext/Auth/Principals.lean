import JoinedContext.Auth.Accounts

/-!
# One client id, one principal

The accounts of the table are entered once each, and an id two of them derive is nobody's. The ids of
Apps are entered in a table of their own, where the last one stands.
-/

namespace JoinedContext.Auth

open Jcctl

variable {d : Decoders} {repo : Repository} {client : String}

/-- The principal's client id, as an account's or as an App's. -/
def Derives (d : Decoders) (repo : Repository) (p : Principal) (client : String) : Prop :=
  (∃ e ∈ accountEntries d repo, e.principal = p ∧ e.client = client) ∨
    ∃ a ∈ admissionsOf d repo, a.principal = p ∧ a.client = client

/-- The accounts that derive the id. -/
def accountsUnder (d : Decoders) (repo : Repository) (client : String) : List (Derived Account) :=
  (accountEntries d repo).filter fun e => e.client = client

/-- The Apps, and jobs of Apps, that derive the id. -/
def admissionsUnder (d : Decoders) (repo : Repository) (client : String) :
    List (Derived (List String)) :=
  (admissionsOf d repo).filter fun a => a.client = client

theorem mem_accountsUnder {e : Derived Account} :
    e ∈ accountsUnder d repo client ↔ e ∈ accountEntries d repo ∧ e.client = client := by
  simp [accountsUnder]

theorem mem_admissionsUnder {a : Derived (List String)} :
    a ∈ admissionsUnder d repo client ↔ a ∈ admissionsOf d repo ∧ a.client = client := by
  simp [admissionsUnder]

theorem derives_iff {p : Principal} : Derives d repo p client ↔
    (∃ e ∈ accountsUnder d repo client, e.principal = p) ∨
      ∃ a ∈ admissionsUnder d repo client, a.principal = p := by
  unfold Derives
  simp only [mem_accountsUnder, mem_admissionsUnder]
  grind

/-- An id resolves to the account that alone derives it, unless it is a platform client's. -/
theorem resolve_eq_some {account : Account} :
    (accountsOf d repo).resolve client = some account ↔ client ∉ platformClients ∧
      ∃ e, accountsUnder d repo client = [e] ∧ e.value = account := by
  have hunder : Registry.under ((accountEntries d repo).map fun e => (e.client, e.value)) client =
      (accountsUnder d repo client).map fun e => (e.client, e.value) := by
    rw [Registry.under, List.filter_map]
    rfl
  have hresolve : (accountsOf d repo).resolve client =
      if client ∉ platformClients then (Registry.enterAll
        ((accountEntries d repo).map fun e => (e.client, e.value)) {}).held.lookup client
      else none := by
    unfold ServiceAccounts.resolve accountsOf
    rw [Assoc.lookup_filter_key (p := fun c => c ∉ platformClients)]
    simp
  rw [hresolve]
  by_cases hplatform : client ∈ platformClients
  · simp [hplatform]
  · rw [if_pos hplatform, Registry.lookup_enterAll, hunder, and_iff_right hplatform]
    constructor
    · intro h
      obtain ⟨e, he, hpair⟩ := List.map_eq_singleton_iff.1 h
      exact ⟨e, he, congrArg Prod.snd hpair⟩
    · rintro ⟨e, he, rfl⟩
      have hclient := (mem_accountsUnder.1 (he ▸ List.mem_singleton_self e)).2
      rw [he, List.map_singleton, hclient]

/-- The slugs of an id are those of the last App that derives it. -/
theorem lookup_apps : (accountsOf d repo).apps.lookup client =
    (admissionsUnder d repo client).getLast?.map Derived.value := by
  unfold accountsOf admissionsUnder
  rw [Assoc.lookup_foldl_put]
  simp

/-- The id stands for one principal: who it resolves to, and whose endpoints it is admitted on,
is the only one to derive it. -/
structure OnePrincipal (d : Decoders) (repo : Repository) : Prop where
  resolves : ∀ client account, (accountsOf d repo).resolve client = some account →
    ∃ e ∈ accountEntries d repo, e.client = client ∧ e.value = account ∧
      ∀ p, Derives d repo p client → p = e.principal
  admits : ∀ client slugs slug, (accountsOf d repo).apps.lookup client = some slugs →
    slug ∈ slugs → ∃ a ∈ admissionsOf d repo, a.client = client ∧ slug ∈ a.value ∧
      ∀ p, Derives d repo p client → p = a.principal

/-- No App derives the id of an account, but for the App whose jobs' account it is, and an id the
last App of which is admitted somewhere is derived by nobody else. -/
structure ClientsApart (d : Decoders) (repo : Repository) : Prop where
  accounts : ∀ client ∉ platformClients, ∀ e, accountsUnder d repo client = [e] →
    ∀ a ∈ admissionsUnder d repo client, a.principal = e.principal
  apps : ∀ client a, (admissionsUnder d repo client).getLast? = some a → a.value ≠ [] →
    (∀ e ∈ accountsUnder d repo client, e.principal = a.principal) ∧
      ∀ b ∈ admissionsUnder d repo client, b.principal = a.principal

theorem onePrincipal_iff : OnePrincipal d repo ↔ ClientsApart d repo := by
  constructor
  · intro h
    refine ⟨fun client hplatform e he a ha => ?_, fun client a ha hne => ?_⟩
    · obtain ⟨e', he', hclient, -, hone⟩ :=
        h.resolves client e.value (resolve_eq_some.2 ⟨hplatform, e, he, rfl⟩)
      obtain rfl : e' = e := by
        have := mem_accountsUnder.2 ⟨he', hclient⟩
        rwa [he, List.mem_singleton] at this
      exact hone _ (derives_iff.2 (Or.inr ⟨a, ha, rfl⟩))
    · obtain ⟨slug, hslug⟩ := List.exists_mem_of_ne_nil _ hne
      have hlookup : (accountsOf d repo).apps.lookup client = some a.value := by
        rw [lookup_apps, ha, Option.map_some]
      obtain ⟨b, -, -, -, hone⟩ := h.admits client a.value slug hlookup hslug
      have hb := hone _ (derives_iff.2 (Or.inr ⟨a, List.mem_of_getLast? ha, rfl⟩))
      exact ⟨fun e he => (hone _ (derives_iff.2 (Or.inl ⟨e, he, rfl⟩))).trans hb.symm,
        fun c hc => (hone _ (derives_iff.2 (Or.inr ⟨c, hc, rfl⟩))).trans hb.symm⟩
  · intro h
    refine ⟨fun client account hresolve => ?_, fun client slugs slug hlookup hslug => ?_⟩
    · obtain ⟨hplatform, e, he, rfl⟩ := resolve_eq_some.1 hresolve
      obtain ⟨hmem, hclient⟩ := mem_accountsUnder.1 (he ▸ List.mem_singleton_self e)
      refine ⟨e, hmem, hclient, rfl, fun p hp => ?_⟩
      rcases derives_iff.1 hp with ⟨e', he', rfl⟩ | ⟨a, ha, rfl⟩
      · rw [he, List.mem_singleton] at he'
        rw [he']
      · exact h.accounts client hplatform e he a ha
    · rw [lookup_apps, Option.map_eq_some_iff] at hlookup
      obtain ⟨a, ha, rfl⟩ := hlookup
      obtain ⟨hmem, hclient⟩ := mem_admissionsUnder.1 (List.mem_of_getLast? ha)
      obtain ⟨haccounts, happs⟩ := h.apps client a ha (List.ne_nil_of_mem hslug)
      refine ⟨a, hmem, hclient, hslug, fun p hp => ?_⟩
      rcases derives_iff.1 hp with ⟨e, he, rfl⟩ | ⟨b, hb, rfl⟩
      · exact haccounts e he
      · exact happs b hb

end JoinedContext.Auth
