import JoinedContext.Core.Policy
import JoinedContext.Mqtt.Broker

/-!
# Who holds a role of a broker

A RoleBinding `mqtt/<broker>/<role>` says who holds a role, scoped to the account's own project and
within its validity; the deprecated list of the role names accounts for good.
-/

namespace JoinedContext.Mqtt

open Names

def grantPrefix : String := "mqtt/"

def anyBroker : String := "*"

/-- A RoleBinding role that grants a broker role. -/
structure Grant where
  broker : Option String
  role : String
deriving DecidableEq

namespace Grant

/-- The grant the text names; none when it is no MQTT grant, an error when it starts like one and
is not. -/
def parse (text : String) : Option (Except NameError Grant) :=
  (Text.stripPrefix grantPrefix text).map fun rest =>
    let refuse := Except.error ⟨"spec.roles.role", text,
      "an MQTT grant is `mqtt/<broker>/<role>` or `mqtt/*/<role>`, each name a DNS label " ++
        "(ADR-N-048 §2.13)"⟩
    match Text.splitOnce '/' rest with
    | none => refuse
    | some (broker, role) =>
      if (broker = anyBroker ∨ (validateDns1123Label broker).isOk) ∧
          (validateDns1123Label role).isOk then
        .ok ⟨if broker = anyBroker then none else some broker, role⟩
      else refuse

def names (grant : Grant) (broker role : String) : Bool :=
  grant.role = role && grant.broker.all fun b => b = broker

end Grant

/-- When a grant applies: not before and not after, bounds inclusive. -/
structure BindingValidity where
  notBefore : Option Instant := none
  notAfter : Option Instant := none
deriving DecidableEq

def BindingValidity.contains (validity : BindingValidity) (now : Instant) : Bool :=
  (validity.notBefore.all fun t => t ≤ now) && validity.notAfter.all fun t => now ≤ t

/-- One RoleBinding of an account as `rolesHeld` reads it. -/
structure Binding where
  role : String
  /-- Its `scope.project`, none when it is scoped to anything else. -/
  project : Option String := none
  validity : Option BindingValidity := none
deriving DecidableEq

/-- One role of a broker an account holds, and why. -/
structure Held where
  role : MqttRole
  /-- Held through the deprecated list of the role. -/
  legacy : Bool
  /-- Held through at least one binding in force. -/
  bound : Bool
  /-- When the last grant of the role ends; none while one has no end. -/
  lastsTo : Option Instant
deriving DecidableEq

/-- The grants in force, each with its end. -/
def grantsInForce (project : String) (bindings : List Binding) (now : Instant) :
    List (Grant × Option Instant) :=
  ((bindings.filter fun b => b.project = some project).filter fun b =>
    b.validity.all fun v => v.contains now).filterMap fun b =>
      match Grant.parse b.role with
      | some (.ok grant) => some (grant, b.validity.bind BindingValidity.notAfter)
      | _ => none

def latest (ends : List Instant) : Option Instant :=
  ends.foldl (fun best t => some (best.elim t (max t))) none

/-- The ends of the grants of a role. -/
def endsOf (broker role : String) (grants : List (Grant × Option Instant)) :
    List (Option Instant) :=
  (grants.filter fun g => g.1.names broker role).map Prod.snd

def heldOf (broker account : String) (grants : List (Grant × Option Instant)) (role : MqttRole) :
    Option Held :=
  let legacy : Bool := account ∈ role.serviceAccounts
  let ends := endsOf broker role.name grants
  let bound := !ends.isEmpty
  if !legacy && !bound then none
  else some ⟨role, legacy, bound,
    if legacy || ends.any Option.isNone then none else latest (ends.filterMap id)⟩

/-- The roles of the broker that the account holds at the instant. An account of another project
holds nothing, whatever its bindings say. -/
def rolesHeld (broker brokerProject : String) (roles : List MqttRole) (account project : String)
    (bindings : List Binding) (now : Instant) : List Held :=
  if project ≠ brokerProject then []
  else roles.filterMap (heldOf broker account (grantsInForce brokerProject bindings now))

section

variable {broker brokerProject account project : String} {roles : List MqttRole} {role : MqttRole}
  {bindings : List Binding} {now : Instant} {held : Held}

/-- A binding is in force for a role of the broker. -/
def Binding.Grants (b : Binding) (broker brokerProject role : String) (now : Instant) : Prop :=
  b.project = some brokerProject ∧ (b.validity.all fun v => v.contains now) = true ∧
    ∃ grant, Grant.parse b.role = some (.ok grant) ∧ grant.names broker role = true

theorem mem_grantsInForce {g : Grant × Option Instant} :
    g ∈ grantsInForce brokerProject bindings now ↔ ∃ b ∈ bindings, b.project = some brokerProject ∧
      (b.validity.all fun v => v.contains now) = true ∧ Grant.parse b.role = some (.ok g.1) ∧
        b.validity.bind BindingValidity.notAfter = g.2 := by
  unfold grantsInForce
  simp only [List.mem_filterMap, List.mem_filter, decide_eq_true_eq]
  constructor
  · rintro ⟨b, ⟨⟨hb, hproject⟩, hvalid⟩, h⟩
    split at h
    · rename_i grant hgrant
      cases h
      exact ⟨b, hb, hproject, hvalid, hgrant, rfl⟩
    · cases h
  · rintro ⟨b, hb, hproject, hvalid, hgrant, hend⟩
    exact ⟨b, ⟨⟨hb, hproject⟩, hvalid⟩, by rw [hgrant, hend]⟩

theorem mem_endsOf {t : Option Instant} :
    t ∈ endsOf broker role.name (grantsInForce brokerProject bindings now) ↔
      ∃ b ∈ bindings, b.Grants broker brokerProject role.name now ∧
        b.validity.bind BindingValidity.notAfter = t := by
  unfold endsOf
  simp only [List.mem_map, List.mem_filter, mem_grantsInForce]
  constructor
  · rintro ⟨⟨grant, _⟩, ⟨⟨b, hb, hproject, hvalid, hgrant, rfl⟩, hnames⟩, rfl⟩
    exact ⟨b, hb, ⟨hproject, hvalid, grant, hgrant, hnames⟩, rfl⟩
  · rintro ⟨b, hb, ⟨hproject, hvalid, grant, hgrant, hnames⟩, rfl⟩
    exact ⟨(grant, _), ⟨⟨b, hb, hproject, hvalid, hgrant, rfl⟩, hnames⟩, rfl⟩

theorem endsOf_ne_nil :
    endsOf broker role.name (grantsInForce brokerProject bindings now) ≠ [] ↔
      ∃ b ∈ bindings, b.Grants broker brokerProject role.name now := by
  constructor
  · intro h
    obtain ⟨t, ht⟩ := List.exists_mem_of_ne_nil _ h
    obtain ⟨b, hb, hgrants, -⟩ := mem_endsOf.1 ht
    exact ⟨b, hb, hgrants⟩
  · rintro ⟨b, hb, hgrants⟩
    exact List.ne_nil_of_mem (mem_endsOf.2 ⟨b, hb, hgrants, rfl⟩)

theorem latest_eq {ends : List Instant} (h : ends ≠ []) :
    ∃ t ∈ ends, latest ends = some t ∧ ∀ s ∈ ends, s ≤ t := by
  suffices hfold : ∀ (ends : List Instant) (best : Instant), ∃ t ∈ best :: ends,
      ends.foldl (fun best t => some (best.elim t (max t))) (some best) = some t ∧
        ∀ s ∈ best :: ends, s ≤ t by
    obtain ⟨first, rest, rfl⟩ := List.exists_cons_of_ne_nil h
    exact hfold rest first
  intro ends
  induction ends with
  | nil => exact fun best => ⟨best, List.mem_singleton_self _, rfl, by simp⟩
  | cons s ends ih =>
    intro best
    obtain ⟨t, ht, hfold, hmax⟩ := ih (max s best)
    have hs : max s best ≤ t := hmax _ List.mem_cons_self
    refine ⟨t, ?_, hfold, List.forall_mem_cons.2 ⟨(le_max_right s best).trans hs,
      List.forall_mem_cons.2 ⟨(le_max_left s best).trans hs,
        fun r hr => hmax r (List.mem_cons_of_mem _ hr)⟩⟩⟩
    rcases List.mem_cons.1 ht with rfl | ht
    · rcases max_choice s best with hmax | hmax <;> rw [hmax] <;> simp
    · exact List.mem_cons_of_mem _ (List.mem_cons_of_mem _ ht)

theorem mem_rolesHeld :
    held ∈ rolesHeld broker brokerProject roles account project bindings now ↔
      project = brokerProject ∧ ∃ role ∈ roles,
        heldOf broker account (grantsInForce brokerProject bindings now) role = some held := by
  unfold rolesHeld
  split_ifs with h
  · exact iff_of_false List.not_mem_nil fun hheld => h hheld.1
  · rw [List.mem_filterMap]
    exact ⟨fun hheld => ⟨not_not.1 h, hheld⟩, fun hheld => hheld.2⟩

/-- A role is held by the deprecated list or by a binding in force, and by nothing else. -/
theorem heldOf_eq_some :
    heldOf broker account (grantsInForce brokerProject bindings now) role = some held ↔
      (account ∈ role.serviceAccounts ∨
        ∃ b ∈ bindings, b.Grants broker brokerProject role.name now) ∧
      held = ⟨role, account ∈ role.serviceAccounts,
        !(endsOf broker role.name (grantsInForce brokerProject bindings now)).isEmpty,
        if account ∈ role.serviceAccounts ∨
            none ∈ endsOf broker role.name (grantsInForce brokerProject bindings now) then none
        else latest ((endsOf broker role.name
          (grantsInForce brokerProject bindings now)).filterMap id)⟩ := by
  rw [← endsOf_ne_nil]
  unfold heldOf
  generalize endsOf broker role.name (grantsInForce brokerProject bindings now) = ends
  have hnone : ends.any Option.isNone = true ↔ none ∈ ends := by simp
  by_cases hlegacy : account ∈ role.serviceAccounts
  · simp [hlegacy, eq_comm]
  · cases ends with
    | nil => simp [hlegacy]
    | cons t ends =>
      by_cases hends : none ∈ t :: ends
      · simp [hlegacy, hnone.2 hends, hends, eq_comm]
      · simp [hlegacy, mt hnone.1 hends, hends, eq_comm]

/-- Who holds a role at the instant. -/
theorem mem_map_role_rolesHeld :
    role ∈ (rolesHeld broker brokerProject roles account project bindings now).map Held.role ↔
      project = brokerProject ∧ role ∈ roles ∧ (account ∈ role.serviceAccounts ∨
        ∃ b ∈ bindings, b.Grants broker brokerProject role.name now) := by
  simp only [List.mem_map, mem_rolesHeld, heldOf_eq_some]
  constructor
  · rintro ⟨held, ⟨hproject, r, hr, hgranted, rfl⟩, rfl⟩
    exact ⟨hproject, hr, hgranted⟩
  · rintro ⟨hproject, hr, hgranted⟩
    exact ⟨_, ⟨hproject, role, hr, hgranted, rfl⟩, rfl⟩

end

end JoinedContext.Mqtt
