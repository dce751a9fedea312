import JoinedContext.Mqtt.Connect

/-!
# When a device's rights end

A connection keeps the subscriptions of its CONNECT until the second it expires at, which is the
latest end of the roles held then; a publish is decided on the roles held when it is made. So a
subscription outlives its grants where another role's last longer.
-/

namespace JoinedContext.Mqtt

open Auth Temporal

theorem timestamp_mul_le (t : Instant) : timestamp t * nanosPerSecond ≤ t :=
  Int.ediv_mul_le t (by decide)

theorem timestamp_mono {s t : Instant} (h : s ≤ t) : timestamp s ≤ timestamp t :=
  Int.ediv_le_ediv (by decide) h

theorem lt_min_seconds {t a b : Int} :
    t < min a b * nanosPerSecond ↔ t < a * nanosPerSecond ∧ t < b * nanosPerSecond := by
  unfold nanosPerSecond
  omega

theorem lt_seconds_of_le {t a b : Int} (h : t < a * nanosPerSecond) (hab : a ≤ b) :
    t < b * nanosPerSecond := by
  unfold nanosPerSecond at *
  omega

section Roles

variable {broker : Broker} {account : Account} {now t : Instant} {exp : Int} {role : MqttRole}

/-- The account holds the role at the instant: through the deprecated list, or through a binding
whose window the instant is in. -/
def Holds (broker : Broker) (account : Account) (role : MqttRole) (t : Instant) : Prop :=
  role ∈ (rolesOf broker account t).map Held.role

/-- A binding of the account is in force for the role. -/
def Bound (broker : Broker) (account : Account) (role : MqttRole) (t : Instant) (b : Binding) :
    Prop :=
  b ∈ account.roles.map bindingOf ∧ b.Grants broker.name broker.project role.name t

theorem holds_iff : Holds broker account role t ↔ account.project = broker.project ∧
    role ∈ broker.roles ∧
      (account.name ∈ role.serviceAccounts ∨ ∃ b, Bound broker account role t b) :=
  mem_map_role_rolesHeld

/-- The last instant of a binding, if it has one. -/
def Binding.lastOf (b : Binding) : Option Instant := b.validity.bind BindingValidity.notAfter

/-- A binding in force goes on to the next instant, or this is its last. -/
theorem Bound.next {b : Binding} (h : Bound broker account role t b) :
    Bound broker account role (t + 1) b ∨ b.lastOf = some t := by
  obtain ⟨hb, hproject, hvalid, hnames⟩ := h
  rcases hv : b.validity with _ | ⟨notBefore, notAfter⟩
  · exact Or.inl ⟨hb, hproject, by rw [hv]; rfl, hnames⟩
  · rw [hv] at hvalid
    obtain ⟨hfrom, hto⟩ : notBefore.all (fun s => s ≤ t) = true ∧
        notAfter.all (fun s => t ≤ s) = true := Bool.and_eq_true_iff.1 hvalid
    have hfrom : notBefore.all (fun s => s ≤ t + 1) = true := by
      cases notBefore with
      | none => rfl
      | some s => exact decide_eq_true (Int.le_add_one (of_decide_eq_true hfrom))
    cases notAfter with
    | none =>
      refine Or.inl ⟨hb, hproject, ?_, hnames⟩
      rw [hv]
      exact Bool.and_eq_true_iff.2 ⟨hfrom, rfl⟩
    | some e =>
      have hte : t ≤ e := of_decide_eq_true hto
      rcases eq_or_lt_of_le hte with rfl | hlt
      · exact Or.inr (by rw [Binding.lastOf, hv]; rfl)
      · refine Or.inl ⟨hb, hproject, ?_, hnames⟩
        rw [hv]
        exact Bool.and_eq_true_iff.2 ⟨hfrom, decide_eq_true (Int.add_one_le_of_lt hlt)⟩

end Roles

section Expiry

variable {account : Account} {held : List Held} {t : Instant} {exp : Int}

theorem lt_grantsEnd (hne : held ≠ []) :
    (∀ g, grantsEnd held = some g → t < g * nanosPerSecond) ↔
      ∃ h ∈ held, ∀ e, h.lastsTo = some e → t < timestamp e * nanosPerSecond := by
  unfold grantsEnd
  split_ifs with hnone
  · obtain ⟨h, hh, hlasts⟩ := List.any_eq_true.1 hnone
    rw [Option.isNone_iff_eq_none] at hlasts
    exact iff_of_true (fun g hg => by cases hg) ⟨h, hh, fun e he => by rw [hlasts] at he; cases he⟩
  · have hsome : ∀ h ∈ held, ∃ e, h.lastsTo = some e := fun h hh => by
      rw [← Option.isSome_iff_exists, Option.isSome_iff_ne_none]
      exact fun hlasts => hnone (List.any_eq_true.2 ⟨h, hh, by rw [hlasts]; rfl⟩)
    obtain ⟨h, hh⟩ := List.exists_mem_of_ne_nil _ hne
    obtain ⟨e, he⟩ := hsome h hh
    have hmem : timestamp e ∈ held.filterMap fun h => h.lastsTo.map timestamp :=
      List.mem_filterMap.2 ⟨h, hh, by rw [he]; rfl⟩
    obtain ⟨g, hg, hlatest, hmax⟩ := latest_eq (List.ne_nil_of_mem hmem)
    rw [hlatest]
    constructor
    · intro hlt
      obtain ⟨h, hh, hlasts⟩ := List.mem_filterMap.1 hg
      obtain ⟨e, he, rfl⟩ := Option.map_eq_some_iff.1 hlasts
      refine ⟨h, hh, fun e' he' => ?_⟩
      obtain rfl := Option.some.inj (he.symm.trans he')
      exact hlt _ rfl
    · rintro ⟨h, hh, hlt⟩ g' hg'
      obtain rfl := Option.some.inj hg'
      obtain ⟨e, he⟩ := hsome h hh
      exact lt_seconds_of_le (hlt e he) (hmax _ (List.mem_filterMap.2 ⟨h, hh, by rw [he]; rfl⟩))

theorem lt_expireAt : t < expireAt account held exp * nanosPerSecond ↔
    t < exp * nanosPerSecond ∧
      (∀ e, account.credentialsEnd = some e → t < timestamp e * nanosPerSecond) ∧
        ∀ g, grantsEnd held = some g → t < g * nanosPerSecond := by
  unfold expireAt
  rcases account.credentialsEnd with _ | e <;> rcases grantsEnd held with _ | g <;>
    simp [lt_min_seconds]

theorem expireAt_le : expireAt account held exp ≤ exp ∧
    ∀ e, account.credentialsEnd = some e → expireAt account held exp ≤ timestamp e := by
  unfold expireAt
  rcases account.credentialsEnd with _ | e <;> rcases grantsEnd held with _ | g <;> simp

/-- The end of a role is the latest of its grants', and none where one has none. -/
theorem lt_lastsTo {broker : Broker} {now : Instant} {h : Held}
    (hh : h ∈ rolesOf broker account now) :
    (∀ e, h.lastsTo = some e → t < timestamp e * nanosPerSecond) ↔
      account.name ∈ h.role.serviceAccounts ∨ ∃ b, Bound broker account h.role now b ∧
        ∀ e, b.lastOf = some e → t < timestamp e * nanosPerSecond := by
  obtain ⟨-, role, -, hheld⟩ := mem_rolesHeld.1 hh
  obtain ⟨hgranted, rfl⟩ := heldOf_eq_some.1 hheld
  simp only
  split_ifs with hnone
  · refine iff_of_true (fun e he => by cases he) (hnone.imp_right fun hends => ?_)
    obtain ⟨b, hb, hgrants, hlast⟩ := mem_endsOf.1 hends
    exact ⟨b, ⟨hb, hgrants⟩, fun e he => by cases hlast.symm.trans he⟩
  · obtain ⟨hlegacy, hends⟩ := not_or.1 hnone
    have hsome : ∀ b, Bound broker account role now b → ∃ e, b.lastOf = some e := fun b hb => by
      rw [← Option.isSome_iff_exists, Option.isSome_iff_ne_none]
      exact fun hlast => hends (mem_endsOf.2 ⟨b, hb.1, hb.2, hlast⟩)
    have hmem : ∀ {b e}, Bound broker account role now b → b.lastOf = some e →
        e ∈ (endsOf broker.name role.name (grantsInForce broker.project
          (account.roles.map bindingOf) now)).filterMap id := fun hb he =>
      List.mem_filterMap.2 ⟨some _, mem_endsOf.2 ⟨_, hb.1, hb.2, he⟩, rfl⟩
    obtain ⟨b, hb, hgrants⟩ := hgranted.resolve_left hlegacy
    obtain ⟨e, he⟩ := hsome b ⟨hb, hgrants⟩
    obtain ⟨g, hg, hlatest, hmax⟩ := latest_eq (List.ne_nil_of_mem (hmem ⟨hb, hgrants⟩ he))
    rw [hlatest]
    constructor
    · intro hlt
      obtain ⟨_, hg, rfl⟩ := List.mem_filterMap.1 hg
      obtain ⟨b, hb, hgrants, hlast⟩ := mem_endsOf.1 hg
      refine Or.inr ⟨b, ⟨hb, hgrants⟩, fun e' he' => ?_⟩
      obtain rfl := Option.some.inj (he'.symm.trans hlast)
      exact hlt _ rfl
    · rintro h' g' hg'
      obtain rfl := Option.some.inj hg'
      obtain ⟨b, hb, hlt⟩ := h'.resolve_left hlegacy
      obtain ⟨e, he⟩ := hsome b hb
      exact lt_seconds_of_le (hlt e he) (timestamp_mono (hmax e (hmem hb he)))

end Expiry

/-! ## The device of a CONNECT -/

/-- The doors' checks before a device's roles are asked: whose CONNECT it is, and until when its
token, or its certificate's hour, holds. -/
inductive Presents (brokers : Brokers) (verifier : Option Verifier) (accounts : ServiceAccounts)
    (caller : Option String) (connect : Connect) (now : Instant) : Broker → Account → Int → Prop
  | token {identity : String} {broker : Broker} {account : Account} {verify : Verifier}
      {claims : Claims} (hcaller : caller = some identity)
      (hbroker : brokers.lookup (brokerOf identity) = some broker)
      (hdoor : broker.certificateDoor = false) (hpassword : connect.password ≠ "")
      (htokens : broker.tokens = true) (hsource : admitsSource broker.sources connect.ipaddr = true)
      (hverifier : verifier = some verify)
      (hclaims : verify connect.password [brokerOf identity] = .ok claims)
      (hexp : timestamp now < claims.exp) (hazp : claims.azp = some connect.clientid)
      (husername : connect.username = connect.clientid)
      (haccount : accounts.resolve connect.clientid = some account) :
      Presents brokers verifier accounts caller connect now broker account claims.exp
  | certificate {identity name : String} {broker : Broker} {account : Account}
      (hcaller : caller = some identity)
      (hbroker : brokers.lookup (brokerOf identity) = some broker)
      (hdoor : broker.certificateDoor = true) (hpassword : connect.password = "")
      (hsource : admitsSource broker.sources connect.ipaddr = true)
      (hname : commonName connect.username = some name)
      (hclient : connect.clientid = keycloakClientId broker.project name)
      (haccount : accounts.resolve connect.clientid = some account) :
      Presents brokers verifier accounts caller connect now broker account
        (timestamp now + certificateConnectSeconds)

section Rights

variable {brokers : Brokers} {verifier : Option Verifier} {accounts : ServiceAccounts}
  {caller : Option String} {pods : Pods} {connect : Connect} {now : Instant} {broker : Broker}
  {account : Account} {exp : Int}

theorem decide_of_presents
    (h : Presents brokers verifier accounts caller connect now broker account exp) :
    decide brokers verifier accounts caller pods connect now = device broker account exp now := by
  cases h with
  | token hcaller hbroker hdoor hpassword htokens hsource hverifier hclaims hexp hazp husername
      haccount =>
    simp [decide, hcaller, hbroker, hdoor, hpassword, htokens, hsource, hverifier, hclaims,
      not_le.2 hexp, hazp, husername, haccount]
  | certificate hcaller hbroker hdoor hpassword hsource hname hclient haccount =>
    simp [decide, certificate, hcaller, hbroker, hdoor, hpassword, hsource, hname, ← hclient,
      haccount]

theorem broker_of_presents
    (h : Presents brokers verifier accounts caller connect now broker account exp) :
    (caller.bind fun identity => brokers.lookup (brokerOf identity)) = some broker := by
  cases h with
  | token hcaller hbroker => rw [hcaller, Option.bind_some, hbroker]
  | certificate hcaller hbroker => rw [hcaller, Option.bind_some, hbroker]

theorem account_of_presents
    (h : Presents brokers verifier accounts caller connect now broker account exp) :
    accounts.resolve connect.clientid = some account := by
  cases h with
  | token _ _ _ _ _ _ _ _ _ _ _ haccount => exact haccount
  | certificate _ _ _ _ _ _ _ haccount => exact haccount

/-- A device whose id is one of the tokenless subscribers' names. -/
def TakesATokenlessName (broker : Broker) (clientid : String) : Prop :=
  broker.certificateDoor = false ∧ clientid ∈ [runnerUsername, captureUsername]

theorem isDevice_of_presents (topic : String)
    (h : Presents brokers verifier accounts caller connect now broker account exp) :
    isDevice broker ⟨"2", connect.clientid, connect.username, topic⟩ = true ↔
      ¬ TakesATokenlessName broker connect.clientid := by
  cases h with
  | token _ _ hdoor _ _ _ _ _ _ _ husername =>
    simp [isDevice, TakesATokenlessName, hdoor, husername]
  | certificate _ _ hdoor _ _ hname hclient =>
    simp [isDevice, TakesATokenlessName, hdoor, hname, hclient]

theorem publishCheck_of_presents {topic : String} {t : Instant}
    (h : Presents brokers verifier accounts caller connect now broker account exp) :
    (publishCheck brokers accounts caller ⟨"2", connect.clientid, connect.username, topic⟩ t).1 =
        true ↔
      ¬ TakesATokenlessName broker connect.clientid ∧ refusedDevice broker account t = none ∧
        covered broker account connect.clientid topic t = true := by
  rw [← isDevice_of_presents topic h]
  unfold publishCheck
  rw [broker_of_presents h, account_of_presents h]
  cases hdevice : isDevice broker ⟨"2", connect.clientid, connect.username, topic⟩ with
  | false => simp [hdevice]
  | true =>
    cases hrefused : refusedDevice broker account t with
    | some refusal => simp [hdevice, hrefused]
    | none =>
      cases hcovered : covered broker account connect.clientid topic t <;>
        simp [hdevice, hrefused, hcovered]

theorem refusedDevice_eq_none {t : Instant} : refusedDevice broker account t = none ↔
    account.project = broker.project ∧ ∀ e, account.credentialsEnd = some e → t < e := by
  unfold refusedDevice
  rcases account.credentialsEnd with _ | e <;> split_ifs <;> simp_all

theorem device_eq_allow {acl : List Rule} {expire : Int} :
    (device broker account exp now).1 = .allow acl (some expire) ↔
      refusedDevice broker account now = none ∧ rolesOf broker account now ≠ [] ∧
        acl = ((rolesOf broker account now).flatMap fun h => h.role.subscribe).map
          (fun topic => ({ topic } : Rule)) ∧
        expire = expireAt account (rolesOf broker account now) exp := by
  unfold device
  cases refusedDevice broker account now with
  | some refusal => simp [refused, Answer.deny, Answer.allow]
  | none =>
    simp only
    split_ifs with hheld
    · simp [refused, Answer.deny, Answer.allow, hheld]
    · simp [Answer.allow, hheld, eq_comm, and_comm]

/-- A device's rights end when its grants end: each subscription of a connection is a right the
account has until the connection closes, the connection closes by the end of the token and of the
credentials, and a publish is admitted exactly while a role held covers its topic. -/
structure RightsEndWithGrants (brokers : Brokers) (verifier : Option Verifier)
    (accounts : ServiceAccounts) (caller : Option String) (pods : Pods) (connect : Connect)
    (now : Instant) (broker : Broker) (account : Account) (exp : Int) : Prop where
  subscriptions : ∀ acl expire,
    (decide brokers verifier accounts caller pods connect now).1 = .allow acl (some expire) →
      ∀ rule ∈ acl, ∀ t, now ≤ t → t < expire * nanosPerSecond →
        ∃ role, Holds broker account role t ∧ rule.topic ∈ role.subscribe
  closes : ∀ acl expire,
    (decide brokers verifier accounts caller pods connect now).1 = .allow acl (some expire) →
      expire ≤ exp ∧ ∀ e, account.credentialsEnd = some e → expire * nanosPerSecond ≤ e
  publishes : ∀ acl expire,
    (decide brokers verifier accounts caller pods connect now).1 = .allow acl (some expire) →
      ∀ topic t, now ≤ t → t < expire * nanosPerSecond →
        ((publishCheck brokers accounts caller
            ⟨"2", connect.clientid, connect.username, topic⟩ t).1 = true ↔
          ∃ role, Holds broker account role t ∧
            ∃ filter ∈ role.publish, Topics.matchesTopic filter topic connect.clientid = true)
  everPublishes : ∀ topic t,
    (publishCheck brokers accounts caller
        ⟨"2", connect.clientid, connect.username, topic⟩ t).1 = true →
      (∀ e, account.credentialsEnd = some e → t < e) ∧ ∃ role, Holds broker account role t ∧
        ∃ filter ∈ role.publish, Topics.matchesTopic filter topic connect.clientid = true

/-- The account holds a role that lists the topic. -/
def Subscribes (broker : Broker) (account : Account) (topic : String) (t : Instant) : Prop :=
  ∃ role, Holds broker account role t ∧ topic ∈ role.subscribe

/-- The connection of a CONNECT at `now` may still be open at `t`: before the end of the token,
before the last second of the credentials, and before the last second of some grant in force at
the CONNECT, or for good where a role was held then without an end. -/
def MayBeOpen (broker : Broker) (account : Account) (exp : Int) (now t : Instant) : Prop :=
  t < exp * nanosPerSecond ∧
    (∀ e, account.credentialsEnd = some e → t < timestamp e * nanosPerSecond) ∧
      ∃ role, Holds broker account role now ∧ (account.name ∈ role.serviceAccounts ∨
        ∃ b, Bound broker account role now b ∧
          ∀ e, b.lastOf = some e → t < timestamp e * nanosPerSecond)

/-- Where a grant of a subscribed topic ends while the connection may be open, another goes on. -/
def SubscriptionsOutlast (broker : Broker) (account : Account) (exp : Int) (now : Instant) : Prop :=
  ∀ topic, Subscribes broker account topic now → ∀ role b e, topic ∈ role.subscribe →
    role ∈ broker.roles → Bound broker account role e b → b.lastOf = some e → now ≤ e →
      MayBeOpen broker account exp now (e + 1) → Subscribes broker account topic (e + 1)

theorem covered_iff {clientid topic : String} {t : Instant} :
    covered broker account clientid topic t = true ↔ ∃ role, Holds broker account role t ∧
      ∃ filter ∈ role.publish, Topics.matchesTopic filter topic clientid = true := by
  unfold covered Holds
  simp only [List.any_eq_true, List.mem_flatMap, List.mem_map]
  constructor
  · rintro ⟨filter, ⟨h, hh, hfilter⟩, hmatch⟩
    exact ⟨h.role, ⟨h, hh, rfl⟩, filter, hfilter, hmatch⟩
  · rintro ⟨role, ⟨h, hh, rfl⟩, filter, hfilter, hmatch⟩
    exact ⟨filter, ⟨h, hh, hfilter⟩, hmatch⟩

theorem mayBeOpen_iff {t : Instant} (hne : rolesOf broker account now ≠ []) :
    MayBeOpen broker account exp now t ↔
      t < expireAt account (rolesOf broker account now) exp * nanosPerSecond := by
  rw [lt_expireAt, lt_grantsEnd hne]
  refine and_congr_right fun _ => and_congr_right fun _ => ⟨?_, ?_⟩
  · rintro ⟨role, hholds, hlast⟩
    obtain ⟨h, hh, rfl⟩ := List.mem_map.1 hholds
    exact ⟨h, hh, (lt_lastsTo hh).2 hlast⟩
  · rintro ⟨h, hh, hlast⟩
    exact ⟨h.role, List.mem_map_of_mem hh, (lt_lastsTo hh).1 hlast⟩

theorem MayBeOpen.earlier {s t : Instant} (h : MayBeOpen broker account exp now t) (hst : s ≤ t) :
    MayBeOpen broker account exp now s := by
  obtain ⟨hexp, hcredentials, role, hholds, hlast⟩ := h
  refine ⟨hst.trans_lt hexp, fun e he => hst.trans_lt (hcredentials e he), role, hholds, ?_⟩
  exact hlast.imp_right fun ⟨b, hb, hlt⟩ => ⟨b, hb, fun e he => hst.trans_lt (hlt e he)⟩

/-- A CONNECT whose connection may ever be open is admitted. -/
theorem MayBeOpen.admitted {t : Instant} (h : MayBeOpen broker account exp now t) (hnow : now ≤ t) :
    refusedDevice broker account now = none ∧ rolesOf broker account now ≠ [] := by
  obtain ⟨-, hcredentials, role, hholds, -⟩ := h
  refine ⟨refusedDevice_eq_none.2 ⟨(holds_iff.1 hholds).1, fun e he => ?_⟩, ?_⟩
  · exact hnow.trans_lt ((hcredentials e he).trans_le (timestamp_mul_le e))
  · obtain ⟨held, hheld, -⟩ := List.mem_map.1 hholds
    exact List.ne_nil_of_mem hheld

/-- A subscribed topic is one a role held at that instant lists, or its last grant has just ended. -/
theorem Subscribes.next {topic : String} {t : Instant} (h : Subscribes broker account topic t) :
    Subscribes broker account topic (t + 1) ∨
      ∃ role b, topic ∈ role.subscribe ∧ role ∈ broker.roles ∧ Bound broker account role t b ∧
        b.lastOf = some t := by
  obtain ⟨role, hholds, htopic⟩ := h
  obtain ⟨hproject, hrole, hgranted⟩ := holds_iff.1 hholds
  rcases hgranted with hlegacy | ⟨b, hb⟩
  · exact Or.inl ⟨role, holds_iff.2 ⟨hproject, hrole, Or.inl hlegacy⟩, htopic⟩
  · rcases hb.next with hnext | hlast
    · exact Or.inl ⟨role, holds_iff.2 ⟨hproject, hrole, Or.inr ⟨b, hnext⟩⟩, htopic⟩
    · exact Or.inr ⟨role, b, htopic, hrole, hb, hlast⟩

/-- While the connection may be open every subscribed topic stays granted. By induction on how long
after the CONNECT the instant is. -/
theorem subscribes_of_outlast (h : SubscriptionsOutlast broker account exp now) {topic : String}
    (hnow : Subscribes broker account topic now) : ∀ n : ℕ,
      MayBeOpen broker account exp now (now + n) → Subscribes broker account topic (now + n)
  | 0, _ => by simpa using hnow
  | n + 1, hopen => by
    have hnext : now + ((n + 1 : ℕ) : Int) = now + (n : Int) + 1 := by
      rw [Nat.cast_succ, ← add_assoc]
    rw [hnext] at hopen ⊢
    have hbefore := subscribes_of_outlast h hnow n (hopen.earlier (le_of_lt (Int.lt_succ _)))
    rcases hbefore.next with hafter | ⟨role, b, htopic, hrole, hb, hlast⟩
    · exact hafter
    · exact h topic hnow role b _ htopic hrole hb hlast (Int.le_add_of_nonneg_right (by omega)) hopen

theorem subscriptions_of_outlast (h : SubscriptionsOutlast broker account exp now)
    {acl : List Rule} {expire : Int}
    (hallow : (device broker account exp now).1 = .allow acl (some expire)) :
    ∀ rule ∈ acl, ∀ t, now ≤ t → t < expire * nanosPerSecond →
      Subscribes broker account rule.topic t := by
  obtain ⟨-, hne, rfl, rfl⟩ := device_eq_allow.1 hallow
  intro rule hrule t hnow ht
  obtain ⟨topic, htopic, rfl⟩ := List.mem_map.1 hrule
  obtain ⟨held, hheld, htopic⟩ := List.mem_flatMap.1 htopic
  have hsub : Subscribes broker account topic now :=
    ⟨held.role, List.mem_map_of_mem hheld, htopic⟩
  have hn : now + ((t - now).toNat : Int) = t := by
    rw [Int.toNat_of_nonneg (Int.sub_nonneg_of_le hnow)]
    exact add_sub_cancel now t
  have := subscribes_of_outlast h hsub (t - now).toNat
  rw [hn] at this
  exact this ((mayBeOpen_iff hne).2 ht)

/-- A device's rights end with its grants exactly where every grant of a subscribed topic that ends
while the connection may be open is followed by another, and the device's id is no name of the
tokenless subscribers under which a role would admit a publish. -/
theorem rightsEndWithGrants_iff
    (h : Presents brokers verifier accounts caller connect now broker account exp) :
    RightsEndWithGrants brokers verifier accounts caller pods connect now broker account exp ↔
      SubscriptionsOutlast broker account exp now ∧
        (TakesATokenlessName broker connect.clientid → ∀ topic t, now ≤ t →
          MayBeOpen broker account exp now t →
            covered broker account connect.clientid topic t = false) := by
  have hpublish : ∀ topic t, (publishCheck brokers accounts caller
      ⟨"2", connect.clientid, connect.username, topic⟩ t).1 = true ↔ _ :=
    fun topic t => publishCheck_of_presents h
  constructor
  · intro hrights
    have hallow : ∀ {t}, MayBeOpen broker account exp now t → now ≤ t →
        (decide brokers verifier accounts caller pods connect now).1 =
          .allow (((rolesOf broker account now).flatMap fun h => h.role.subscribe).map
            fun topic => ({ topic } : Rule))
            (some (expireAt account (rolesOf broker account now) exp)) := fun hopen hnow => by
      obtain ⟨hrefused, hne⟩ := hopen.admitted hnow
      rw [decide_of_presents h]
      exact device_eq_allow.2 ⟨hrefused, hne, rfl, rfl⟩
    refine ⟨fun topic hsub role b e _ _ _ _ he hopen => ?_, fun hname topic t hnow hopen => ?_⟩
    · have hnow : now ≤ e + 1 := Int.le_add_one he
      obtain ⟨-, hne⟩ := hopen.admitted hnow
      obtain ⟨r, hholds, htopic⟩ := hsub
      obtain ⟨held, hheld, rfl⟩ := List.mem_map.1 hholds
      exact hrights.subscriptions _ _ (hallow hopen hnow) { topic }
        (List.mem_map_of_mem (List.mem_flatMap.2 ⟨held, hheld, htopic⟩)) (e + 1) hnow
        ((mayBeOpen_iff hne).1 hopen)
    · obtain ⟨-, hne⟩ := hopen.admitted hnow
      have := hrights.publishes _ _ (hallow hopen hnow) topic t hnow ((mayBeOpen_iff hne).1 hopen)
      rw [hpublish, ← covered_iff] at this
      exact Bool.eq_false_iff.2 fun hcovered => (this.2 hcovered).1 hname
  · rintro ⟨houtlast, hnames⟩
    refine ⟨fun acl expire hallow => ?_, fun acl expire hallow => ?_, fun acl expire hallow => ?_,
      fun topic t hadmitted => ?_⟩
    · rw [decide_of_presents h] at hallow
      exact subscriptions_of_outlast houtlast hallow
    · rw [decide_of_presents h] at hallow
      obtain ⟨-, -, -, rfl⟩ := device_eq_allow.1 hallow
      refine ⟨expireAt_le.1, fun e he => ?_⟩
      exact (Int.mul_le_mul_of_nonneg_right (expireAt_le.2 e he) (by decide)).trans
        (timestamp_mul_le e)
    · rw [decide_of_presents h] at hallow
      obtain ⟨hrefused, hne, -, rfl⟩ := device_eq_allow.1 hallow
      intro topic t hnow ht
      have hopen : MayBeOpen broker account exp now t := (mayBeOpen_iff hne).2 ht
      rw [hpublish, ← covered_iff]
      refine ⟨fun hadmitted => hadmitted.2.2, fun hcovered => ⟨fun hname => ?_, ?_, hcovered⟩⟩
      · rw [hnames hname topic t hnow hopen] at hcovered
        cases hcovered
      · refine refusedDevice_eq_none.2 ⟨(refusedDevice_eq_none.1 hrefused).1, fun e he => ?_⟩
        exact (hopen.2.1 e he).trans_le (timestamp_mul_le e)
    · obtain ⟨-, hrefused, hcovered⟩ := (hpublish topic t).1 hadmitted
      exact ⟨(refusedDevice_eq_none.1 hrefused).2, covered_iff.1 hcovered⟩

end Rights

section Fleet

def airBroker : Broker where
  name := "air"
  project := "p"
  roles := [{ name := "feed", subscribe := ["air/" ++ clientId] },
    { name := "control", subscribe := ["control/" ++ clientId] }]

/-- Two grants that end ten seconds apart. -/
def camera : Account where
  name := "cam"
  project := "p"
  roles := [{ role := "mqtt/air/feed", project := some "p", validity := some (none, some 10000000000) },
    { role := "mqtt/air/control", project := some "p", validity := some (none, some 20000000000) }]

def cameraClaims : Claims := { sub := "", azp := some "p-cam", exp := 100 }

def cameraVerifier : Verifier := fun _ _ => .ok cameraClaims

def cameraConnect : Connect := ⟨"p-cam", "p-cam", "token", "10.0.0.1"⟩

theorem camera_presents : Presents [("mqtt-p-air", airBroker)] (some cameraVerifier)
    { byClientId := [("p-cam", camera)] } (some "mqtt-p-air.ns") cameraConnect 0 airBroker camera
    cameraClaims.exp :=
  Presents.token rfl (by decide +kernel) rfl (by decide) rfl rfl rfl rfl (by decide) rfl rfl rfl

theorem rightsEndWithGrants_camera :
    RightsEndWithGrants [("mqtt-p-air", airBroker)] (some cameraVerifier)
        { byClientId := [("p-cam", camera)] } (some "mqtt-p-air.ns") {} cameraConnect 0 airBroker
        camera 100 ↔
      SubscriptionsOutlast airBroker camera 100 0 ∧
        (TakesATokenlessName airBroker "p-cam" → ∀ topic t, 0 ≤ t →
          MayBeOpen airBroker camera 100 0 t → covered airBroker camera "p-cam" topic t = false) :=
  rightsEndWithGrants_iff camera_presents

/-- The grant of the feed ends after ten seconds and the connection goes on for ten more. -/
theorem not_rightsEndWithGrants :
    ¬ RightsEndWithGrants [("mqtt-p-air", airBroker)] (some cameraVerifier)
        { byClientId := [("p-cam", camera)] } (some "mqtt-p-air.ns") {} cameraConnect 0 airBroker
        camera 100 := by
  intro h
  obtain ⟨role, hholds, htopic⟩ := h.subscriptions
    [{ topic := "air/" ++ clientId }, { topic := "control/" ++ clientId }] 20 (by decide +kernel)
    { topic := "air/" ++ clientId } List.mem_cons_self 15000000000 (by decide) (by decide)
  have hnone : ∀ role ∈ (rolesOf airBroker camera 15000000000).map Held.role,
      "air/" ++ clientId ∉ role.subscribe := by decide +kernel
  exact hnone role hholds htopic

end Fleet

end JoinedContext.Mqtt
