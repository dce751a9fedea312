import JoinedContext.Mqtt.Expiry
import Mathlib.Data.Finset.Card

/-!
# What a broker's filters keep apart

A filter the validator admits is a pattern of plain levels, so the covering of two filters is that
of the topics they reach, and two clients are kept apart exactly where their filters, each with its
client's id put in, clash.
-/

namespace JoinedContext.Mqtt

open Wildcard Names

namespace Topics

/-- A level no wildcard and no separator stands in. -/
def Plain (l : String) : Prop := ∀ c ∈ l.toList, c ∉ ['/', '+', '#']

theorem matchesTopic_iff {filter topic clientid : String} :
    matchesTopic filter topic clientid = true ↔
      (Text.startsWith '$' topic = false ∧ '+' ∉ topic.toList ∧ '#' ∉ topic.toList) ∧
        Matches (pattern clientid filter) (levels topic) := by
  unfold matchesTopic pattern
  rw [← matchesLevels_iff]
  split_ifs with h
  · refine iff_of_false id fun hmatch => ?_
    rcases h with h | h | h
    · rw [hmatch.1.1] at h
      cases h
    · exact hmatch.1.2.1 h
    · exact hmatch.1.2.2 h
  · obtain ⟨hdollar, h⟩ := not_or.1 h
    obtain ⟨hplus, hhash⟩ := not_or.1 h
    exact (and_iff_right ⟨Bool.eq_false_iff.2 hdollar, hplus, hhash⟩).symm

theorem mem_toList_join {c : Char} {path : List String} (h : c ∈ (Text.join "/" path).toList) :
    c = '/' ∨ ∃ l ∈ path, c ∈ l.toList := by
  induction path with
  | nil => cases h
  | cons l path ih =>
    cases path with
    | nil => exact Or.inr ⟨l, List.mem_singleton_self l, h⟩
    | cons m path =>
      rw [Text.join_cons_cons, String.toList_append, String.toList_append, List.mem_append,
        List.mem_append] at h
      rcases h with (h | h) | h
      · exact Or.inr ⟨l, List.mem_cons_self, h⟩
      · exact Or.inl (List.mem_singleton.1 h)
      · exact (ih h).imp_right fun ⟨k, hk, hc⟩ => ⟨k, List.mem_cons_of_mem _ hk, hc⟩

theorem startsWith_join {path : List String}
    (h : ∀ l, path.head? = some l → Text.startsWith '$' l = false) :
    Text.startsWith '$' (Text.join "/" path) = false := by
  cases path with
  | nil => rfl
  | cons l path =>
    have hl := h l rfl
    cases path with
    | nil => exact hl
    | cons m path =>
      unfold Text.startsWith at hl ⊢
      rw [Text.join_cons_cons, String.toList_append, String.toList_append]
      cases hcs : l.toList with
      | nil => rfl
      | cons c cs => rwa [hcs] at hl

/-- The topic of a path of plain levels is matched as the path is. -/
theorem matchesTopic_join {filter clientid : String} {path : List String} (hne : path ≠ [])
    (hplain : ∀ l ∈ path, Plain l)
    (hhead : ∀ l, path.head? = some l → Text.startsWith '$' l = false) :
    matchesTopic filter (Text.join "/" path) clientid = true ↔
      Matches (pattern clientid filter) path := by
  have hlevels : levels (Text.join "/" path) = path :=
    Text.splitAny_join hne fun l hl hc => hplain l hl _ hc (by decide)
  have hchars : ∀ c ∈ ['+', '#'], c ∉ (Text.join "/" path).toList := fun c hc hmem => by
    rcases mem_toList_join hmem with rfl | ⟨l, hl, hcl⟩
    · exact absurd hc (by decide)
    · exact hplain l hl c hcl (List.mem_cons_of_mem _ hc)
  rw [matchesTopic_iff, hlevels]
  exact and_iff_right ⟨startsWith_join hhead, hchars _ List.mem_cons_self,
    hchars _ (List.mem_cons_of_mem _ List.mem_cons_self)⟩

/-! ## Filters the validator admits -/

/-- What the validator leaves of a filter. -/
structure Admitted (filter : String) : Prop where
  plain : ∀ l ∈ levels filter, l = "#" ∨ l = "+" ∨ Plain l
  head : ∀ l, (levels filter).head? = some l →
    l ≠ "#" ∧ (l ≠ clientId → Text.startsWith '$' l = false)

theorem levels_ne_nil (filter : String) : levels filter ≠ [] := Text.splitAny_ne_nil _ _

theorem checkLevel_eq_ok {refuse : String → Except Error Unit} {isLast : Bool} {l : String}
    (hrefuse : ∀ why, refuse why ≠ .ok ()) (h : checkLevel refuse isLast l = .ok ()) :
    ('#' ∈ l.toList → l = "#" ∧ isLast = true) ∧ ('+' ∈ l.toList → l = "+") ∧
      (Text.contains "$\x7b" l = true → l = clientId) := by
  unfold checkLevel at h
  split_ifs at h with hempty hnul hhash hplus hholder
  · exact (hrefuse _ h).elim
  · exact (hrefuse _ h).elim
  · exact (hrefuse _ h).elim
  · exact (hrefuse _ h).elim
  · exact (hrefuse _ h).elim
  · refine ⟨fun hc => ?_, fun hc => ?_, fun hc => ?_⟩
    · by_contra hnot
      rw [not_and_or] at hnot
      exact hhash ⟨hc, hnot⟩
    · by_contra hnot
      exact hplus ⟨hc, hnot⟩
    · by_contra hnot
      exact hholder ⟨hc, hnot⟩

theorem mem_zipIdx_levels {filter l : String} (hl : l ∈ levels filter) :
    ∃ i, (l, i) ∈ (levels filter).zipIdx := by
  obtain ⟨i, hi, rfl⟩ := List.getElem_of_mem hl
  exact ⟨i, List.mem_zipIdx_iff_getElem?.2 (List.getElem?_eq_getElem hi)⟩

/-- A first level that begins with `$` is the placeholder: what follows the placeholder's own text
in it would be a placeholder of another kind. -/
theorem head_of_admitted {filter l : String} (hhead : (levels filter).head? = some l)
    (hdollar : ¬ (Text.startsWith '$' filter = true ∧ (Text.stripPrefix clientId filter).isNone = true))
    (hholder : Text.contains "$\x7b" l = true → l = clientId) (hne : l ≠ clientId) :
    Text.startsWith '$' l = false := by
  by_contra hstarts
  rw [Bool.not_eq_false] at hstarts
  rw [levels, Text.head?_splitAny, Option.some.injEq] at hhead
  obtain ⟨r, hr⟩ := Text.startsWith_iff.1 hstarts
  rw [← hhead, String.toList_ofList] at hr
  have hfilter : Text.startsWith '$' filter = true := by
    cases hcs : filter.toList with
    | nil =>
      rw [hcs] at hr
      cases hr
    | cons c cs =>
      rw [hcs, List.takeWhile_cons] at hr
      split_ifs at hr
      · exact Text.startsWith_iff.2 ⟨cs, by rw [hcs, (List.cons.inj hr).1]⟩
  have hstrip : (Text.stripPrefix clientId filter).isNone = false := by
    rw [Bool.eq_false_iff]
    exact fun hnone => hdollar ⟨hfilter, hnone⟩
  obtain ⟨rest, hrest⟩ := Option.isSome_iff_exists.1 (by simpa using hstrip)
  rw [Text.stripPrefix_eq_some] at hrest
  refine hne (hholder (decide_eq_true ?_))
  have hplain : ∀ c ∈ clientId.toList, Decidable.decide (c ∉ ['/']) = true :=
    List.all_eq_true.1 (by decide +kernel)
  rw [← hhead, String.toList_ofList, hrest, List.takeWhile_append_of_pos hplain]
  refine ⟨[], ("clientid\x7d" : String).toList ++ rest.toList.takeWhile (fun c => c ∉ ['/']), ?_⟩
  have hid : clientId.toList = ("$\x7b" : String).toList ++ ("clientid\x7d" : String).toList := by
    decide +kernel
  rw [hid, List.nil_append, List.append_assoc]
  exact String.toList_ofList.symm

theorem admitted_of_check {field filter : String} (h : check field filter = .ok ()) :
    Admitted filter := by
  unfold check at h
  simp only at h
  split_ifs at h with hbytes hdollar hcount hwild
  rw [forM_eq_ok] at h
  have hrefuse : ∀ why : String,
      (Except.error (invalid field ("`" ++ filter ++ "` " ++ why)) : Except Error Unit) ≠ .ok () :=
    fun _ h => by cases h
  refine ⟨fun l hl => ?_, fun l hl => ?_⟩
  · obtain ⟨i, hi⟩ := mem_zipIdx_levels hl
    obtain ⟨hhash, hplus, -⟩ := checkLevel_eq_ok hrefuse (h _ hi)
    by_cases hlhash : '#' ∈ l.toList
    · exact Or.inl (hhash hlhash).1
    · by_cases hlplus : '+' ∈ l.toList
      · exact Or.inr (Or.inl (hplus hlplus))
      · refine Or.inr (Or.inr fun c hc hmem => ?_)
        rcases List.mem_cons.1 hmem with rfl | hmem
        · exact Text.notMem_of_mem_splitAny hl hc (List.mem_singleton_self _)
        · rcases List.mem_cons.1 hmem with rfl | hmem
          · exact hlplus hc
          · exact hlhash (List.mem_singleton.1 hmem ▸ hc)
  · obtain ⟨rest, hlevels⟩ : ∃ rest, levels filter = l :: rest := by
      obtain ⟨first, rest, hcons⟩ := List.exists_cons_of_ne_nil (levels_ne_nil filter)
      rw [hcons, List.head?_cons, Option.some.injEq] at hl
      exact ⟨rest, hl ▸ hcons⟩
    have hzip : (l, 0) ∈ (levels filter).zipIdx := by
      rw [hlevels, List.zipIdx_cons]
      exact List.mem_cons_self
    obtain ⟨hhash, -, hholder⟩ := checkLevel_eq_ok hrefuse (h _ hzip)
    refine ⟨fun heq => hwild ?_, head_of_admitted hl (by simpa using hdollar) hholder⟩
    subst heq
    have hlast := (hhash (by decide)).2
    rw [hlevels] at hlast ⊢
    obtain rfl : rest = [] := List.length_eq_zero_iff.1 (by simpa using hlast)
    rfl

/-! ## Covering -/

section Covering

variable {wide narrow filter clientid : String}

/-- A level that is plain, begins no system topic and is none of the given ones. -/
theorem exists_fresh (taken : List String) : ∃ z, z ∉ taken ∧ Plain z ∧
    Text.startsWith '$' z = false := by
  obtain ⟨n, hn⟩ := Infinite.exists_notMem_finset (taken.map String.length).toFinset
  rw [List.mem_toFinset] at hn
  refine ⟨String.ofList (List.replicate n 'x'), fun hmem => hn ?_, fun c hc => ?_, ?_⟩
  · exact List.mem_map.2 ⟨_, hmem, by simp⟩
  · rw [String.toList_ofList] at hc
    rw [List.eq_of_mem_replicate hc]
    decide
  · unfold Text.startsWith
    rw [String.toList_ofList]
    cases n <;> simp [List.replicate_succ]

theorem level_ne_lit {z l : String} (hz : z ≠ clientid) (hl : z ≠ l) :
    level clientid l ≠ .lit z := by
  unfold level
  split_ifs <;> simp [Ne.symm hz, Ne.symm hl]

theorem plain_of_lit_mem_pattern (hfilter : Admitted filter) (hid : Plain clientid) {b : String}
    (hb : Level.lit b ∈ pattern clientid filter) : Plain b := by
  obtain ⟨l, hl, heq⟩ := List.mem_map.1 hb
  unfold level at heq
  split_ifs at heq with hrest hone hclient
  · exact Level.lit.inj heq ▸ hid
  · exact Level.lit.inj heq ▸ ((hfilter.plain l hl).resolve_left hrest).resolve_left hone

/-- The first level of an admitted filter begins no system topic once an ordinary id is put in. -/
theorem head_pattern (clientid : String) (hfilter : Admitted filter) {q : Level String}
    (hq : (pattern clientid filter).head? = some q)
    (hid : (levels filter).head? = some clientId → Text.startsWith '$' clientid = false) :
    q ≠ .rest ∧ ∀ b, q = .lit b → Text.startsWith '$' b = false := by
  rw [pattern, List.head?_map, Option.map_eq_some_iff] at hq
  obtain ⟨l, hl, rfl⟩ := hq
  obtain ⟨hrest, hdollar⟩ := hfilter.head l hl
  refine ⟨level_eq_rest.not.2 hrest, fun b hb => ?_⟩
  unfold level at hb
  rw [if_neg hrest] at hb
  split_ifs at hb with hone hclient
  · rw [← Level.lit.inj hb]
    exact hid (hclient ▸ hl)
  · rw [← Level.lit.inj hb]
    exact hdollar hclient

/-- One filter covers another exactly when, for every client, every topic of the other is one of
its own. -/
theorem covers_iff (hnarrow : Admitted narrow) :
    covers wide narrow = true ↔ ∀ clientid topic, matchesTopic narrow topic clientid = true →
      matchesTopic wide topic clientid = true := by
  constructor
  · intro h clientid topic hmatch
    rw [matchesTopic_iff] at hmatch ⊢
    exact ⟨hmatch.1, matches_of_covers (covers_of_coversLevels clientid h) hmatch.2⟩
  · intro h
    by_contra hcovers
    obtain ⟨clientid, hfresh, hid, hdollar⟩ := exists_fresh (levels wide ++ levels narrow)
    rw [List.mem_append, not_or] at hfresh
    obtain ⟨z, hz, hzplain, hzdollar⟩ := exists_fresh (clientid :: levels wide)
    rw [List.mem_cons, not_or] at hz
    have hlit : Level.lit z ∉ pattern clientid wide := fun hmem => by
      obtain ⟨l, hl, heq⟩ := List.mem_map.1 hmem
      exact level_ne_lit hz.1 (fun h => hz.2 (h ▸ hl)) heq
    have hnot : Wildcard.covers (pattern clientid wide) (pattern clientid narrow) = false :=
      Bool.eq_false_iff.2 fun hcov => hcovers (coversLevels_of_covers hfresh.1 hfresh.2 hcov)
    obtain ⟨path, hfills, hout⟩ := exists_of_not_covers hlit hnot
    obtain ⟨q, rest, hpattern⟩ := List.exists_cons_of_ne_nil
      (show pattern clientid narrow ≠ [] from List.map_eq_nil_iff.not.2 (levels_ne_nil narrow))
    obtain ⟨hrest, hhead⟩ := head_pattern clientid hnarrow
      (by rw [hpattern]; rfl) fun _ => hdollar
    have hpath : ∃ b tail, path = b :: tail ∧ Text.startsWith '$' b = false := by
      rw [hpattern] at hfills
      cases q with
      | rest => exact (hrest rfl).elim
      | one =>
        cases path with
        | nil => exact hfills.elim
        | cons b tail => exact ⟨b, tail, rfl, hfills.1 ▸ hzdollar⟩
      | lit a =>
        cases path with
        | nil => exact hfills.elim
        | cons b tail => exact ⟨b, tail, rfl, hfills.1 ▸ hhead a rfl⟩
    obtain ⟨b, tail, rfl, hb⟩ := hpath
    have hjoin : ∀ filter, matchesTopic filter (Text.join "/" (b :: tail)) clientid = true ↔
        Matches (pattern clientid filter) (b :: tail) := fun filter =>
      matchesTopic_join (List.cons_ne_nil b tail) (fun l hl => (mem_of_fills hfills hl).elim
        (fun heq => heq ▸ hzplain) (plain_of_lit_mem_pattern hnarrow hid))
        fun l hl => Option.some.inj hl ▸ hb
    exact hout ((hjoin wide).1 (h clientid _ ((hjoin narrow).2 (matches_of_fills hfills))))

end Covering

/-! ## Filters under a client's id -/

section Under

variable {filter other clientid c d topic : String}

/-- A topic under a filter with the placeholder before any wildcard has the id as a level. -/
theorem mem_of_underClientIdLevels : ∀ {filter path : List String},
    underClientIdLevels filter = true → Matches (filter.map (level clientid)) path →
      clientid ∈ path
  | [], _, h, _ => by cases h
  | l :: filter, path, h, hmatch => by
    rw [underClientIdLevels] at h
    rw [List.map_cons] at hmatch
    split_ifs at h with hclient hwild
    · subst hclient
      rw [level_lit clientid (by decide) (by decide), if_pos rfl] at hmatch
      cases path with
      | nil => exact hmatch.elim
      | cons b path => exact hmatch.1 ▸ List.mem_cons_self
    · obtain ⟨hone, hrest⟩ := not_or.1 hwild
      rw [level_lit clientid hrest hone, if_neg hclient] at hmatch
      cases path with
      | nil => exact hmatch.elim
      | cons b path => exact List.mem_cons_of_mem _ (mem_of_underClientIdLevels h hmatch.2)

theorem mem_levels_of_underClientId (hunder : underClientId filter = true)
    (hmatch : matchesTopic filter topic clientid = true) : clientid ∈ levels topic :=
  mem_of_underClientIdLevels hunder (matchesTopic_iff.1 hmatch).2

/-- Some topic can have the id where the filter has the placeholder. -/
def Spells (filter clientid : String) : Prop :=
  Plain clientid ∧
    ((levels filter).head? = some clientId → Text.startsWith '$' clientid = false)

theorem spells_of_matchesTopic (hunder : underClientId filter = true)
    (hmatch : matchesTopic filter topic clientid = true) : Spells filter clientid := by
  have hmem := mem_levels_of_underClientId hunder hmatch
  obtain ⟨⟨hdollar, hplus, hhash⟩, hmatch⟩ := matchesTopic_iff.1 hmatch
  refine ⟨fun x hx hsep => ?_, fun hhead => ?_⟩
  · have hjoin : ∀ x ∈ clientid.toList, x ∈ topic.toList := fun x hx =>
      Text.mem_of_mem_splitAny hmem hx
    rcases List.mem_cons.1 hsep with rfl | hsep
    · exact Text.notMem_of_mem_splitAny hmem hx (List.mem_singleton_self _)
    · rcases List.mem_cons.1 hsep with rfl | hsep
      · exact hplus (hjoin _ hx)
      · exact hhash (List.mem_singleton.1 hsep ▸ hjoin _ hx)
  · obtain ⟨first, rest, hlevels⟩ := List.exists_cons_of_ne_nil (levels_ne_nil filter)
    obtain ⟨head, tail, htopic⟩ := List.exists_cons_of_ne_nil (levels_ne_nil topic)
    rw [hlevels, List.head?_cons, Option.some.injEq] at hhead
    rw [pattern, hlevels, htopic, List.map_cons, hhead, level_lit clientid (by decide) (by decide),
      if_pos rfl] at hmatch
    rw [← hmatch.1]
    exact Text.startsWith_of_head? (by rw [← levels, htopic]; rfl) hdollar

/-- Two clients' filters, each with its id put in, reach a topic in common unless they clash. -/
theorem exists_topic_of_not_clash (hfilter : Admitted filter) (hother : Admitted other)
    (hunder : underClientId filter = true) (hc : Spells filter c) (hd : Spells other d)
    (hclash : clash (pattern c filter) (pattern d other) = false) :
    ∃ topic, matchesTopic filter topic c = true ∧ matchesTopic other topic d = true := by
  obtain ⟨z, -, hzplain, -⟩ := exists_fresh []
  obtain ⟨path, hmatch, hmatch', hmem⟩ := exists_of_not_clash z hclash
  obtain ⟨first, rest, hlevels⟩ := List.exists_cons_of_ne_nil (levels_ne_nil filter)
  obtain ⟨hrest, hhead⟩ := head_pattern c hfilter
    (by rw [pattern, hlevels]; rfl) hc.2
  have hone : first ≠ "+" := fun h => by
    rw [underClientId, hlevels, h, underClientIdLevels, if_neg (by decide), if_pos (Or.inl rfl)]
      at hunder
    cases hunder
  rw [level_lit c (level_eq_rest.not.1 hrest) hone] at hhead
  rw [pattern, hlevels, List.map_cons, level_lit c (level_eq_rest.not.1 hrest) hone] at hmatch
  obtain ⟨b, tail, rfl, hb⟩ : ∃ b tail, path = b :: tail ∧ Text.startsWith '$' b = false := by
    cases path with
    | nil => exact hmatch.elim
    | cons b tail => exact ⟨b, tail, rfl, hhead b (hmatch.1 ▸ rfl)⟩
  have hplain : ∀ l ∈ b :: tail, Plain l := fun l hl => by
    rcases hmem l hl with rfl | hl | hl
    · exact hzplain
    · exact plain_of_lit_mem_pattern hfilter hc.1 hl
    · exact plain_of_lit_mem_pattern hother hd.1 hl
  have hheads : ∀ l, (b :: tail).head? = some l → Text.startsWith '$' l = false :=
    fun l hl => Option.some.inj hl ▸ hb
  refine ⟨Text.join "/" (b :: tail), ?_, ?_⟩
  · rw [matchesTopic_join (List.cons_ne_nil b tail) hplain hheads, pattern, hlevels, List.map_cons,
      level_lit c (level_eq_rest.not.1 hrest) hone]
    exact hmatch
  · rw [matchesTopic_join (List.cons_ne_nil b tail) hplain hheads]
    exact hmatch'

theorem not_matchesTopic_of_clash (hclash : clash (pattern c filter) (pattern d other) = true)
    (hmatch : matchesTopic filter topic c = true) : matchesTopic other topic d = false :=
  Bool.eq_false_iff.2 fun hother => not_matches_of_clash hclash (matchesTopic_iff.1 hmatch).2
    (matchesTopic_iff.1 hother).2

end Under

end Topics

/-! ## Roles the validator admits -/

open Topics

theorem checkFilters_eq_ok {field : String} {reason : String → Option String}
    {filters : List String} : checkFilters field reason filters = .ok () ↔
      ∀ filter ∈ filters, check field filter = .ok () ∧ reason filter = none := by
  unfold checkFilters
  rw [forM_eq_ok]
  refine forall₂_congr fun filter _ => ?_
  rw [andThen_eq_ok]
  cases reason filter <;> simp [refuse]

/-- What the validator leaves of a role. -/
structure RoleAdmitted (role : MqttRole) : Prop where
  publish : ∀ filter ∈ role.publish, Admitted filter ∧
    (role.sharedTopics = false → underClientId filter = true)
  subscribe : ∀ filter ∈ role.subscribe, Admitted filter ∧ underClientId filter = true

theorem roleAdmitted_of_checkRole {role : MqttRole} {mode : Option MqttMode}
    (h : checkRole role mode = .ok ()) : RoleAdmitted role := by
  unfold checkRole at h
  obtain ⟨-, h⟩ := andThen_eq_ok.1 h
  obtain ⟨-, h⟩ := andThen_eq_ok.1 h
  obtain ⟨hpublish, h⟩ := andThen_eq_ok.1 h
  obtain ⟨-, hsubscribe⟩ := andThen_eq_ok.1 h
  rw [checkFilters_eq_ok] at hpublish hsubscribe
  refine ⟨fun filter hfilter => ?_, fun filter hfilter => ?_⟩
  · obtain ⟨hcheck, hreason⟩ := hpublish filter hfilter
    refine ⟨admitted_of_check hcheck, fun hshared => ?_⟩
    by_contra hunder
    simp [hshared, hunder] at hreason
  · obtain ⟨hcheck, hreason⟩ := hsubscribe filter hfilter
    refine ⟨admitted_of_check hcheck, ?_⟩
    by_contra hunder
    simp [hunder] at hreason

theorem roleAdmitted_of_checkRoles {mode : Option MqttMode} : ∀ {roles : List MqttRole}
    {seen : List String}, checkRoles mode seen roles = .ok () → ∀ role ∈ roles, RoleAdmitted role
  | [], _, _, _, hrole => by cases hrole
  | first :: roles, seen, h, role, hrole => by
    rw [checkRoles] at h
    obtain ⟨-, h⟩ := andThen_eq_ok.1 h
    obtain ⟨-, h⟩ := andThen_eq_ok.1 h
    obtain ⟨-, h⟩ := andThen_eq_ok.1 h
    obtain ⟨hfirst, h⟩ := andThen_eq_ok.1 h
    rcases List.mem_cons.1 hrole with rfl | hrole
    · exact roleAdmitted_of_checkRole hfirst
    · exact roleAdmitted_of_checkRoles h role hrole

theorem roleAdmitted_of_validate {spec : MqttBrokerSpec} (h : spec.validate = .ok ()) :
    ∀ role ∈ spec.roles, RoleAdmitted role := by
  unfold MqttBrokerSpec.validate at h
  obtain ⟨-, h⟩ := andThen_eq_ok.1 h
  exact roleAdmitted_of_checkRoles (andThen_eq_ok.1 h).1

/-! ## The capture's filters -/

/-- A filter with each level that names a placeholder widened. -/
def widen (filter : String) : String :=
  Text.join "/" ((levels filter).map fun l => if Text.contains "$\x7b" l then "+" else l)

/-- The filters a capture subscribes to: every role's publish filter, widened. -/
def captureTopics (roles : List MqttRole) : List String :=
  (((roles.flatMap MqttRole.publish).map widen).mergeSort (· ≤ ·)).dedup

theorem levels_widen (filter : String) : levels (widen filter) =
    (levels filter).map fun l => if Text.contains "$\x7b" l then "+" else l := by
  refine Text.splitAny_join (List.map_eq_nil_iff.not.2 (levels_ne_nil filter)) fun l hl hc => ?_
  obtain ⟨m, hm, rfl⟩ := List.mem_map.1 hl
  split_ifs at hc
  · exact absurd hc (by decide)
  · exact Text.notMem_of_mem_splitAny hm hc (List.mem_singleton_self _)

theorem matchesLevels_widen {clientid other : String} : ∀ {filter topic : List String},
    matchesLevels clientid filter topic = true →
      matchesLevels other (filter.map fun l => if Text.contains "$\x7b" l then "+" else l) topic = true
  | [], _, h => h
  | l :: filter, topic, h => by
    rw [List.map_cons]
    split_ifs with hholder
    · have hrest : l ≠ "#" := by
        rintro rfl
        exact absurd hholder (by decide +kernel)
      cases topic with
      | nil => exact absurd (of_decide_eq_true h) hrest
      | cons part topic =>
        have h := ((Bool.or_eq_true _ _).mp h).resolve_left (by simpa using hrest)
        simp [matchesLevels, matchesLevels_widen (Bool.and_eq_true_iff.1 h).2]
    · have hclient : l ≠ clientId := by
        rintro rfl
        exact hholder (by decide +kernel)
      cases topic with
      | nil => exact h
      | cons part topic =>
        rw [matchesLevels] at h ⊢
        rw [if_neg hclient] at h ⊢
        rcases (Bool.or_eq_true _ _).mp h with h | h
        · exact (Bool.or_eq_true _ _).mpr (Or.inl h)
        · obtain ⟨hpart, h⟩ := Bool.and_eq_true_iff.1 h
          exact (Bool.or_eq_true _ _).mpr (Or.inr (Bool.and_eq_true_iff.2
            ⟨hpart, matchesLevels_widen h⟩))

/-- A topic some device may publish is one a capture reads. -/
theorem exists_captureTopics {roles : List MqttRole} {role : MqttRole} {filter topic clientid : String}
    (other : String) (hrole : role ∈ roles) (hfilter : filter ∈ role.publish)
    (hmatch : matchesTopic filter topic clientid = true) :
    ∃ wide ∈ captureTopics roles, matchesTopic wide topic other = true := by
  refine ⟨widen filter, ?_, ?_⟩
  · rw [captureTopics, List.mem_dedup, List.mem_mergeSort]
    exact List.mem_map_of_mem (List.mem_flatMap.2 ⟨role, hrole, hfilter⟩)
  · unfold matchesTopic at hmatch ⊢
    split_ifs at hmatch ⊢
    rw [levels_widen]
    exact matchesLevels_widen hmatch

/-! ## Two clients of one broker -/

section Clients

open Auth

variable {brokers : Brokers} {accounts : ServiceAccounts} {caller : Option String}
  {spec : MqttBrokerSpec} {broker : Broker} {a b account : Account} {c u d v clientid username : String}
  {now : Instant}

/-- The broker's devices are kept apart: no topic is published by both clients, a subscription
reaches only topics with its client's id, one filter covers another exactly where it reaches all the
other does, and a capture reads what any device may publish. -/
structure DevicesIsolated (brokers : Brokers) (accounts : ServiceAccounts) (caller : Option String)
    (spec : MqttBrokerSpec) (c u d v : String) (now : Instant) : Prop where
  publishes : ∀ topic, ¬ ((publishCheck brokers accounts caller ⟨"2", c, u, topic⟩ now).1 = true ∧
    (publishCheck brokers accounts caller ⟨"2", d, v, topic⟩ now).1 = true)
  subscribes : ∀ role ∈ spec.roles, ∀ filter ∈ role.subscribe, ∀ clientid topic,
    matchesTopic filter topic clientid = true → clientid ∈ levels topic
  covering : ∀ role ∈ spec.roles, ∀ narrow ∈ role.publish ++ role.subscribe, ∀ wide,
    covers wide narrow = true ↔ ∀ clientid topic, matchesTopic narrow topic clientid = true →
      matchesTopic wide topic clientid = true
  captures : ∀ role ∈ spec.roles, ∀ filter ∈ role.publish, ∀ clientid topic,
    matchesTopic filter topic clientid = true → ∀ other,
      ∃ wide ∈ captureTopics spec.roles, matchesTopic wide topic other = true

/-- The publish check takes the client for a device whose account is in force. -/
def MayPublish (broker : Broker) (account : Account) (clientid username : String)
    (now : Instant) : Prop :=
  isDevice broker ⟨"2", clientid, username, ""⟩ = true ∧ refusedDevice broker account now = none

/-- Every two publish filters of the clients clash, each with its client's id put in: they differ
at a level that is no wildcard of either and before any `#`, or in length. -/
def FiltersClash (broker : Broker) (a b : Account) (c u d v : String) (now : Instant) : Prop :=
  MayPublish broker a c u now → MayPublish broker b d v now →
    ∀ role, Holds broker a role now → ∀ filter ∈ role.publish, Spells filter c →
      ∀ role', Holds broker b role' now → ∀ other ∈ role'.publish, Spells other d →
        clash (pattern c filter) (pattern d other) = true

theorem publishCheck_iff {topic : String}
    (hbroker : (caller.bind fun identity => brokers.lookup (brokerOf identity)) = some broker)
    (haccount : accounts.resolve clientid = some account) :
    (publishCheck brokers accounts caller ⟨"2", clientid, username, topic⟩ now).1 = true ↔
      MayPublish broker account clientid username now ∧
        covered broker account clientid topic now = true := by
  unfold publishCheck MayPublish
  rw [hbroker, haccount]
  have hdevice : isDevice broker ⟨"2", clientid, username, topic⟩ =
    isDevice broker ⟨"2", clientid, username, ""⟩ := rfl
  simp only [hdevice]
  cases isDevice broker ⟨"2", clientid, username, ""⟩ with
  | false => simp
  | true =>
    cases refusedDevice broker account now with
    | some refusal => simp
    | none => cases covered broker account clientid topic now <;> simp

/-- Two clients of a broker whose roles do not share their topics are kept apart exactly where
their publish filters clash, each with its client's id put in. -/
theorem devicesIsolated_iff (hvalid : spec.validate = .ok ()) (hroles : broker.roles = spec.roles)
    (hbroker : (caller.bind fun identity => brokers.lookup (brokerOf identity)) = some broker)
    (ha : accounts.resolve c = some a) (hb : accounts.resolve d = some b)
    (hshared : ∀ role, Holds broker a role now → role.sharedTopics = false)
    (hshared' : ∀ role, Holds broker b role now → role.sharedTopics = false) :
    DevicesIsolated brokers accounts caller spec c u d v now ↔
      FiltersClash broker a b c u d v now := by
  have hadmitted : ∀ {account role}, Holds broker account role now → RoleAdmitted role :=
    fun hholds => roleAdmitted_of_validate hvalid _ (hroles ▸ (holds_iff.1 hholds).2.1)
  constructor
  · intro h hc hd role hrole filter hfilter hspells role' hrole' other hother hspells'
    by_contra hclash
    rw [Bool.not_eq_true] at hclash
    obtain ⟨hleft, hunder⟩ := (hadmitted hrole).publish filter hfilter
    obtain ⟨hright, -⟩ := (hadmitted hrole').publish other hother
    obtain ⟨topic, hmatch, hmatch'⟩ := exists_topic_of_not_clash hleft hright
      (hunder (hshared role hrole)) hspells hspells' hclash
    refine h.publishes topic ⟨(publishCheck_iff hbroker ha).2 ⟨hc, ?_⟩,
      (publishCheck_iff hbroker hb).2 ⟨hd, ?_⟩⟩
    · exact covered_iff.2 ⟨role, hrole, filter, hfilter, hmatch⟩
    · exact covered_iff.2 ⟨role', hrole', other, hother, hmatch'⟩
  · intro hclash
    refine ⟨fun topic hboth => ?_, fun role hrole filter hfilter clientid topic hmatch => ?_,
      fun role hrole narrow hnarrow wide => ?_,
      fun role hrole filter hfilter clientid topic hmatch other => ?_⟩
    · obtain ⟨hc, hcovered⟩ := (publishCheck_iff hbroker ha).1 hboth.1
      obtain ⟨hd, hcovered'⟩ := (publishCheck_iff hbroker hb).1 hboth.2
      obtain ⟨role, hrole, filter, hfilter, hmatch⟩ := covered_iff.1 hcovered
      obtain ⟨role', hrole', other, hother, hmatch'⟩ := covered_iff.1 hcovered'
      have hunder := ((hadmitted hrole).publish filter hfilter).2 (hshared role hrole)
      have hunder' := ((hadmitted hrole').publish other hother).2 (hshared' role' hrole')
      have := not_matchesTopic_of_clash (hclash hc hd role hrole filter hfilter
        (spells_of_matchesTopic hunder hmatch) role' hrole' other hother
        (spells_of_matchesTopic hunder' hmatch')) hmatch
      rw [hmatch'] at this
      cases this
    · exact mem_levels_of_underClientId
        ((roleAdmitted_of_validate hvalid role hrole).subscribe filter hfilter).2 hmatch
    · refine covers_iff ?_
      rcases List.mem_append.1 hnarrow with hnarrow | hnarrow
      · exact ((roleAdmitted_of_validate hvalid role hrole).publish narrow hnarrow).1
      · exact ((roleAdmitted_of_validate hvalid role hrole).subscribe narrow hnarrow).1
    · exact exists_captureTopics other hrole hfilter hmatch

end Clients

section Probe

open Auth

/-- A role under the client's id, and one that writes under the level of another account's id. -/
def probeSpec : MqttBrokerSpec where
  roles := [{ name := "own", publish := [clientId ++ "/#"] },
    { name := "probe", publish := ["p-a/" ++ clientId] }]

def probeBroker : Broker where
  name := "air"
  project := "p"
  roles := probeSpec.roles

def ownAccount : Account where
  name := "a"
  project := "p"
  roles := [{ role := "mqtt/air/own", project := some "p" }]

def probeAccount : Account where
  name := "b"
  project := "p"
  roles := [{ role := "mqtt/air/probe", project := some "p" }]

theorem devicesIsolated_probe :
    DevicesIsolated [("mqtt-p-air", probeBroker)]
        { byClientId := [("p-a", ownAccount), ("p-b", probeAccount)] } (some "mqtt-p-air.ns")
        probeSpec "p-a" "p-a" "p-b" "p-b" 0 ↔
      FiltersClash probeBroker ownAccount probeAccount "p-a" "p-a" "p-b" "p-b" 0 := by
  have hown : ∀ role ∈ (rolesOf probeBroker ownAccount 0).map Held.role,
      role.sharedTopics = false := by decide +kernel
  have hprobe : ∀ role ∈ (rolesOf probeBroker probeAccount 0).map Held.role,
      role.sharedTopics = false := by decide +kernel
  exact devicesIsolated_iff (by decide +kernel) rfl (by decide +kernel) rfl rfl hown hprobe

/-- Both clients publish the topic `p-a/p-b`: it is under the id of the one, and the other's filter
has that id as a level of its own. -/
theorem not_devicesIsolated :
    ¬ DevicesIsolated [("mqtt-p-air", probeBroker)]
      { byClientId := [("p-a", ownAccount), ("p-b", probeAccount)] } (some "mqtt-p-air.ns")
      probeSpec "p-a" "p-a" "p-b" "p-b" 0 := fun h =>
  h.publishes "p-a/p-b" ⟨by decide +kernel, by decide +kernel⟩

end Probe

end JoinedContext.Mqtt
