import JoinedContext.Jcctl.Lanes

/-!
# Changes of exposure

Which change sets are red, said of the declared and live manifests alone (`lane_red_iff_gated`),
and when a resource whose exposure an `apply` changes is among those a human sees
(`exposure_gated_iff`).
-/

namespace JoinedContext.Jcctl

/-- Whether the comparison of two specs reports a member whose name begins with a text. -/
def Reported (managed : Option (List String)) (declared live : Value) (text : String) : Prop :=
  match declared, live with
  | .obj ds, .obj ls => ∃ name, text.toList <+: name.toList ∧ Differs "spec" managed ds ls name
  | _, _ => False

/-- Whether the comparison of two specs reports a member as a whole. -/
def Replaced (managed : Option (List String)) (declared live : Value) (name : String) : Prop :=
  match declared, live with
  | .obj ds, .obj ls =>
    (∃ value, (name, value) ∈ ds ∧ compared "spec" managed name = true ∧
      ∀ liveValue, ls.lookup name = some liveValue →
        ¬ Nested value liveValue ∧ ¬ Met liveValue value) ∨
    name ∈ managed.getD [] ∧ ds.lookup name = none ∧ ls.lookup name ≠ none
  | _, _ => False

/-- A text that can only be the beginning of a member's name. -/
def Plain (text : String) : Prop := '.' ∉ text.toList ∧ '[' ∉ text.toList

section Paths

variable {text name path : String} {managed : Option (List String)} {declared live : Value}

theorem prefix_of_under (htext : Plain text) (h : Under (member "spec" name) path) :
    (member "spec" text).toList <+: path.toList ↔ text.toList <+: name.toList := by
  obtain ⟨rest, hpath, hrest⟩ := h
  have hcancel : (member "spec" text).toList <+: path.toList ↔
      text.toList <+: name.toList ++ rest := by
    rw [hpath]
    simp [member]
  rw [hcancel]
  refine ⟨fun h => ?_, fun h => h.trans (List.prefix_append _ _)⟩
  rcases hrest with rfl | ⟨r, hr⟩
  · simpa using h
  · rcases le_or_gt text.toList.length name.toList.length with hle | hlt
    · exact List.prefix_of_prefix_length_le h (List.prefix_append _ _) hle
    · have hname : name.toList <+: text.toList :=
        List.prefix_of_prefix_length_le (List.prefix_append _ _) h hlt.le
      obtain ⟨tail, htail⟩ := hname
      obtain ⟨c, tail, rfl⟩ : ∃ c t, tail = c :: t := by
        rcases tail with _ | ⟨c, t⟩
        · simp [← htail] at hlt
        · exact ⟨c, t, rfl⟩
      rw [← htail, List.prefix_append_right_inj] at h
      have hc : c ∈ text.toList := htail ▸ by simp
      rcases hr with rfl | rfl
      · exact absurd ((List.cons_prefix_cons.1 h).1 ▸ hc) htext.1
      · exact absurd ((List.cons_prefix_cons.1 h).1 ▸ hc) htext.2

theorem name_eq_of_under (htext : Plain text) (h : Under (member "spec" name) (member "spec" text)) :
    name = text := by
  have hbegins := (prefix_of_under htext h).1 (List.prefix_refl _)
  obtain ⟨rest, hpath, -⟩ := h
  have hlist : text.toList = name.toList ++ rest := by simpa [member] using hpath
  have hlen := hbegins.length_le
  rw [hlist, List.length_append] at hlen
  obtain rfl : rest = [] := List.length_eq_zero_iff.1 (by omega)
  exact String.toList_injective (by simpa using hlist.symm)

theorem not_under_metadata (h : Under (member "metadata" name) path) :
    ¬ (member "spec" text).toList <+: path.toList := by
  obtain ⟨rest, hpath, -⟩ := h
  rw [hpath]
  simp [member]

/-- Specs that are not both objects are reported at `spec` itself or at its elements. -/
theorem not_prefix_of_mem {d : FieldDiff} (hd : d ∈ diffValue "spec" managed live declared)
    (h : ∀ ds ls, ¬ (declared = .obj ds ∧ live = .obj ls)) :
    ¬ (member "spec" text).toList <+: d.path.toList := by
  have hself : ¬ (member "spec" text).toList <+: ("spec" : String).toList := by
    intro hbegins
    have hlen : (member "spec" text).toList.length ≤ 4 := hbegins.length_le
    simp only [member, String.toList_append, List.length_append] at hlen
    have : ("spec" : String).toList.length = 4 := rfl
    have : ("." : String).toList.length = 1 := rfl
    omega
  cases declared with
  | obj ds =>
    cases live with
    | obj ls => exact absurd ⟨rfl, rfl⟩ (h ds ls)
    | _ =>
      obtain rfl := List.mem_singleton.1 hd
      exact hself
  | arr ds =>
    cases live with
    | arr ls =>
      simp only [diffValue] at hd
      split at hd
      · obtain ⟨key, rest, hpath, -⟩ := under_of_mem_diffKeyed _ ds hd
        rw [hpath]
        simp [member, element]
      · split_ifs at hd
        · simp at hd
        · obtain rfl := List.mem_singleton.1 hd
          exact hself
    | _ =>
      obtain rfl := List.mem_singleton.1 hd
      exact hself
  | _ =>
    simp only [diffValue] at hd
    split_ifs at hd
    · simp at hd
    · obtain rfl := List.mem_singleton.1 hd
      exact hself

end Paths

section Lane

variable {text name : String} {id : ResourceId} {d l : RawManifest} {live : Option RawManifest}

theorem moved_iff {change : ResourceChange} : moved change (member "spec" text) = true ↔
    ∃ f ∈ change.diff, (member "spec" text).toList <+: f.path.toList := by
  unfold moved
  rw [List.any_eq_true]
  refine exists_congr fun f => and_congr_right fun _ => ?_
  rw [Option.isSome_iff_exists]
  constructor
  · rintro ⟨r, hr⟩
    exact ⟨r.toList, (Text.stripPrefix_eq_some.1 hr).symm⟩
  · rintro ⟨r, hr⟩
    exact ⟨String.ofList r, Text.stripPrefix_eq_some.2 (by rw [String.toList_ofList, hr])⟩

/-- A difference reported below a name of the spec is one of two specs that are objects. -/
theorem mem_diffObject_of_prefix {f : FieldDiff} (hf : f ∈ diff d l)
    (hbegins : (member "spec" text).toList <+: f.path.toList) : ∃ ds ls, d.spec = .obj ds ∧
      l.spec = .obj ls ∧ f ∈ diffObject "spec" (managedAttributes d) ds ls := by
  rcases List.mem_append.1 hf with hf | hf
  · obtain ⟨name, -, hunder⟩ := differs_of_mem hf
    exact absurd hbegins (not_under_metadata hunder)
  · by_cases hobj : ∃ ds ls, d.spec = .obj ds ∧ l.spec = .obj ls
    · obtain ⟨ds, ls, hds, hls⟩ := hobj
      rw [hds, hls, diffValue_obj] at hf
      exact ⟨ds, ls, hds, hls, hf⟩
    · exact absurd hbegins (not_prefix_of_mem hf fun ds ls h => hobj ⟨ds, ls, h⟩)

theorem exists_path_iff (htext : Plain text) :
    (∃ f ∈ diff d l, (member "spec" text).toList <+: f.path.toList) ↔
      Reported (managedAttributes d) d.spec l.spec text := by
  constructor
  · rintro ⟨f, hf, hbegins⟩
    obtain ⟨ds, ls, hds, hls, hf⟩ := mem_diffObject_of_prefix hf hbegins
    rw [hds, hls]
    obtain ⟨name, hdiffers, hunder⟩ := differs_of_mem hf
    exact ⟨name, (prefix_of_under htext hunder).1 hbegins, hdiffers⟩
  · intro h
    unfold Reported at h
    split at h
    · rename_i ds ls hds hls
      obtain ⟨name, hbegins, hdiffers⟩ := h
      obtain ⟨f, hf, hunder⟩ := mem_of_differs hdiffers
      refine ⟨f, List.mem_append_right _ ?_, (prefix_of_under htext hunder).2 hbegins⟩
      rw [hds, hls, diffValue_obj]
      exact hf
    · exact h.elim

theorem exists_exact_iff (hname : Plain name) :
    (∃ f ∈ diff d l, f.path = member "spec" name) ↔
      Replaced (managedAttributes d) d.spec l.spec name := by
  constructor
  · rintro ⟨f, hf, hpath⟩
    have hbegins : (member "spec" name).toList <+: f.path.toList := hpath ▸ List.prefix_refl _
    obtain ⟨ds, ls, hds, hls, hf⟩ := mem_diffObject_of_prefix hf hbegins
    rw [hds, hls]
    rcases mem_diffObject.1 hf with hf | hf
    · obtain ⟨⟨n, value⟩, hmem, hcompared, hd⟩ := mem_diffMembers.1 hf
      have hunder : Under (member "spec" n) f.path := by
        split at hd
        · exact under_of_mem_diffValue _ value hd
        · exact hd ▸ under_self _
      obtain rfl := name_eq_of_under hname (hpath ▸ hunder)
      refine Or.inl ⟨value, hmem, hcompared, fun liveValue hlive => ?_⟩
      rw [hlive] at hd
      refine ⟨fun hnested => ne_path_of_nested hnested hd hpath, fun hmet => ?_⟩
      simp [(diffValue_eq_nil_iff (below_member "spec" n) liveValue value).2 hmet] at hd
    · obtain ⟨n, hmem, hdeclared, liveValue, hlive, rfl⟩ := mem_diffDropped.1 hf
      obtain rfl := name_eq_of_under hname (hpath ▸ under_self _ : Under (member "spec" n) _)
      exact Or.inr ⟨hmem, hdeclared, by simp [hlive]⟩
  · intro h
    unfold Replaced at h
    split at h
    · rename_i ds ls hds hls
      have hspec : ∀ f, f ∈ diffObject "spec" (managedAttributes d) ds ls → f ∈ diff d l :=
        fun f hf => List.mem_append_right _ (by rw [hds, hls, diffValue_obj]; exact hf)
      rcases h with ⟨value, hmem, hcompared, hwhole⟩ | ⟨hmem, hdeclared, hlive⟩
      · rcases hlive : ls.lookup name with _ | liveValue
        · exact ⟨_, hspec _ (mem_diffObject.2 (Or.inl
            (mem_diffMembers.2 ⟨(name, value), hmem, hcompared, by rw [hlive]⟩))), rfl⟩
        · obtain ⟨hnested, hmet⟩ := hwhole liveValue hlive
          obtain ⟨f, hf⟩ := List.exists_mem_of_ne_nil _ fun hnil =>
            hmet ((diffValue_eq_nil_iff (below_member "spec" name) liveValue value).1 hnil)
          exact ⟨f, hspec f (mem_diffObject.2 (Or.inl
            (mem_diffMembers.2 ⟨(name, value), hmem, hcompared, by rw [hlive]; exact hf⟩))),
            path_of_whole hnested hf⟩
      · obtain ⟨liveValue, hlive⟩ := Option.ne_none_iff_exists'.1 hlive
        exact ⟨_, hspec _ (mem_diffObject.2 (Or.inr
          (mem_diffDropped.2 ⟨name, hmem, hdeclared, liveValue, hlive, rfl⟩))), rfl⟩
    · exact h.elim

/-- What a spec exposes by itself, whatever it was before. -/
def Exposes (kind : String) (spec : Value) : Prop :=
  (kind = "Endpoint" ∨ kind = "McpServer") ∧ spec.get "audience" = some (.str "public") ∨
  kind = "App" ∧ (spec.get "visibility" = some (.str "public") ∨
    ∃ e es, spec.get "egress" = some (.arr (e :: es))) ∨
  kind = "AssistantDeployment" ∧
    (∃ channel, spec.get "channel" = some (.str channel) ∧ channel ≠ "internal") ∨
  (kind = "Dashboard" ∨ kind = "KnowledgeSource") ∧ spec.get "visibility" = some (.str "public")

/-- What a kind's own rule sees of an update. -/
def Watched (kind : String) (managed : Option (List String)) (declared live : Value) : Prop :=
  kind = "Endpoint" ∧ Replaced managed declared live "audience" ∨
  kind = "McpServer" ∧ Reported managed declared live "audience" ∨
  kind = "App" ∧
    (Reported managed declared live "visibility" ∨ Reported managed declared live "egress") ∨
  kind = "AssistantDeployment" ∧ Reported managed declared live "channel" ∨
  (kind = "Dashboard" ∨ kind = "KnowledgeSource") ∧
    live.get "visibility" = some (.str "public") ∨
  kind = "AgentProfile" ∧
    (Reported managed declared live "egress" ∨ Reported managed declared live "limits")

theorem asStr_eq_some {v : Option Value} {s : String} :
    v.bind Value.asStr = some s ↔ v = some (.str s) := by
  rcases v with _ | v
  · simp
  · cases v <;> simp [Value.asStr]

theorem any_asArray {v : Option Value} :
    (v.bind Value.asArray).any (fun items => !items.isEmpty) = true ↔
      ∃ e es, v = some (.arr (e :: es)) := by
  rcases v with _ | v
  · simp
  · cases v with
    | arr items => cases items <;> simp [Value.asArray]
    | _ => simp [Value.asArray]

theorem any_asStr {v : Option Value} {s : String} :
    (v.bind Value.asStr).any (fun t => t != s) = true ↔ ∃ t, v = some (.str t) ∧ t ≠ s := by
  rcases v with _ | v
  · simp
  · cases v <;> simp [Value.asStr]

/-- What the rules of the kinds see of a change besides the declared spec. -/
def Seen (c : ResourceChange) : Prop :=
  c.id.kind = "Endpoint" ∧ (∃ f ∈ c.diff, f.path = "spec.audience") ∨
  c.id.kind = "McpServer" ∧ moved c "spec.audience" = true ∨
  c.id.kind = "App" ∧ (moved c "spec.visibility" = true ∨ moved c "spec.egress" = true) ∨
  c.id.kind = "AssistantDeployment" ∧ moved c "spec.channel" = true ∨
  (c.id.kind = "Dashboard" ∨ c.id.kind = "KnowledgeSource") ∧
    specOf c.live "visibility" = some (.str "public") ∨
  c.id.kind = "AgentProfile" ∧ c.action = .update ∧
    (moved c "spec.egress" = true ∨ moved c "spec.limits" = true)

/-- Kinds whose every change is red. -/
def Sensitive (kind : String) : Prop := kind = "Environment" ∨ kind ∈ ALWAYS_RED

theorem publicExposure_isSome_iff {c : ResourceChange} (hdeclared : c.declared = some d)
    (hendpoint : c.id.kind ≠ "Endpoint") (hprofile : c.id.kind ≠ "AgentProfile") :
    (publicExposure c).isSome = true ↔ Exposes c.id.kind d.spec ∨ Seen c := by
  have hspec : specOf c.declared = d.spec.get := by
    funext key
    rw [hdeclared]
    rfl
  have hget : ∀ key : String, d.spec.get key = specOf (some d) key := fun _ => rfl
  obtain ⟨⟨group, kind, ns, name⟩, action, fields, declared, live⟩ := c
  unfold publicExposure Exposes Seen
  simp only at hspec hendpoint hprofile ⊢
  by_cases hApp : kind = "App"
  · subst hApp
    simp [hspec, asStr_eq_some, any_asArray, or_assoc]
  by_cases hMcp : kind = "McpServer"
  · subst hMcp
    simp [hspec, asStr_eq_some]
  by_cases hAssistant : kind = "AssistantDeployment"
  · subst hAssistant
    simp [hspec, any_asStr]
  by_cases hboard : kind = "Dashboard" ∨ kind = "KnowledgeSource"
  · rcases hboard with rfl | rfl
    · simp [hspec, asStr_eq_some]
    · simp [hspec, asStr_eq_some]
  · simp [hApp, hMcp, hAssistant, hboard, hendpoint, hprofile]

/-- The changes of a declared resource that are red. -/
theorem laneOf_red_iff {c : ResourceChange} (hdeclared : c.declared = some d)
    (hunchanged : c.action ≠ .unchanged) (hdelete : c.action ≠ .delete) :
    (laneOf c).lane = .red ↔ Sensitive c.id.kind ∨ Exposes c.id.kind d.spec ∨ Seen c := by
  unfold laneOf Sensitive
  rw [if_neg hunchanged, if_neg hdelete]
  by_cases henv : c.id.kind = "Environment"
  · simp [henv]
  by_cases halways : c.id.kind ∈ ALWAYS_RED
  · rw [if_neg henv, if_pos (by simpa using halways)]
    simp [halways]
  rw [if_neg henv, if_neg (by simpa using halways)]
  simp only [henv, halways, false_or]
  by_cases hendpoint : c.id.kind = "Endpoint"
  · have htouches : touchesPublicAudience c = true ↔ Exposes c.id.kind d.spec ∨ Seen c := by
      unfold touchesPublicAudience Exposes Seen
      rw [hendpoint, hdeclared]
      simp [asStr_eq_some, specOf]
    by_cases ht : touchesPublicAudience c = true
    · rw [if_pos ⟨hendpoint, ht⟩]
      exact ⟨fun _ => htouches.1 ht, fun _ => rfl⟩
    · rw [← htouches, if_neg fun h => ht h.2]
      have hexposure : publicExposure c = none := by
        unfold publicExposure
        simp [hendpoint]
      have hgreen : greenReason c = none := by
        unfold greenReason
        simp [hendpoint]
      simp [hexposure, hendpoint, hgreen, ht]
  · rw [if_neg fun h => hendpoint h.1]
    by_cases hprofile : c.id.kind = "AgentProfile"
    · have hexposure : publicExposure c = none := by
        unfold publicExposure
        simp [hprofile]
      rw [hexposure]
      simp only [hprofile, if_true]
      unfold laneOfAgentProfile Exposes Seen
      rw [hprofile]
      split_ifs with h
      · simpa using h
      · simpa using h
    · rw [← publicExposure_isSome_iff hdeclared hendpoint hprofile]
      rcases publicExposure c with _ | reason
      · rw [if_neg hprofile]
        rcases greenReason c with _ | green <;> simp
      · simp

/-- Whether `apply` writes a declared resource, given what lives under its identity. -/
def Written (d : RawManifest) (live : Option RawManifest) : Prop :=
  ∀ l, live = some l → ¬ Satisfied d l

theorem action_changeOf : (changeOf id d live).action ≠ .unchanged ↔ Written d live := by
  unfold Written
  rcases live with _ | l
  · simp [changeOf]
  · simp only [changeOf, Option.some.injEq, forall_eq', ← diff_eq_nil_iff]
    split_ifs with h
    · simpa using List.isEmpty_iff.1 h
    · simpa using fun hnil => h (List.isEmpty_iff.2 hnil)

theorem action_changeOf_ne_delete : (changeOf id d live).action ≠ .delete := by
  rcases live with _ | l
  · simp [changeOf]
  · simp only [changeOf]
    split_ifs <;> simp

@[simp] theorem id_changeOf : (changeOf id d live).id = id := by
  cases live <;> rfl

@[simp] theorem declared_changeOf : (changeOf id d live).declared = some d := by
  cases live <;> rfl

theorem seen_changeOf (hwritten : Written d live) : Seen (changeOf id d live) ↔
    ∃ l, live = some l ∧ Watched id.kind (managedAttributes d) d.spec l.spec := by
  rcases live with _ | l
  · simp [Seen, changeOf, moved, specOf]
  have hact : (changeOf id d (some l)).action = .update := by
    have hne : (changeOf id d (some l)).action ≠ .unchanged := action_changeOf.2 hwritten
    simp only [changeOf] at hne ⊢
    split_ifs at hne ⊢
    · exact absurd rfl hne
    · rfl
  have hmoved : ∀ text : String, Plain text →
      (moved (changeOf id d (some l)) (member "spec" text) = true ↔
        Reported (managedAttributes d) d.spec l.spec text) := fun text htext =>
    moved_iff.trans (exists_path_iff htext)
  have hexact : (∃ f ∈ (changeOf id d (some l)).diff, f.path = "spec.audience") ↔
      Replaced (managedAttributes d) d.spec l.spec "audience" := by
    rw [show ("spec.audience" : String) = member "spec" "audience" by decide]
    exact exists_exact_iff (by simp [Plain])
  have hlive : specOf (changeOf id d (some l)).live = l.spec.get := rfl
  unfold Seen Watched
  rw [id_changeOf, hexact, hlive, hact,
    show ("spec.audience" : String) = member "spec" "audience" by decide,
    show ("spec.visibility" : String) = member "spec" "visibility" by decide,
    show ("spec.egress" : String) = member "spec" "egress" by decide,
    show ("spec.channel" : String) = member "spec" "channel" by decide,
    show ("spec.limits" : String) = member "spec" "limits" by decide,
    hmoved "audience" (by simp [Plain]), hmoved "visibility" (by simp [Plain]),
    hmoved "egress" (by simp [Plain]), hmoved "channel" (by simp [Plain]),
    hmoved "limits" (by simp [Plain])]
  simp

/-- A change of a declared resource is red where it is written and its kind is sensitive, it
exposes what it declares, or its kind's rule sees what moved. -/
def RedResource (kind : String) (d : RawManifest) (live : Option RawManifest) : Prop :=
  Written d live ∧ (Sensitive kind ∨ Exposes kind d.spec ∨
    ∃ l, live = some l ∧ Watched kind (managedAttributes d) d.spec l.spec)

theorem laneOf_changeOf_red_iff :
    (laneOf (changeOf id d live)).lane = .red ↔ RedResource id.kind d live := by
  unfold RedResource
  by_cases hwritten : Written d live
  · rw [laneOf_red_iff declared_changeOf (action_changeOf.2 hwritten) action_changeOf_ne_delete,
      id_changeOf, seen_changeOf hwritten]
    exact (and_iff_right hwritten).symm
  · have hunchanged : (changeOf id d live).action = .unchanged :=
      not_not.1 fun hne => hwritten (action_changeOf.1 hne)
    simp [laneOf, hunchanged, hwritten]

@[simp] theorem laneOf_deletion (c : ResourceId × RawManifest) :
    (laneOf (deletion c)).lane = .red := by
  simp [laneOf, deletion]

end Lane

section Changes

variable {desired live : SortedMap ResourceId RawManifest} {id : ResourceId}

/-- Whether `apply` would change what lives under an identity. -/
def Touched (desired live : SortedMap ResourceId RawManifest) (id : ResourceId) : Prop :=
  reconciled id = true ∧
    ((∃ d, desired.get? id = some d ∧ Written d (live.get? id)) ∨
      desired.get? id = none ∧ ∃ l, live.get? id = some l)

/-- What brings a change set before a human: a deletion, a resource red by itself, or two
namespaces touched. -/
def Gated (desired live : SortedMap ResourceId RawManifest) : Prop :=
  (∃ id, reconciled id = true ∧ desired.get? id = none ∧ (live.get? id).isSome) ∨
  (∃ id d, reconciled id = true ∧ desired.get? id = some d ∧
    RedResource id.kind d (live.get? id)) ∨
  ∃ id id', Touched desired live id ∧ Touched desired live id' ∧ id.namespace ≠ id'.namespace

theorem touched_iff : Touched desired live id ↔
    ∃ c ∈ (changesOf desired live).iter, c.action ≠ .unchanged ∧ c.id = id := by
  constructor
  · rintro ⟨hrec, ⟨d, hd, hwritten⟩ | ⟨hnone, l, hl⟩⟩
    · refine ⟨changeOf id d (live.get? id), mem_changesOf.2 ?_, action_changeOf.2 hwritten,
        id_changeOf⟩
      rw [id_changeOf]
      exact ⟨hrec, Or.inl ⟨d, hd, rfl⟩⟩
    · exact ⟨deletion (id, l), mem_changesOf.2 ⟨hrec, Or.inr ⟨hnone, l, hl, rfl⟩⟩, by
        simp [deletion], rfl⟩
  · rintro ⟨c, hc, hact, rfl⟩
    obtain ⟨hrec, ⟨d, hd, heq⟩ | ⟨hnone, l, hl, -⟩⟩ := mem_changesOf.1 hc
    · exact ⟨hrec, Or.inl ⟨d, hd, action_changeOf.1 (heq ▸ hact)⟩⟩
    · exact ⟨hrec, Or.inr ⟨hnone, l, hl⟩⟩

/-- The lane of a computed change set, read off the manifests. -/
theorem lane_red_iff_gated :
    (laneOfChangeset (changesOf desired live)).lane = .red ↔ Gated desired live := by
  have hsome : (∃ c ∈ (changesOf desired live).iter, (laneOf c).lane = .red) ↔
      (∃ id, reconciled id = true ∧ desired.get? id = none ∧ (live.get? id).isSome) ∨
      ∃ id d, reconciled id = true ∧ desired.get? id = some d ∧
        RedResource id.kind d (live.get? id) := by
    constructor
    · rintro ⟨c, hc, hred⟩
      obtain ⟨hrec, ⟨d, hd, heq⟩ | ⟨hnone, l, hl, -⟩⟩ := mem_changesOf.1 hc
      · rw [heq, laneOf_changeOf_red_iff] at hred
        exact Or.inr ⟨c.id, d, hrec, hd, hred⟩
      · exact Or.inl ⟨c.id, hrec, hnone, by simp [hl]⟩
    · rintro (⟨id, hrec, hnone, hl⟩ | ⟨id, d, hrec, hd, hred⟩)
      · obtain ⟨l, hl⟩ := Option.isSome_iff_exists.1 hl
        exact ⟨deletion (id, l), mem_changesOf.2 ⟨hrec, Or.inr ⟨hnone, l, hl, rfl⟩⟩,
          laneOf_deletion _⟩
      · refine ⟨changeOf id d (live.get? id), mem_changesOf.2 ?_, laneOf_changeOf_red_iff.2 hred⟩
        rw [id_changeOf]
        exact ⟨hrec, Or.inl ⟨d, hd, rfl⟩⟩
  have htwo : (∃ c ∈ (changesOf desired live).iter, ∃ c' ∈ (changesOf desired live).iter,
      c.action ≠ .unchanged ∧ c'.action ≠ .unchanged ∧ c.id.namespace ≠ c'.id.namespace) ↔
      ∃ id id', Touched desired live id ∧ Touched desired live id' ∧
        id.namespace ≠ id'.namespace := by
    constructor
    · rintro ⟨c, hc, c', hc', hact, hact', hne⟩
      exact ⟨c.id, c'.id, touched_iff.2 ⟨c, hc, hact, rfl⟩, touched_iff.2 ⟨c', hc', hact', rfl⟩,
        hne⟩
    · rintro ⟨id, id', h, h', hne⟩
      obtain ⟨c, hc, hact, rfl⟩ := touched_iff.1 h
      obtain ⟨c', hc', hact', rfl⟩ := touched_iff.1 h'
      exact ⟨c, hc, c', hc', hact, hact', hne⟩
  rw [laneOfChangeset_red_iff, hsome, htwo, or_assoc]
  rfl

/-- The members of a spec that say who reaches a resource of a kind, and what it reaches. -/
def exposureMembers (kind : String) : List String :=
  if kind = "Endpoint" ∨ kind = "McpServer" then ["audience"]
  else if kind = "App" then ["visibility", "egress"]
  else if kind = "AssistantDeployment" then ["channel"]
  else if kind = "Dashboard" ∨ kind = "KnowledgeSource" then ["visibility"]
  else if kind = "AgentProfile" then ["egress", "limits"]
  else []

/-- Whether an `apply` writes a live resource with another exposure than it has. -/
def ExposureChanged (desired live : SortedMap ResourceId RawManifest) (id : ResourceId) : Prop :=
  reconciled id = true ∧ ∃ d l, desired.get? id = some d ∧ live.get? id = some l ∧
    ¬ Satisfied d l ∧ ∃ key ∈ exposureMembers id.kind, d.spec.get key ≠ l.spec.get key

end Changes

section Gate

variable {codec : Codec} {repo : Repository} {live : SortedMap ResourceId RawManifest}
  {list : String → String → Except PlatformError (List RawManifest)} {changes : ChangeSet}

theorem compute_eq (hlive : liveOf list repo = .ok live) :
    compute codec repo list = .ok (changesOf (desired codec repo) live) := by
  unfold compute
  rw [hlive]

/-- A change of exposure is red and waits for a human exactly where the set is gated: by the change
itself if the kind's rule sees it, or by something else the set does. -/
theorem exposure_gated_iff (hlive : liveOf list repo = .ok live)
    (hchanges : compute codec repo list = .ok changes) :
    (∀ id, ExposureChanged (desired codec repo) live id →
      (laneOfChangeset changes).lane = .red ∧
        phaseOf (laneOfChangeset changes) = "PendingApproval") ↔
    ∀ id, ExposureChanged (desired codec repo) live id → Gated (desired codec repo) live := by
  rw [compute_eq hlive] at hchanges
  cases hchanges
  have hphase : (laneOfChangeset (changesOf (desired codec repo) live)).lane = .red →
      phaseOf (laneOfChangeset (changesOf (desired codec repo) live)) = "PendingApproval" := by
    intro hred
    simp [phaseOf, hred]
  refine forall_congr' fun id => imp_congr_right fun _ => ?_
  rw [← lane_red_iff_gated]
  exact ⟨And.left, fun hred => ⟨hred, hphase hred⟩⟩

end Gate

section Samples

/-- An Endpoint of project `p` that claims the attributes an annotation names. -/
def sampleEndpoint (managed audience title : String) : RawManifest where
  apiVersion := API_VERSION
  kind := "Endpoint"
  metadata := {
    name := "air"
    «namespace» := some "p"
    rest := [("annotations", .obj [(MANAGED_ATTRIBUTES, .str managed)])] }
  spec := .obj [("audience", .str audience), ("title", .str title)]
  status := none
  rest_wellFormed := by simp [Value.wellFormed, Value.wellFormedMembers]
  spec_wellFormed := by
    have hkeys : ("audience" : String) < "title" := by decide
    simpa [Value.wellFormed, Value.wellFormedMembers] using hkeys

def sampleCodec : Codec := ⟨fun _ => none, id⟩

def sampleRepository (manifest : RawManifest) : Repository :=
  Repository.empty.add "projects/p/endpoints/air.yaml" manifest

def sampleList (manifest : RawManifest) :
    String → String → Except PlatformError (List RawManifest) :=
  InMemory.list (SortedMap.empty.insert (ResourceId.fromManifest manifest) manifest)

theorem exposure_gated_audience : ∃ live changes,
    liveOf (sampleList (sampleEndpoint "" "organization" "Air"))
      (sampleRepository (sampleEndpoint "" "public" "Air")) = .ok live ∧
    compute sampleCodec (sampleRepository (sampleEndpoint "" "public" "Air"))
      (sampleList (sampleEndpoint "" "organization" "Air")) = .ok changes ∧
    ((∀ id, ExposureChanged
        (desired sampleCodec (sampleRepository (sampleEndpoint "" "public" "Air"))) live id →
      (laneOfChangeset changes).lane = .red ∧
        phaseOf (laneOfChangeset changes) = "PendingApproval") ↔
    ∀ id, ExposureChanged
        (desired sampleCodec (sampleRepository (sampleEndpoint "" "public" "Air"))) live id →
      Gated (desired sampleCodec (sampleRepository (sampleEndpoint "" "public" "Air"))) live) := by
  have hsome : (liveOf (sampleList (sampleEndpoint "" "organization" "Air"))
      (sampleRepository (sampleEndpoint "" "public" "Air"))).toOption.isSome = true := by
    decide +kernel
  rcases hlive : liveOf (sampleList (sampleEndpoint "" "organization" "Air"))
      (sampleRepository (sampleEndpoint "" "public" "Air")) with e | live
  · simp [hlive, Except.toOption] at hsome
  · exact ⟨live, _, rfl, compute_eq hlive, exposure_gated_iff hlive (compute_eq hlive)⟩

/-- An Endpoint that claims only its title, opened to the public before and withdrawn now: its
audience is not compared, and the change of the title that takes it along is yellow. -/
theorem claimed_title_withdraws : ∃ live changes,
    liveOf (sampleList (sampleEndpoint "" "public" "Air"))
      (sampleRepository (sampleEndpoint "title" "organization" "Air quality")) = .ok live ∧
    compute sampleCodec (sampleRepository (sampleEndpoint "title" "organization" "Air quality"))
      (sampleList (sampleEndpoint "" "public" "Air")) = .ok changes ∧
    (∃ id, ExposureChanged (desired sampleCodec
      (sampleRepository (sampleEndpoint "title" "organization" "Air quality"))) live id) ∧
    (laneOfChangeset changes).lane = .yellow := by
  let id := ResourceId.fromManifest (sampleEndpoint "" "" "")
  let d := sampleEndpoint "title" "organization" "Air quality"
  have hread : ((liveOf (sampleList (sampleEndpoint "" "public" "Air"))
      (sampleRepository d)).toOption.bind fun live => (live.get? id).map fun l =>
        (l.spec.get "audience", (diff d l).isEmpty)) = some (some (.str "public"), false) := by
    decide +kernel
  have hlane : (compute sampleCodec (sampleRepository d)
      (sampleList (sampleEndpoint "" "public" "Air"))).toOption.map
        (fun c => (laneOfChangeset c).lane) = some .yellow := by decide +kernel
  rcases hlive : liveOf (sampleList (sampleEndpoint "" "public" "Air")) (sampleRepository d)
    with e | live
  · simp [hlive, Except.toOption] at hread
  · rw [compute_eq hlive] at hlane
    simp only [hlive, Except.toOption, Option.bind_some, Option.map_eq_some_iff] at hread
    obtain ⟨l, hl, hpair⟩ := hread
    obtain ⟨haudience, hdiff⟩ := Prod.mk.injEq _ _ _ _ ▸ hpair
    refine ⟨live, _, rfl, compute_eq hlive, ⟨id, by decide +kernel, d, l, rfl, hl, ?_, "audience",
      by simp [exposureMembers, id, ResourceId.fromManifest, sampleEndpoint], ?_⟩, by
        simpa [Except.toOption] using hlane⟩
    · rw [← diff_eq_nil_iff]
      exact fun hnil => by simp [hnil] at hdiff
    · rw [haudience]
      decide +kernel

end Samples

end JoinedContext.Jcctl
