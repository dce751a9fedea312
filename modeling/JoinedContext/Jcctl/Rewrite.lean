import JoinedContext.Jcctl.Tree

/-!
# Rewriting a manifest

What an import and a synchronisation change of a manifest: its annotations, its legacy language
maps, the namespaces its references name and the organization of its entity ids. Each keeps a value
well formed, so that what is rewritten is a manifest again.
-/

namespace JoinedContext

namespace Value

mutual

/-- A value with every string of it replaced. -/
def mapStrings (f : String → String) : Value → Value
  | .str s => .str (f s)
  | .arr items => .arr (mapStringsItems f items)
  | .obj members => .obj (mapStringsMembers f members)
  | v => v

def mapStringsItems (f : String → String) : List Value → List Value
  | [] => []
  | v :: items => mapStrings f v :: mapStringsItems f items

def mapStringsMembers (f : String → String) : List (String × Value) → List (String × Value)
  | [] => []
  | (k, v) :: members => (k, mapStrings f v) :: mapStringsMembers f members

end

theorem keys_mapStringsMembers (f : String → String) (members : List (String × Value)) :
    (mapStringsMembers f members).map Prod.fst = members.map Prod.fst := by
  induction members with
  | nil => rw [mapStringsMembers]
  | cons c members ih => rw [mapStringsMembers, List.map_cons, List.map_cons, ih]

mutual

theorem wellFormed_mapStrings (f : String → String) : ∀ v : Value, v.wellFormed = true →
    (mapStrings f v).wellFormed = true
  | .arr items, h => by
    simp only [mapStrings, wellFormed] at h ⊢
    exact wellFormed_mapStringsItems f items h
  | .obj members, h => by
    simp only [mapStrings, wellFormed, Bool.and_eq_true, keys_mapStringsMembers] at h ⊢
    exact ⟨h.1, wellFormed_mapStringsMembers f members h.2⟩
  | .str s, _ => by simp [mapStrings, wellFormed]
  | .null, _ => by simp [mapStrings, wellFormed]
  | .bool b, _ => by simp [mapStrings, wellFormed]
  | .num m e, _ => by simp [mapStrings, wellFormed]

theorem wellFormed_mapStringsItems (f : String → String) : ∀ items : List Value,
    wellFormedItems items = true → wellFormedItems (mapStringsItems f items) = true
  | [], _ => by simp [mapStringsItems, wellFormedItems]
  | v :: items, h => by
    simp only [mapStringsItems, wellFormedItems, Bool.and_eq_true] at h ⊢
    exact ⟨wellFormed_mapStrings f v h.1, wellFormed_mapStringsItems f items h.2⟩

theorem wellFormed_mapStringsMembers (f : String → String) : ∀ members : List (String × Value),
    wellFormedMembers members = true → wellFormedMembers (mapStringsMembers f members) = true
  | [], _ => by simp [mapStringsMembers, wellFormedMembers]
  | (k, v) :: members, h => by
    simp only [mapStringsMembers, wellFormedMembers, Bool.and_eq_true] at h ⊢
    exact ⟨wellFormed_mapStrings f v h.1, wellFormed_mapStringsMembers f members h.2⟩

end

variable {members : List (String × Value)} {key : String} {v : Value}

theorem wellFormed_insertEntry (h : (Value.obj members).wellFormed = true)
    (hv : v.wellFormed = true) :
    (Value.obj (SortedMap.insertEntry key v members)).wellFormed = true := by
  simp only [wellFormed, Bool.and_eq_true, decide_eq_true_eq, List.pairwise_map] at h ⊢
  refine ⟨SortedMap.sorted_insertEntry h.1, wellFormedMembers_of_forall fun c hc => ?_⟩
  rcases SortedMap.mem_insertEntry hc with rfl | hc
  · exact hv
  · exact wellFormed_of_mem_members h.2 hc

theorem wellFormed_without (h : (Value.obj members).wellFormed = true) :
    (Value.obj (Assoc.without key members)).wellFormed = true := by
  simp only [wellFormed, Bool.and_eq_true, decide_eq_true_eq, List.pairwise_map] at h ⊢
  exact ⟨h.1.filter _, wellFormedMembers_of_forall fun c hc =>
    wellFormed_of_mem_members h.2 (List.mem_of_mem_filter hc)⟩

theorem wellFormed_of_lookup (h : (Value.obj members).wellFormed = true)
    (hlookup : members.lookup key = some v) : v.wellFormed = true := by
  simp only [wellFormed, Bool.and_eq_true] at h
  exact wellFormed_of_mem_members h.2 (Assoc.mem_of_lookup hlookup)

end Value

namespace Jcctl

def IMPORTED_FROM : String := "joinedcontext.com/imported-from"

def SYNC_SOURCE : String := "joinedcontext.com/sync-source"

/-- Metadata with an annotation set; annotations that are no object stay as they are. -/
def annotate (key value : String) (rest : List (String × Value)) : List (String × Value) :=
  match rest.lookup "annotations" with
  | none => SortedMap.insertEntry "annotations" (.obj [(key, .str value)]) rest
  | some (.obj annotations) =>
    SortedMap.insertEntry "annotations" (.obj (SortedMap.insertEntry key (.str value) annotations))
      rest
  | some _ => rest

/-- The text of a legacy language map: that of `en`, else the first that is not empty. -/
def textOf (texts : List (String × String)) : Option String :=
  ((texts.find? fun c => c.1 == "en" && c.2 != "") <|> texts.find? fun c => c.2 != "").map Prod.snd

/-- Metadata with a legacy language map under a key as one plain string. -/
def collapseLanguageMap (rest : List (String × Value)) (key : String) : List (String × Value) :=
  match rest.lookup key with
  | some (.obj map) =>
    match map.mapM fun c => c.2.asStr.map (c.1, ·) with
    | some texts =>
      match textOf texts with
      | some text => SortedMap.insertEntry key (.str text) rest
      | none => Assoc.without key rest
    | none => rest
  | _ => rest

def collapseLanguageMaps (rest : List (String × Value)) : List (String × Value) :=
  ["title", "description"].foldl collapseLanguageMap rest

mutual

/-- A value with every typed reference into one project pointed at another. -/
def retargetNamespaces (source target : String) : Value → Value
  | .obj members =>
    let typed := (members.lookup "kind").isSome && (members.lookup "name").isSome
    let retargeted := retargetMembers source target members
    .obj (if typed && members.lookup "namespace" == some (.str source) then
      SortedMap.insertEntry "namespace" (.str target) retargeted else retargeted)
  | .arr items => .arr (retargetItems source target items)
  | v => v

def retargetMembers (source target : String) : List (String × Value) → List (String × Value)
  | [] => []
  | (k, v) :: members => (k, retargetNamespaces source target v) :: retargetMembers source target members

def retargetItems (source target : String) : List Value → List Value
  | [] => []
  | v :: items => retargetNamespaces source target v :: retargetItems source target items

end

/-- `regex::escape`. -/
def regexEscape (s : String) : String :=
  String.ofList (s.toList.flatMap fun c =>
    if c ∈ ("\\.+*?()|[]\x7b\x7d^$#&-~" : String).toList then ['\\', c] else [c])

/-- An entity id, or an anchored pattern of one, with its organization's domain replaced; none for
any other text. -/
def withDomain (urn source target : String) : Option String :=
  let pattern := Text.startsWith '^' urn
  (Text.stripPrefix "urn:ngsi-ld:" ((Text.stripPrefix "^" urn).getD urn)).bind fun rest =>
    let segments := Text.splitAny [':'] rest
    let source := if pattern then regexEscape source else source
    let target := if pattern then regexEscape target else target
    -- type, domain, space and local id
    if segments.length < 4 ∨ segments[1]? ≠ some source then none
    else some ((if pattern then "^urn:ngsi-ld:" else "urn:ngsi-ld:") ++
      Text.join ":" (segments.set 1 target))

def rewriteUrns (source target : String) : Value → Value :=
  Value.mapStrings fun text => (withDomain text source target).getD text

variable {rest : List (String × Value)} {key value source target : String}

theorem wellFormed_annotate (h : (Value.obj rest).wellFormed = true) :
    (Value.obj (annotate key value rest)).wellFormed = true := by
  have hstr : (Value.str value).wellFormed = true := by simp [Value.wellFormed]
  unfold annotate
  split
  · exact Value.wellFormed_insertEntry h (by simp [Value.wellFormed, Value.wellFormedMembers])
  · rename_i annotations hlookup
    exact Value.wellFormed_insertEntry h
      (Value.wellFormed_insertEntry (Value.wellFormed_of_lookup h hlookup) hstr)
  · exact h

theorem wellFormed_collapseLanguageMap (h : (Value.obj rest).wellFormed = true) :
    (Value.obj (collapseLanguageMap rest key)).wellFormed = true := by
  unfold collapseLanguageMap
  split
  · split
    · split
      · exact Value.wellFormed_insertEntry h (by simp [Value.wellFormed])
      · exact Value.wellFormed_without h
    · exact h
  · exact h

theorem wellFormed_collapseLanguageMaps (h : (Value.obj rest).wellFormed = true) :
    (Value.obj (collapseLanguageMaps rest)).wellFormed = true :=
  wellFormed_collapseLanguageMap (wellFormed_collapseLanguageMap h)

theorem keys_retargetMembers (source target : String) (members : List (String × Value)) :
    (retargetMembers source target members).map Prod.fst = members.map Prod.fst := by
  induction members with
  | nil => rw [retargetMembers]
  | cons c members ih => rw [retargetMembers, List.map_cons, List.map_cons, ih]

mutual

theorem wellFormed_retargetNamespaces (source target : String) : ∀ v : Value,
    v.wellFormed = true → (retargetNamespaces source target v).wellFormed = true
  | .obj members, h => by
    have hmembers : (Value.obj (retargetMembers source target members)).wellFormed = true := by
      simp only [Value.wellFormed, Bool.and_eq_true, keys_retargetMembers] at h ⊢
      exact ⟨h.1, wellFormed_retargetMembers source target members h.2⟩
    rw [retargetNamespaces]
    split_ifs
    · exact Value.wellFormed_insertEntry hmembers (by simp [Value.wellFormed])
    · exact hmembers
  | .arr items, h => by
    simp only [retargetNamespaces, Value.wellFormed] at h ⊢
    exact wellFormed_retargetItems source target items h
  | .str s, _ => by simp [retargetNamespaces, Value.wellFormed]
  | .null, _ => by simp [retargetNamespaces, Value.wellFormed]
  | .bool b, _ => by simp [retargetNamespaces, Value.wellFormed]
  | .num m e, _ => by simp [retargetNamespaces, Value.wellFormed]

theorem wellFormed_retargetMembers (source target : String) : ∀ members : List (String × Value),
    Value.wellFormedMembers members = true →
      Value.wellFormedMembers (retargetMembers source target members) = true
  | [], _ => by simp [retargetMembers, Value.wellFormedMembers]
  | (k, v) :: members, h => by
    simp only [retargetMembers, Value.wellFormedMembers, Bool.and_eq_true] at h ⊢
    exact ⟨wellFormed_retargetNamespaces source target v h.1,
      wellFormed_retargetMembers source target members h.2⟩

theorem wellFormed_retargetItems (source target : String) : ∀ items : List Value,
    Value.wellFormedItems items = true →
      Value.wellFormedItems (retargetItems source target items) = true
  | [], _ => by simp [retargetItems, Value.wellFormedItems]
  | v :: items, h => by
    simp only [retargetItems, Value.wellFormedItems, Bool.and_eq_true] at h ⊢
    exact ⟨wellFormed_retargetNamespaces source target v h.1,
      wellFormed_retargetItems source target items h.2⟩

end

namespace RawManifest

/-- The manifest with an annotation set. -/
def annotated (m : RawManifest) (key value : String) : RawManifest where
  apiVersion := m.apiVersion
  kind := m.kind
  metadata := { m.metadata with rest := annotate key value m.metadata.rest }
  spec := m.spec
  status := m.status
  rest_wellFormed := wellFormed_annotate m.rest_wellFormed
  spec_wellFormed := m.spec_wellFormed

/-- The manifest with plain strings for its language maps. -/
def collapsed (m : RawManifest) : RawManifest where
  apiVersion := m.apiVersion
  kind := m.kind
  metadata := { m.metadata with rest := collapseLanguageMaps m.metadata.rest }
  spec := m.spec
  status := m.status
  rest_wellFormed := wellFormed_collapseLanguageMaps m.rest_wellFormed
  spec_wellFormed := m.spec_wellFormed

/-- The manifest under another name and in another namespace. -/
def placed (m : RawManifest) (name : String) («namespace» : Option String) : RawManifest :=
  { m with metadata := { m.metadata with name := name, «namespace» := «namespace» } }

/-- The manifest with another spec. -/
def withSpec (m : RawManifest) (spec : Value) (h : spec.wellFormed = true) : RawManifest :=
  { m with spec := spec, spec_wellFormed := h }

/-- What identifies a manifest is not among its annotations. -/
@[simp] theorem fromManifest_annotated (m : RawManifest) (key value : String) :
    ResourceId.fromManifest (m.annotated key value) = ResourceId.fromManifest m := rfl

@[simp] theorem spec_annotated (m : RawManifest) (key value : String) :
    (m.annotated key value).spec = m.spec := rfl

end RawManifest

end Jcctl

end JoinedContext
