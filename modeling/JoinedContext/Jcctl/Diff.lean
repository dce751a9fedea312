import JoinedContext.Jcctl.Manifest
import JoinedContext.Library.Text

/-!
# The structural diff

`jcctl`'s diff of a declared manifest against the live resource. The manifest owns the members it
declares, or those its managed-attributes annotation names; an array whose elements all carry a
`datasetId` is compared element by element, an array of scalars as a multiset.

What the diff decides is stated without its paths by `Met`: a live value meets a declared one when
nothing the manifest owns differs (`diffValue_eq_nil_iff`).
-/

namespace JoinedContext.Jcctl

/-- Members the platform computes and never reads back from Git. -/
def SERVER_MANAGED : List String := ["status", "createdAt", "modifiedAt"]

structure FieldDiff where
  path : String
  declared : Option Value
  live : Option Value

def managedAttributes (manifest : RawManifest) : Option (List String) :=
  (((manifest.metadata.rest.lookup "annotations").bind (Value.get MANAGED_ATTRIBUTES)).bind
    Value.asStr).bind fun value =>
      let names := ((Text.splitAny [','] value).map Text.trim).filter (· != "")
      if names = [] then none else some names

def owns (managed : Option (List String)) (name : String) : Bool :=
  managed.all (·.contains name)

/-- Whether a member of the object at a path is compared at all. -/
def compared (path : String) (managed : Option (List String)) (name : String) : Bool :=
  !((path == "metadata" || path == "spec") && SERVER_MANAGED.contains name) && owns managed name

def member (path name : String) : String := path ++ "." ++ name

def element (path key : String) : String := path ++ "[" ++ key ++ "]"

def datasetId (v : Value) : Option String := (v.get "datasetId").bind Value.asStr

/-- The elements paired with their `datasetId`, none if any element lacks one. -/
def keyedByDatasetId (values : List Value) : Option (List (String × Value)) :=
  if values = [] then none else values.mapM fun v => (datasetId v).map (·, v)

def scalars (values : List Value) : Bool :=
  values.all fun
    | .obj _ => false
    | .arr _ => false
    | _ => true

/-- How arrays that are not keyed are compared: scalars as a multiset, anything else as a whole. -/
def sameArray (declared live : List Value) : Bool :=
  if scalars declared && scalars live then declared.isPerm live else decide (declared = live)

/-- A claimed attribute the manifest has since dropped. -/
def diffDropped (path : String) (managed : Option (List String))
    (declared live : List (String × Value)) : List FieldDiff :=
  (managed.getD []).flatMap fun name =>
    if (declared.lookup name).isSome then []
    else match live.lookup name with
      | some liveValue => [⟨member path name, none, some liveValue⟩]
      | none => []

mutual

def diffValue (path : String) (managed : Option (List String)) (live : Value) :
    Value → List FieldDiff
  | .obj declared =>
    match live with
    | .obj held => diffMembers path managed held declared ++ diffDropped path managed declared held
    | _ => [⟨path, some (.obj declared), some live⟩]
  | .arr declared =>
    match live with
    | .arr held =>
      match keyedByDatasetId declared, keyedByDatasetId held with
      | some _, some keyed => diffKeyed path keyed declared
      | _, _ => if sameArray declared held then [] else [⟨path, some (.arr declared), some (.arr held)⟩]
    | _ => [⟨path, some (.arr declared), some live⟩]
  | declared => if declared = live then [] else [⟨path, some declared, some live⟩]

/-- The declared members against those of the live object. -/
def diffMembers (path : String) (managed : Option (List String)) (live : List (String × Value)) :
    List (String × Value) → List FieldDiff
  | [] => []
  | (name, value) :: rest =>
    (if compared path managed name then
      match live.lookup name with
      | some liveValue => diffValue (member path name) none liveValue value
      | none => [⟨member path name, some value, none⟩]
    else []) ++ diffMembers path managed live rest

/-- The declared elements against the first live one of their `datasetId`. -/
def diffKeyed (path : String) (live : List (String × Value)) : List Value → List FieldDiff
  | [] => []
  | value :: rest =>
    (match datasetId value with
    | some key =>
      match live.lookup key with
      | some liveValue => diffValue (element path key) none liveValue value
      | none => [⟨element path key, some value, none⟩]
    -- every element of a keyed array carries one
    | none => []) ++ diffKeyed path live rest

end

def diffObject (path : String) (managed : Option (List String))
    (declared live : List (String × Value)) : List FieldDiff :=
  diffMembers path managed live declared ++ diffDropped path managed declared live

@[simp] theorem diffValue_obj (path : String) (managed : Option (List String))
    (declared live : List (String × Value)) :
    diffValue path managed (.obj live) (.obj declared) = diffObject path managed declared live := by
  rw [diffValue]
  rfl

def diff (declared live : RawManifest) : List FieldDiff :=
  diffObject "metadata" (managedAttributes declared) declared.metadata.rest live.metadata.rest ++
    diffValue "spec" (managedAttributes declared) live.spec declared.spec

mutual

/-- Whether a live value says all that a declared one does. -/
def Met (live : Value) : Value → Prop
  | .obj declared =>
    match live with
    | .obj held => MetMembers held declared
    | _ => False
  | .arr declared =>
    match live with
    | .arr held =>
      match keyedByDatasetId declared, keyedByDatasetId held with
      | some _, some keyed => MetKeyed keyed declared
      | _, _ => sameArray declared held = true
    | _ => False
  | declared => declared = live

def MetMembers (live : List (String × Value)) : List (String × Value) → Prop
  | [] => True
  | (name, value) :: rest =>
    (∃ liveValue, live.lookup name = some liveValue ∧ Met liveValue value) ∧ MetMembers live rest

def MetKeyed (live : List (String × Value)) : List Value → Prop
  | [] => True
  | value :: rest =>
    (∀ key, datasetId value = some key →
      ∃ liveValue, live.lookup key = some liveValue ∧ Met liveValue value) ∧ MetKeyed live rest

end

/-- A path below the two objects of a manifest, where every member is compared. -/
def Below (path : String) : Prop := '.' ∈ path.toList ∨ '[' ∈ path.toList

theorem below_member (path name : String) : Below (member path name) := by
  left
  simp [member]

theorem below_element (path key : String) : Below (element path key) := by
  right
  simp [element]

theorem compared_below {path : String} (h : Below path) (name : String) :
    compared path none name = true := by
  have hmetadata : path ≠ "metadata" := by
    rintro rfl
    simp [Below] at h
  have hspec : path ≠ "spec" := by
    rintro rfl
    simp [Below] at h
  simp [compared, owns, hmetadata, hspec]

@[simp] theorem diffDropped_none (path : String) (declared live : List (String × Value)) :
    diffDropped path none declared live = [] := rfl

mutual

/-- Below the top level the diff is empty exactly where the live value meets the declared one. -/
theorem diffValue_eq_nil_iff {path : String} (hpath : Below path) (live : Value) :
    ∀ declared : Value, diffValue path none live declared = [] ↔ Met live declared
  | .obj declared => by
    cases live <;> simp [diffValue, Met]
    exact diffMembers_eq_nil_iff hpath _ declared
  | .arr declared => by
    cases live <;> simp only [diffValue, Met, List.cons_ne_nil]
    split
    · exact diffKeyed_eq_nil_iff path _ declared
    · simp
  | .null => by simp [diffValue, Met]
  | .bool b => by simp [diffValue, Met]
  | .num m e => by simp [diffValue, Met]
  | .str s => by simp [diffValue, Met]

theorem diffMembers_eq_nil_iff {path : String} (hpath : Below path)
    (live : List (String × Value)) :
    ∀ declared : List (String × Value), diffMembers path none live declared = [] ↔
      MetMembers live declared
  | [] => by simp [diffMembers, MetMembers]
  | (name, value) :: rest => by
    rw [diffMembers, MetMembers, List.append_eq_nil_iff, diffMembers_eq_nil_iff hpath live rest,
      if_pos (compared_below hpath name)]
    refine and_congr_left' ?_
    rcases live.lookup name with _ | liveValue
    · simp
    · simpa using diffValue_eq_nil_iff (below_member path name) liveValue value

theorem diffKeyed_eq_nil_iff (path : String) (live : List (String × Value)) :
    ∀ declared : List Value, diffKeyed path live declared = [] ↔ MetKeyed live declared
  | [] => by simp [diffKeyed, MetKeyed]
  | value :: rest => by
    rw [diffKeyed, MetKeyed, List.append_eq_nil_iff, diffKeyed_eq_nil_iff path live rest]
    refine and_congr_left' ?_
    rcases datasetId value with _ | key
    · simp
    · rcases hlive : live.lookup key with _ | liveValue
      · simp [hlive]
      · simpa [hlive] using diffValue_eq_nil_iff (below_element path key) liveValue value

end

/-- Whether a live object meets the members of a declared one that are compared at its path. -/
def MetObject (path : String) (managed : Option (List String))
    (declared live : List (String × Value)) : Prop :=
  (∀ c ∈ declared, compared path managed c.1 = true →
    ∃ liveValue, live.lookup c.1 = some liveValue ∧ Met liveValue c.2) ∧
  ∀ name ∈ managed.getD [], declared.lookup name = none → live.lookup name = none

def MetSpec (managed : Option (List String)) (declared live : Value) : Prop :=
  match declared, live with
  | .obj declared, .obj held => MetObject "spec" managed declared held
  | declared, live => Met live declared

/-- Whether the live resource already says what the manifest owns. -/
def Satisfied (declared live : RawManifest) : Prop :=
  MetObject "metadata" (managedAttributes declared) declared.metadata.rest live.metadata.rest ∧
    MetSpec (managedAttributes declared) declared.spec live.spec

variable {path name : String} {managed : Option (List String)} {d : FieldDiff}
  {declared live : List (String × Value)}

theorem mem_diffMembers : ∀ {declared : List (String × Value)},
    d ∈ diffMembers path managed live declared ↔
      ∃ c ∈ declared, compared path managed c.1 = true ∧
        match live.lookup c.1 with
        | some liveValue => d ∈ diffValue (member path c.1) none liveValue c.2
        | none => d = ⟨member path c.1, some c.2, none⟩
  | [] => by simp [diffMembers]
  | (name, value) :: rest => by
    rw [diffMembers, List.mem_append, mem_diffMembers, List.exists_mem_cons_iff]
    refine or_congr_left ?_
    by_cases h : compared path managed name = true
    · rw [if_pos h, and_iff_right h]
      show d ∈ (match live.lookup name with | some _ => _ | none => _) ↔ _
      cases live.lookup name <;> simp
    · simp [h]

theorem mem_diffDropped : d ∈ diffDropped path managed declared live ↔
    ∃ name ∈ managed.getD [], declared.lookup name = none ∧
      ∃ liveValue, live.lookup name = some liveValue ∧ d = ⟨member path name, none, some liveValue⟩ := by
  unfold diffDropped
  rw [List.mem_flatMap]
  refine exists_congr fun name => and_congr_right fun _ => ?_
  cases declared.lookup name <;> cases live.lookup name <;> simp

theorem mem_diffObject : d ∈ diffObject path managed declared live ↔
    d ∈ diffMembers path managed live declared ∨ d ∈ diffDropped path managed declared live :=
  List.mem_append

theorem diffObject_eq_nil_iff :
    diffObject path managed declared live = [] ↔ MetObject path managed declared live := by
  unfold diffObject
  rw [List.append_eq_nil_iff, List.eq_nil_iff_forall_not_mem, List.eq_nil_iff_forall_not_mem]
  refine and_congr ?_ ?_
  · constructor
    · intro h c hc hcompared
      rcases hlive : live.lookup c.1 with _ | liveValue
      · exact absurd (mem_diffMembers.2 ⟨c, hc, hcompared, by rw [hlive]⟩) (h _)
      · refine ⟨liveValue, rfl, (diffValue_eq_nil_iff (below_member path c.1) liveValue c.2).1 ?_⟩
        exact List.eq_nil_iff_forall_not_mem.2 fun d hd =>
          h d (mem_diffMembers.2 ⟨c, hc, hcompared, by rw [hlive]; exact hd⟩)
    · intro h d hd
      obtain ⟨c, hc, hcompared, hmem⟩ := mem_diffMembers.1 hd
      obtain ⟨liveValue, hlive, hmet⟩ := h c hc hcompared
      rw [hlive] at hmem
      simp [(diffValue_eq_nil_iff (below_member path c.1) liveValue c.2).2 hmet] at hmem
  · constructor
    · intro h name hname hdeclared
      by_contra hlive
      obtain ⟨liveValue, hlive⟩ := Option.ne_none_iff_exists'.1 hlive
      exact h _ (mem_diffDropped.2 ⟨name, hname, hdeclared, liveValue, hlive, rfl⟩)
    · intro h d hd
      obtain ⟨name, hname, hdeclared, liveValue, hlive, -⟩ := mem_diffDropped.1 hd
      simp [h name hname hdeclared] at hlive

theorem diffSpec_eq_nil_iff {declared live : Value} :
    diffValue "spec" managed live declared = [] ↔ MetSpec managed declared live := by
  cases declared with
  | obj members =>
    cases live with
    | obj held =>
      rw [diffValue_obj]
      exact diffObject_eq_nil_iff
    | _ => simp [diffValue, MetSpec, Met]
  | arr items =>
    cases live with
    | arr held =>
      simp only [diffValue, MetSpec, Met]
      split
      · exact diffKeyed_eq_nil_iff "spec" _ items
      · simp
    | _ => simp [diffValue, MetSpec, Met]
  | _ => simp [diffValue, MetSpec, Met]

/-- The diff is empty exactly where the live resource satisfies the manifest. -/
theorem diff_eq_nil_iff {declared live : RawManifest} :
    diff declared live = [] ↔ Satisfied declared live := by
  unfold diff Satisfied
  rw [List.append_eq_nil_iff, diffObject_eq_nil_iff, diffSpec_eq_nil_iff]

/-- A path, or one inside the value at it. -/
def Under (path p : String) : Prop :=
  ∃ rest : List Char, p.toList = path.toList ++ rest ∧
    (rest = [] ∨ ∃ r, rest = '.' :: r ∨ rest = '[' :: r)

theorem under_self (path : String) : Under path path := ⟨[], by simp, Or.inl rfl⟩

theorem Under.of_member {path name p : String} (h : Under (member path name) p) :
    Under path p ∧ p ≠ path := by
  obtain ⟨rest, hp, -⟩ := h
  have hlist : p.toList = path.toList ++ '.' :: (name.toList ++ rest) := by
    rw [hp]
    simp [member]
  refine ⟨⟨_, hlist, Or.inr ⟨_, Or.inl rfl⟩⟩, ?_⟩
  rintro rfl
  simp at hlist

theorem Under.of_element {path key p : String} (h : Under (element path key) p) :
    Under path p ∧ p ≠ path := by
  obtain ⟨rest, hp, -⟩ := h
  have hlist : p.toList = path.toList ++ '[' :: (key.toList ++ ']' :: rest) := by
    rw [hp]
    simp [element]
  refine ⟨⟨_, hlist, Or.inr ⟨_, Or.inr rfl⟩⟩, ?_⟩
  rintro rfl
  simp at hlist

mutual

theorem under_of_mem_diffValue {path : String} {d : FieldDiff} (live : Value) :
    ∀ declared : Value, d ∈ diffValue path none live declared → Under path d.path
  | .obj declared, h => by
    cases live with
    | obj held =>
      simp only [diffValue, diffDropped_none, List.append_nil] at h
      obtain ⟨name, hunder⟩ := under_of_mem_diffMembers held declared h
      exact hunder.of_member.1
    | _ =>
      obtain rfl := List.mem_singleton.1 h
      exact under_self path
  | .arr declared, h => by
    cases live with
    | arr held =>
      simp only [diffValue] at h
      split at h
      · obtain ⟨key, hunder⟩ := under_of_mem_diffKeyed _ declared h
        exact hunder.of_element.1
      · split_ifs at h
        · simp at h
        · obtain rfl := List.mem_singleton.1 h
          exact under_self path
    | _ =>
      obtain rfl := List.mem_singleton.1 h
      exact under_self path
  | .null, h => by simp only [diffValue] at h; split_ifs at h <;> simp_all [under_self]
  | .bool b, h => by simp only [diffValue] at h; split_ifs at h <;> simp_all [under_self]
  | .num m e, h => by simp only [diffValue] at h; split_ifs at h <;> simp_all [under_self]
  | .str s, h => by simp only [diffValue] at h; split_ifs at h <;> simp_all [under_self]

theorem under_of_mem_diffMembers {path : String} {managed : Option (List String)} {d : FieldDiff}
    (live : List (String × Value)) :
    ∀ declared : List (String × Value), d ∈ diffMembers path managed live declared →
      ∃ name, Under (member path name) d.path
  | [], h => by simp [diffMembers] at h
  | (name, value) :: rest, h => by
    rw [diffMembers, List.mem_append] at h
    rcases h with h | h
    · split_ifs at h
      · split at h
        · exact ⟨name, under_of_mem_diffValue _ value h⟩
        · obtain rfl := List.mem_singleton.1 h
          exact ⟨name, under_self (member path name)⟩
      · simp at h
    · exact under_of_mem_diffMembers live rest h

theorem under_of_mem_diffKeyed {path : String} {d : FieldDiff} (live : List (String × Value)) :
    ∀ declared : List Value, d ∈ diffKeyed path live declared →
      ∃ key, Under (element path key) d.path
  | [], h => by simp [diffKeyed] at h
  | value :: rest, h => by
    rw [diffKeyed, List.mem_append] at h
    rcases h with h | h
    · split at h
      · split at h
        · exact ⟨_, under_of_mem_diffValue _ value h⟩
        · obtain rfl := List.mem_singleton.1 h
          exact ⟨_, under_self (element path _)⟩
      · simp at h
    · exact under_of_mem_diffKeyed live rest h

end

/-- Whether two values are compared part by part: two objects, or two keyed arrays. -/
def Nested : Value → Value → Prop
  | .obj _, .obj _ => True
  | .arr declared, .arr live =>
    (keyedByDatasetId declared).isSome = true ∧ (keyedByDatasetId live).isSome = true
  | _, _ => False

theorem ne_path_of_nested {value liveValue : Value} (h : Nested value liveValue)
    (hd : d ∈ diffValue path none liveValue value) : d.path ≠ path := by
  match value, liveValue, h with
  | .obj declared, .obj held, _ =>
    simp only [diffValue, diffDropped_none, List.append_nil] at hd
    obtain ⟨name, hunder⟩ := under_of_mem_diffMembers held declared hd
    exact hunder.of_member.2
  | .arr declared, .arr held, h =>
    obtain ⟨ks, hks⟩ := Option.isSome_iff_exists.1 h.1
    obtain ⟨ls, hls⟩ := Option.isSome_iff_exists.1 h.2
    simp only [diffValue, hks, hls] at hd
    obtain ⟨key, hunder⟩ := under_of_mem_diffKeyed ls declared hd
    exact hunder.of_element.2

/-- Values compared as a whole are reported at their own path or not at all. -/
theorem path_of_whole {value liveValue : Value} (h : ¬ Nested value liveValue)
    (hd : d ∈ diffValue path none liveValue value) : d.path = path := by
  cases value with
  | obj declared =>
    cases liveValue with
    | obj held => exact absurd trivial h
    | _ =>
      obtain rfl := List.mem_singleton.1 hd
      rfl
  | arr declared =>
    cases liveValue with
    | arr held =>
      simp only [diffValue] at hd
      split at hd
      · rename_i hks hls
        exact absurd ⟨by simp [hks], by simp [hls]⟩ h
      · split_ifs at hd
        · simp at hd
        · obtain rfl := List.mem_singleton.1 hd
          rfl
    | _ =>
      obtain rfl := List.mem_singleton.1 hd
      rfl
  | _ =>
    simp only [diffValue] at hd
    split_ifs at hd
    · simp at hd
    · obtain rfl := List.mem_singleton.1 hd
      rfl

/-- Whether the comparison of two objects reports a member. -/
def Differs (path : String) (managed : Option (List String)) (declared live : List (String × Value))
    (name : String) : Prop :=
  (∃ value, (name, value) ∈ declared ∧ compared path managed name = true ∧
    ∀ liveValue, live.lookup name = some liveValue → ¬ Met liveValue value) ∨
  name ∈ managed.getD [] ∧ declared.lookup name = none ∧ live.lookup name ≠ none

theorem differs_of_mem (h : d ∈ diffObject path managed declared live) :
    ∃ name, Differs path managed declared live name ∧ Under (member path name) d.path := by
  rcases mem_diffObject.1 h with h | h
  · obtain ⟨⟨name, value⟩, hmem, hcompared, hd⟩ := mem_diffMembers.1 h
    refine ⟨name, Or.inl ⟨value, hmem, hcompared, fun liveValue hlive hmet => ?_⟩, ?_⟩
    · rw [hlive] at hd
      simp [(diffValue_eq_nil_iff (below_member path name) liveValue value).2 hmet] at hd
    · split at hd
      · exact under_of_mem_diffValue _ value hd
      · exact hd ▸ under_self _
  · obtain ⟨name, hname, hdeclared, liveValue, hlive, rfl⟩ := mem_diffDropped.1 h
    exact ⟨name, Or.inr ⟨hname, hdeclared, by simp [hlive]⟩, under_self _⟩

theorem mem_of_differs (h : Differs path managed declared live name) :
    ∃ d ∈ diffObject path managed declared live, Under (member path name) d.path := by
  rcases h with ⟨value, hmem, hcompared, hmet⟩ | ⟨hname, hdeclared, hlive⟩
  · rcases hlive : live.lookup name with _ | liveValue
    · have hd : (⟨member path name, some value, none⟩ : FieldDiff) ∈
          diffMembers path managed live declared :=
        mem_diffMembers.2 ⟨(name, value), hmem, hcompared, by rw [hlive]⟩
      exact ⟨_, mem_diffObject.2 (Or.inl hd), under_self (member path name)⟩
    · obtain ⟨d, hd⟩ := List.exists_mem_of_ne_nil _ fun hnil => hmet liveValue hlive
        ((diffValue_eq_nil_iff (below_member path name) liveValue value).1 hnil)
      have hmem : d ∈ diffMembers path managed live declared :=
        mem_diffMembers.2 ⟨(name, value), hmem, hcompared, by rw [hlive]; exact hd⟩
      exact ⟨d, mem_diffObject.2 (Or.inl hmem), under_of_mem_diffValue liveValue value hd⟩
  · obtain ⟨liveValue, hlive⟩ := Option.ne_none_iff_exists'.1 hlive
    have hd : (⟨member path name, none, some liveValue⟩ : FieldDiff) ∈
        diffDropped path managed declared live :=
      mem_diffDropped.2 ⟨name, hname, hdeclared, liveValue, hlive, rfl⟩
    exact ⟨_, mem_diffObject.2 (Or.inr hd), under_self (member path name)⟩

end JoinedContext.Jcctl
