import JoinedContext.Jcctl.Diff

/-!
# What the structural diff decides

A live value satisfies a declared one where nothing the manifest owns is missing from it: for each
element of a keyed array, some live element of its `datasetId` satisfies it. The diff reads the
first one, so it is empty for what is satisfied exactly where the first elements do it. Below it
names each place that differs by a path, and two places may be written alike.
-/

namespace JoinedContext.Jcctl

section Reference

mutual

/-- Whether a live value says all that a declared one does, a keyed array element by element. -/
def Holds (live : Value) : Value → Prop
  | .obj declared =>
    match live with
    | .obj held => HoldsMembers held declared
    | _ => False
  | .arr declared =>
    match live with
    | .arr held =>
      match keyedByDatasetId declared, keyedByDatasetId held with
      | some _, some keyed => HoldsKeyed keyed declared
      | _, _ => sameArray declared held = true
    | _ => False
  | declared => declared = live

def HoldsMembers (live : List (String × Value)) : List (String × Value) → Prop
  | [] => True
  | (name, value) :: rest =>
    (∃ liveValue, live.lookup name = some liveValue ∧ Holds liveValue value) ∧
      HoldsMembers live rest

def HoldsKeyed (live : List (String × Value)) : List Value → Prop
  | [] => True
  | value :: rest =>
    (∀ key, datasetId value = some key →
      ∃ liveValue, (key, liveValue) ∈ live ∧ Holds liveValue value) ∧ HoldsKeyed live rest

end

mutual

/-- Whether at every keyed array the first live element of an id satisfies each declared one. -/
def FirstsHold (live : Value) : Value → Prop
  | .obj declared =>
    match live with
    | .obj held => FirstsHoldMembers held declared
    | _ => True
  | .arr declared =>
    match live with
    | .arr held =>
      match keyedByDatasetId declared, keyedByDatasetId held with
      | some _, some keyed => FirstsHoldKeyed keyed declared
      | _, _ => True
    | _ => True
  | _ => True

def FirstsHoldMembers (live : List (String × Value)) : List (String × Value) → Prop
  | [] => True
  | (name, value) :: rest =>
    (∀ liveValue, live.lookup name = some liveValue → FirstsHold liveValue value) ∧
      FirstsHoldMembers live rest

def FirstsHoldKeyed (live : List (String × Value)) : List Value → Prop
  | [] => True
  | value :: rest =>
    (∀ key first, datasetId value = some key → live.lookup key = some first →
      Holds first value ∧ FirstsHold first value) ∧ FirstsHoldKeyed live rest

end

def HoldsObject (path : String) (managed : Option (List String))
    (declared live : List (String × Value)) : Prop :=
  (∀ c ∈ declared, compared path managed c.1 = true →
    ∃ liveValue, live.lookup c.1 = some liveValue ∧ Holds liveValue c.2) ∧
  ∀ name ∈ managed.getD [], declared.lookup name = none → live.lookup name = none

def HoldsSpec (managed : Option (List String)) (declared live : Value) : Prop :=
  match declared, live with
  | .obj declared, .obj held => HoldsObject "spec" managed declared held
  | declared, live => Holds live declared

/-- Whether the live resource says everything the manifest owns. -/
def Satisfies (declared live : RawManifest) : Prop :=
  HoldsObject "metadata" (managedAttributes declared) declared.metadata.rest live.metadata.rest ∧
    HoldsSpec (managedAttributes declared) declared.spec live.spec

def FirstsHoldObject (path : String) (managed : Option (List String))
    (declared live : List (String × Value)) : Prop :=
  ∀ c ∈ declared, compared path managed c.1 = true →
    ∀ liveValue, live.lookup c.1 = some liveValue → FirstsHold liveValue c.2

def FirstsHoldSpec (managed : Option (List String)) (declared live : Value) : Prop :=
  match declared, live with
  | .obj declared, .obj held => FirstsHoldObject "spec" managed declared held
  | declared, live => FirstsHold live declared

/-- Whether at every keyed array of what is owned the first live element of an id satisfies each
declared one. -/
def FirstsSatisfy (declared live : RawManifest) : Prop :=
  FirstsHoldObject "metadata" (managedAttributes declared) declared.metadata.rest
      live.metadata.rest ∧
    FirstsHoldSpec (managedAttributes declared) declared.spec live.spec

end Reference

section Places

/-- A step to a place: to a member, to an element of a keyed array, or to a member that is claimed
and no longer declared. Elements and claims are numbered, since their names may repeat. -/
inductive Step where
  | member (name : String)
  | element (index : ℕ) (key : String)
  | dropped (index : ℕ) (name : String)
deriving DecidableEq

def Step.written (path : String) : Step → String
  | .member name => Jcctl.member path name
  | .element _ key => Jcctl.element path key
  | .dropped _ name => Jcctl.member path name

/-- The path of a place below another. -/
def placePath (path : String) (place : List Step) : String := place.foldl Step.written path

mutual

/-- The places where a live value differs from a declared one. -/
def places (live : Value) : Value → List (List Step)
  | .obj declared =>
    match live with
    | .obj held => placesMembers held declared
    | _ => [[]]
  | .arr declared =>
    match live with
    | .arr held =>
      match keyedByDatasetId declared, keyedByDatasetId held with
      | some _, some keyed => placesKeyed keyed 0 declared
      | _, _ => if sameArray declared held then [] else [[]]
    | _ => [[]]
  | declared => if declared = live then [] else [[]]

def placesMembers (live : List (String × Value)) : List (String × Value) → List (List Step)
  | [] => []
  | (name, value) :: rest =>
    (match live.lookup name with
    | some liveValue => (places liveValue value).map (.member name :: ·)
    | none => [[.member name]]) ++ placesMembers live rest

def placesKeyed (live : List (String × Value)) : ℕ → List Value → List (List Step)
  | _, [] => []
  | index, value :: rest =>
    (match datasetId value with
    | some key =>
      match live.lookup key with
      | some liveValue => (places liveValue value).map (.element index key :: ·)
      | none => [[.element index key]]
    | none => []) ++ placesKeyed live (index + 1) rest

end

def placesDropped (declared live : List (String × Value)) : ℕ → List String → List (List Step)
  | _, [] => []
  | index, name :: rest =>
    (if (declared.lookup name).isSome then []
    else if (live.lookup name).isSome then [[.dropped index name]]
    else []) ++ placesDropped declared live (index + 1) rest

def placesObject (path : String) (managed : Option (List String))
    (declared live : List (String × Value)) : List (List Step) :=
  placesMembers live (declared.filter fun c => compared path managed c.1) ++
    placesDropped declared live 0 (managed.getD [])

def placesSpec (managed : Option (List String)) (declared live : Value) : List (List Step) :=
  match declared, live with
  | .obj declared, .obj held => placesObject "spec" managed declared held
  | declared, live => places live declared

/-- The places where the live resource differs from what the manifest owns, each below `metadata` or
`spec`. -/
def placesOf (declared live : RawManifest) : List (String × List Step) :=
  (placesObject "metadata" (managedAttributes declared) declared.metadata.rest
      live.metadata.rest).map ("metadata", ·) ++
    (placesSpec (managedAttributes declared) declared.spec live.spec).map ("spec", ·)

/-- Whether no two places that differ are written alike. -/
def WrittenApart (declared live : RawManifest) : Prop :=
  ∀ p ∈ placesOf declared live, ∀ q ∈ placesOf declared live,
    placePath p.1 p.2 = placePath q.1 q.2 → p = q

end Places

section First

mutual

theorem met_value_iff (live : Value) : ∀ declared : Value,
    Met live declared ↔ Holds live declared ∧ FirstsHold live declared
  | .obj declared => by
    cases live with
    | obj held => simpa only [Met, Holds, FirstsHold] using metMembers_iff held declared
    | _ => simp [Met, Holds]
  | .arr declared => by
    cases live with
    | arr held =>
      simp only [Met, Holds, FirstsHold]
      cases keyedByDatasetId declared with
      | none => simp
      | some keyed =>
        cases keyedByDatasetId held with
        | none => simp
        | some liveKeyed => exact metKeyed_iff liveKeyed declared
    | _ => simp [Met, Holds]
  | .null => by simp [Met, Holds, FirstsHold]
  | .bool b => by simp [Met, Holds, FirstsHold]
  | .num m e => by simp [Met, Holds, FirstsHold]
  | .str s => by simp [Met, Holds, FirstsHold]

theorem metMembers_iff (live : List (String × Value)) : ∀ declared : List (String × Value),
    MetMembers live declared ↔ HoldsMembers live declared ∧ FirstsHoldMembers live declared
  | [] => by simp [MetMembers, HoldsMembers, FirstsHoldMembers]
  | (name, value) :: rest => by
    rw [MetMembers, HoldsMembers, FirstsHoldMembers, metMembers_iff live rest]
    cases live.lookup name with
    | none => simp
    | some liveValue =>
      simp only [Option.some.injEq, exists_eq_left', forall_eq', met_value_iff liveValue value]
      tauto

theorem metKeyed_iff (live : List (String × Value)) : ∀ declared : List Value,
    MetKeyed live declared ↔ HoldsKeyed live declared ∧ FirstsHoldKeyed live declared
  | [] => by simp [MetKeyed, HoldsKeyed, FirstsHoldKeyed]
  | value :: rest => by
    rw [MetKeyed, HoldsKeyed, FirstsHoldKeyed, metKeyed_iff live rest]
    have hfirst : (∀ key, datasetId value = some key →
        ∃ liveValue, live.lookup key = some liveValue ∧ Met liveValue value) ↔
        (∀ key, datasetId value = some key →
          ∃ liveValue, (key, liveValue) ∈ live ∧ Holds liveValue value) ∧
        ∀ key first, datasetId value = some key → live.lookup key = some first →
          Holds first value ∧ FirstsHold first value := by
      constructor
      · refine fun h => ⟨fun key hkey => ?_, fun key first hkey hlive => ?_⟩
        · obtain ⟨liveValue, hlive, hmet⟩ := h key hkey
          exact ⟨liveValue, Assoc.mem_of_lookup hlive, ((met_value_iff liveValue value).1 hmet).1⟩
        · obtain ⟨liveValue, hheld, hmet⟩ := h key hkey
          obtain rfl := Option.some.inj (hlive.symm.trans hheld)
          exact (met_value_iff first value).1 hmet
      · rintro ⟨hsome, hfirst⟩ key hkey
        obtain ⟨liveValue, hmem, -⟩ := hsome key hkey
        obtain ⟨first, hlive⟩ := Option.isSome_iff_exists.1
          (Assoc.lookup_isSome_iff.2 (List.mem_map_of_mem hmem) : (live.lookup key).isSome = true)
        exact ⟨first, hlive, (met_value_iff first value).2 (hfirst key first hkey hlive)⟩
    rw [hfirst]
    tauto

end

variable {path : String} {managed : Option (List String)} {declared live : List (String × Value)}

theorem metObject_iff : MetObject path managed declared live ↔
    HoldsObject path managed declared live ∧ FirstsHoldObject path managed declared live := by
  unfold MetObject HoldsObject FirstsHoldObject
  constructor
  · rintro ⟨hmembers, hdropped⟩
    refine ⟨⟨fun c hc hcompared => ?_, hdropped⟩, fun c hc hcompared liveValue hlive => ?_⟩
    · obtain ⟨liveValue, hlive, hmet⟩ := hmembers c hc hcompared
      exact ⟨liveValue, hlive, ((met_value_iff liveValue c.2).1 hmet).1⟩
    · obtain ⟨other, hother, hmet⟩ := hmembers c hc hcompared
      obtain rfl := Option.some.inj (hlive.symm.trans hother)
      exact ((met_value_iff liveValue c.2).1 hmet).2
  · rintro ⟨⟨hmembers, hdropped⟩, hfirsts⟩
    refine ⟨fun c hc hcompared => ?_, hdropped⟩
    obtain ⟨liveValue, hlive, hholds⟩ := hmembers c hc hcompared
    exact ⟨liveValue, hlive,
      (met_value_iff liveValue c.2).2 ⟨hholds, hfirsts c hc hcompared _ hlive⟩⟩

theorem metSpec_iff {declared live : Value} : MetSpec managed declared live ↔
    HoldsSpec managed declared live ∧ FirstsHoldSpec managed declared live := by
  cases declared with
  | obj members =>
    cases live with
    | obj held => exact metObject_iff
    | _ => simp [MetSpec, HoldsSpec, Met, Holds]
  | _ => exact met_value_iff live _

/-- The live resource meets the manifest when it satisfies it with the first elements. -/
theorem satisfied_iff {declared live : RawManifest} :
    Satisfied declared live ↔ Satisfies declared live ∧ FirstsSatisfy declared live := by
  unfold Satisfied Satisfies FirstsSatisfy
  rw [metObject_iff, metSpec_iff, and_and_and_comm]

end First

section Paths

variable {path : String} {managed : Option (List String)} {step : Step}

theorem map_placePath_cons (l : List (List Step)) :
    (l.map (step :: ·)).map (placePath path) = l.map (placePath (step.written path)) := by
  rw [List.map_map]
  rfl

mutual

theorem map_path_diffValue {path : String} (hpath : Below path) (live : Value) :
    ∀ declared : Value, (diffValue path none live declared).map FieldDiff.path =
      (places live declared).map (placePath path)
  | .obj declared => by
    cases live with
    | obj held =>
      have hall : (declared.filter fun c => compared path none c.1) = declared :=
        List.filter_eq_self.2 fun c _ => compared_below hpath c.1
      simp only [diffValue, places, diffDropped_none, List.append_nil]
      rw [map_path_diffMembers path none held declared, hall]
    | _ => simp [diffValue, places, placePath]
  | .arr declared => by
    cases live with
    | arr held =>
      simp only [diffValue, places]
      cases keyedByDatasetId declared with
      | none => dsimp only; split_ifs <;> rfl
      | some keyed =>
        cases keyedByDatasetId held with
        | none => dsimp only; split_ifs <;> rfl
        | some liveKeyed => exact map_path_diffKeyed path liveKeyed 0 declared
    | _ => simp [diffValue, places, placePath]
  | .null => by simp only [diffValue, places]; split_ifs <;> rfl
  | .bool b => by simp only [diffValue, places]; split_ifs <;> rfl
  | .num m e => by simp only [diffValue, places]; split_ifs <;> rfl
  | .str s => by simp only [diffValue, places]; split_ifs <;> rfl

theorem map_path_diffMembers (path : String) (managed : Option (List String))
    (live : List (String × Value)) : ∀ declared : List (String × Value),
      (diffMembers path managed live declared).map FieldDiff.path =
        (placesMembers live (declared.filter fun c => compared path managed c.1)).map
          (placePath path)
  | [] => by simp [diffMembers, placesMembers]
  | (name, value) :: rest => by
    rw [diffMembers, List.map_append, map_path_diffMembers path managed live rest, List.filter_cons]
    by_cases hcompared : compared path managed name = true
    · rw [if_pos hcompared, if_pos hcompared, placesMembers, List.map_append]
      congr 1
      cases live.lookup name with
      | none => rfl
      | some liveValue =>
        rw [map_placePath_cons]
        exact map_path_diffValue (below_member path name) liveValue value
    · rw [if_neg hcompared, if_neg hcompared]
      rfl

theorem map_path_diffKeyed (path : String) (live : List (String × Value)) :
    ∀ (index : ℕ) (declared : List Value), (diffKeyed path live declared).map FieldDiff.path =
      (placesKeyed live index declared).map (placePath path)
  | _, [] => by simp [diffKeyed, placesKeyed]
  | index, value :: rest => by
    rw [diffKeyed, placesKeyed, List.map_append, List.map_append,
      map_path_diffKeyed path live (index + 1) rest]
    congr 1
    cases datasetId value with
    | none => rfl
    | some key =>
      cases hlive : live.lookup key with
      | none => simp [hlive, placePath, Step.written]
      | some liveValue =>
        simp only [hlive]
        rw [map_placePath_cons]
        exact map_path_diffValue (below_element path key) liveValue value

end

variable {declared live : List (String × Value)}

theorem map_path_diffDropped : ∀ (names : List String) (index : ℕ),
    (diffDropped path (some names) declared live).map FieldDiff.path =
      (placesDropped declared live index names).map (placePath path)
  | [], _ => rfl
  | name :: names, index => by
    have hrest := map_path_diffDropped names (index + 1)
    unfold diffDropped at hrest ⊢
    rw [Option.getD_some] at hrest ⊢
    rw [List.flatMap_cons, List.map_append, hrest, placesDropped, List.map_append]
    congr 1
    cases declared.lookup name <;> cases live.lookup name <;> rfl

theorem map_path_diffObject : (diffObject path managed declared live).map FieldDiff.path =
    (placesObject path managed declared live).map (placePath path) := by
  rw [diffObject, placesObject, List.map_append, List.map_append, map_path_diffMembers]
  congr 1
  cases managed with
  | none => rfl
  | some names => exact map_path_diffDropped names 0

theorem map_path_diffSpec (declared live : Value) :
    (diffValue "spec" managed live declared).map FieldDiff.path =
      (placesSpec managed declared live).map (placePath "spec") := by
  cases declared with
  | obj members =>
    cases live with
    | obj held =>
      rw [diffValue_obj]
      exact map_path_diffObject
    | _ => simp [diffValue, placesSpec, places, placePath]
  | arr items =>
    cases live with
    | arr held =>
      simp only [diffValue, placesSpec, places]
      cases keyedByDatasetId items with
      | none => dsimp only; split_ifs <;> rfl
      | some keyed =>
        cases keyedByDatasetId held with
        | none => dsimp only; split_ifs <;> rfl
        | some liveKeyed => exact map_path_diffKeyed "spec" liveKeyed 0 items
    | _ => simp [diffValue, placesSpec, places, placePath]
  | _ =>
    simp only [diffValue, placesSpec, places]
    split_ifs <;> rfl

/-- The reported paths are the written places that differ, in their order. -/
theorem map_path_diff (declared live : RawManifest) :
    (diff declared live).map FieldDiff.path =
      (placesOf declared live).map fun p => placePath p.1 p.2 := by
  rw [diff, placesOf, List.map_append, List.map_append, map_path_diffObject, map_path_diffSpec,
    List.map_map, List.map_map]
  rfl

end Paths

section Distinct

variable {declared live : List (String × Value)} {place : List Step} {index : ℕ}

theorem mem_placesMembers : ∀ {declared : List (String × Value)},
    place ∈ placesMembers live declared → ∃ c ∈ declared, ∃ rest, place = .member c.1 :: rest
  | (name, value) :: rest, h => by
    rw [placesMembers, List.mem_append] at h
    rcases h with h | h
    · cases hlive : live.lookup name with
      | none =>
        rw [hlive] at h
        exact ⟨_, List.mem_cons_self, [], List.mem_singleton.1 h⟩
      | some liveValue =>
        rw [hlive] at h
        obtain ⟨inner, -, rfl⟩ := List.mem_map.1 h
        exact ⟨_, List.mem_cons_self, inner, rfl⟩
    · obtain ⟨c, hc, hplace⟩ := mem_placesMembers h
      exact ⟨c, List.mem_cons_of_mem _ hc, hplace⟩

theorem mem_placesKeyed : ∀ {values : List Value} {index : ℕ},
    place ∈ placesKeyed live index values → ∃ i key rest, index ≤ i ∧ place = .element i key :: rest
  | value :: values, index, h => by
    rw [placesKeyed, List.mem_append] at h
    rcases h with h | h
    · cases hkey : datasetId value with
      | none => simp [hkey] at h
      | some key =>
        cases hlive : live.lookup key with
        | none =>
          simp only [hkey, hlive, List.mem_singleton] at h
          exact ⟨index, key, [], le_rfl, h⟩
        | some liveValue =>
          simp only [hkey, hlive, List.mem_map] at h
          obtain ⟨inner, -, rfl⟩ := h
          exact ⟨index, key, inner, le_rfl, rfl⟩
    · obtain ⟨i, key, rest, hi, hplace⟩ := mem_placesKeyed h
      exact ⟨i, key, rest, Nat.le_of_succ_le hi, hplace⟩

theorem mem_placesDropped : ∀ {names : List String} {index : ℕ},
    place ∈ placesDropped declared live index names →
      ∃ i name, index ≤ i ∧ place = [.dropped i name]
  | name :: names, index, h => by
    rw [placesDropped, List.mem_append] at h
    rcases h with h | h
    · split_ifs at h
      · cases h
      · exact ⟨index, name, le_rfl, List.mem_singleton.1 h⟩
      · cases h
    · obtain ⟨i, name, hi, hplace⟩ := mem_placesDropped h
      exact ⟨i, name, Nat.le_of_succ_le hi, hplace⟩

theorem nodup_placesDropped : ∀ (names : List String) (index : ℕ),
    (placesDropped declared live index names).Nodup
  | [], _ => List.nodup_nil
  | name :: names, index => by
    rw [placesDropped]
    refine List.Nodup.append ?_ (nodup_placesDropped names (index + 1))
      fun place hplace hlater => ?_
    · split_ifs <;> simp
    · obtain ⟨i, other, hi, rfl⟩ := mem_placesDropped hlater
      split_ifs at hplace
      · cases hplace
      · obtain ⟨rfl, -⟩ := Step.dropped.inj (List.cons.inj (List.mem_singleton.1 hplace)).1
        omega
      · cases hplace

mutual

theorem nodup_places (live : Value) : ∀ declared : Value, declared.wellFormed = true →
    (places live declared).Nodup
  | .obj declared, h => by
    simp only [Value.wellFormed, Bool.and_eq_true, decide_eq_true_eq] at h
    cases live with
    | obj held =>
      exact nodup_placesMembers held declared (h.1.imp fun hlt => ne_of_lt hlt) h.2
    | _ => simp [places]
  | .arr declared, h => by
    cases live with
    | arr held =>
      simp only [places]
      cases keyedByDatasetId declared with
      | none => dsimp only; split_ifs <;> simp
      | some keyed =>
        cases keyedByDatasetId held with
        | none => dsimp only; split_ifs <;> simp
        | some liveKeyed => exact nodup_placesKeyed liveKeyed 0 declared h
    | _ => simp [places]
  | .null, _ => by simp only [places]; split_ifs <;> simp
  | .bool b, _ => by simp only [places]; split_ifs <;> simp
  | .num m e, _ => by simp only [places]; split_ifs <;> simp
  | .str s, _ => by simp only [places]; split_ifs <;> simp

theorem nodup_placesMembers (live : List (String × Value)) : ∀ declared : List (String × Value),
    (declared.map Prod.fst).Nodup → Value.wellFormedMembers declared = true →
      (placesMembers live declared).Nodup
  | [], _, _ => by simp [placesMembers]
  | (name, value) :: rest, hkeys, h => by
    rw [List.map_cons, List.nodup_cons] at hkeys
    simp only [Value.wellFormedMembers, Bool.and_eq_true] at h
    rw [placesMembers]
    refine List.Nodup.append ?_ (nodup_placesMembers live rest hkeys.2 h.2)
      fun place hplace hlater => ?_
    · cases live.lookup name with
      | none => simp
      | some liveValue =>
        exact (nodup_places liveValue value h.1).map (List.cons_injective)
    · obtain ⟨c, hc, tail, rfl⟩ := mem_placesMembers hlater
      have hname : name = c.1 := by
        cases hlive : live.lookup name <;> simp_all
      have hmem : c.1 ∈ rest.map Prod.fst := List.mem_map_of_mem hc
      exact hkeys.1 (hname ▸ hmem)

theorem nodup_placesKeyed (live : List (String × Value)) : ∀ (index : ℕ) (declared : List Value),
    Value.wellFormedItems declared = true → (placesKeyed live index declared).Nodup
  | _, [], _ => by simp [placesKeyed]
  | index, value :: rest, h => by
    simp only [Value.wellFormedItems, Bool.and_eq_true] at h
    rw [placesKeyed]
    refine List.Nodup.append ?_ (nodup_placesKeyed live (index + 1) rest h.2)
      fun place hplace hlater => ?_
    · cases datasetId value with
      | none => simp
      | some key =>
        cases hlive : live.lookup key with
        | none => simp [hlive]
        | some liveValue =>
          simp only [hlive]
          exact (nodup_places liveValue value h.1).map List.cons_injective
    · obtain ⟨i, key, tail, hi, rfl⟩ := mem_placesKeyed hlater
      have hindex : index = i := by
        cases hkey : datasetId value with
        | none => simp [hkey] at hplace
        | some own =>
          cases hlive : live.lookup own <;> simp_all
      omega

end

variable {path : String} {managed : Option (List String)}

theorem nodup_placesObject (h : (Value.obj declared).wellFormed = true) :
    (placesObject path managed declared live).Nodup := by
  simp only [Value.wellFormed, Bool.and_eq_true, decide_eq_true_eq] at h
  have hkeys : (declared.map Prod.fst).Nodup := h.1.imp fun hlt => ne_of_lt hlt
  have hmembers : Value.wellFormedMembers (declared.filter fun c => compared path managed c.1) =
      true := Value.wellFormedMembers_of_forall fun c hc =>
    Value.wellFormed_of_mem_members h.2 (List.mem_of_mem_filter hc)
  refine List.Nodup.append (nodup_placesMembers live _ (Assoc.nodup_filter hkeys) hmembers)
    (nodup_placesDropped _ 0) fun place hplace hdropped => ?_
  obtain ⟨c, -, rest, rfl⟩ := mem_placesMembers hplace
  obtain ⟨i, name, -, heq⟩ := mem_placesDropped hdropped
  cases heq

theorem nodup_placesSpec {declared live : Value} (h : declared.wellFormed = true) :
    (placesSpec managed declared live).Nodup := by
  cases declared with
  | obj members =>
    cases live with
    | obj held => exact nodup_placesObject h
    | _ => exact nodup_places _ _ h
  | _ => exact nodup_places _ _ h

theorem nodup_placesOf (declared live : RawManifest) : (placesOf declared live).Nodup := by
  refine List.Nodup.append
    ((nodup_placesObject declared.rest_wellFormed).map (Prod.mk_right_injective "metadata"))
    ((nodup_placesSpec declared.spec_wellFormed).map (Prod.mk_right_injective "spec"))
    fun place hmetadata hspec => ?_
  obtain ⟨_, -, rfl⟩ := List.mem_map.1 hmetadata
  obtain ⟨_, -, heq⟩ := List.mem_map.1 hspec
  have hroot : "spec" = "metadata" := congrArg Prod.fst heq
  exact absurd hroot (by decide)

end Distinct

section Decided

/-- The diff of a manifest is empty for what satisfies it and for nothing else, and reports no path
twice, exactly where what satisfies it does so with the first element of each id and no two places
that differ are written alike. -/
theorem diff_decides_iff (declared live : RawManifest) :
    ((diff declared live = [] ↔ Satisfies declared live) ∧
        ((diff declared live).map FieldDiff.path).Nodup) ↔
      (Satisfies declared live → FirstsSatisfy declared live) ∧ WrittenApart declared live := by
  rw [diff_eq_nil_iff, satisfied_iff, map_path_diff,
    List.nodup_map_iff_inj_on (nodup_placesOf declared live)]
  exact and_congr_left' and_iff_left_iff_imp

def reading (value : Int) : Value := .obj [("datasetId", .str "urn:a"), ("value", .num value 0)]

/-- A manifest that holds two readings of one id. -/
def twice : RawManifest where
  apiVersion := API_VERSION
  kind := "DataModel"
  metadata := ⟨"air", some "smart", []⟩
  spec := .obj [("readings", .arr [reading 1, reading 2])]
  status := none
  rest_wellFormed := Value.wellFormed_nil
  spec_wellFormed := by decide +kernel

/-- A manifest with an id twice differs from itself. -/
theorem twice_differs : ¬ ∀ declared live : RawManifest,
    (diff declared live = [] ↔ Satisfies declared live) ∧
      ((diff declared live).map FieldDiff.path).Nodup := by
  intro h
  have hself : Satisfies twice twice := by
    have hkeyed : keyedByDatasetId [reading 1, reading 2] =
        some [("urn:a", reading 1), ("urn:a", reading 2)] := by decide +kernel
    have hreading : ∀ value : Int, Holds (reading value) (reading value) := fun value => by
      simp [reading, Holds, HoldsMembers, Assoc.lookup_cons]
    have hboth :
        HoldsKeyed [("urn:a", reading 1), ("urn:a", reading 2)] [reading 1, reading 2] := by
      have hid : ∀ value key, datasetId (reading value) = some key → key = "urn:a" :=
        fun value key h => (Option.some.inj h).symm
      exact ⟨fun key hkey => ⟨reading 1, by simp [hid 1 key hkey], hreading 1⟩,
        fun key hkey => ⟨reading 2, by simp [hid 2 key hkey], hreading 2⟩, trivial⟩
    refine ⟨⟨by simp [twice], by simp [managedAttributes, twice]⟩, ?_,
      by simp [managedAttributes, twice]⟩
    intro c hc _
    obtain rfl := List.mem_singleton.1 hc
    refine ⟨_, List.lookup_cons_self, ?_⟩
    simp only [Holds, hkeyed]
    exact hboth
  have hnil := (h twice twice).1.2 hself
  have hlength : (diff twice twice).length = 1 := by decide +kernel
  rw [hnil] at hlength
  cases hlength

end Decided

end JoinedContext.Jcctl
