import JoinedContext.Jcctl.Merge

/-!
# What a merge holds

Putting the members of a source into a document keeps what the document holds, and leaves a member
under each name that is the same as the one put in. `mergeSources_merged` says it of a whole merge.
-/

namespace JoinedContext.Jcctl.Merge

section Members

variable {key k : String} {f : String → Value → Value} {doc : Mapping} {v : Value}

theorem members_put :
    members (Assoc.put key v doc) k = if k = key then v.asObject.getD [] else members doc k := by
  unfold members
  rw [Assoc.lookup_put]
  split_ifs <;> rfl

theorem lookup_overMembers : (overMembers key f doc).lookup k =
    (doc.lookup k).map fun v => if k = key then eachMember f v else v :=
  Assoc.lookup_map_snd (f := fun k v => if k = key then eachMember f v else v)

theorem lookup_overMembers_of_ne (h : k ≠ key) : (overMembers key f doc).lookup k = doc.lookup k := by
  rw [lookup_overMembers]
  simp [h]

theorem members_overMembers : members (overMembers key f doc) k =
    if k = key then (members doc k).map fun c => (c.1, f c.1 c.2) else members doc k := by
  unfold members
  rw [lookup_overMembers]
  split_ifs with h
  · rcases doc.lookup k with _ | v
    · rfl
    · cases v <;> rfl
  · simp

theorem eachMember_id {f : String → Value → Value} (hf : ∀ n v, f n v = v) (v : Value) :
    eachMember f v = v := by
  cases v <;> simp [eachMember, hf]

theorem overMembers_id {f : String → Value → Value} (hf : ∀ n v, f n v = v) :
    overMembers key f doc = doc := by
  simp [overMembers, eachMember_id hf]

theorem putMember_eq_ok {name : String} {merged : Mapping}
    (h : putMember key name v doc = .ok merged) :
    (∀ k, k ≠ key → merged.lookup k = doc.lookup k) ∧
      members merged key = Assoc.put name v (members doc key) := by
  unfold putMember at h
  split at h
  · rename_i held hheld
    obtain rfl := Except.ok.inj h
    refine ⟨fun k hk => by rw [Assoc.lookup_put, if_neg hk], ?_⟩
    rw [members_put, if_pos rfl]
    have hmembers : members doc key = held := by
      unfold members
      rcases hlookup : doc.lookup key with _ | w
      · rw [hlookup] at hheld
        cases hheld
        rfl
      · rw [hlookup] at hheld
        obtain rfl : w = .obj held := hheld
        rfl
    rw [hmembers]
    rfl
  · cases h

/-- What a list of members put into a section leaves there: what was there, and a member under each
name that is the same as the one put in. -/
structure Absorbs (R : Value → Value → Prop) (key : String) (l doc merged : Mapping) : Prop where
  others : ∀ k, k ≠ key → merged.lookup k = doc.lookup k
  kept : ∀ n v, (members doc key).lookup n = some v → (members merged key).lookup n = some v
  held : ∀ c ∈ l, ∃ w, (members merged key).lookup c.1 = some w ∧ R w c.2
  origin : ∀ n w, (members merged key).lookup n = some w →
    (members doc key).lookup n = some w ∨ (n, w) ∈ l

variable {R : Value → Value → Prop} {merged : Mapping}

theorem Absorbs.same {c : String × Value} (h : (members doc key).lookup c.1 = some v)
    (hR : R v c.2) : Absorbs R key [c] doc doc where
  others _ _ := rfl
  kept _ _ h := h
  held c' hc' := by
    obtain rfl := List.mem_singleton.1 hc'
    exact ⟨v, h, hR⟩
  origin _ _ h := Or.inl h

theorem Absorbs.putMember {c : String × Value} (hnone : (members doc key).lookup c.1 = none)
    (h : putMember key c.1 c.2 doc = .ok merged) (hR : R c.2 c.2) :
    Absorbs R key [c] doc merged := by
  obtain ⟨hothers, hmembers⟩ := putMember_eq_ok h
  refine ⟨hothers, fun n v hv => ?_, fun c' hc' => ?_, fun n w hw => ?_⟩
  · rw [hmembers, Assoc.lookup_put, if_neg fun hn => by rw [hn, hnone] at hv; cases hv]
    exact hv
  · obtain rfl := List.mem_singleton.1 hc'
    exact ⟨c'.2, by rw [hmembers, Assoc.lookup_put, if_pos rfl], hR⟩
  · rw [hmembers, Assoc.lookup_put] at hw
    split_ifs at hw with hn
    · refine Or.inr (List.mem_singleton.2 ?_)
      rw [hn, ← Option.some.inj hw]
    · exact Or.inl hw

/-- Putting a list of members in, one after the other. -/
theorem Absorbs.foldlM {σ : Type} {view : σ → Mapping} {f : σ → String × Value → Out σ}
    (hstep : ∀ st c st', f st c = .ok st' → Absorbs R key [c] (view st) (view st')) :
    ∀ {l : Mapping} {st st' : σ}, l.foldlM f st = .ok st' → Absorbs R key l (view st) (view st')
  | [], st, st', h => by
    obtain rfl := Except.ok.inj h
    exact ⟨fun _ _ => rfl, fun _ _ h => h, by simp, fun _ _ h => Or.inl h⟩
  | c :: l, st, st', h => by
    rw [List.foldlM_cons, bind_eq_ok] at h
    obtain ⟨next, hnext, hrest⟩ := h
    have hfirst := hstep st c next hnext
    have hlater := Absorbs.foldlM hstep hrest
    refine ⟨fun k hk => (hlater.others k hk).trans (hfirst.others k hk),
      fun n v hv => hlater.kept n v (hfirst.kept n v hv), fun c' hc' => ?_, fun n w hw => ?_⟩
    · rcases List.mem_cons.1 hc' with rfl | hc'
      · obtain ⟨w, hw, hR⟩ := hfirst.held _ (List.mem_singleton_self _)
        exact ⟨w, hlater.kept _ _ hw, hR⟩
      · exact hlater.held c' hc'
    · rcases hlater.origin n w hw with hw | hw
      · exact (hfirst.origin n w hw).imp_right fun hc => List.mem_cons.2
          (Or.inl (List.mem_singleton.1 hc))
      · exact Or.inr (List.mem_cons_of_mem _ hw)

end Members

theorem mappingOf_eq_ok {source : Source} {doc : Mapping} :
    mappingOf source = .ok doc ↔ source.schema = .obj doc := by
  unfold mappingOf
  split
  · rename_i schema hobj
    rw [hobj, Except.ok.injEq, Value.obj.injEq]
  · rename_i hnot
    refine iff_of_false (fun h => ?_) (hnot doc)
    cases h

section Steps

variable {base model : String} {basePrefix baseRange : Option String} {schema merged merged' : Mapping}
  {st st' : State} {s : Section}

theorem mergePrefix_absorbs {c : String × Value} (h : mergePrefix base model merged c = .ok merged') :
    Absorbs (fun w v => w.same v = true) "prefixes" [c] merged merged' := by
  unfold mergePrefix at h
  split at h
  · rename_i iri hiri
    split_ifs at h with hsame
    obtain rfl := Except.ok.inj h
    exact Absorbs.same hiri hsame
  · rename_i hnone
    exact Absorbs.putMember hnone h (by simp [Value.same])

theorem sameMember_self (v : Value) : sameMember s baseRange v v = true := by
  unfold sameMember
  split_ifs <;> simp [Value.same]

theorem mergeMember_absorbs {c : String × Value}
    (h : mergeMember base model baseRange s st c = .ok st') :
    Absorbs (fun w v => sameMember s baseRange w v = true) s.key [c] st.merged st'.merged := by
  unfold mergeMember at h
  split at h
  · rename_i held hheld
    split_ifs at h with hsame
    obtain rfl := Except.ok.inj h
    exact Absorbs.same hheld hsame
  · rename_i hnone
    obtain ⟨merged, hput, h⟩ := bind_eq_ok.1 h
    obtain rfl := Except.ok.inj h
    exact Absorbs.putMember hnone hput (sameMember_self c.2)

theorem mergeSection_absorbs (h : mergeSection base model baseRange schema st s = .ok st') :
    Absorbs (fun w v => sameMember s baseRange w v = true) s.key (members schema s.key) st.merged
      st'.merged :=
  Absorbs.foldlM (fun _ _ _ => mergeMember_absorbs) h

theorem Section.key_injective : Function.Injective Section.key := by
  intro s t h
  cases s <;> cases t <;> first | rfl | exact absurd h (by decide)

/-- The sections of a source are merged one by one. -/
theorem mergeSections_spec : ∀ {l : List Section} {st st' : State},
    l.foldlM (mergeSection base model baseRange schema) st = .ok st' →
      (∀ k, (∀ s ∈ l, k ≠ s.key) → st'.merged.lookup k = st.merged.lookup k) ∧
      (∀ s n v, (members st.merged (Section.key s)).lookup n = some v →
        (members st'.merged s.key).lookup n = some v) ∧
      ∀ s ∈ l, ∀ c ∈ members schema s.key, ∃ w, (members st'.merged s.key).lookup c.1 = some w ∧
        sameMember s baseRange w c.2 = true
  | [], st, st', h => by
    obtain rfl := Except.ok.inj h
    simp
  | s :: l, st, st', h => by
    rw [List.foldlM_cons, bind_eq_ok] at h
    obtain ⟨next, hnext, hrest⟩ := h
    have hfirst := mergeSection_absorbs hnext
    obtain ⟨hothers, hkept, hheld⟩ := mergeSections_spec hrest
    have hkeep : ∀ t n v, (members st.merged (Section.key t)).lookup n = some v →
        (members next.merged t.key).lookup n = some v := by
      intro t n v hv
      by_cases ht : t = s
      · rw [ht] at hv ⊢
        exact hfirst.kept n v hv
      · unfold members at hv ⊢
        rwa [hfirst.others _ fun hk => ht (Section.key_injective hk)]
    refine ⟨fun k hk => ?_, fun t n v hv => hkept t n v (hkeep t n v hv), fun t ht c hc => ?_⟩
    · rw [hothers k fun t ht => hk t (List.mem_cons_of_mem _ ht),
        hfirst.others k (hk s List.mem_cons_self)]
    · rcases List.mem_cons.1 ht with rfl | ht
      · obtain ⟨w, hw, hsame⟩ := hfirst.held c hc
        exact ⟨w, hkept _ _ _ hw, hsame⟩
      · exact hheld t ht c hc

theorem lookup_mergeImports {k : String} (hk : k ≠ "imports") :
    (mergeImports schema merged).lookup k = merged.lookup k := by
  unfold mergeImports
  split
  · rw [Assoc.lookup_put, if_neg hk]
  · rfl

/-- What every member of a source is written as. -/
def written (own range : Option String) (s : Section) (name : String) : Value → Value :=
  match IRI_FIELDS.lookup s with
  | some field => explicitMember own range (s, field) name
  | none => id

theorem explicit_eq_ok {source : Source} {doc : Mapping}
    (h : explicit source basePrefix baseRange = .ok doc) :
    ∃ schema own, source.schema = .obj schema ∧ defaultPrefix source = .ok own ∧
      (∀ k, (∀ s, k ≠ Section.key s) → doc.lookup k = schema.lookup k) ∧
      ∀ s, members doc (Section.key s) = (members schema s.key).map fun c =>
        (c.1, written (own.filter fun p => some p ≠ basePrefix)
          ((text schema "default_range").filter fun r => some r ≠ baseRange) s c.1 c.2) := by
  unfold explicit at h
  obtain ⟨schema, hschema, h⟩ := bind_eq_ok.1 h
  obtain ⟨own, hown, h⟩ := bind_eq_ok.1 h
  obtain rfl := Except.ok.inj h
  refine ⟨schema, own, mappingOf_eq_ok.1 hschema, hown, fun k hk => ?_, fun s => ?_⟩
  · simp only [IRI_FIELDS, List.foldl]
    rw [lookup_overMembers_of_ne (hk _), lookup_overMembers_of_ne (hk _),
      lookup_overMembers_of_ne (hk _), lookup_overMembers_of_ne (hk _)]
  · simp only [IRI_FIELDS, List.foldl, members_overMembers]
    cases s <;> simp [Section.key, written, IRI_FIELDS, Assoc.lookup_cons]

/-- What merging a source, written out as `schema`, into a document leaves there. -/
structure Takes (baseRange : Option String) (schema merged merged' : Mapping) : Prop where
  texts : ∀ k ∈ ["default_prefix", "default_range"], merged'.lookup k = merged.lookup k
  kept : ∀ s n v, (members merged (Section.key s)).lookup n = some v →
    (members merged' s.key).lookup n = some v
  held : ∀ s, ∀ c ∈ members schema (Section.key s), ∃ w,
    (members merged' s.key).lookup c.1 = some w ∧ sameMember s baseRange w c.2 = true
  keptPrefix : ∀ p v, (members merged "prefixes").lookup p = some v →
    (members merged' "prefixes").lookup p = some v
  heldPrefix : ∀ c ∈ members schema "prefixes", ∃ w,
    (members merged' "prefixes").lookup c.1 = some w ∧ w.same c.2 = true
  origin : ∀ p w, (members merged' "prefixes").lookup p = some w →
    (members merged "prefixes").lookup p = some w ∨ (p, w) ∈ members schema "prefixes"

theorem members_congr {k : String} (h : merged'.lookup k = merged.lookup k) :
    members merged' k = members merged k := by
  unfold members
  rw [h]

theorem mergeSource_takes {source : Source}
    (h : mergeSource base basePrefix baseRange st source = .ok st') :
    ∃ schema, explicit source basePrefix baseRange = .ok schema ∧
      Takes baseRange schema st.merged st'.merged := by
  unfold mergeSource at h
  obtain ⟨schema, hschema, h⟩ := bind_eq_ok.1 h
  obtain ⟨merged, hmerged, h⟩ := bind_eq_ok.1 h
  have hprefixes : Absorbs (fun w v => w.same v = true) "prefixes" (members schema "prefixes")
      st.merged merged := @Absorbs.foldlM _ _ _ id _ (fun _ _ _ => mergePrefix_absorbs) _ _ _
        hmerged
  obtain ⟨hothers, hkept, hheld⟩ := mergeSections_spec h
  simp only at hothers hkept
  have hsection : ∀ s, (mergeImports schema merged).lookup (Section.key s) =
      st.merged.lookup s.key := fun s => by
    rw [lookup_mergeImports (by cases s <;> decide),
      hprefixes.others _ (by cases s <;> decide)]
  have hbegins : members st'.merged "prefixes" = members merged "prefixes" := by
    refine members_congr ?_
    rw [hothers _ (fun s _ => by cases s <;> decide), lookup_mergeImports (by decide)]
  refine ⟨schema, hschema, ?_, fun s n v hv => ?_, fun s c hc => hheld s ?_ c hc, ?_, ?_, ?_⟩
  · intro k hk
    have hk' : k ≠ "imports" ∧ k ≠ "prefixes" ∧ ∀ s, k ≠ Section.key s := by
      rcases List.mem_pair.1 hk with rfl | rfl
      · exact ⟨by decide, by decide, fun s => by cases s <;> decide⟩
      · exact ⟨by decide, by decide, fun s => by cases s <;> decide⟩
    rw [hothers k fun s _ => hk'.2.2 s, lookup_mergeImports hk'.1, hprefixes.others k hk'.2.1]
  · refine hkept s n v ?_
    rwa [members_congr (hsection s)]
  · cases s <;> decide
  · rw [hbegins]
    exact hprefixes.kept
  · rw [hbegins]
    exact hprefixes.held
  · rw [hbegins]
    exact hprefixes.origin

end Steps

section Run

variable {base : Source} {basePrefix : Option String}

/-- What a merge of a base with some sources holds. -/
structure Merged (base : Mapping) (basePrefix : Option String) (sources : List Source)
    (merged : Mapping) : Prop where
  texts : ∀ k ∈ ["default_prefix", "default_range"], merged.lookup k = base.lookup k
  held : ∀ source ∈ sources, ∃ schema,
    explicit source basePrefix (text base "default_range") = .ok schema ∧
      (∀ s n v, (members schema (Section.key s)).lookup n = some v → ∃ w,
        (members merged s.key).lookup n = some w ∧
          sameMember s (text base "default_range") w v = true) ∧
      ∀ p v, (members schema "prefixes").lookup p = some v → ∃ w,
        (members merged "prefixes").lookup p = some w ∧ w.same v = true
  origin : ∀ p w, (members merged "prefixes").lookup p = some w → ∃ source ∈ sources, ∃ schema,
    explicit source basePrefix (text base "default_range") = .ok schema ∧
      ((members schema "prefixes").lookup p).isSome = true

theorem Merged.foldlM {name : String} {doc : Mapping} : ∀ {rest done : List Source} {st st' : State},
    Merged doc basePrefix done st.merged →
    rest.foldlM (mergeSource name basePrefix (text doc "default_range")) st = .ok st' →
      Merged doc basePrefix (done ++ rest) st'.merged
  | [], done, st, st', hdone, h => by
    obtain rfl := Except.ok.inj h
    rwa [List.append_nil]
  | source :: rest, done, st, st', hdone, h => by
    rw [List.foldlM_cons, bind_eq_ok] at h
    obtain ⟨next, hnext, hrest⟩ := h
    obtain ⟨schema, hschema, htakes⟩ := mergeSource_takes hnext
    have hnextMerged : Merged doc basePrefix (done ++ [source]) next.merged := by
      refine ⟨fun k hk => (htakes.texts k hk).trans (hdone.texts k hk), fun other hother => ?_,
        fun p w hw => ?_⟩
      · rcases List.mem_append.1 hother with hother | hother
        · obtain ⟨doc', hdoc', hmembers, hprefixes⟩ := hdone.held other hother
          refine ⟨doc', hdoc', fun s n v hv => ?_, fun p v hv => ?_⟩
          · obtain ⟨w, hw, hsame⟩ := hmembers s n v hv
            exact ⟨w, htakes.kept s _ _ hw, hsame⟩
          · obtain ⟨w, hw, hsame⟩ := hprefixes p v hv
            exact ⟨w, htakes.keptPrefix _ _ hw, hsame⟩
        · obtain rfl := List.mem_singleton.1 hother
          exact ⟨schema, hschema, fun s n v hv => htakes.held s _ (Assoc.mem_of_lookup hv),
            fun p v hv => htakes.heldPrefix _ (Assoc.mem_of_lookup hv)⟩
      · rcases htakes.origin p w hw with hw | hw
        · obtain ⟨other, hother, horigin⟩ := hdone.origin p w hw
          exact ⟨other, List.mem_append_left _ hother, horigin⟩
        · exact ⟨source, by simp, schema, hschema,
            Assoc.lookup_isSome_iff.2 (List.mem_map_of_mem hw)⟩
    have hall := Merged.foldlM hnextMerged hrest
    rwa [List.append_assoc] at hall

theorem overMapping_id {f : Mapping → Mapping} (hf : ∀ d, f d = d) (v : Value) :
    overMapping f v = v := by
  cases v <;> simp [overMapping, hf]

theorem written_none (s : Section) (name : String) (v : Value) : written none none s name v = v := by
  have hattribute : ∀ name v, explicitAttribute none none name v = v := fun name v =>
    overMapping_id (fun d => rfl) v
  have hmember : ∀ c, explicitMember none none c name v = v := fun c => by
    refine overMapping_id (fun d => ?_) v
    simp only [fillUri, fillRange, ite_self, overMembers_id hattribute]
  unfold written
  rcases IRI_FIELDS.lookup s with _ | field
  · rfl
  · exact hmember (s, field)

theorem lookup_renamed {name k : String} {doc : Mapping} (hname : k ≠ "name") (hid : k ≠ "id") :
    (renamed name base doc).lookup k = doc.lookup k := by
  have hput : (Assoc.put "name" (.str name) doc).lookup k = doc.lookup k := by
    rw [Assoc.lookup_put, if_neg hname]
  unfold renamed
  simp only
  split
  · split_ifs
    · exact hput
    · rw [Assoc.lookup_put, if_neg hid, hput]
  · exact hput

/-- The base holds its own members as they are. -/
theorem merged_renamed {name : String} {doc : Mapping} (hdoc : mappingOf base = .ok doc)
    (hbegins : defaultPrefix base = .ok basePrefix) :
    Merged doc basePrefix [base] (renamed name base doc) := by
  obtain ⟨schema, hschema⟩ : ∃ schema, explicit base basePrefix (text doc "default_range") =
      .ok schema := by
    unfold explicit
    rw [hdoc]
    simp only [bind, Except.bind, hbegins]
    exact ⟨_, rfl⟩
  obtain ⟨doc', own, hobj, hown, hothers, hmembers⟩ := explicit_eq_ok hschema
  obtain rfl : basePrefix = own := Except.ok.inj (hbegins.symm.trans hown)
  obtain rfl : doc = doc' := Value.obj.inj ((mappingOf_eq_ok.1 hdoc).symm.trans hobj)
  have hsame : ∀ s, members schema (Section.key s) = members doc s.key := fun s => by
    rw [hmembers s]
    have hnone : ∀ o : Option String, (o.filter fun p => decide (some p ≠ o)) = none := fun o => by
      cases o <;> simp
    simp only [hnone, written_none, Prod.mk.eta, List.map_id']
  have hprefixes : members schema "prefixes" = members doc "prefixes" :=
    members_congr (hothers _ fun s => by cases s <;> decide)
  have hkept : ∀ s, members (renamed name base doc) (Section.key s) = members doc s.key := fun s =>
    members_congr (lookup_renamed (by cases s <;> decide) (by cases s <;> decide))
  have hkeptPrefixes : members (renamed name base doc) "prefixes" = members doc "prefixes" :=
    members_congr (lookup_renamed (by decide) (by decide))
  refine ⟨fun k hk => ?_, fun source hsource => ?_, fun p w hw => ?_⟩
  · rcases List.mem_pair.1 hk with rfl | rfl
    · exact lookup_renamed (by decide) (by decide)
    · exact lookup_renamed (by decide) (by decide)
  · obtain rfl := List.mem_singleton.1 hsource
    refine ⟨schema, hschema, fun s n v hv => ⟨v, ?_, sameMember_self v⟩, fun p v hv =>
      ⟨v, ?_, by simp [Value.same]⟩⟩
    · rwa [hkept s, ← hsame s]
    · rwa [hkeptPrefixes, ← hprefixes]
  · refine ⟨base, List.mem_singleton_self _, schema, hschema, ?_⟩
    rw [hprefixes, ← hkeptPrefixes, hw]
    rfl

/-- What an accepted merge holds of its sources. -/
theorem mergeSources_merged {name : String} {sources : List Source} {merged : Mapping}
    (h : mergeSources name sources = .ok merged) :
    ∃ base rest doc basePrefix, sources = base :: rest ∧ base.schema = .obj doc ∧
      defaultPrefix base = .ok basePrefix ∧ Merged doc basePrefix sources merged := by
  rcases sources with _ | ⟨base, rest⟩
  · cases h
  · unfold mergeSources at h
    obtain ⟨doc, hdoc, h⟩ := bind_eq_ok.1 h
    obtain ⟨basePrefix, hbegins, h⟩ := bind_eq_ok.1 h
    obtain ⟨st, hst, h⟩ := bind_eq_ok.1 h
    obtain rfl := Except.ok.inj h
    exact ⟨base, rest, doc, basePrefix, rfl, mappingOf_eq_ok.1 hdoc, hbegins,
      Merged.foldlM (merged_renamed hdoc hbegins) hst⟩

end Run

end JoinedContext.Jcctl.Merge
