import JoinedContext.Fanout.Postings
import JoinedContext.Library.Outcome

/-!
# Where a filter's key comes from

A compiled filter's key is read from its own stored subscription: from a term of its `q`, from its
`geoQ`, or from the types of its selectors. A matcher that accepts a document only if the types and
the terms do accepts only documents that meet the key, but for the two zeros and for the cells.
-/

namespace JoinedContext.Fanout

section Keyed

variable {F : Type} [GridFloat F] (A : Antares F)

/-- The terms a `q` is a conjunction of. -/
def QNode.conjuncts : QNode F → List (QNode F)
  | .and terms => terms
  | .cmp path op value => [.cmp path op value]
  | .other => []

/-- Whether a key may be read from a stored subscription. -/
def Key.From (sub : List (String × Value)) : Key F → Prop
  | .any | .cells _ => True
  | .types tys => ∃ es, sub.lookup "entities" = some (.arr es) ∧ (typesKey (some es) : Key F) =
      .types tys
  | key => ∃ q node, sub.lookup "q" = some (.str q) ∧ A.parseQ (A.percentDecode q) = .ok node ∧
      sub.lookup "expandValues" = none ∧ sub.lookup "jsonKeys" = none ∧ qKey A node = some key

def Filter.Keyed (f : Filter F) : Prop := ∃ sub, f.sub = .obj sub ∧ f.key.From A sub

variable {A}

theorem lookup_setMember {key name : String} {v : Value} {members : List (String × Value)} :
    (setMember key v members).lookup name =
      if name = key then some v else members.lookup name := by
  have hwithout : setMember key v members = Assoc.without key members ++ [(key, v)] := rfl
  rw [hwithout, Assoc.lookup_append_singleton, Assoc.lookup_without]
  split_ifs <;> simp

/-- What a key from a `q` may be. -/
inductive FromTerm (terms : List (String × CmpOp × QValue F)) : Key F → Prop where
  | eq {attr : String} {value : QValue F} {canon : String} (hmem : (attr, .eq, value) ∈ terms)
      (hcanon : canonicalQ value = some canon) : FromTerm terms (.eq attr canon)
  | lower {attr : String} {op : CmpOp} {n : F} (hmem : (attr, op, .num n) ∈ terms)
      (hop : op = .gt ∨ op = .ge) : FromTerm terms (.lower attr n)
  | upper {attr : String} {op : CmpOp} {n : F} (hmem : (attr, op, .num n) ∈ terms)
      (hop : op = .lt ∨ op = .le) : FromTerm terms (.upper attr n)

theorem fromTerm_of_qKeyFrom {all : List (String × CmpOp × QValue F)} {key : Key F}
    (bound : Option (Key F)) (terms : List (String × CmpOp × QValue F))
    (hall : ∀ t ∈ terms, t ∈ all) (hbound : ∀ k, bound = some k → FromTerm all k)
    (h : qKeyFrom bound terms = some key) : FromTerm all key := by
  have hor : ∀ {bound new : Option (Key F)}, (∀ k, bound = some k → FromTerm all k) →
      (∀ k, new = some k → FromTerm all k) → ∀ k, (bound <|> new) = some k → FromTerm all k := by
    intro bound new hbound hnew k hk
    rcases bound with _ | b
    · exact hnew k hk
    · exact hbound k hk
  fun_induction qKeyFrom bound terms with
  | case1 => exact hbound _ h
  | case2 bound attr value rest canon hcanon =>
    cases h
    exact .eq (hall _ List.mem_cons_self) hcanon
  | case3 bound attr value rest hcanon ih | case8 bound head rest _ _ _ _ _ ih =>
    exact ih (fun t ht => hall t (List.mem_cons_of_mem _ ht)) hbound h
  | case4 bound attr n rest ih | case5 bound attr n rest ih =>
    refine ih (fun t ht => hall t (List.mem_cons_of_mem _ ht)) (hor hbound fun k hk => ?_) h
    cases hk
    exact .lower (hall _ List.mem_cons_self) (by simp)
  | case6 bound attr n rest ih | case7 bound attr n rest ih =>
    refine ih (fun t ht => hall t (List.mem_cons_of_mem _ ht)) (hor hbound fun k hk => ?_) h
    cases hk
    exact .upper (hall _ List.mem_cons_self) (by simp)

theorem fromTerm_of_qKey {node : QNode F} {key : Key F} (h : qKey A node = some key) :
    FromTerm (plainTerms A node.conjuncts) key := by
  cases node with
  | and terms | cmp path op value =>
    exact fromTerm_of_qKeyFrom none _ (fun _ ht => ht) (fun _ hk => by cases hk) h
  | other => cases h

theorem from_of_qKey {sub : List (String × Value)} {q : String} {node : QNode F} {key : Key F}
    (hq : sub.lookup "q" = some (.str q)) (hnode : A.parseQ (A.percentDecode q) = .ok node)
    (hvalues : sub.lookup "expandValues" = none) (hjson : sub.lookup "jsonKeys" = none)
    (hkey : qKey A node = some key) : key.From A sub := by
  have hfrom := fromTerm_of_qKey hkey
  cases hfrom <;> exact ⟨q, node, hq, hnode, hvalues, hjson, hkey⟩

theorem from_of_typesKey {sub : List (String × Value)} {entities : Option (List Value)}
    (hentities : ∀ es, entities = some es → sub.lookup "entities" = some (.arr es)) :
    (typesKey entities : Key F).From A sub := by
  rcases hkey : (typesKey entities : Key F) with _ | tys | _ | _ | _ | _
  · trivial
  · rcases entities with _ | es
    · cases hkey
    · exact ⟨es, hentities es rfl, hkey⟩
  all_goals
    rcases entities with _ | es
    · cases hkey
    · unfold typesKey at hkey
      dsimp only at hkey
      split_ifs at hkey

theorem from_of_geoKey {sub : List (String × Value)} {geo : GeoQuery F} {key : Key F}
    (h : geoKey A geo = some key) : key.From A sub := by
  unfold geoKey at h
  obtain ⟨-, -, h⟩ := Option.bind_eq_some_iff.1 h
  extract_lets afterReach at h
  have hcells : ∀ reach, afterReach reach = some key → key.From A sub := by
    intro reach hreach
    obtain ⟨⟨w, s, e, n⟩, -, hbox⟩ := Option.bind_eq_some_iff.1 hreach
    obtain ⟨found, -, hfound⟩ := Option.bind_eq_some_iff.1 hbox
    cases hfound
    trivial
  split at h <;>
    obtain ⟨reach, -, hreach⟩ := Option.bind_eq_some_iff.1 h <;>
    exact hcells reach hreach

/-- The key of a compiled filter is read from the subscription it keeps. -/
theorem keyed_compile (body : Value) : Ensures (compile A body) fun f => f.Keyed A := by
  unfold compile
  split
  · next members hobj =>
    extract_lets afterEntities afterEndpoint afterType
    have hentities : ∀ entities, Ensures (afterEntities entities) fun f => f.Keyed A := by
      intro entities
      dsimp -zeta only [afterEntities]
      extract_lets sub coerced afterWatched
      have hsub : ∀ es, entities = some es → sub.lookup "entities" = some (.arr es) := by
        rintro es rfl
        exact lookup_setMember.trans (if_pos rfl)
      have hwatched : ∀ watched, Ensures (afterWatched watched) fun f => f.Keyed A := by
        intro watched
        dsimp -zeta only [afterWatched]
        extract_lets afterQ afterThrottling afterAttributes afterNamed
        have hq : ∀ q, (∀ node, q = some node → ∃ text, sub.lookup "q" = some (.str text) ∧
            A.parseQ (A.percentDecode text) = .ok node) →
              Ensures (afterQ q) fun f => f.Keyed A := by
          intro q hnode
          dsimp -zeta only [afterQ]
          extract_lets afterGeo
          have hgeo : ∀ geo, Ensures (afterGeo geo) fun f => f.Keyed A := by
            intro geo
            refine .pure ⟨sub, rfl, ?_⟩
            show ((((q.filter fun _ => !coerced).bind (qKey A)) <|> geo.bind (geoKey A)).getD
              (typesKey entities)).From A sub
            rcases hkey : (q.filter fun _ => !coerced).bind (qKey A) with _ | key
            · rcases hcells : geo.bind (geoKey A) with _ | key
              · exact from_of_typesKey hsub
              · obtain ⟨g, -, hg⟩ := Option.bind_eq_some_iff.1 hcells
                exact from_of_geoKey hg
            · obtain ⟨node, hfilter, hqkey⟩ := Option.bind_eq_some_iff.1 hkey
              obtain ⟨rfl, huncoerced⟩ := Option.filter_eq_some_iff.1 hfilter
              obtain ⟨text, htext, hparse⟩ := hnode node rfl
              simp only [coerced, Bool.not_or, Bool.and_eq_true, Bool.not_eq_true',
                Option.isSome_eq_false_iff, Option.isNone_iff_eq_none] at huncoerced
              exact from_of_qKey htext hparse huncoerced.1 huncoerced.2 hqkey
          split
          · exact (Ensures.any _).bind fun geo _ => hgeo geo
          · split <;> exact (Ensures.any _).bind fun geo _ => hgeo geo
          · exact (Ensures.any _).bind fun geo _ => hgeo geo
        have hthrottling : ∀ r, Ensures (afterThrottling r) fun f => f.Keyed A := by
          intro r
          dsimp only [afterThrottling]
          split
          · refine Ensures.bind (Q := fun q => q = none) (.pure rfl) fun q hqnone => hq q ?_
            simp [hqnone]
          · next text htext =>
            split
            · exact (Ensures.throw _).bind fun q (hnone : False) => hnone.elim
            · next node hnode =>
              refine .ite (fun _ => (Ensures.throw _).bind fun q (hnone : False) => hnone.elim)
                fun _ => Ensures.bind (Q := fun q => q = some node) (.pure rfl) fun q hqnode =>
                  hq q fun node' hsome => ⟨text, htext, ?_⟩
              rw [hqnode] at hsome
              exact Option.some.inj hsome ▸ hnode
          · exact (Ensures.throw _).bind fun q (hnone : False) => hnone.elim
        have hattributes : ∀ r, Ensures (afterAttributes r) fun f => f.Keyed A := by
          intro r
          dsimp only [afterAttributes]
          split
          · exact hthrottling ()
          · exact .ite (fun _ => hthrottling ()) fun _ => (Ensures.any _).bind fun r _ => hthrottling r
        have hnamed : ∀ r, Ensures (afterNamed r) fun f => f.Keyed A := by
          intro r
          dsimp only [afterNamed]
          split
          · exact hattributes ()
          · exact (Ensures.any _).bind fun r _ => hattributes r
        exact .ite (fun _ => (Ensures.any _).bind fun r _ => hnamed r) fun _ => hnamed ()
      split <;> exact (Ensures.any _).bind fun watched _ => hwatched watched
    have hendpoint : ∀ r, Ensures (afterEndpoint r) fun f => f.Keyed A := by
      intro r
      dsimp only [afterEndpoint]
      split <;> exact (Ensures.any _).bind fun entities _ => hentities entities
    have htype : ∀ r, Ensures (afterType r) fun f => f.Keyed A := fun r =>
      .ite (fun _ => (Ensures.any _).bind fun r _ => hendpoint r) fun _ => hendpoint ()
    exact .ite (fun _ => (Ensures.any _).bind fun r _ => htype r) fun _ => htype ()
  · exact .throw _

theorem Key.From.congr {sub sub' : List (String × Value)} {key : Key F} (h : key.From A sub)
    (hlookup : ∀ name ∈ ["entities", "q", "expandValues", "jsonKeys"],
      sub'.lookup name = sub.lookup name) : key.From A sub' := by
  have hentities := hlookup "entities" (by simp)
  have hq := hlookup "q" (by simp)
  have hvalues := hlookup "expandValues" (by simp)
  have hjson := hlookup "jsonKeys" (by simp)
  cases key with
  | any | cells => trivial
  | types tys =>
    obtain ⟨es, hes, hkey⟩ := h
    exact ⟨es, hentities.trans hes, hkey⟩
  | eq | lower | upper =>
    obtain ⟨q, node, htext, hnode, hvalues', hjson', hkey⟩ := h
    exact ⟨q, node, hq.trans htext, hnode, hvalues.trans hvalues', hjson.trans hjson', hkey⟩

theorem Filter.Keyed.sent {f : Filter F} (h : f.Keyed A) (now : Instant) : (f.sent A now).Keyed A := by
  obtain ⟨sub, hsub, hfrom⟩ := h
  unfold Filter.sent
  simp only [hsub]
  split
  · refine ⟨_, rfl, hfrom.congr fun name hname => ?_⟩
    rw [lookup_setMember, if_neg]
    rintro rfl
    simp at hname
  · exact ⟨sub, hsub, hfrom⟩

end Keyed

end JoinedContext.Fanout
