import JoinedContext.Relationships.Plan

/-!
# What a plan consists of

A plan that is not refused deletes, farthest first, what the root reaches through the ends that
cascade, in breadth-first order; and it holds, for every entity that stays, the steps its end's rule
asks for on each target that goes.
-/

namespace JoinedContext.Relationships

section Reads

variable {s : Store} {answers : Answers s} {at_ : Referencing} {id : String}

theorem pointingFrom_eq_ok : ∀ {pages : ℕ} {all found : List Entity},
    pointingFrom answers at_ id pages all = .ok found →
    all = (answers.all at_.className at_.slot id).take all.length → all.length ≤ 500 →
    500 < 100 * pages + all.length → found = answers.all at_.className at_.slot id
  | 0, all, found, h, htake, hle, hlt => by omega
  | pages + 1, all, found, h, htake, hle, hlt => by
    unfold pointingFrom storing at h
    split_ifs at h with hquote
    · cases h
    · simp only [pointingPerRead, reachedPerDelete, bind, Except.bind, pure, Except.pure,
        List.length_append] at h
      have happend : all ++ ((answers.all at_.className at_.slot id).drop all.length).take 100 =
          (answers.all at_.className at_.slot id).take (all.length + 100) := by
        rw [List.take_add, ← htake]
      rw [happend, List.length_take, List.length_drop] at h
      split_ifs at h with hshort hmany
      · cases h
        exact List.take_of_length_le (by omega)
      · have hlength : ((answers.all at_.className at_.slot id).take (all.length + 100)).length =
            all.length + 100 := by
          rw [List.length_take]
          omega
        refine pointingFrom_eq_ok h ?_ ?_ ?_ <;> rw [hlength]
        · omega
        · omega

/-- The pages together are everything the broker answers. -/
theorem pointing_eq_ok {found : List Entity} (h : pointing answers at_ id = .ok found) :
    found = answers.all at_.className at_.slot id := by
  refine pointingFrom_eq_ok h (by simp) (by simp) ?_
  decide

end Reads

section Steps

/-- Whether an end takes the entity that stores it along. -/
def StoredEnd.cascades (storedEnd : StoredEnd) : Bool :=
  storedEnd.onDelete == .cascade && !storedEnd.many

def unlinkSteps (e : Entity) (at_ : Referencing) (id : String) : List Unlinking :=
  stepsOf e.id at_.slot (unlink (e.answer at_.slot) at_.slot at_.storedEnd id)

def Progress.touched (id : String) (p : Progress) (r : Referencing × Entity) : Progress :=
  if r.2.id ∈ p.going then p
  else if r.1.storedEnd.cascades then
    { p with
      going := insert r.2.id p.going, queue := p.queue ++ [r.2.id],
      deleted := p.deleted ++ [r.2.id] }
  else { p with edits := p.edits ++ unlinkSteps r.2 r.1 id }

theorem cascades_iff {storedEnd : StoredEnd} :
    storedEnd.cascades = true ↔ storedEnd.onDelete = .cascade ∧ storedEnd.many = false := by
  simp [StoredEnd.cascades]

variable {h : HeldDelete} {root id : String} {at_ : Referencing} {found : List Entity}
  {p p' : Progress}

theorem within_eq_ok (hok : HeldDelete.within root p = .ok p') :
    p' = p ∧ p.going.card ≤ 500 := by
  unfold HeldDelete.within reachedPerDelete at hok
  split_ifs at hok with hlt
  cases hok
  exact ⟨rfl, by omega⟩

/-- What touching an entity does when nothing refuses it. -/
theorem touch_eq_ok {e : Entity} (hok : h.touch root id at_ found p e = .ok p') :
    p' = p.touched id (at_, e) ∧ (p.going.card ≤ 500 → p'.going.card ≤ 500) := by
  unfold HeldDelete.touch at hok
  unfold Progress.touched
  split_ifs at hok with hgoing
  · cases hok
    exact ⟨by rw [if_pos hgoing], fun hle => hle⟩
  rw [if_neg hgoing]
  have hcascades : unlink (e.answer at_.slot) at_.slot at_.storedEnd id = .deleteEntity ↔
      at_.storedEnd.cascades = true := unlink_eq_deleteEntity.trans cascades_iff.symm
  simp only [unlinkSteps]
  rcases hunlink : unlink (e.answer at_.slot) at_.slot at_.storedEnd id with
    _ | _ | _ | ⟨removed, rewritten⟩ <;>
    rw [hunlink] at hcascades hok <;> simp only [] at hok
  · cases hok
  · obtain ⟨-, -, hok⟩ := bind_eq_ok.1 hok
    obtain ⟨rfl, hle⟩ := within_eq_ok hok
    rw [if_pos (hcascades.1 rfl)]
    exact ⟨rfl, fun _ => hle⟩
  · obtain ⟨-, -, hok⟩ := bind_eq_ok.1 hok
    obtain ⟨rfl, hle⟩ := within_eq_ok hok
    rw [if_neg fun hc => nomatch hcascades.2 hc]
    exact ⟨rfl, fun _ => hle⟩
  · have hwithin : HeldDelete.within root { p with
        edits := p.edits ++ stepsOf e.id at_.slot (.instances removed rewritten) } = .ok p' := by
      split_ifs at hok
      · obtain ⟨-, -, hok⟩ := bind_eq_ok.1 hok
        obtain ⟨-, -, hok⟩ := bind_eq_ok.1 hok
        exact hok
      · obtain ⟨-, -, hok⟩ := bind_eq_ok.1 hok
        exact hok
      · obtain ⟨-, -, hok⟩ := bind_eq_ok.1 hok
        exact hok
      · exact hok
    obtain ⟨rfl, hle⟩ := within_eq_ok hwithin
    rw [if_neg fun hc => nomatch hcascades.2 hc]
    exact ⟨rfl, fun _ => hle⟩

theorem touchAll_eq_ok : ∀ {es : List Entity} {p p' : Progress},
    h.touchAll root id at_ found es p = .ok p' →
      p' = (es.map fun e => (at_, e)).foldl (Progress.touched id) p ∧
        (p.going.card ≤ 500 → p'.going.card ≤ 500)
  | [], p, p', hok => by
    cases hok
    exact ⟨rfl, fun hle => hle⟩
  | e :: rest, p, p', hok => by
    obtain ⟨q, hq, hrest⟩ := bind_eq_ok.1 hok
    obtain ⟨rfl, hle⟩ := touch_eq_ok hq
    obtain ⟨rfl, hle'⟩ := touchAll_eq_ok hrest
    exact ⟨rfl, fun h => hle' (hle h)⟩

variable {s : Store} {answers : Answers s}

/-- The entities the ends point from, in the order they are touched. -/
def pointers (answers : Answers s) (ends : List Referencing) (id : String) :
    List (Referencing × Entity) :=
  ends.flatMap fun at_ => (answers.all at_.className at_.slot id).map fun e => (at_, e)

theorem visitEnds_eq_ok : ∀ {ends : List Referencing} {p p' : Progress},
    h.visitEnds answers root id ends p = .ok p' →
      p' = (pointers answers ends id).foldl (Progress.touched id) p ∧
        (p.going.card ≤ 500 → p'.going.card ≤ 500)
  | [], p, p', hok => by
    cases hok
    exact ⟨rfl, fun hle => hle⟩
  | at_ :: rest, p, p', hok => by
    obtain ⟨found, hfound, hok⟩ := bind_eq_ok.1 hok
    obtain ⟨q, hq, hrest⟩ := bind_eq_ok.1 hok
    obtain ⟨rfl, hle⟩ := touchAll_eq_ok hq
    obtain ⟨rfl, hle'⟩ := visitEnds_eq_ok hrest
    rw [pointing_eq_ok hfound] at hle hle' ⊢
    refine ⟨?_, fun h => hle' (hle h)⟩
    have hsplit : pointers answers (at_ :: rest) id =
        (answers.all at_.className at_.slot id).map (fun e => (at_, e)) ++
          pointers answers rest id := List.flatMap_cons
    rw [hsplit, List.foldl_append]

end Steps

section Fold

variable {id root : String}

def goes (pointers : List (Referencing × Entity)) : List String :=
  (pointers.filter fun r => r.1.storedEnd.cascades).map fun r => r.2.id

theorem goes_cons_of_pos {r : Referencing × Entity} {l : List (Referencing × Entity)}
    (h : r.1.storedEnd.cascades = true) : goes (r :: l) = r.2.id :: goes l := by
  simp [goes, h]

theorem goes_cons_of_neg {r : Referencing × Entity} {l : List (Referencing × Entity)}
    (h : ¬ r.1.storedEnd.cascades = true) : goes (r :: l) = goes l := by
  simp [goes, h]

theorem going_touched (p : Progress) (r : Referencing × Entity) :
    p.going ⊆ (p.touched id r).going := by
  unfold Progress.touched
  split_ifs
  · exact subset_rfl
  · exact Finset.subset_insert _ _
  · exact subset_rfl

theorem going_foldl : ∀ (l : List (Referencing × Entity)) (p : Progress),
    p.going ⊆ (l.foldl (Progress.touched id) p).going
  | [], _ => subset_rfl
  | r :: l, p => (going_touched p r).trans (going_foldl l _)

/-- The entities that go are put at the end of the queue, each once. -/
theorem foldl_touched (root : String) : ∀ (l : List (Referencing × Entity)) {p : Progress},
    (∀ a, a ∈ p.going ↔ a ∈ root :: p.deleted) →
      (l.foldl (Progress.touched id) p).deleted =
          p.deleted ++ Search.fresh (root :: p.deleted) (goes l) ∧
        (l.foldl (Progress.touched id) p).queue =
          p.queue ++ Search.fresh (root :: p.deleted) (goes l) ∧
        ∀ a, a ∈ (l.foldl (Progress.touched id) p).going ↔
          a ∈ root :: (l.foldl (Progress.touched id) p).deleted
  | [], p, hknown => ⟨(List.append_nil _).symm, (List.append_nil _).symm, hknown⟩
  | r :: l, p, hknown => by
    rw [List.foldl_cons]
    by_cases hgoing : r.2.id ∈ p.going
    · have hsame : p.touched id r = p := if_pos hgoing
      have hfresh : Search.fresh (root :: p.deleted) (goes (r :: l)) =
          Search.fresh (root :: p.deleted) (goes l) := by
        by_cases hcascades : r.1.storedEnd.cascades = true
        · rw [goes_cons_of_pos hcascades, Search.fresh_of_mem ((hknown _).1 hgoing)]
        · rw [goes_cons_of_neg hcascades]
      rw [hsame, hfresh]
      exact foldl_touched root l hknown
    · by_cases hcascades : r.1.storedEnd.cascades = true
      · have hadds : p.touched id r = { p with
            going := insert r.2.id p.going, queue := p.queue ++ [r.2.id],
            deleted := p.deleted ++ [r.2.id] } := by
          rw [Progress.touched, if_neg hgoing, if_pos hcascades]
        have hfresh : Search.fresh (root :: p.deleted) (goes (r :: l)) =
            r.2.id :: Search.fresh (root :: (p.deleted ++ [r.2.id])) (goes l) := by
          rw [goes_cons_of_pos hcascades,
            Search.fresh_of_notMem fun hmem => hgoing ((hknown _).2 hmem)]
          rfl
        have hrest := foldl_touched root l (p := p.touched id r) fun a => by
          rw [hadds, Finset.mem_insert, hknown, ← List.cons_append, List.mem_append,
            List.mem_singleton, or_comm]
        rw [hfresh]
        rw [hadds] at hrest ⊢
        simpa only [List.append_assoc, List.singleton_append] using hrest
      · have hedits : p.touched id r = { p with edits := p.edits ++ unlinkSteps r.2 r.1 id } := by
          rw [Progress.touched, if_neg hgoing, if_neg hcascades]
        rw [goes_cons_of_neg hcascades, hedits]
        exact foldl_touched root l (p := { p with edits := p.edits ++ unlinkSteps r.2 r.1 id }) hknown

theorem edits_touched (id : String) (p : Progress) (r : Referencing × Entity) :
    ∃ new, (p.touched id r).edits = p.edits ++ new ∧
      (∀ step ∈ new, r.2.id ∉ p.going ∧ step ∈ unlinkSteps r.2 r.1 id) ∧
      (r.2.id ∉ (p.touched id r).going → unlinkSteps r.2 r.1 id ⊆ new) := by
  unfold Progress.touched
  split_ifs with hgoing hcascades
  · exact ⟨[], (List.append_nil _).symm, by simp, fun hnot => absurd hgoing hnot⟩
  · exact ⟨[], (List.append_nil _).symm, by simp,
      fun hnot => absurd (Finset.mem_insert_self _ _) hnot⟩
  · exact ⟨_, rfl, fun step hstep => ⟨hgoing, hstep⟩, fun _ => List.Subset.refl _⟩

/-- The edits of one visit are of entities that do not go yet, and an entity that stays is given
every step its end asks for. -/
theorem edits_foldl (id : String) : ∀ (l : List (Referencing × Entity)) (p : Progress),
    ∃ new, (l.foldl (Progress.touched id) p).edits = p.edits ++ new ∧
      (∀ step ∈ new, ∃ r ∈ l, r.2.id ∉ p.going ∧ step ∈ unlinkSteps r.2 r.1 id) ∧
      ∀ r ∈ l, r.2.id ∉ (l.foldl (Progress.touched id) p).going → unlinkSteps r.2 r.1 id ⊆ new
  | [], p => ⟨[], (List.append_nil _).symm, by simp, by simp⟩
  | r :: l, p => by
    obtain ⟨here, hhere, hsound, hcomplete⟩ := edits_touched id p r
    obtain ⟨rest, hrest, hsounds, hcompletes⟩ := edits_foldl id l (p.touched id r)
    refine ⟨here ++ rest, ?_, fun step hstep => ?_, fun r' hr' hstays => ?_⟩
    · rw [List.foldl_cons, hrest, hhere, List.append_assoc]
    · rcases List.mem_append.1 hstep with hstep | hstep
      · exact ⟨r, List.mem_cons_self, hsound step hstep⟩
      · obtain ⟨r', hr', hgoing, hasks⟩ := hsounds step hstep
        exact ⟨r', List.mem_cons_of_mem _ hr', fun hmem => hgoing (going_touched p r hmem), hasks⟩
    · rcases List.mem_cons.1 hr' with rfl | hr'
      · have hnot : r'.2.id ∉ (p.touched id r').going := fun hmem =>
          hstays (going_foldl l _ hmem)
        exact List.subset_append_of_subset_left _ (hcomplete hnot)
      · exact List.subset_append_of_subset_right _ (hcompletes r' hr' hstays)

end Fold

section Walk

variable (h : HeldDelete) {s : Store} (answers : Answers s) (root : String)

/-- What points at an id, in the order it is touched. -/
def HeldDelete.reaches (id : String) : List (Referencing × Entity) :=
  pointers answers (h.rules.referencingId id) id

def HeldDelete.next (id : String) : List String := goes (h.reaches answers id)

/-- Whether the steps are what the ends ask for at the visits: each is of an entity not among those
seen before them, and an entity not in the order is given every one. -/
structure Asked (order seen visited : List String) (edits : List Unlinking) : Prop where
  sound : ∀ step ∈ edits, ∃ x ∈ visited, ∃ r ∈ h.reaches answers x,
    r.2.id ∉ seen ∧ step ∈ unlinkSteps r.2 r.1 x
  complete : ∀ x ∈ visited, ∀ r ∈ h.reaches answers x, r.2.id ∉ order →
    unlinkSteps r.2 r.1 x ⊆ edits

/-- A walk between two visits: what it goes through is known, and its edits fall apart as the visits
do. -/
structure Walked (done : List String) (p : Progress) : Prop where
  known : ∀ a, a ∈ p.going ↔ a ∈ root :: p.deleted
  split : root :: p.deleted = done ++ p.queue
  nodup : (root :: p.deleted).Nodup
  parts : ∀ before after, done = before ++ after → ∃ first rest, p.edits = first ++ rest ∧
    Asked h answers (root :: p.deleted) [] before first ∧
    Asked h answers (root :: p.deleted) before after rest

variable {h answers root} {done queue : List String} {id : String} {p p' : Progress}

theorem Asked.nil {order seen : List String} : Asked h answers order seen [] [] :=
  ⟨fun _ hstep => (nomatch hstep), fun _ hx => (nomatch hx)⟩

theorem Asked.mono {order order' seen visited : List String} {edits : List Unlinking}
    (hasked : Asked h answers order seen visited edits) (hsub : order ⊆ order') :
    Asked h answers order' seen visited edits :=
  ⟨hasked.sound, fun x hx r hr hstays => hasked.complete x hx r hr fun hmem => hstays (hsub hmem)⟩

theorem Asked.append {order seen seen' visited visited' : List String}
    {edits edits' : List Unlinking} (hasked : Asked h answers order seen visited edits)
    (hasked' : Asked h answers order seen' visited' edits') (hsub : seen ⊆ seen') :
    Asked h answers order seen (visited ++ visited') (edits ++ edits') := by
  refine ⟨fun step hstep => ?_, fun x hx r hr hstays => ?_⟩
  · rcases List.mem_append.1 hstep with hstep | hstep
    · obtain ⟨x, hx, hfrom⟩ := hasked.sound step hstep
      exact ⟨x, List.mem_append_left _ hx, hfrom⟩
    · obtain ⟨x, hx, r, hr, hseen, hfrom⟩ := hasked'.sound step hstep
      exact ⟨x, List.mem_append_right _ hx, r, hr, fun hmem => hseen (hsub hmem), hfrom⟩
  · rcases List.mem_append.1 hx with hx | hx
    · exact List.subset_append_of_subset_left _ (hasked.complete x hx r hr hstays)
    · exact List.subset_append_of_subset_right _ (hasked'.complete x hx r hr hstays)

theorem Walked.step (hw : Walked h answers root done p) (hqueue : p.queue = id :: queue)
    (hp' : p' = (h.reaches answers id).foldl (Progress.touched id) { p with queue := queue }) :
    Walked h answers root (done ++ [id]) p' ∧
      p'.queue = queue ++ Search.fresh (done ++ id :: queue) (h.next answers id) := by
  obtain ⟨hdeleted, hrest, hknown⟩ :=
    foldl_touched root (h.reaches answers id) (p := { p with queue := queue }) hw.known
  obtain ⟨new, hnew, hsound, hcomplete⟩ :=
    edits_foldl id (h.reaches answers id) { p with queue := queue }
  have hsplit : root :: p.deleted = done ++ id :: queue := hqueue ▸ hw.split
  simp only [hsplit] at hdeleted hrest
  rw [← hp'] at hdeleted hrest hknown hnew hcomplete
  have hsub : root :: p.deleted ⊆ root :: p'.deleted := by
    rw [hdeleted, ← List.cons_append]
    exact List.subset_append_left _ _
  have hhere : Asked h answers (root :: p'.deleted) done [id] new := by
    refine ⟨fun step hstep => ?_, fun x hx r hr hstays => ?_⟩
    · obtain ⟨r, hr, hgoing, hasks⟩ := hsound step hstep
      refine ⟨id, List.mem_singleton_self id, r, hr, fun hmem => hgoing ?_, hasks⟩
      exact (hw.known _).2 (hsplit ▸ List.mem_append_left _ hmem)
    · obtain rfl := List.mem_singleton.1 hx
      exact hcomplete r hr fun hmem => hstays ((hknown _).1 hmem)
  refine ⟨⟨hknown, ?_, ?_, fun before after hparts => ?_⟩, hrest⟩
  · rw [hdeleted, hrest, ← List.cons_append, hsplit]
    simp [List.append_assoc]
  · rw [hdeleted, ← List.cons_append, hsplit]
    exact Search.nodup_append_fresh (hsplit ▸ hw.nodup)
  · rcases List.eq_nil_or_concat' after with rfl | ⟨after, last, rfl⟩
    · rw [List.append_nil] at hparts
      obtain ⟨first, rest, hedits, hfirst, hrest⟩ := hw.parts done [] (List.append_nil _).symm
      refine ⟨p'.edits, [], (List.append_nil _).symm, ?_, Asked.nil⟩
      have hnil : rest = [] := List.eq_nil_iff_forall_not_mem.2 fun step hstep => by
        obtain ⟨x, hx, -⟩ := hrest.sound step hstep
        cases hx
      rw [hnil, List.append_nil] at hedits
      rw [← hparts, hnew, hedits]
      exact (hfirst.mono hsub).append hhere (List.nil_subset _)
    · rw [← List.append_assoc, List.append_singleton_inj] at hparts
      obtain ⟨hdone, rfl⟩ := hparts
      obtain ⟨first, rest, hedits, hfirst, hrest⟩ := hw.parts before after hdone
      refine ⟨first, rest ++ new, ?_, hfirst.mono hsub, (hrest.mono hsub).append hhere ?_⟩
      · rw [hnew, hedits, List.append_assoc]
      · rw [hdone]
        exact List.subset_append_left _ _

theorem Walked.length_le (hw : Walked h answers root done p) : done.length ≤ p.going.card := by
  have hcard : p.going = (root :: p.deleted).toFinset := by
    ext a
    rw [hw.known, List.mem_toFinset]
  rw [hcard, List.toFinset_card_of_nodup hw.nodup, hw.split, List.length_append]
  omega

/-- The fuel is enough: every id worked off goes, and no more than the limit go. -/
theorem walk_eq_ok : ∀ {fuel : ℕ} {done : List String} {p : Progress},
    h.walk answers root fuel p = .ok p' → Walked h answers root done p → p.going.card ≤ 500 →
    done.length + fuel = 501 →
      Search.visit (h.next answers) fuel done p.queue = some (root :: p'.deleted) ∧
        Walked h answers root (root :: p'.deleted) p'
  | 0, done, p, _, hw, hcard, hfuel => by
    have hlength := hw.length_le
    omega
  | fuel + 1, done, p, hok, hw, hcard, hfuel => by
    unfold HeldDelete.walk at hok
    rcases hqueue : p.queue with _ | ⟨id, queue⟩ <;> rw [hqueue] at hok
    · cases hok
      have hdone : root :: p'.deleted = done := by
        rw [hw.split, hqueue, List.append_nil]
      refine ⟨?_, hdone ▸ hw⟩
      rw [hdone]
      rfl
    · obtain ⟨q, hq, hrest⟩ := bind_eq_ok.1 hok
      obtain ⟨hq', hle⟩ := visitEnds_eq_ok hq
      obtain ⟨hwalked, hqueue'⟩ := hw.step hqueue hq'
      have hnext := walk_eq_ok hrest hwalked (hle hcard) (by
        rw [List.length_append, List.length_singleton]
        omega)
      rw [hqueue'] at hnext
      exact hnext

/-- What a plan consists of: the edits, which fall apart as the breadth-first order does, then the
entities that go with the root, in the reverse of that order. -/
theorem plan_eq_ok {steps : List Unlinking} (hok : h.plan answers root = .ok steps) :
    ∃ order edits, Search.visit (h.next answers) 501 [] [root] = some order ∧
      steps = edits ++ order.tail.reverse.map Unlinking.delete ∧
      ∀ before after, order = before ++ after → ∃ first rest, edits = first ++ rest ∧
        Asked h answers order [] before first ∧ Asked h answers order before after rest := by
  unfold HeldDelete.plan at hok
  obtain ⟨p, hp, hok⟩ := bind_eq_ok.1 hok
  have hstart : Walked h answers root [] ⟨[], [], {root}, [root]⟩ := by
    refine ⟨by simp, rfl, List.nodup_singleton root, fun before after hparts => ?_⟩
    obtain ⟨rfl, rfl⟩ := List.append_eq_nil_iff.1 hparts.symm
    exact ⟨[], [], rfl, Asked.nil, Asked.nil⟩
  obtain ⟨hvisit, hwalked⟩ := walk_eq_ok hp hstart (by simp) rfl
  have hsteps : steps = p.edits ++ p.deleted.reverse.map Unlinking.delete := by
    simp only [] at hok
    split_ifs at hok
    · obtain ⟨-, -, hok⟩ := bind_eq_ok.1 hok
      cases hok
      rfl
    · cases hok
      rfl
  exact ⟨root :: p.deleted, p.edits, hvisit, hsteps, hwalked.parts⟩

end Walk

end JoinedContext.Relationships
