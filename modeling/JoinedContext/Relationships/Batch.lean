import JoinedContext.Relationships.Delete

/-!
# A batch delete

Every id is planned on the store as it stands before the batch, and the plans are then applied in
turn. A later plan does not see what an earlier one rewrote, so the steps of all the plans leave a
reference where the steps of one delete would: an instance that names two of the entities gone.
-/

namespace JoinedContext.Relationships

section Deletes

variable (h : HeldDelete) {s : Store} (answers : Answers s)

/-- A plan's steps applied for a root: a step the broker refuses is answered with how far it came. -/
def applied (s : Store) (root : String) (steps : List Unlinking) : Except (Refusal × Store) Store :=
  match s.apply 0 steps with
  | .ok left => .ok left
  | .error (done, left) => .error (.stopped root done steps.length, left)

/-- Runs the rules of a delete of one entity; the entity itself is the forwarded delete's. -/
def HeldDelete.entity (id : String) : Except (Refusal × Store) Store :=
  match h.plan answers id with
  | .ok steps => applied s id steps
  | .error problem => .error (problem, s)

def maxDeleteIds : ℕ := 1000

structure Batch where
  permitted : List Value
  refused : List (String × Refusal)
  plans : List (String × List Unlinking)

def planEntry (b : Batch) (entry : Value) : Except Refusal Batch :=
  match entry.asStr with
  | none => .ok { b with permitted := b.permitted ++ [entry] }
  | some id =>
    match h.plan answers id with
    | .ok steps =>
      .ok { b with permitted := b.permitted ++ [entry], plans := b.plans ++ [(id, steps)] }
    | .error problem =>
      if problem.status = 403 ∨ problem.status = 409 then
        .ok { b with refused := b.refused ++ [(id, problem)] }
      else .error problem

def planAll : List Value → Batch → Except Refusal Batch
  | [], b => .ok b
  | entry :: rest, b => do planAll rest (← planEntry h answers b entry)

def applyAll (s : Store) : List (String × List Unlinking) → Except (Refusal × Store) Store
  | [] => .ok s
  | (id, steps) :: rest => do applyAll (← applied s id steps) rest

/-- The entity id a batch entry names. -/
def batchEntryId (entry : Value) : Option String :=
  entry.asStr <|> (entry.get "id" <|> entry.get "@id").bind Value.asStr

/-- The refusals of a batch, by id, with what other guards refused of it before. -/
abbrev Divided (Problem : Type) := Option (List String × List (String × Problem))

variable {Problem : Type} (answer : Refusal → Problem)

def divide (divided : Divided Problem) (ids : List String) (refused : List (String × Problem))
    (nothingLeft : Bool) : Except (List (String × Problem)) (Divided Problem) :=
  let refused := ((divided.map Prod.snd).getD []) ++ refused
  if nothingLeft then .error refused else .ok (some (ids, refused))

/-- What becomes of a batch: the store left and, unless it is answered here, the entries that are
forwarded. -/
inductive Batched (Problem : Type) where
  | unread
  | tooMany
  | failed (problem : Refusal)
  | stopped (problem : Refusal) (left : Store)
  | nothingLeft (refused : List (String × Problem)) (left : Store)
  | forwarded (permitted : List Value) (rewritten : Bool) (divided : Divided Problem) (left : Store)

/-- Runs the rules of a batch delete per id: an id the rules keep is refused in the batch's answer,
the others go on. -/
def HeldDelete.batch (sent : Option Value) (divided : Divided Problem) : Batched Problem :=
  match sent with
  | some (.arr entries) =>
    if maxDeleteIds < entries.length then .tooMany
    else
      match planAll h answers entries ⟨[], [], []⟩ with
      | .error problem => .failed problem
      | .ok b =>
        match applyAll s b.plans with
        | .error (problem, left) => .stopped problem left
        | .ok left =>
          if b.refused = [] then .forwarded b.permitted false divided left
          else
            match divide divided (b.permitted.filterMap batchEntryId)
                (b.refused.map fun r => (r.1, answer r.2)) b.permitted.isEmpty with
            | .error refused => .nothingLeft refused left
            | .ok divided => .forwarded b.permitted true divided left
  | _ => .unread

end Deletes

section Plans

variable {h : HeldDelete} {s left : Store} {answers : Answers s} {b b' : Batch}

/-- Whether the entry goes on: an id the rules do not keep, or no id at all. -/
def permits (h : HeldDelete) (answers : Answers s) (entry : Value) : Bool :=
  (entry.asStr.map fun id => (h.plan answers id).isOk).getD true

def planned (h : HeldDelete) (answers : Answers s) (entry : Value) :
    Option (String × List Unlinking) :=
  entry.asStr.bind fun id => (h.plan answers id).toOption.map fun steps => (id, steps)

theorem planned_eq_none {entry : Value} (hnot : permits h answers entry = false) :
    planned h answers entry = none := by
  unfold permits at hnot
  unfold planned
  rcases hid : entry.asStr with _ | id
  · rfl
  · rw [hid] at hnot
    rcases hplan : h.plan answers id with problem | steps
    · simp [hplan, Except.toOption]
    · simp [hplan, Except.isOk, Except.toBool] at hnot

theorem planEntry_of_permits {entry : Value} (hpermits : permits h answers entry = true) :
    planEntry h answers b entry = .ok { b with
      permitted := b.permitted ++ [entry],
      plans := b.plans ++ (planned h answers entry).toList } := by
  unfold permits at hpermits
  unfold planEntry planned
  rcases hid : entry.asStr with _ | id
  · simp
  · rw [hid] at hpermits
    rcases hplan : h.plan answers id with problem | steps
    · simp [hplan, Except.isOk, Except.toBool] at hpermits
    · simp [hplan, Except.toOption]

theorem planEntry_of_not_permits {entry : Value} (hnot : permits h answers entry = false)
    (hok : planEntry h answers b entry = .ok b') :
    b'.permitted = b.permitted ∧ b'.plans = b.plans := by
  unfold permits at hnot
  unfold planEntry at hok
  rcases hid : entry.asStr with _ | id
  · simp [hid] at hnot
  · rw [hid] at hnot hok
    rcases hplan : h.plan answers id with problem | steps
    · simp only [hplan] at hok
      split_ifs at hok
      cases hok
      exact ⟨rfl, rfl⟩
    · simp [hplan, Except.isOk, Except.toBool] at hnot

theorem planAll_eq_ok : ∀ {entries : List Value} {b : Batch},
    planAll h answers entries b = .ok b' →
      b'.permitted = b.permitted ++ entries.filter (permits h answers) ∧
        b'.plans = b.plans ++ entries.filterMap (planned h answers)
  | [], b, hok => by
    cases hok
    simp
  | entry :: rest, b, hok => by
    obtain ⟨c, hc, hrest⟩ := bind_eq_ok.1 hok
    obtain ⟨hpermitted, hplans⟩ := planAll_eq_ok hrest
    rcases hpermits : permits h answers entry with _ | _
    · obtain ⟨hsame, hsame'⟩ := planEntry_of_not_permits hpermits hc
      rw [hsame] at hpermitted
      rw [hsame'] at hplans
      rw [List.filter_cons_of_neg (by simp [hpermits]),
        List.filterMap_cons_none (planned_eq_none hpermits)]
      exact ⟨hpermitted, hplans⟩
    · rw [planEntry_of_permits hpermits] at hc
      cases hc
      rw [List.filter_cons_of_pos hpermits]
      refine ⟨by rw [hpermitted, List.append_assoc, List.singleton_append], ?_⟩
      rw [hplans, List.append_assoc, List.filterMap_cons]
      rcases planned h answers entry with _ | plan <;> rfl

theorem planAll_of_permits : ∀ {entries : List Value} (b : Batch),
    (∀ entry ∈ entries, permits h answers entry = true) →
      planAll h answers entries b = .ok { b with
        permitted := b.permitted ++ entries,
        plans := b.plans ++ entries.filterMap (planned h answers) }
  | [], b, _ => by simp [planAll]
  | entry :: rest, b, hpermits => by
    have hrest := fun b => planAll_of_permits b fun e he =>
      hpermits e (List.mem_cons_of_mem _ he)
    unfold planAll
    rw [planEntry_of_permits (hpermits entry List.mem_cons_self)]
    refine (hrest _).trans ?_
    rw [List.filterMap_cons]
    rcases planned h answers entry with _ | plan <;> simp

theorem filterMap_planned_filter (entries : List Value) :
    (entries.filter (permits h answers)).filterMap (planned h answers) =
      entries.filterMap (planned h answers) := by
  rw [List.filterMap_filter]
  refine List.filterMap_congr fun entry _ => ?_
  rcases hpermits : permits h answers entry with _ | _
  · simp [planned_eq_none hpermits]
  · simp

theorem apply_append : ∀ {first rest : List Unlinking} {s mid : Store} {done : ℕ},
    s.apply done first = .ok mid → (∀ n, mid.apply n rest = .ok left) →
      ∀ n, s.apply n (first ++ rest) = .ok left
  | [], rest, s, mid, done, hfirst, hrest, n => by
    cases hfirst
    exact hrest n
  | step :: first, rest, s, mid, done, hfirst, hrest, n => by
    rw [List.cons_append]
    unfold Store.apply at hfirst ⊢
    rcases hsend : s.send step with _ | s' <;> simp only [hsend] at hfirst ⊢
    · split_ifs at hfirst ⊢
      exact apply_append hfirst hrest (n + 1)
    · exact apply_append hfirst hrest (n + 1)

/-- The plans applied in turn are one run of all their steps. -/
theorem apply_of_applyAll : ∀ {plans : List (String × List Unlinking)} {s : Store},
    applyAll s plans = .ok left → ∀ n, s.apply n (plans.flatMap Prod.snd) = .ok left
  | [], s, hok, n => by
    cases hok
    rfl
  | (id, steps) :: rest, s, hok, n => by
    obtain ⟨mid, hmid, hrest⟩ := bind_eq_ok.1 hok
    unfold applied at hmid
    rcases hsteps : s.apply 0 steps with _ | mid' <;> rw [hsteps] at hmid <;> cases hmid
    rw [List.flatMap_cons]
    exact apply_append hsteps (apply_of_applyAll hrest) n

end Plans

section Main

variable {h : HeldDelete} {s left : Store} {answers : Answers s} {Problem : Type}
  {answer : Refusal → Problem} {entries permitted : List Value} {divided divided' : Divided Problem}
  {rewritten : Bool}

/-- What a batch of the entries takes along: what goes with an id that its rules do not keep, the id
included. -/
def BatchDeletes (h : HeldDelete) (answers : Answers s) (entries : List Value) (x : String) : Prop :=
  ∃ root ∈ entries.filterMap Value.asStr,
    (h.plan answers root).isOk = true ∧ GoesWith h.rules s root x

theorem mem_planned {id : String} {steps : List Unlinking} :
    (id, steps) ∈ entries.filterMap (planned h answers) ↔
      id ∈ entries.filterMap Value.asStr ∧ h.plan answers id = .ok steps := by
  simp only [List.mem_filterMap, planned, Option.bind_eq_some_iff, Option.map_eq_some_iff,
    Prod.mk.injEq]
  constructor
  · rintro ⟨entry, hentry, id', hid, steps', hplan, rfl, rfl⟩
    refine ⟨⟨entry, hentry, hid⟩, ?_⟩
    rcases hcase : h.plan answers id' with problem | found <;> rw [hcase] at hplan <;> cases hplan
    rfl
  · rintro ⟨⟨entry, hentry, hid⟩, hplan⟩
    exact ⟨entry, hentry, id, hid, steps, by rw [hplan]; rfl, rfl, rfl⟩

theorem mem_permitted_ids {id : String} :
    id ∈ (entries.filter (permits h answers)).filterMap Value.asStr ↔
      id ∈ entries.filterMap Value.asStr ∧ (h.plan answers id).isOk = true := by
  simp only [List.mem_filterMap, List.mem_filter, permits]
  constructor
  · rintro ⟨entry, ⟨hentry, hpermits⟩, hid⟩
    rw [hid] at hpermits
    exact ⟨⟨entry, hentry, hid⟩, hpermits⟩
  · rintro ⟨⟨entry, hentry, hid⟩, hpermits⟩
    exact ⟨entry, ⟨hentry, by rw [hid]; exact hpermits⟩, hid⟩

/-- The steps of all the plans cover what the batch takes along, and delete all of it but the ids
themselves. -/
theorem covers_of_batch (h : HeldDelete) (answers : Answers s) (entries : List Value) :
    Covers h.rules s (BatchDeletes h answers entries) (BatchDeletes h answers entries)
        ((entries.filterMap (planned h answers)).flatMap Prod.snd) ∧
      ∀ id, .delete id ∈ (entries.filterMap (planned h answers)).flatMap Prod.snd ↔
        ∃ root ∈ entries.filterMap Value.asStr, (h.plan answers root).isOk = true ∧
          GoesWith h.rules s root id ∧ id ≠ root := by
  have hmem : ∀ step, step ∈ (entries.filterMap (planned h answers)).flatMap Prod.snd ↔
      ∃ root ∈ entries.filterMap Value.asStr, ∃ steps, h.plan answers root = .ok steps ∧
        step ∈ steps := by
    intro step
    simp only [List.mem_flatMap, Prod.exists, mem_planned, and_assoc, exists_and_left]
  refine ⟨⟨fun step hstep hedit => ?_, fun e he hstay x hx at_ hpoints step hstep => ?_⟩,
    fun id => ?_⟩
  · obtain ⟨root, hroot, steps, hplan, hstep⟩ := (hmem step).1 hstep
    obtain ⟨x, hx, hfrom⟩ := (covers_of_plan hplan).1.sound step hstep hedit
    exact ⟨x, ⟨root, hroot, isOk_iff.2 ⟨steps, hplan⟩, hx⟩, hfrom⟩
  · obtain ⟨root, hroot, hok, hgoes⟩ := hx
    obtain ⟨steps, hplan⟩ := isOk_iff.1 hok
    have hasks := (covers_of_plan hplan).1.complete e he
      (fun hgoes' => hstay ⟨root, hroot, hok, hgoes'⟩) x hgoes at_ hpoints step hstep
    exact (hmem step).2 ⟨root, hroot, steps, hplan, hasks⟩
  · rw [hmem]
    constructor
    · rintro ⟨root, hroot, steps, hplan, hdelete⟩
      exact ⟨root, hroot, isOk_iff.2 ⟨steps, hplan⟩, ((covers_of_plan hplan).2 id).1 hdelete⟩
    · rintro ⟨root, hroot, hok, hgoes⟩
      obtain ⟨steps, hplan⟩ := isOk_iff.1 hok
      exact ⟨root, hroot, steps, hplan, ((covers_of_plan hplan).2 id).2 hgoes⟩

/-- The entries that go on and the store left, when the rules of every id were run. -/
def Batched.ran : Batched Problem → Option (List Value × Store)
  | .nothingLeft _ left => some ([], left)
  | .forwarded permitted _ _ left => some (permitted, left)
  | _ => none

theorem ran_batch
    (hran : (h.batch answers answer (some (.arr entries)) divided).ran = some (permitted, left)) :
    entries.length ≤ 1000 ∧ permitted = entries.filter (permits h answers) ∧
      applyAll s (entries.filterMap (planned h answers)) = .ok left := by
  unfold HeldDelete.batch at hran
  simp only [] at hran
  split_ifs at hran with hmany
  · cases hran
  rcases hplans : planAll h answers entries ⟨[], [], []⟩ with problem | b <;>
    simp only [hplans] at hran
  · cases hran
  obtain ⟨hpermitted, hplanned⟩ := planAll_eq_ok hplans
  rcases happly : applyAll s b.plans with ⟨problem, left'⟩ | left' <;> simp only [happly] at hran
  · cases hran
  have hsame : permitted = b.permitted ∧ left = left' := by
    split_ifs at hran with hrefused
    · cases hran
      exact ⟨rfl, rfl⟩
    · unfold divide at hran
      rcases hempty : b.permitted.isEmpty with _ | _ <;> simp only [hempty] at hran <;> cases hran
      · exact ⟨rfl, rfl⟩
      · exact ⟨(List.isEmpty_iff.1 hempty).symm, rfl⟩
  obtain ⟨rfl, rfl⟩ := hsame
  simp only [List.nil_append] at hpermitted hplanned
  refine ⟨?_, hpermitted, hplanned ▸ happly⟩
  unfold maxDeleteIds at hmany
  omega

theorem batch_permitted (answer : Refusal → Problem) (hle : entries.length ≤ 1000)
    (happly : applyAll s (entries.filterMap (planned h answers)) = .ok left) :
    h.batch answers answer (some (.arr (entries.filter (permits h answers)))) none =
      .forwarded (entries.filter (permits h answers)) false none left := by
  have hlength : ¬ maxDeleteIds < (entries.filter (permits h answers)).length := by
    have hfilter := List.length_filter_le (permits h answers) entries
    unfold maxDeleteIds
    omega
  have hpermits : ∀ entry ∈ entries.filter (permits h answers), permits h answers entry = true :=
    fun entry he => (List.mem_filter.1 he).2
  have hplans := planAll_of_permits ⟨[], [], []⟩ hpermits
  rw [filterMap_planned_filter] at hplans
  unfold HeldDelete.batch
  simp only [if_neg hlength, hplans, List.nil_append, happly]
  rfl

/-- A batch whose ids are all refused changes nothing, and one that goes on changes what the batch
without its refused ids does. It leaves no dangling reference and no emptied end exactly when each
instance that stays names at most one of all the entities the batch takes along. -/
theorem batch_consistent_iff :
    (∀ {refused left}, h.batch answers answer (some (.arr entries)) divided =
      .nothingLeft refused left → left = s) ∧
    ∀ {permitted rewritten divided' left},
      h.batch answers answer (some (.arr entries)) divided =
          .forwarded permitted rewritten divided' left →
        ((Consistent h.rules s (BatchDeletes h answers entries)
            (left.without (permitted.filterMap Value.asStr)) ∧
          h.batch answers answer (some (.arr permitted)) none =
            .forwarded permitted false none left) ↔
        LeavesNoReference h.rules s (BatchDeletes h answers entries)) := by
  constructor
  · intro refused left hbatch
    obtain ⟨-, hnone, happly⟩ := ran_batch (congrArg Batched.ran hbatch)
    rw [← filterMap_planned_filter, ← hnone] at happly
    cases happly
    rfl
  · intro permitted rewritten divided' left hbatch
    obtain ⟨hle, rfl, happly⟩ := ran_batch (congrArg Batched.ran hbatch)
    have hagain := batch_permitted answer hle happly
    obtain ⟨hcovers, hdeletes⟩ := covers_of_batch h answers entries
    refine (and_iff_left hagain).trans (consistent_iff hcovers (fun id hid => ?_) (fun id hid => ?_)
      (fun id hid => ?_) (apply_of_applyAll happly 0))
    · obtain ⟨root, hroot, hok, hgoes, -⟩ := (hdeletes id).1 hid
      exact ⟨root, hroot, hok, hgoes⟩
    · obtain ⟨hid, hok⟩ := mem_permitted_ids.1 hid
      exact ⟨id, hid, hok, Relation.ReflTransGen.refl⟩
    · obtain ⟨root, hroot, hok, hgoes⟩ := hid
      by_cases heq : id = root
      · exact Or.inr (mem_permitted_ids.2 ⟨heq ▸ hroot, heq ▸ hok⟩)
      · exact Or.inl ((hdeletes id).2 ⟨root, hroot, hok, hgoes, heq⟩)

end Main

section Lamps

/-- Two lamps, and a group that names both in one instance. -/
def paired : Store where
  entities := [linked l1 "Lamp" [], linked l2 "Lamp" [], linked g1 "Group" [("lamps", [l1, l2])]]
  nodup := nodup_lampsAndGroup

/-- Each of the two plans keeps what the other deletes, and the second is applied last. -/
theorem paired_dangling :
    ∃ left, lampDelete.batch paired.answers id (some (.arr [.str l1, .str l2])) none =
        .forwarded [.str l1, .str l2] false none left ∧
      ¬ Consistent lampRules paired
        (BatchDeletes lampDelete paired.answers [.str l1, .str l2]) (left.without [l1, l2]) := by
  have hplanned : [.str l1, .str l2].filterMap (planned lampDelete paired.answers) =
      [(l1, [.rewrite g1 "lamps" none [l2]]), (l2, [.rewrite g1 "lamps" none [l1]])] := by decide
  have hpermitted : [.str l1, .str l2].filter (permits lampDelete paired.answers) =
      [.str l1, .str l2] := by decide
  obtain ⟨left, happly⟩ := isOk_iff.1 (by decide : (applyAll paired
    [(l1, [.rewrite g1 "lamps" none [l2]]), (l2, [.rewrite g1 "lamps" none [l1]])]).isOk = true)
  have hbatch := batch_permitted id (by decide : [.str l1, .str l2].length ≤ 1000)
    (hplanned ▸ happly)
  rw [hpermitted] at hbatch
  refine ⟨left, hbatch, fun hconsistent => ?_⟩
  have hgroup : (linked g1 "Group" [("lamps", [l1, l2])]).run
      [.rewrite g1 "lamps" none [l2], .rewrite g1 "lamps" none [l1]] ∈
        (left.without [l1, l2]).entities := by
    simp only [Store.without, entities_of_apply (apply_of_applyAll happly 0), List.mem_filter,
      List.mem_map]
    exact ⟨⟨_, ⟨List.mem_cons_of_mem _ (List.mem_cons_of_mem _ (List.mem_singleton_self _)),
      by decide⟩, rfl⟩, by decide⟩
  exact hconsistent.noDangling _ hgroup ⟨"Group", "lamps", groupEnd⟩ (by decide) (by decide) l1
    (by decide) ⟨l1, by decide, by decide, Relation.ReflTransGen.refl⟩

/-- A batch that names a lamp twice and the lamp that goes with it. -/
theorem batch_consistent_lamps :
    ∃ left, lampDelete.batch (lamps [l1, l3]).answers id
        (some (.arr [.str l1, .str l2, .str l1])) none =
          .forwarded [.str l1, .str l2, .str l1] false none left ∧
      Consistent lampRules (lamps [l1, l3])
        (BatchDeletes lampDelete (lamps [l1, l3]).answers [.str l1, .str l2, .str l1])
        (left.without [l1, l2, l1]) := by
  have hplanned : [.str l1, .str l2, .str l1].filterMap
      (planned lampDelete (lamps [l1, l3]).answers) =
        [(l1, [.rewrite g1 "lamps" none [l3], .delete l2]), (l2, []),
          (l1, [.rewrite g1 "lamps" none [l3], .delete l2])] := by decide
  have hpermitted : [.str l1, .str l2, .str l1].filter
      (permits lampDelete (lamps [l1, l3]).answers) = [.str l1, .str l2, .str l1] := by decide
  obtain ⟨left, happly⟩ := isOk_iff.1 (by decide : (applyAll (lamps [l1, l3])
    [(l1, [.rewrite g1 "lamps" none [l3], .delete l2]), (l2, []),
      (l1, [.rewrite g1 "lamps" none [l3], .delete l2])]).isOk = true)
  have hbatch := batch_permitted id (by decide : [.str l1, .str l2, .str l1].length ≤ 1000)
    (hplanned ▸ happly)
  rw [hpermitted] at hbatch
  have hroots : ∀ root ∈ [.str l1, .str l2, .str l1].filterMap Value.asStr, root ∈ [l1, l2] := by
    decide
  refine ⟨left, hbatch, ((batch_consistent_iff.2 hbatch).2
    (leavesNoReference_lamps fun x => ⟨?_, fun hx => ?_⟩)).1⟩
  · rintro ⟨root, hroot, -, hgoes⟩
    exact goesWith_lamps.1 ((goesWith_lamps.2 (hroots root hroot)).trans hgoes)
  · exact ⟨l1, by decide, by decide, goesWith_lamps.2 hx⟩

end Lamps

end JoinedContext.Relationships
