import JoinedContext.Relationships.Delete

/-!
# A delete that stops part way

The deletes come after the edits, farthest first: in the reverse of the breadth-first order. A stop
part way leaves no reference to an entity already gone exactly where no entity names one that comes
after it in that order, which a breadth-first order does not promise.
-/

namespace JoinedContext.Relationships

section Statement

variable (rules : RelationshipRules) (s : Store)

/-- Whether a stored end of `y` names `z`. -/
def Names (y z : String) : Prop :=
  ∃ e ∈ s.entities, e.id = y ∧ ∃ at_ ∈ rules.ends, at_.className ∈ e.types ∧ z ∈ e.names at_.slot

def Acyclic : Prop := ∀ y, ¬ Relation.TransGen (Names rules s) y y

/-- A single end names one target in all, as every write through the gateway leaves it. -/
def SingleEnds : Prop :=
  ∀ e ∈ s.entities, ∀ at_ ∈ rules.ends, at_.className ∈ e.types → at_.storedEnd.many = false →
    ∀ x ∈ e.names at_.slot, ∀ z ∈ e.names at_.slot, x = z

/-- However many of the steps are made, no entity left names one they deleted. -/
def PrefixConsistent (steps : List Unlinking) : Prop :=
  ∀ n left, s.apply 0 (steps.take n) = .ok left → ∀ e ∈ left.entities, ∀ at_ ∈ rules.ends,
    at_.className ∈ e.types → ∀ z ∈ e.names at_.slot, .delete z ∉ steps.take n

variable (h : HeldDelete) {s} (answers : Answers s) (root : String)

/-- The ids a delete of the root works off, breadth first. -/
def HeldDelete.visited : List String :=
  (Search.visit (h.next answers) (reachedPerDelete + 1) [] [root]).getD []

/-- Where a delete can stop anywhere: no entity that goes names one visited after it, and each
instance of one that stays names at most one of those deleted with the root. -/
structure StopsAnywhere : Prop where
  inOrder : (h.visited answers root).Pairwise fun y z => ¬ Names h.rules s y z
  atMostOne : ∀ e ∈ s.entities, ¬ GoesWith h.rules s root e.id → ∀ at_ ∈ h.rules.ends,
    at_.className ∈ e.types →
      NamesAtMostOne h.rules (GoesWith h.rules s root) (· ∈ (h.visited answers root).tail) e at_.slot

end Statement

section Prefixes

variable {s left : Store} {done : ℕ}

theorem pairwise_of_parts {α : Type} {R : α → α → Prop} : ∀ {l : List α},
    (∀ before after, l = before ++ after → ∀ y ∈ before, ∀ z ∈ after, R y z) → l.Pairwise R
  | [], _ => List.Pairwise.nil
  | a :: l, h => by
    refine List.Pairwise.cons (h [a] l rfl a (List.mem_singleton_self a)) ?_
    refine pairwise_of_parts fun before after hl y hy z hz => ?_
    exact h (a :: before) after (by rw [hl, List.cons_append]) y (List.mem_cons_of_mem a hy) z hz

theorem apply_of_append : ∀ {first rest : List Unlinking} {s : Store} {done : ℕ},
    s.apply done (first ++ rest) = .ok left → ∃ mid, s.apply done first = .ok mid
  | [], rest, s, done, h => ⟨s, rfl⟩
  | step :: first, rest, s, done, h => by
    rw [List.cons_append] at h
    unfold Store.apply at h ⊢
    rcases hsend : s.send step with _ | s' <;> simp only [hsend] at h ⊢
    · split_ifs at h ⊢
      exact apply_of_append h
    · exact apply_of_append h

theorem apply_deletes : ∀ (ids : List String) (s : Store) (done : ℕ),
    ∃ left, s.apply done (ids.map Unlinking.delete) = .ok left
  | [], s, done => ⟨s, rfl⟩
  | id :: ids, s, done => by
    rw [List.map_cons]
    unfold Store.apply
    rcases s.send (.delete id) with _ | s'
    · exact apply_deletes ids s (done + 1)
    · exact apply_deletes ids s' (done + 1)

/-- Once the edits are made, no delete stops the run. -/
theorem apply_append_deletes (ids : List String) : ∀ {edits : List Unlinking} {s mid : Store}
    {done : ℕ}, s.apply done edits = .ok mid →
      ∃ left, s.apply done (edits ++ ids.map Unlinking.delete) = .ok left
  | [], s, _, done, _ => apply_deletes ids s done
  | step :: edits, s, mid, done, h => by
    rw [List.cons_append]
    unfold Store.apply at h ⊢
    rcases hsend : s.send step with _ | s' <;> simp only [hsend] at h ⊢
    · split_ifs at h ⊢
      exact apply_append_deletes ids h
    · exact apply_append_deletes ids h

theorem mem_take_steps {edits : List Unlinking} {ids : List String}
    (hedits : ∀ id, .delete id ∉ edits) {n : ℕ} {z : String} :
    .delete z ∈ (edits ++ ids.map Unlinking.delete).take n ↔ z ∈ ids.take (n - edits.length) := by
  have hnot : .delete z ∉ edits.take n := fun hmem => hedits z (List.mem_of_mem_take hmem)
  rw [List.take_append, List.mem_append, or_iff_right hnot, ← List.map_take, List.mem_map]
  simp

/-- The prefixes that delete are the edits and some of the deletes. -/
theorem take_steps (edits : List Unlinking) {ids : List String} {n : ℕ}
    (h : ids.take (n - edits.length) ≠ []) :
    (edits ++ ids.map Unlinking.delete).take n =
      edits ++ (ids.take (n - edits.length)).map Unlinking.delete := by
  have hle : edits.length ≤ n := by
    by_contra hlt
    refine h ?_
    rw [Nat.sub_eq_zero_of_le (by omega), List.take_zero]
  rw [List.take_append, List.take_of_length_le hle, List.map_take]

theorem prefixConsistent_iff {rules : RelationshipRules} {edits : List Unlinking}
    {ids : List String} (hedits : ∀ id, .delete id ∉ edits) :
    PrefixConsistent rules s (edits ++ ids.map Unlinking.delete) ↔
      ∀ gone kept left, ids = gone ++ kept →
        s.apply 0 (edits ++ gone.map Unlinking.delete) = .ok left → ∀ e ∈ left.entities,
          ∀ at_ ∈ rules.ends, at_.className ∈ e.types → ∀ z ∈ e.names at_.slot, z ∉ gone := by
  constructor
  · intro hbegins gone kept left hids happly e he at_ hat htype z hz hgone
    have htake : ids.take (edits.length + gone.length - edits.length) = gone := by
      rw [hids, Nat.add_sub_cancel_left, List.take_left]
    have hne : ids.take (edits.length + gone.length - edits.length) ≠ [] := by
      rw [htake]
      exact List.ne_nil_of_mem hgone
    have hsteps := take_steps edits hne
    rw [htake] at hsteps
    refine hbegins (edits.length + gone.length) left (hsteps ▸ happly) e he at_ hat htype z hz ?_
    rw [mem_take_steps hedits, htake]
    exact hgone
  · intro hparts n left happly e he at_ hat htype z hz hdelete
    rw [mem_take_steps hedits] at hdelete
    rw [take_steps edits (List.ne_nil_of_mem hdelete)] at happly
    exact hparts _ (ids.drop (n - edits.length)) left (List.take_append_drop _ _).symm happly e he
      at_ hat htype z hz hdelete

end Prefixes

section Main

variable {h : HeldDelete} {s left : Store} {answers : Answers s} {root : String}
  {steps edits : List Unlinking} {order : List String}

theorem mem_entities_of_apply {gone : List String} (hedits : ∀ id, .delete id ∉ edits)
    (happly : s.apply 0 (edits ++ gone.map Unlinking.delete) = .ok left) {e' : Entity} :
    e' ∈ left.entities ↔ ∃ e ∈ s.entities, e.id ∉ gone ∧
      e.run (edits ++ gone.map Unlinking.delete) = e' := by
  simp only [entities_of_apply happly, List.mem_map, List.mem_filter, decide_eq_true_eq,
    List.mem_append, hedits, false_or, Unlinking.delete.injEq, exists_eq_right, and_assoc]

theorem visited_eq (horder : Search.visit (h.next answers) 501 [] [root] = some order) :
    h.visited answers root = order := by
  unfold HeldDelete.visited
  exact congrArg (Option.getD · []) horder

/-- The edits made at the later visits leave the entities visited before alone. -/
theorem notMem_of_before {before after : List String} {rest : List Unlinking}
    (hrest : Asked h answers order before after rest) {id : String} (hid : id ∈ before)
    (slot : String) (dataset : Option String) :
    (∀ step ∈ rest, ¬ step.Removes id slot dataset) ∧
      ∀ objects, .rewrite id slot dataset objects ∉ rest := by
  constructor
  · intro step hstep hremoves
    obtain ⟨x, -, r, hr, hseen, hfrom⟩ := hrest.sound step hstep
    obtain ⟨heq, -⟩ := (removes_unlinkSteps (mem_reaches.1 hr).2.2.2).1 ⟨step, hfrom, hremoves⟩
    exact hseen (heq ▸ hid)
  · intro objects hstep
    obtain ⟨x, -, r, hr, hseen, hfrom⟩ := hrest.sound _ hstep
    obtain ⟨heq, -⟩ := (rewrite_unlinkSteps (mem_reaches.1 hr).2.2.2).1 hfrom
    exact hseen (heq ▸ hid)

/-- What an entity visited before `z` names of `z` outlasts the edits: those made at `z` are of
entities not visited before it, and the others keep what they are not made for. -/
theorem mem_names_run_of_before (hsingle : SingleEnds h.rules s) {before after_ : List String}
    {first rest : List Unlinking} (gone : List String)
    (horder : Search.visit (h.next answers) 501 [] [root] = some (before ++ after_))
    (hfirst : Asked h answers (before ++ after_) [] before first)
    (hrest : Asked h answers (before ++ after_) before after_ rest) {e : Entity}
    (he : e ∈ s.entities) (hid : e.id ∈ before) {at_ : Referencing} {z : String}
    (hz : z ∈ e.names at_.slot) (hafter : z ∈ after_) :
    z ∈ (e.run ((first ++ rest) ++ gone.map Unlinking.delete)).names at_.slot := by
  have hne : ∀ x ∈ before, x ≠ z := fun x hx =>
    (List.nodup_append.1 (Search.nodup_order horder)).2.2 x hx z hafter
  have hcovers := covers_of_asked horder hfirst []
  obtain ⟨i, hi, hzi⟩ := mem_names.1 hz
  obtain ⟨hremoves, hrewrites⟩ := notMem_of_before hrest hid at_.slot i.dataset
  refine mem_names_run.2 ⟨i, hi, ?_⟩
  rcases hrun : after e.id at_.slot ((first ++ rest) ++ gone.map Unlinking.delete) i with _ | j
  · exfalso
    obtain ⟨step, hstep, hremoved⟩ := after_eq_none.1 hrun
    have hmem : step ∈ first ++ [].map Unlinking.delete := by
      rcases List.mem_append.1 hstep with hstep | hstep
      · rcases List.mem_append.1 hstep with hstep | hstep
        · exact List.mem_append_left _ hstep
        · exact absurd hremoved (hremoves step hstep)
      · obtain ⟨_, -, rfl⟩ := List.mem_map.1 hstep
        cases isDelete_of_removes hremoved
    obtain ⟨x, hx, at', hpoints, hslot, -, htakes⟩ := takes_of_removes hcovers he hmem hremoved
    rcases htakes with ⟨hmany, -⟩ | ⟨-, i', hi', hdataset, -, halone⟩
    · exact hne x hx (hsingle e he at' (RelationshipRules.mem_ends_of_referencingId hpoints.1)
        hpoints.2.1 hmany x hpoints.2.2 z (hslot ▸ hz))
    · obtain rfl := eq_of_dataset (hslot ▸ hi') hi hdataset
      exact hne x hx (halone z hzi).symm
  · refine ⟨j, rfl, ?_⟩
    rcases named_after hrun with ⟨objects, hmem, hobjects⟩ | ⟨-, rfl⟩
    · have hmem : .rewrite e.id at_.slot i.dataset objects ∈ first ++ [].map Unlinking.delete := by
        simpa [hrewrites] using hmem
      obtain ⟨x, hx, -, hkeeps, -⟩ := rewrite_of_mem_steps hcovers he hi hmem
      rw [hobjects, hkeeps, List.mem_filter]
      exact ⟨hzi, by simpa using (hne x hx).symm⟩
    · exact hzi

/-- What an entity that stays names, once the edits are made, holds none deleted with the root
exactly when each of its instances names at most one of those. -/
theorem names_run_iff_of_stays {tail : List String}
    (horder : Search.visit (h.next answers) 501 [] [root] = some (root :: tail))
    (hparts : ∀ before after, root :: tail = before ++ after → ∃ first rest,
      edits = first ++ rest ∧ Asked h answers (root :: tail) [] before first ∧
        Asked h answers (root :: tail) before after rest)
    {e : Entity} (he : e ∈ s.entities) (hstays : ¬ GoesWith h.rules s root e.id) {slot : String}
    (gone : List String) :
    (∀ x ∈ (e.run (edits ++ gone.map Unlinking.delete)).names slot, x ∉ tail) ↔
      NamesAtMostOne h.rules (GoesWith h.rules s root) (· ∈ tail) e slot := by
  have hvisited : (· ∈ root :: tail) = GoesWith h.rules s root :=
    funext fun x => propext (mem_order_iff horder)
  have hcovers := covers_of_asked horder (asked_of_parts hparts) gone
  rw [hvisited] at hcovers
  obtain ⟨first, rest, rfl, -, hrest⟩ := hparts [root] tail rfl
  rw [List.append_assoc] at hcovers ⊢
  exact names_run_iff hcovers (covers_of_asked horder hrest gone) he hstays

/-- A plan whose root's delete can stop anywhere leaves no reference to an entity already gone at
any stop; and on single ends of one target, no other plan whose steps the broker takes does. -/
theorem prefixConsistent_iff_stopsAnywhere (hplan : h.plan answers root = .ok steps) :
    (StopsAnywhere h answers root → PrefixConsistent h.rules s steps) ∧
      (SingleEnds h.rules s → (s.apply 0 steps).isOk = true →
        PrefixConsistent h.rules s steps → StopsAnywhere h answers root) := by
  obtain ⟨order, edits, horder, rfl, hparts⟩ := plan_eq_ok hplan
  have hedits := delete_notMem_edits (asked_of_parts hparts)
  have hvisited := visited_eq horder
  have hgoes : ∀ {x}, x ∈ order ↔ GoesWith h.rules s root x := mem_order_iff horder
  obtain ⟨tail, rfl⟩ := Search.order_eq_cons horder
  rw [prefixConsistent_iff hedits, List.tail_cons]
  constructor
  · rintro ⟨hinOrder, hatMost⟩ gone kept left hids happly left' hleft at_ hat htype z hz hgone
    obtain ⟨e, he, hnot, rfl⟩ := (mem_entities_of_apply hedits happly).1 hleft
    have htail : tail = kept.reverse ++ gone.reverse := by
      rw [← List.reverse_append, ← hids, List.reverse_reverse]
    rw [hvisited] at hinOrder hatMost
    by_cases hstays : GoesWith h.rules s root e.id
    · have hbefore : e.id ∈ root :: kept.reverse := by
        have hmem := hgoes.2 hstays
        rw [htail] at hmem
        simpa [hnot] using hmem
      rw [htail, ← List.cons_append] at hinOrder
      refine (List.pairwise_append.1 hinOrder).2.2 _ hbefore z (List.mem_reverse.2 hgone) ?_
      obtain ⟨i, hi, j, hafter, hzj⟩ := mem_names_run.1 hz
      have hcovers := covers_of_asked horder (asked_of_parts hparts) gone
      exact ⟨e, he, rfl, at_, hat, htype,
        mem_names.2 ⟨i, hi, mem_named_of_after hcovers he hi hafter hzj⟩⟩
    · refine (names_run_iff_of_stays horder hparts he hstays gone).2
        (hatMost e he hstays at_ hat htype) z hz ?_
      rw [htail]
      exact List.mem_append_right _ (List.mem_reverse.2 hgone)
  · intro hsingle hok hconsistent
    obtain ⟨s', happly⟩ := isOk_iff.1 hok
    obtain ⟨mid, hmid⟩ := apply_of_append happly
    refine ⟨?_, fun e he hstays at_ hat htype => ?_⟩ <;> rw [hvisited]
    · refine pairwise_of_parts fun before after_ hsplit y hy z hz hnames => ?_
      obtain ⟨e, he, rfl, at_, hat, htype, hze⟩ := hnames
      obtain ⟨first, rest, rfl, hfirst, hrest⟩ := hparts before after_ hsplit
      obtain ⟨front, rfl, rfl⟩ : ∃ front, before = root :: front ∧ tail = front ++ after_ := by
        rcases before with _ | ⟨a, front⟩
        · cases hy
        · rw [List.cons_append, List.cons.injEq] at hsplit
          exact ⟨front, by rw [hsplit.1], hsplit.2⟩
      rw [hsplit] at horder hfirst hrest
      have hkept := mem_names_run_of_before hsingle after_.reverse horder hfirst hrest he hy hze hz
      have hnot : e.id ∉ after_ := fun hmem =>
        (List.nodup_append.1 (Search.nodup_order horder)).2.2 _ hy _ hmem rfl
      obtain ⟨left, hleft⟩ := apply_append_deletes after_.reverse hmid
      refine hconsistent after_.reverse front.reverse left (List.reverse_append) hleft _
        ((mem_entities_of_apply hedits hleft).2 ⟨e, he, ?_, rfl⟩) at_ hat htype z hkept ?_
      · exact fun hmem => hnot (List.mem_reverse.1 hmem)
      · exact List.mem_reverse.2 hz
    · refine (names_run_iff_of_stays horder hparts he hstays tail.reverse).1 fun x hx hmem => ?_
      refine hconsistent tail.reverse [] s' (List.append_nil _).symm happly _
        ((mem_entities_of_apply hedits happly).2 ⟨e, he, fun hgone => hstays ?_, rfl⟩) at_ hat
        htype x hx (List.mem_reverse.2 hmem)
      exact hgoes.1 (List.mem_cons_of_mem _ (List.mem_reverse.1 hgone))

end Main

section Lamps

def backupEnd : StoredEnd :=
  { target := "Lamp", many := false, required := false, onDelete := .setNull }

def backedDelete : HeldDelete where
  crates := bareCrates
  rules := ⟨[("Lamp", [("backup", backupEnd), ("feeder", feederEnd)])]⟩
  decide _ _ := .rewrite unlimited

/-- Two lamps fed by a third, the first of them backed by the second. -/
def backed : Store where
  entities := [linked l1 "Lamp" [], linked l2 "Lamp" [("feeder", [l1]), ("backup", [l3])],
    linked l3 "Lamp" [("feeder", [l1])]]
  nodup := (by decide : [l1, l2, l3].Nodup)

theorem backed_acyclic : Acyclic backedDelete.rules backed := by
  let rank : String → ℕ := fun id => if id = l2 then 2 else if id = l3 then 1 else 0
  have hstep : ∀ e ∈ backed.entities, ∀ at_ ∈ backedDelete.rules.ends, at_.className ∈ e.types →
      ∀ z ∈ e.names at_.slot, rank z < rank e.id := by decide
  have hless : ∀ y z, Names backedDelete.rules backed y z → rank z < rank y := by
    rintro y z ⟨e, he, rfl, at_, hat, htype, hz⟩
    exact hstep e he at_ hat htype z hz
  have hpath : ∀ y z, Relation.TransGen (Names backedDelete.rules backed) y z →
      rank z < rank y := by
    intro y z hyz
    induction hyz with
    | single hnames => exact hless _ _ hnames
    | tail _ hnames ih => exact (hless _ _ hnames).trans ih
  exact fun y hcycle => lt_irrefl _ (hpath y y hcycle)

/-- The backup is visited last and deleted first, while the lamp it backs still names it. -/
theorem backed_dangling :
    ∃ steps, backedDelete.plan backed.answers l1 = .ok steps ∧ Acyclic backedDelete.rules backed ∧
      ¬ PrefixConsistent backedDelete.rules backed steps := by
  have hplan : backedDelete.plan backed.answers l1 = .ok [.delete l3, .delete l2] := by decide
  refine ⟨_, hplan, backed_acyclic, fun hconsistent => ?_⟩
  obtain ⟨left, hleft⟩ := isOk_iff.1 (by decide : (backed.apply 0 [.delete l3]).isOk = true)
  have hmem : (linked l2 "Lamp" [("feeder", [l1]), ("backup", [l3])]).run [.delete l3] ∈
      left.entities := by
    simp only [entities_of_apply hleft, List.mem_map, List.mem_filter]
    exact ⟨_, ⟨List.mem_cons_of_mem _ List.mem_cons_self, by decide⟩, rfl⟩
  exact hconsistent 1 left hleft _ hmem ⟨"Lamp", "backup", backupEnd⟩ (by decide) (by decide) l3
    (by decide) (by decide)

theorem prefixConsistent_lamps :
    ∃ steps, lampDelete.plan (lamps [l1, l3]).answers l1 = .ok steps ∧
      PrefixConsistent lampRules (lamps [l1, l3]) steps := by
  have hplan : lampDelete.plan (lamps [l1, l3]).answers l1 = .ok
      [.rewrite g1 "lamps" none [l3], .delete l2] := by decide
  have hvisited : lampDelete.visited (lamps [l1, l3]).answers l1 = [l1, l2] := by decide
  refine ⟨_, hplan, (prefixConsistent_iff_stopsAnywhere hplan).1 ⟨?_, ?_⟩⟩ <;>
    rw [hvisited]
  · unfold Names
    decide
  · intro e he hstays at_ hat htype i hi
    have hnamed : ∀ e ∈ (lamps [l1, l3]).entities, e.id ∉ [l1, l2] → ∀ at_ ∈ lampRules.ends,
        ∀ i ∈ e.attrs at_.slot, ∀ x ∈ i.named, x ∉ [l2] := by decide
    exact Or.inr (Or.inl fun x hx =>
      hnamed e he (fun hmem => hstays (goesWith_lamps.2 hmem)) at_ hat i hi x hx)

end Lamps

end JoinedContext.Relationships
