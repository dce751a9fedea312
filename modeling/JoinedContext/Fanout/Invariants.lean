import JoinedContext.Fanout.Wiring

/-!
# What holds in every run of a hub

The index holds the filters of the subscriptions, the table its newest entries, and everything stays
within its bounds, whatever the operations. A refused subscription changes nothing, unless the
connection has given out all its numbers: then the refusal comes after the next number was taken.
-/

namespace JoinedContext.Fanout

section Queues

variable {F : Type} {A : Antares F} {hub : Hub F}

namespace Drops

theorem takeClosed (now : Instant) (name token principal : String) : ∃ gone, Drops gone hub
    (((hub.takeClosed now name token principal).map Prod.snd).getD hub) := by
  refine ⟨[], ?_⟩
  unfold Hub.takeClosed
  split
  · exact of_eq rfl rfl rfl
  · split_ifs
    · exact of_eq rfl rfl rfl
    · exact of_eq rfl rfl rfl

theorem takeQueue (hn : Numbered hub) (id : ℕ) : ∃ gone, Drops gone hub (hub.takeQueue id) := by
  rcases hconn : hub.conns.lookup id with _ | conn <;> simp only [Hub.takeQueue, hconn]
  · exact ⟨[], of_eq rfl rfl rfl⟩
  · exact ⟨[], setQueue hn hconn _⟩

theorem keep (id : String) (entity : Value) : Drops [] hub (hub.keep id entity) := of_eq rfl rfl rfl

theorem offer (hn : Numbered hub) (names : FilterId → String) (now : Instant) (id : String)
    (entity full : Value) (delta : Finset String) (filter : FilterId) :
    Drops [] hub (Hub.offer A names now id entity full delta hub filter) := by
  unfold Hub.offer
  split
  · exact of_eq rfl rfl rfl
  · next conn hconn =>
    split_ifs
    · split
      · exact of_eq rfl rfl rfl
      · exact (setQueue hn hconn _).trans (of_eq rfl rfl (Index.faces_sent A _ _))
    · exact of_eq rfl rfl rfl

theorem offers (names : FilterId → String) (now : Instant) (id : String) (entity full : Value)
    (delta : Finset String) : ∀ (filters : List FilterId) {hub : Hub F}, Numbered hub →
      Drops [] hub (filters.foldl (Hub.offer A names now id entity full delta) hub)
  | [], _, _ => of_eq rfl rfl rfl
  | filter :: rest, _, hn =>
    have h := offer hn names now id entity full delta filter
    h.trans (offers names now id entity full delta rest (h.numbered hn))

end Drops

end Queues

section Drops

variable {F : Type} [GridFloat F] {A : Antares F} {hub : Hub F}

/-- Whether an operation opens a connection or makes a subscription. -/
def Op.Adds : Op → Prop
  | .openConn .. | .subscribe .. => True
  | _ => False

namespace Hub

theorem dropFilters_flatMap (gone : List (ℕ × Conn)) (hub : Hub F) :
    gone.foldl (fun hub c => hub.dropFilters c.2.subs) hub =
      hub.dropFilters (gone.flatMap fun c => c.2.subs) := by
  induction gone generalizing hub with
  | nil => rfl
  | cons c rest ih =>
    rw [List.foldl_cons, ih, List.flatMap_cons]
    simp [dropFilters, List.foldl_append]

end Hub

namespace Drops

theorem close (hn : Numbered hub) (now : Instant) (id : ℕ) (name token : String)
    (sent : List (ℕ × String)) : ∃ gone, Drops gone hub (hub.close now id name token sent) := by
  rcases hconn : hub.conns.lookup id with _ | conn <;> simp only [Hub.close, hconn]
  · exact ⟨[], of_eq rfl rfl rfl⟩
  · exact ⟨_, (Drops.without hn hconn).forgetUnwatched.trans (of_eq rfl rfl rfl)⟩

theorem discard (hn : Numbered hub) (now : Instant) (id : ℕ) :
    ∃ gone, Drops gone hub (hub.discard now id) := by
  have hidle : ∀ {gone} {hub' : Hub F}, Drops gone hub hub' → ∃ gone, Drops gone hub
      (if hub'.conns = [] ∧ hub'.idleSince = none then { hub' with idleSince := some now }
        else hub') := by
    intro gone hub' h
    split_ifs
    · exact ⟨_, h.trans (of_eq rfl rfl rfl)⟩
    · exact ⟨_, h⟩
  rcases hconn : hub.conns.lookup id with _ | conn <;> simp only [Hub.discard, hconn]
  · have hsame : Drops [] hub hub := of_eq rfl rfl rfl
    exact hidle hsame.forgetUnwatched
  · exact hidle (Drops.without hn hconn).forgetUnwatched

theorem unsubscribe' (hn : Numbered hub) (conn : ℕ) (id : String) :
    ∃ gone, Drops gone hub (hub.unsubscribe conn id).2 := by
  rcases hconn : hub.conns.lookup conn with _ | c <;> simp only [Hub.unsubscribe, hconn]
  · exact ⟨[], of_eq rfl rfl rfl⟩
  · rcases hsub : c.subs.find? (fun s => s.2.id = id) with _ | ⟨n, sub⟩ <;> simp only [hsub]
    · exact ⟨[], of_eq rfl rfl rfl⟩
    · exact ⟨_, (unsubscribe hn hconn (List.mem_of_find?_eq_some hsub)).forgetUnwatched⟩

/-- A reload takes the filters of the connections it closes. -/
theorem recheck (hn : Numbered hub) (now : Option Endpoint) (admits : String → Bool) :
    ∃ gone, Drops gone hub (hub.recheck now admits).2 := by
  refine ⟨((hub.conns.filter fun c => (Hub.recheckReason now admits c.2).isSome).flatMap
    fun c => c.2.subs).map fun s => s.2.filter, ?_⟩
  simp only [Hub.recheck, Hub.dropFilters_flatMap]
  refine forgetUnwatched (of_map (fun c hc => ?_) (fun c hc => ?_) rfl rfl
    (Hub.faces_dropFilters _ _))
  · split <;> rfl
  · split
    · next hnone =>
      refine (List.filter_eq_self.2 fun s hs => ?_).symm
      rw [decide_eq_true_eq]
      intro hgone
      obtain ⟨s', hs', hfilter⟩ := List.mem_map.1 hgone
      obtain ⟨c', hc', hs'⟩ := List.mem_flatMap.1 hs'
      obtain ⟨hc', hsome⟩ := List.mem_filter.1 hc'
      obtain rfl := hn.conn_eq hc' hc (by
        rw [← hn.div_filter hc' hs', hfilter, hn.div_filter hc hs])
      simp [hnone] at hsome
    · next reason hsome =>
      refine (List.filter_eq_nil_iff.2 fun s hs => ?_).symm
      rw [decide_eq_true_eq, not_not]
      refine List.mem_map_of_mem (List.mem_flatMap.2 ⟨c, List.mem_filter.2 ⟨hc, ?_⟩, hs⟩)
      simp [hsome]

theorem apply (hn : Numbered hub) (names : FilterId → String) (now : Instant) (entity : Value) :
    ∃ gone, Drops gone hub (hub.apply A names now entity) := by
  refine ⟨[], ?_⟩
  unfold Hub.apply
  split
  · exact of_eq rfl rfl rfl
  · next id _ =>
    split_ifs
    · exact of_eq rfl rfl rfl
    · exact of_eq rfl rfl rfl
    · dsimp only
      split
      · exact keep id entity
      · exact (keep id entity).trans (offers _ _ _ _ _ _ _ ((keep id entity).numbered hn))

/-- An operation that adds nothing takes filters with their subscriptions, or leaves both. -/
theorem step (hn : Numbered hub) {op : Op} (hadds : ¬ op.Adds) :
    ∃ gone, Drops gone hub (hub.step A op) := by
  cases op with
  | openConn | subscribe => exact absurd trivial hadds
  | close now conn name token sent => exact close hn now conn name token sent
  | discard now conn => exact discard hn now conn
  | takeClosed now name token principal => exact takeClosed now name token principal
  | unsubscribe conn id => exact unsubscribe' hn conn id
  | recheck now admits => exact recheck hn now admits
  | takeQueue conn => exact takeQueue hn conn
  | seed entity =>
    refine ⟨[], ?_⟩
    simp only [Hub.step, Hub.seed]
    split
    · exact of_eq rfl rfl rfl
    · split_ifs
      · exact of_eq rfl rfl rfl
      · exact keep _ _
  | snapshotNow =>
    refine ⟨[], ?_⟩
    simp only [Hub.step, Hub.snapshotNow]
    split_ifs <;> exact of_eq rfl rfl rfl
  | refuse status detail =>
    have hset : Drops [] hub { hub with refused := some (status, detail) } := of_eq rfl rfl rfl
    exact ⟨_, hset.trans (pushAll .refused)⟩
  | live => exact ⟨[], of_eq rfl rfl rfl⟩
  | gap =>
    have hset : Drops [] hub { hub with due := true } := of_eq rfl rfl rfl
    exact ⟨_, hset.trans (pushAll .gap)⟩
  | apply names now entity => exact apply hn names now entity

end Drops

/-- Every operation keeps the index and the subscriptions together. -/
theorem Wired.step (hw : Wired A hub) (op : Op) : Wired A (hub.step A op) := by
  by_cases hadds : op.Adds
  · cases op with
    | openConn endpoint principal client => exact hw.openConn endpoint principal client
    | subscribe conn id body update =>
      have hnumbers : ∀ c, hub.conns.lookup conn = some c → ∀ s ∈ c.subs, s.1 < subIds :=
        fun c hconn s hs => (hw.numbered.filterIds _ (Assoc.mem_of_lookup hconn) s hs).1
      have hcases := subscribe_cases (A := A) conn id body update hnumbers
      show Wired A (hub.subscribe A conn id body update).2
      generalize hub.subscribe A conn id body update = result at hcases
      cases hcases with
      | refused => exact hw
      | spent _ _ hconn => exact hw.spent hconn _
      | made _ _ hconn hnumber hid hcompiled hfew =>
        exact hw.subscribed hconn hnumber hid hcompiled hfew
    | _ => exact absurd hadds (by simp [Op.Adds])
  · obtain ⟨gone, h⟩ := Drops.step (A := A) hw.numbered hadds
    exact h.wired hw

end Drops

section Tables

variable {F : Type} {hub hub' mid : Hub F} {op : Op}

/-- Whether an operation brings the table an entity of this id. -/
def Op.Brings (hub : Hub F) (id : String) (entity : Value) : Op → Prop
  | .seed e => e = entity ∧ entityId e = some id ∧ hub.index.isEmpty = false ∧
      hub.table.lookup id = none
  | .apply _ _ e => e = entity ∧ entityId e = some id ∧ hub.index.isEmpty = false ∧
      e.get "deletedAt" = none
  | _ => False

/-- Whether an operation tells that the entity of this id was deleted. -/
def Op.Deletes (id : String) : Op → Prop
  | .apply _ _ e => entityId e = some id ∧ (e.get "deletedAt").isSome = true
  | _ => False

/-- Whether two states have the same table, the second holding a filter if the first does. -/
structure Beside (hub hub' : Hub F) : Prop where
  table : hub'.table = hub.table
  tick : hub'.tick = hub.tick
  bound : hub'.bound = hub.bound
  held : hub'.index.isEmpty = true → hub.index.isEmpty = true

/-- What an operation does to the table. -/
inductive TableStep (hub : Hub F) (op : Op) (hub' : Hub F) : Prop where
  | same (hidle : ∀ id entity, ¬ op.Brings hub id entity) (h : Beside hub hub')
  | forgotten (hidle : ∀ id entity, ¬ op.Brings hub id entity)
      (hempty : hub'.index.isEmpty = true)
      (h : Beside { hub with table := [], index := .empty } hub')
  | deleted (id : String) (hidle : ∀ id entity, ¬ op.Brings hub id entity) (hdeletes : op.Deletes id)
      (h : Beside { hub with table := Assoc.without id hub.table } hub')
  | kept (id : String) (entity : Value) (hbrings : op.Brings hub id entity)
      (h : Beside (hub.keep id entity) hub')

theorem Beside.refl : Beside hub hub := ⟨rfl, rfl, rfl, id⟩

theorem Beside.trans (h : Beside hub mid) (h' : Beside mid hub') : Beside hub hub' :=
  ⟨h'.table.trans h.table, h'.tick.trans h.tick, h'.bound.trans h.bound, h.held ∘ h'.held⟩

/-- A table left alone by a step that then drops it if no filter is left. -/
theorem TableStep.forget (hidle : ∀ id entity, ¬ op.Brings hub id entity)
    (htable : mid.table = hub.table) (htick : mid.tick = hub.tick) (hbound : mid.bound = hub.bound) :
    TableStep hub op mid.forgetUnwatched := by
  unfold Hub.forgetUnwatched
  split_ifs with hempty
  · exact .forgotten hidle hempty ⟨rfl, htick, hbound, fun _ => rfl⟩
  · exact .same hidle ⟨htable, htick, hbound, fun h => absurd h hempty⟩

theorem TableStep.congr (h : TableStep hub op mid) (htable : hub'.table = mid.table)
    (htick : hub'.tick = mid.tick) (hbound : hub'.bound = mid.bound)
    (hindex : hub'.index = mid.index) : TableStep hub op hub' := by
  have h' : Beside mid hub' := ⟨htable, htick, hbound, fun h => hindex ▸ h⟩
  cases h with
  | same hidle h => exact .same hidle (h.trans h')
  | forgotten hidle hempty h => exact .forgotten hidle (hindex ▸ hempty) (h.trans h')
  | deleted id hidle hdeletes h => exact .deleted id hidle hdeletes (h.trans h')
  | kept id entity hbrings h => exact .kept id entity hbrings (h.trans h')

theorem Beside.setConn (id : ℕ) (conn : Conn) : Beside hub (hub.setConn id conn) :=
  ⟨rfl, rfl, rfl, fun h => h⟩

theorem Beside.sent (A : Antares F) (filter : FilterId) (now : Instant) :
    Beside hub { hub with index := hub.index.sent A filter now } :=
  ⟨rfl, rfl, rfl, fun h => by
    rw [Index.isEmpty_iff] at h ⊢
    rwa [Index.faces_sent] at h⟩

theorem Beside.offers (A : Antares F) (names : FilterId → String) (now : Instant) (id : String)
    (entity full : Value) (delta : Finset String) : ∀ (filters : List FilterId) (hub : Hub F),
      Beside hub (filters.foldl (Hub.offer A names now id entity full delta) hub)
  | [], _ => Beside.refl
  | filter :: rest, hub => by
    refine Beside.trans ?_ (Beside.offers A names now id entity full delta rest _)
    unfold Hub.offer
    split
    · exact Beside.refl
    · split_ifs
      · split
        · exact Beside.refl
        · exact (Beside.setConn _ _).trans (Beside.sent A filter now)
      · exact Beside.refl

theorem bringsNone (hsubscribe : ∀ e, op ≠ .seed e) (happly : ∀ n t e, op ≠ .apply n t e) :
    ∀ id entity, ¬ op.Brings hub id entity := by
  intro id entity h
  cases op with
  | seed e => exact hsubscribe e rfl
  | apply n t e => exact happly n t e rfl
  | _ => exact h

theorem tableStep_seed (entity : Value) : TableStep hub (.seed entity) (hub.seed entity) := by
  rcases hid : entityId entity with _ | id
  · simp only [Hub.seed, hid]
    exact .same (by simp [Op.Brings, hid]) Beside.refl
  · simp only [Hub.seed, hid]
    split_ifs with hskip
    · refine .same ?_ Beside.refl
      rintro id' entity' ⟨-, hid', hheld, hnone⟩
      obtain rfl := Option.some.inj (hid.symm.trans hid')
      simp [hheld, hnone] at hskip
    · rw [not_or, Bool.not_eq_true, Bool.not_eq_true, Option.isSome_eq_false_iff,
        Option.isNone_iff_eq_none] at hskip
      exact .kept id entity ⟨rfl, hid, hskip.1, hskip.2⟩ Beside.refl

variable [GridFloat F] (A : Antares F)

theorem isEmpty_insert (ix : Index F) (id : FilterId) (filter : Filter F) :
    (ix.insert id filter).isEmpty = false := by
  simp [Index.isEmpty, Index.filters_insert]

theorem tableStep_apply (names : FilterId → String) (now : Instant) (entity : Value) :
    TableStep hub (.apply names now entity) (hub.apply A names now entity) := by
  rcases hid : entityId entity with _ | id
  · simp only [Hub.apply, hid]
    exact .same (by simp [Op.Brings, hid]) Beside.refl
  · simp only [Hub.apply, hid]
    split_ifs with hempty hdeleted
    · exact .same (by simp [Op.Brings, hempty]) Beside.refl
    · refine .deleted id ?_ ⟨hid, hdeleted⟩ Beside.refl
      rintro id' entity' ⟨-, -, -, hnone⟩
      simp [hnone] at hdeleted
    · have hbrings : (Op.apply names now entity).Brings hub id entity :=
        ⟨rfl, hid, by simpa using hempty, by simpa using hdeleted⟩
      refine .kept id entity hbrings ?_
      split
      · exact Beside.refl
      · exact Beside.offers A _ _ _ _ _ _ _ _

theorem tableStep_subscribe (hn : Numbered hub) (conn : ℕ) (id : Option String) (body : Value)
    (update : Bool) : TableStep hub (.subscribe conn id body update)
      (hub.subscribe A conn id body update).2 := by
  have hnumbers : ∀ c, hub.conns.lookup conn = some c → ∀ s ∈ c.subs, s.1 < subIds :=
    fun c hconn s hs => (hn.filterIds _ (Assoc.mem_of_lookup hconn) s hs).1
  have hcases := subscribe_cases (A := A) conn id body update hnumbers
  refine .same (bringsNone (by simp) (by simp)) ?_
  generalize hub.subscribe A conn id body update = result at hcases
  cases hcases with
  | refused | spent => exact ⟨rfl, rfl, rfl, fun h => h⟩
  | made => exact ⟨rfl, rfl, rfl, fun h => by simp [Hub.setConn, isEmpty_insert] at h⟩

/-- Every operation does one of the four to the table. -/
theorem tableStep (hn : Numbered hub) (op : Op) : TableStep hub op (hub.step A op) := by
  cases op with
  | openConn | refuse | live | gap => exact .same (bringsNone (by simp) (by simp)) ⟨rfl, rfl, rfl, fun h => h⟩
  | close now conn name token sent =>
    rcases hconn : hub.conns.lookup conn with _ | c <;> simp only [Hub.step, Hub.close, hconn]
    · exact .same (bringsNone (by simp) (by simp)) ⟨rfl, rfl, rfl, fun h => h⟩
    · have hidle : ∀ id entity, ¬ (Op.close now conn name token sent).Brings hub id entity :=
        bringsNone (by simp) (by simp)
      have hforget : TableStep hub (.close now conn name token sent)
          ({ hub with conns := Assoc.without conn hub.conns }.dropFilters c.subs).forgetUnwatched :=
        .forget hidle rfl rfl rfl
      exact hforget.congr rfl rfl rfl rfl
  | discard now conn =>
    have hidle : ∀ {hub' : Hub F}, TableStep hub (.discard now conn) hub' →
        TableStep hub (.discard now conn)
          (if hub'.conns = [] ∧ hub'.idleSince = none then { hub' with idleSince := some now }
            else hub') := by
      intro hub' h
      split_ifs
      · exact h.congr rfl rfl rfl rfl
      · exact h
    rcases hconn : hub.conns.lookup conn with _ | c <;> simp only [Hub.step, Hub.discard, hconn]
    · exact hidle (TableStep.forget (bringsNone (by simp) (by simp)) rfl rfl rfl)
    · exact hidle (TableStep.forget (bringsNone (by simp) (by simp)) rfl rfl rfl)
  | takeClosed now name token principal =>
    refine .same (bringsNone (by simp) (by simp)) ?_
    simp only [Hub.step, Hub.takeClosed]
    split
    · exact ⟨rfl, rfl, rfl, fun h => h⟩
    · split_ifs <;> exact ⟨rfl, rfl, rfl, fun h => h⟩
  | subscribe conn id body update => exact tableStep_subscribe A hn conn id body update
  | unsubscribe conn id =>
    rcases hconn : hub.conns.lookup conn with _ | c <;>
      simp only [Hub.step, Hub.unsubscribe, hconn]
    · exact .same (bringsNone (by simp) (by simp)) ⟨rfl, rfl, rfl, fun h => h⟩
    · rcases hsub : c.subs.find? (fun s => s.2.id = id) with _ | ⟨n, sub⟩ <;> simp only [hsub]
      · exact .same (bringsNone (by simp) (by simp)) ⟨rfl, rfl, rfl, fun h => h⟩
      · exact TableStep.forget (bringsNone (by simp) (by simp)) rfl rfl rfl
  | recheck now admits =>
    simp only [Hub.step, Hub.recheck, Hub.dropFilters_flatMap]
    exact TableStep.forget (bringsNone (by simp) (by simp)) rfl rfl rfl
  | takeQueue conn =>
    refine .same (bringsNone (by simp) (by simp)) ?_
    simp only [Hub.step, Hub.takeQueue]
    split <;> exact ⟨rfl, rfl, rfl, fun h => h⟩
  | seed entity => exact tableStep_seed entity
  | snapshotNow =>
    refine .same (bringsNone (by simp) (by simp)) ?_
    simp only [Hub.step, Hub.snapshotNow]
    split_ifs <;> exact ⟨rfl, rfl, rfl, fun h => h⟩
  | apply names now entity => exact tableStep_apply A names now entity

end Tables

section Newest

variable {F : Type} {hub hub' : Hub F} {op : Op}

theorem Beside.tabled {mid : Hub F} (h : Beside mid hub') (ht : Tabled mid) : Tabled hub' :=
  ht.sublist h.bound h.tick (h.table ▸ List.Sublist.refl _) fun hempty =>
    h.table.trans (ht.watched (h.held hempty))

theorem TableStep.tabled (h : TableStep hub op hub') (ht : Tabled hub) : Tabled hub' := by
  cases h with
  | same _ h => exact h.tabled ht
  | forgotten _ _ h =>
    exact h.tabled (ht.sublist rfl rfl (List.nil_sublist _) fun _ => rfl)
  | deleted id _ _ h =>
    refine h.tabled (ht.sublist rfl rfl List.filter_sublist fun hempty => ?_)
    simp [ht.watched hempty, Assoc.without]
  | kept id entity hbrings h =>
    refine h.tabled (Hub.tabled_keep ht ?_)
    cases op with
    | seed | apply => exact hbrings.2.2.1
    | _ => exact hbrings.elim

theorem TableStep.bound (h : TableStep hub op hub') : hub'.bound = hub.bound := by
  cases h with
  | same _ h | forgotten _ _ h | deleted _ _ _ h | kept _ _ _ h => exact h.bound

/-- Whether a step keeps the table's newest entries. An entry leaves with the last filter, for its
deletion, for a newer one of its id, or older than every entry that stays; an entry that comes is
newer than every entry before; and what the operation brings is held. -/
structure KeepsNewest (hub : Hub F) (op : Op) (hub' : Hub F) : Prop where
  lost : ∀ e ∈ hub.table, e ∉ hub'.table → hub'.index.isEmpty = true ∨ op.Deletes e.1 ∨
    (∃ k ∈ hub'.table, k.1 = e.1 ∧ e.2.1 < k.2.1) ∨ ∀ k ∈ hub'.table, e.2.1 < k.2.1
  gained : ∀ k ∈ hub'.table, k ∉ hub.table → ∀ e ∈ hub.table, e.2.1 < k.2.1
  brought : ∀ id entity, op.Brings hub id entity → ∃ tick, (id, tick, entity) ∈ hub'.table

theorem Op.Brings.unique {id id' : String} {entity entity' : Value} (h : op.Brings hub id entity)
    (h' : op.Brings hub id' entity') : id = id' ∧ entity = entity' := by
  cases op with
  | seed | apply =>
    obtain ⟨rfl, hid, -⟩ := h
    obtain ⟨rfl, hid', -⟩ := h'
    exact ⟨Option.some.inj (hid.symm.trans hid'), rfl⟩
  | _ => exact h.elim

/-- What a kept entity evicts is older than everything kept. -/
theorem Hub.lt_of_evicted (ht : Tabled hub) {id : String} {entity : Value}
    {e k : String × ℕ × Value} (he : e ∈ hub.table) (hgone : e ∉ (hub.keep id entity).table)
    (hid : e.1 ≠ id) (hk : k ∈ (hub.keep id entity).table) : e.2.1 < k.2.1 := by
  have hmem : e ∈ hub.grown id entity := mem_grown.2 (Or.inl ⟨he, hid⟩)
  rw [table_keep, List.mem_filter, decide_eq_true_eq] at hk
  have hevicted : e.1 ∈ evicted (hub.grown id entity) hub.bound := by
    rw [table_keep, List.mem_filter, decide_eq_true_eq, not_and, not_not] at hgone
    exact hgone hmem
  have hne : e.2.1 ≠ k.2.1 := fun htick => hk.2
    (List.inj_on_of_nodup_map (ticks_grown ht) hmem hk.1 htick ▸ hevicted)
  rcases earlier_of_evicted (ids_grown ht) hmem hk.1 hevicted hk.2 with hlt | ⟨heq, -⟩
  · exact hlt
  · exact absurd heq hne

theorem TableStep.keepsNewest (h : TableStep hub op hub') (ht : Tabled hub) :
    KeepsNewest hub op hub' := by
  cases h with
  | same hidle h =>
    refine ⟨fun e he hgone => ?_, fun k hk hnew => ?_, fun id entity hb => absurd hb (hidle _ _)⟩
    · exact absurd (h.table ▸ he) hgone
    · exact absurd (h.table ▸ hk) hnew
  | forgotten hidle hempty h =>
    refine ⟨fun e he hgone => Or.inl hempty, fun k hk => ?_,
      fun id entity hb => absurd hb (hidle _ _)⟩
    rw [h.table] at hk
    cases hk
  | deleted id hidle hdeletes h =>
    refine ⟨fun e he hgone => ?_, fun k hk hnew => ?_, fun id entity hb => absurd hb (hidle _ _)⟩
    · rw [h.table] at hgone
      have hid : e.1 = id := by
        by_contra hne
        exact hgone (List.mem_filter.2 ⟨he, by simpa using hne⟩)
      exact Or.inr (Or.inl (hid ▸ hdeletes))
    · rw [h.table] at hk
      exact absurd (List.mem_of_mem_filter hk) hnew
  | kept id entity hbrings h =>
    have hnew : (id, hub.tick + 1, entity) ∈ (hub.keep id entity).table := Hub.newest_kept ht
    refine ⟨fun e he hgone => ?_, fun k hk hnot e he => ?_, fun id' entity' hb => ?_⟩
    · rw [h.table] at hgone ⊢
      refine Or.inr (Or.inr ?_)
      by_cases hid : e.1 = id
      · exact Or.inl ⟨_, hnew, hid.symm, Nat.lt_succ_of_le (ht.below e he)⟩
      · exact Or.inr fun k hk => Hub.lt_of_evicted ht he hgone hid hk
    · rw [h.table, Hub.table_keep] at hk
      rcases Hub.mem_grown.1 (List.mem_of_mem_filter hk) with ⟨hold, -⟩ | rfl
      · exact absurd hold hnot
      · exact Nat.lt_succ_of_le (ht.below e he)
    · obtain ⟨rfl, rfl⟩ := hbrings.unique hb
      exact ⟨_, h.table ▸ hnew⟩

end Newest

section ClosedConnections

variable {F : Type} {hub : Hub F}

theorem setConn_next_ne {conn : ℕ} {c : Conn} (hconn : hub.conns.lookup conn = some c) :
    (hub.setConn conn { c with next := c.next + 1 }).conns ≠ hub.conns := by
  intro heq
  have hlookup : (hub.setConn conn { c with next := c.next + 1 }).conns.lookup conn =
      some { c with next := c.next + 1 } := by
    rw [Hub.setConn, Assoc.lookup_replace, if_pos rfl, hconn, Option.map_some]
  rw [heq, hconn, Option.some_inj] at hlookup
  have := congrArg Conn.next hlookup
  simp at this

@[simp] theorem Hub.slug_forgetUnwatched : hub.forgetUnwatched.slug = hub.slug := by
  unfold Hub.forgetUnwatched
  split_ifs <;> rfl

@[simp] theorem Hub.refused_forgetUnwatched : hub.forgetUnwatched.refused = hub.refused := by
  unfold Hub.forgetUnwatched
  split_ifs <;> rfl

@[simp] theorem Hub.closed_forgetUnwatched : hub.forgetUnwatched.closed = hub.closed := by
  unfold Hub.forgetUnwatched
  split_ifs <;> rfl

theorem Hub.closed_offers (A : Antares F) (names : FilterId → String) (now : Instant) (id : String)
    (entity full : Value) (delta : Finset String) : ∀ (filters : List FilterId) (hub : Hub F),
      (filters.foldl (offer A names now id entity full delta) hub).closed = hub.closed
  | [], _ => rfl
  | filter :: rest, hub => by
    refine (closed_offers A names now id entity full delta rest _).trans ?_
    unfold offer
    split
    · rfl
    · split_ifs
      · split <;> rfl
      · rfl

variable [GridFloat F] (A : Antares F)

/-- Only a close adds to the closed connections held for a resume. -/
theorem closed_step_sublist {op : Op}
    (hop : ∀ now conn name token sent, op ≠ .close now conn name token sent) :
    (hub.step A op).closed.Sublist hub.closed := by
  cases op with
  | openConn | refuse | live | gap => exact List.Sublist.refl _
  | close now conn name token sent => exact absurd rfl (hop now conn name token sent)
  | discard now conn =>
    simp only [Hub.step, Hub.discard]
    rcases hub.conns.lookup conn with _ | c <;> dsimp only <;> split_ifs <;> simp [Hub.dropFilters]
  | takeClosed now name token principal =>
    simp only [Hub.step, Hub.takeClosed]
    split
    · exact List.Sublist.refl _
    · split_ifs
      · exact List.Sublist.refl _
      · exact List.filter_sublist
  | subscribe conn id body update =>
    simp only [Hub.step, Hub.subscribe]
    repeat' split
    all_goals exact List.Sublist.refl _
  | unsubscribe conn id =>
    simp only [Hub.step, Hub.unsubscribe]
    split
    · exact List.Sublist.refl _
    · split
      · exact List.Sublist.refl _
      · simp [Hub.setConn]
  | recheck now admits =>
    simp only [Hub.step, Hub.recheck, Hub.dropFilters_flatMap]
    simp [Hub.dropFilters]
  | takeQueue conn =>
    simp only [Hub.step, Hub.takeQueue]
    split <;> exact List.Sublist.refl _
  | seed entity =>
    simp only [Hub.step, Hub.seed]
    split
    · exact List.Sublist.refl _
    · split_ifs <;> exact List.Sublist.refl _
  | snapshotNow =>
    simp only [Hub.step, Hub.snapshotNow]
    split_ifs <;> exact List.Sublist.refl _
  | apply names now entity =>
    simp only [Hub.step, Hub.apply]
    split
    · exact List.Sublist.refl _
    · split_ifs
      · exact List.Sublist.refl _
      · exact List.Sublist.refl _
      · split
        · exact List.Sublist.refl _
        · rw [Hub.closed_offers]
          exact List.Sublist.refl _

theorem ClosedFit.step (h : ClosedFit hub.closed) (op : Op) : ClosedFit (hub.step A op).closed := by
  cases op with
  | close now conn name token sent =>
    simp only [Hub.step, Hub.close]
    split
    · exact h
    · exact closedFit_trim le_rfl
  | _ => exact h.sublist (closed_step_sublist A fun _ _ _ _ _ => by simp)

end ClosedConnections

section Runs

variable {F : Type} [GridFloat F] (A : Antares F)

/-- What a hub with this bound on its table keeps. -/
structure Consistent (bound : ℕ) (hub : Hub F) : Prop where
  held : (hub.index.filters.map Prod.fst).Perm (hub.subscriptions.map fun s => s.2.filter)
  distinct : (hub.subscriptions.map fun s => s.2.filter).Nodup
  compiled : ∀ s ∈ hub.subscriptions, ∃ f, compile A s.2.body = .ok f ∧
    (s.2.filter, f.key, f.watched) ∈ hub.index.faces
  unwatched : hub.index.filters = [] → hub.table = []
  table : hub.table.length ≤ bound
  subscriptions : ∀ c ∈ hub.conns, c.2.subs.length ≤ maxFilters
  closed : hub.closed.length ≤ maxClosed
  bytes : (hub.closed.map fun c => Hub.keptBytes c.2).sum ≤ maxClosedBytes

/-- What every operation keeps, and every run from an empty hub meets. -/
structure Sound (bound : ℕ) (hub : Hub F) : Prop where
  wired : Wired A hub
  tabled : Tabled hub
  closed : ClosedFit hub.closed
  bound : hub.bound = bound

variable {A} {bound : ℕ} {hub : Hub F}

theorem Sound.new (slug : String) (bound : ℕ) (now : Instant) :
    Sound A (max bound 1) (Hub.new slug bound now : Hub F) where
  wired := ⟨⟨List.nodup_nil, by simp [Hub.new], by simp [Hub.new], by simp [Hub.new]⟩,
    List.nodup_nil, by simp [Hub.new, Index.faces, Index.empty],
    by simp [Hub.new, Hub.subscriptions], by simp [Hub.new]⟩
  tabled := ⟨Nat.le_max_right _ _, List.nodup_nil, List.nodup_nil, by simp [Hub.new],
    Nat.zero_le _, fun _ => rfl⟩
  closed := ⟨Nat.zero_le _, Nat.zero_le _⟩
  bound := rfl

theorem Sound.step (h : Sound A bound hub) (op : Op) : Sound A bound (hub.step A op) where
  wired := h.wired.step op
  tabled := (tableStep A h.wired.numbered op).tabled h.tabled
  closed := h.closed.step A op
  bound := (tableStep A h.wired.numbered op).bound.trans h.bound

theorem Sound.consistent (h : Sound A bound hub) : Consistent A bound hub where
  held := h.wired.perm
  distinct := h.wired.numbered.filters_nodup
  compiled := h.wired.compiled
  unwatched hnil := h.tabled.watched (by simp [Index.isEmpty, hnil])
  table := h.bound ▸ h.tabled.fits
  subscriptions := h.wired.few
  closed := h.closed.count
  bytes := h.closed.bytes

/-- Whether the hub refuses a subscription. -/
def Hub.Refuses (A : Antares F) (hub : Hub F) : Op → Prop
  | .subscribe conn id body update => (hub.subscribe A conn id body update).1.isError = true
  | _ => False

/-- What a refused subscription leaves as it was. -/
structure Unchanged (hub hub' : Hub F) : Prop where
  index : hub'.index = hub.index
  table : hub'.table = hub.table
  conns : hub'.conns = hub.conns

/-- A refused subscription leaves everything as it was, unless the numbers are spent. -/
theorem unchanged_iff (h : Sound A bound hub) (op : Op) :
    (hub.Refuses A op → Unchanged hub (hub.step A op)) ↔ ¬ hub.Spent A op := by
  cases op with
  | subscribe conn id body update =>
    have hnumbers : ∀ c, hub.conns.lookup conn = some c → ∀ s ∈ c.subs, s.1 < subIds :=
      fun c hconn s hs => (h.wired.numbered.filterIds _ (Assoc.mem_of_lookup hconn) s hs).1
    have hcases := subscribe_cases (A := A) conn id body update hnumbers
    show ((hub.subscribe A conn id body update).1.isError = true →
      Unchanged hub (hub.subscribe A conn id body update).2) ↔ _
    generalize hub.subscribe A conn id body update = result at hcases
    cases hcases with
    | refused herror hspent => exact iff_of_true (fun _ => ⟨rfl, rfl, rfl⟩) hspent
    | spent herror hspent hconn =>
      exact iff_of_false (fun hkeeps => setConn_next_ne hconn (hkeeps herror).conns)
        (not_not.2 hspent)
    | made hmade hspent =>
      exact iff_of_true (fun herror => by simp [hmade] at herror) hspent
  | _ => exact iff_of_true (fun hrefuses => hrefuses.elim) id

/-- Every run keeps the hub consistent and the table's newest entries, and its refused subscriptions
change nothing exactly while no connection that has given out its numbers is asked for another. -/
theorem hub_runs_iff (slug : String) (bound : ℕ) (now : Instant) (ops : List Op) :
    ((∀ before, before <+: ops → Consistent A (max bound 1)
        (Machine.run (Hub.step A) (Hub.new slug bound now) before)) ∧
      Machine.Along (Hub.step A) (fun hub op => KeepsNewest hub op (hub.step A op) ∧
        (hub.Refuses A op → Unchanged hub (hub.step A op))) (Hub.new slug bound now) ops) ↔
    Machine.Along (Hub.step A) (fun hub op => ¬ hub.Spent A op) (Hub.new slug bound now) ops := by
  have hnew : Sound A (max bound 1) (Hub.new slug bound now : Hub F) := .new slug bound now
  have hsound := Machine.Along.with (P := Sound A (max bound 1)) (fun _ op h _ => h.step op) hnew
    (Machine.along_true (Hub.step A) ops _)
  have hconsistent : ∀ before, before <+: ops → Consistent A (max bound 1)
      (Machine.run (Hub.step A) (Hub.new slug bound now) before) := fun before _ =>
    (Machine.run_preserves (P := Sound A (max bound 1)) (fun _ op h => h.step op) hnew
      before).consistent
  rw [and_iff_right hconsistent]
  refine Machine.along_congr (hsound.mono fun hub op h => ?_)
  rw [unchanged_iff h.1 op, and_iff_right]
  exact (tableStep A h.1.wired.numbered op).keepsNewest h.1.tabled

end Runs

section SpentNumbers

def powerBody : Value :=
  .obj [("type", .str "Subscription"), ("watchedAttributes", .arr [.str "power"])]

def lamps : Hub ℚ := .new "lamps" 100 0

def subscribePower : Op := .subscribe 1 none powerBody false

/-- A client that drops each subscription it makes, this many times. -/
def churn : ℕ → List Op
  | 0 => [.openConn ⟨true, .null⟩ "visitor" none]
  | k + 1 => churn k ++ [subscribePower,
      .unsubscribe 1 (lamps.subId 1 (k + 1))]

/-- A hub of one connection without subscriptions, with its next number. -/
structure Churned (next : ℕ) (hub : Hub ℚ) : Prop where
  slug : hub.slug = "lamps"
  refused : hub.refused = none
  conns : hub.conns = [(1, ⟨⟨true, .null⟩, "visitor", none, .empty, [], next⟩)]

theorem compile_powerBody : compile (bareAntares ℚ) powerBody =
    .ok { sub := powerBody, watched := {"power"}, key := .any } := by rfl

theorem subId_congr {F : Type} {hub hub' : Hub F} (hslug : hub.slug = hub'.slug) (conn n : ℕ) :
    hub.subId conn n = hub'.subId conn n := by
  unfold Hub.subId
  rw [hslug]

theorem Churned.pair {next : ℕ} {hub : Hub ℚ} (h : Churned next hub) (hlt : next < subIds) :
    Churned (next + 1) (Machine.run (Hub.step (bareAntares ℚ)) hub [subscribePower,
      .unsubscribe 1 (lamps.subId 1 next)]) := by
  have hsubscribed : (hub.step (bareAntares ℚ) subscribePower).conns =
      [(1, ⟨⟨true, .null⟩, "visitor", none, .empty,
        [(next, ⟨hub.subId 1 next, subIds + next, powerBody, none⟩)], next + 1⟩)] := by
    simp [Hub.step, subscribePower, Hub.subscribe, h.refused, h.conns, compile_powerBody,
      not_le.2 hlt, Hub.setConn, Assoc.replace, Assoc.put, maxFilters]
    rfl
  have hrefused : (hub.step (bareAntares ℚ) subscribePower).refused = none := by
    simp [Hub.step, subscribePower, Hub.subscribe, h.refused, h.conns, compile_powerBody,
      not_le.2 hlt, Hub.setConn, maxFilters]
  have hslug : (hub.step (bareAntares ℚ) subscribePower).slug = "lamps" := by
    simp [Hub.step, subscribePower, Hub.subscribe, h.refused, h.conns, compile_powerBody,
      not_le.2 hlt, Hub.setConn, maxFilters, h.slug]
  have hid : hub.subId 1 next = lamps.subId 1 next := subId_congr h.slug 1 next
  rw [Machine.run_cons, Machine.run_cons, Machine.run_nil]
  generalize hub.step (bareAntares ℚ) subscribePower = mid at hsubscribed hrefused hslug
  refine ⟨?_, ?_, ?_⟩
  · simp [Hub.step, Hub.unsubscribe, hsubscribed, hid, Hub.setConn, hslug]
  · simp [Hub.step, Hub.unsubscribe, hsubscribed, hid, Hub.setConn, hrefused]
  · simp [Hub.step, Hub.unsubscribe, hsubscribed, hid, Hub.setConn, Assoc.replace, Assoc.without]

theorem churned : ∀ k : ℕ, k < subIds → Churned (k + 1)
    (Machine.run (Hub.step (bareAntares ℚ)) lamps (churn k))
  | 0, _ => ⟨rfl, rfl, rfl⟩
  | k + 1, hlt => by
    rw [churn, Machine.run_append]
    exact (churned k (by omega)).pair hlt

theorem spends_last {k : ℕ} (hlast : k + 1 = subIds) : ¬ Machine.Along (Hub.step (bareAntares ℚ))
    (fun hub op => hub.Refuses (bareAntares ℚ) op → Unchanged hub (hub.step (bareAntares ℚ) op))
      lamps (churn k ++ [subscribePower]) := by
  have h := churned k (by omega)
  rw [hlast] at h
  rw [Machine.along_append, Machine.Along, Machine.Along]
  generalize Machine.run (Hub.step (bareAntares ℚ)) lamps (churn k) = hub at h
  rintro ⟨-, hkeeps, -⟩
  have hconn : hub.conns.lookup 1 =
      some ⟨⟨true, .null⟩, "visitor", none, .empty, [], subIds⟩ := by
    rw [h.conns, Assoc.lookup_cons, if_pos rfl]
  have hspends : hub.subscribe (bareAntares ℚ) 1 none powerBody false =
      (.problem 400 "BadRequestData" "this connection made too many subscriptions",
        hub.setConn 1 ⟨⟨true, .null⟩, "visitor", none, .empty, [], subIds + 1⟩) := by
    simp [Hub.subscribe, h.refused, hconn, compile_powerBody, maxFilters]
  have hrefuses : hub.Refuses (bareAntares ℚ) subscribePower := by
    show (hub.subscribe (bareAntares ℚ) 1 none powerBody false).1.isError = true
    rw [hspends]
    rfl
  have hsame : Unchanged hub (hub.subscribe (bareAntares ℚ) 1 none powerBody false).2 :=
    hkeeps hrefuses
  rw [hspends] at hsame
  exact setConn_next_ne hconn hsame.conns

/-- The subscription after the last number is refused, and takes a number. -/
theorem churn_spends : ¬ Machine.Along (Hub.step (bareAntares ℚ)) (fun hub op =>
    hub.Refuses (bareAntares ℚ) op → Unchanged hub (hub.step (bareAntares ℚ) op)) lamps
      (churn (subIds - 1) ++ [subscribePower]) :=
  spends_last (Nat.sub_add_cancel (by decide))

end SpentNumbers

end JoinedContext.Fanout
