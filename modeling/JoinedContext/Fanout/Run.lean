import JoinedContext.Fanout.Hub
import JoinedContext.Library.Machine
import JoinedContext.Library.ListMaps

/-!
# Runs of a hub

The operations of a hub as steps. A filter id names its connection and, within it, one
subscription; every step but a connection's opening and a subscription drops subscriptions with
their filters, if it does anything to them at all.
-/

namespace JoinedContext.Fanout

section Steps

variable {F : Type} [GridFloat F] (A : Antares F)

inductive Op where
  | openConn (endpoint : Endpoint) (principal : String) (client : Option String)
  | close (now : Instant) (conn : ℕ) (name token : String) (sent : List (ℕ × String))
  | discard (now : Instant) (conn : ℕ)
  | takeClosed (now : Instant) (name token principal : String)
  | subscribe (conn : ℕ) (id : Option String) (body : Value) (update : Bool)
  | unsubscribe (conn : ℕ) (id : String)
  | recheck (now : Option Endpoint) (admits : String → Bool)
  | takeQueue (conn : ℕ)
  | seed (entity : Value)
  | snapshotNow
  | refuse (status : ℕ) (detail : String)
  | live
  | gap
  | apply (names : FilterId → String) (now : Instant) (entity : Value)

namespace Hub

/-- A session's take of its connection's queue. -/
def takeQueue (hub : Hub F) (conn : ℕ) : Hub F :=
  match hub.conns.lookup conn with
  | none => hub
  | some c => hub.setConn conn { c with queue := c.queue.take.2 }

def step (hub : Hub F) : Op → Hub F
  | .openConn endpoint principal client => (hub.openConn endpoint principal client).2
  | .close now conn name token sent => hub.close now conn name token sent
  | .discard now conn => hub.discard now conn
  | .takeClosed now name token principal =>
    ((hub.takeClosed now name token principal).map Prod.snd).getD hub
  | .subscribe conn id body update => (hub.subscribe A conn id body update).2
  | .unsubscribe conn id => (hub.unsubscribe conn id).2
  | .recheck now admits => (hub.recheck now admits).2
  | .takeQueue conn => hub.takeQueue conn
  | .seed entity => hub.seed entity
  | .snapshotNow => hub.snapshotNow.2
  | .refuse status detail => hub.refuse status detail
  | .live => hub.live
  | .gap => hub.gap
  | .apply names now entity => hub.apply A names now entity

end Hub

end Steps

section Numbering

variable {F : Type}

/-- Every filter id is its connection's number and, within it, one subscription's. -/
structure Numbered (hub : Hub F) : Prop where
  connIds : (hub.conns.map Prod.fst).Nodup
  below : ∀ c ∈ hub.conns, c.1 < hub.nextConn
  numbers : ∀ c ∈ hub.conns, (c.2.subs.map Prod.fst).Nodup
  filterIds : ∀ c ∈ hub.conns, ∀ s ∈ c.2.subs, s.1 < subIds ∧ s.2.filter = c.1 * subIds + s.1

def Hub.subscriptions (hub : Hub F) : List (ℕ × Sub) := hub.conns.flatMap fun c => c.2.subs

/-- What an index holds of its filters, apart from the notifications sent under them. -/
def Index.faces (ix : Index F) : List (FilterId × Key F × Finset String) :=
  ix.filters.map fun f => (f.1, f.2.key, f.2.watched)

/-- Whether a step opens no connection and makes no subscription, and takes away the subscriptions
under the filters `gone`, with these filters. -/
structure Drops (gone : List FilterId) (hub hub' : Hub F) : Prop where
  nextConn : hub'.nextConn = hub.nextConn
  connIds : (hub'.conns.map Prod.fst).Sublist (hub.conns.map Prod.fst)
  subs : ∀ c' ∈ hub'.conns, ∃ c ∈ hub.conns, c'.1 = c.1 ∧ c'.2.subs.Sublist c.2.subs
  subscriptions : hub'.subscriptions = hub.subscriptions.filter fun s => s.2.filter ∉ gone
  faces : hub'.index.faces = hub.index.faces.filter fun f => f.1 ∉ gone

variable {hub hub' hub'' : Hub F} {gone gone' : List FilterId} {c : ℕ × Conn} {s s' : ℕ × Sub}

theorem mem_subscriptions : s ∈ hub.subscriptions ↔ ∃ c ∈ hub.conns, s ∈ c.2.subs := by
  rw [Hub.subscriptions, List.mem_flatMap]

namespace Numbered

variable (h : Numbered hub)

include h

theorem div_filter (hc : c ∈ hub.conns) (hs : s ∈ c.2.subs) : s.2.filter / subIds = c.1 := by
  obtain ⟨hlt, hfilter⟩ := h.filterIds c hc s hs
  rw [hfilter, Nat.add_comm, Nat.add_mul_div_right _ _ (by decide : 0 < subIds),
    Nat.div_eq_of_lt hlt, Nat.zero_add]

theorem eq_of_filter (hc : c ∈ hub.conns) (hs : s ∈ c.2.subs) (hs' : s' ∈ c.2.subs)
    (hfilter : s.2.filter = s'.2.filter) : s = s' := by
  have hid : s.1 = s'.1 := by
    have hkey := (h.filterIds c hc s hs).2.symm.trans (hfilter.trans (h.filterIds c hc s' hs').2)
    exact Nat.add_left_cancel hkey
  exact List.inj_on_of_nodup_map (h.numbers c hc) hs hs' hid

theorem conn_eq {c' : ℕ × Conn} (hc : c ∈ hub.conns) (hc' : c' ∈ hub.conns) (hid : c.1 = c'.1) :
    c = c' := List.inj_on_of_nodup_map h.connIds hc hc' hid

theorem filters_nodup : (hub.subscriptions.map fun s => s.2.filter).Nodup := by
  refine List.Nodup.map_on (fun s hs s' hs' hfilter => ?_) ?_
  · obtain ⟨c, hc, hs⟩ := mem_subscriptions.1 hs
    obtain ⟨c', hc', hs'⟩ := mem_subscriptions.1 hs'
    have hid : c.1 = c'.1 := by
      rw [← h.div_filter hc hs, ← h.div_filter hc' hs', hfilter]
    obtain rfl := h.conn_eq hc hc' hid
    exact h.eq_of_filter hc hs hs' hfilter
  · refine List.nodup_flatMap.2 ⟨fun c hc => List.Nodup.of_map _ (h.numbers c hc), ?_⟩
    refine (List.Nodup.of_map _ h.connIds).pairwise_of_forall_ne fun c hc c' hc' hne => ?_
    intro s hs hs'
    refine hne (h.conn_eq hc hc' ?_)
    rw [← h.div_filter hc hs, ← h.div_filter hc' hs']

/-- The subscriptions of the other connections are those under other filters than one's. -/
theorem filter_without (hc : c ∈ hub.conns) :
    ((Assoc.without c.1 hub.conns).flatMap fun c => c.2.subs) =
      hub.subscriptions.filter fun s => s.2.filter ∉ c.2.subs.map fun s => s.2.filter := by
  unfold Hub.subscriptions Assoc.without
  rw [List.filter_flatMap]
  refine flatMap_filter (fun c' hc' hid => ?_) fun c' hc' hid => ?_
  · rw [List.filter_eq_self]
    intro s hs
    rw [decide_eq_true_eq, List.mem_map]
    rintro ⟨s', hs', hfilter⟩
    have hne : c'.1 ≠ c.1 := by simpa using hid
    exact hne (by rw [← h.div_filter hc' hs, ← h.div_filter hc hs', hfilter])
  · obtain rfl := h.conn_eq hc' hc (by simpa using hid)
    rw [List.filter_eq_nil_iff]
    intro s hs
    simpa using ⟨s.1, s.2, hs, rfl⟩

end Numbered

namespace Drops

theorem of_eq (hconns : hub'.conns = hub.conns) (hnext : hub'.nextConn = hub.nextConn)
    (hfaces : hub'.index.faces = hub.index.faces) : Drops [] hub hub' where
  nextConn := hnext
  connIds := hconns ▸ List.Sublist.refl _
  subs c hc := ⟨c, hconns ▸ hc, rfl, List.Sublist.refl _⟩
  subscriptions := by simp [Hub.subscriptions, hconns]
  faces := by simp [hfaces]

theorem trans (h : Drops gone hub hub') (h' : Drops gone' hub' hub'') :
    Drops (gone ++ gone') hub hub'' where
  nextConn := h'.nextConn.trans h.nextConn
  connIds := h'.connIds.trans h.connIds
  subs c hc := by
    obtain ⟨c', hc', hid, hsubs⟩ := h'.subs c hc
    obtain ⟨c'', hc'', hid', hsubs'⟩ := h.subs c' hc'
    exact ⟨c'', hc'', hid.trans hid', hsubs.trans hsubs'⟩
  subscriptions := by
    rw [h'.subscriptions, h.subscriptions, List.filter_filter]
    refine List.filter_congr fun s _ => ?_
    simp [Bool.and_comm]
  faces := by
    rw [h'.faces, h.faces, List.filter_filter]
    refine List.filter_congr fun f _ => ?_
    simp [Bool.and_comm]

theorem numbered (h : Drops gone hub hub') (hnumbered : Numbered hub) : Numbered hub' where
  connIds := hnumbered.connIds.sublist h.connIds
  below c hc := by
    obtain ⟨c', hc', hid, -⟩ := h.subs c hc
    rw [hid, h.nextConn]
    exact hnumbered.below c' hc'
  numbers c hc := by
    obtain ⟨c', hc', -, hsubs⟩ := h.subs c hc
    exact (hnumbered.numbers c' hc').sublist (hsubs.map Prod.fst)
  filterIds c hc s hs := by
    obtain ⟨c', hc', hid, hsubs⟩ := h.subs c hc
    rw [hid]
    exact hnumbered.filterIds c' hc' s (hsubs.subset hs)

/-- A step on each connection that keeps its subscriptions under the other filters. -/
theorem of_map {f : ℕ × Conn → ℕ × Conn} (hid : ∀ c ∈ hub.conns, (f c).1 = c.1)
    (hsubs : ∀ c ∈ hub.conns, (f c).2.subs = c.2.subs.filter fun s => s.2.filter ∉ gone)
    (hconns : hub'.conns = hub.conns.map f) (hnext : hub'.nextConn = hub.nextConn)
    (hfaces : hub'.index.faces = hub.index.faces.filter fun f => f.1 ∉ gone) :
    Drops gone hub hub' where
  nextConn := hnext
  connIds := by
    have hids : (hub.conns.map f).map Prod.fst = hub.conns.map Prod.fst := by
      rw [List.map_map]
      exact List.map_congr_left hid
    rw [hconns, hids]
  subs c' hc' := by
    obtain ⟨c, hc, rfl⟩ := List.mem_map.1 (hconns ▸ hc')
    exact ⟨c, hc, hid c hc, hsubs c hc ▸ List.filter_sublist⟩
  subscriptions := by
    rw [Hub.subscriptions, Hub.subscriptions, hconns, List.flatMap_map, List.filter_flatMap]
    exact List.flatMap_congr fun c hc => hsubs c hc
  faces := hfaces

end Drops

end Numbering

section Faces

variable {F : Type} {ix : Index F}

namespace Index

theorem isEmpty_iff : ix.isEmpty = true ↔ ix.faces = [] := by
  simp [isEmpty, faces]

theorem sent_key (A : Antares F) (f : Filter F) (now : Instant) :
    (f.sent A now).key = f.key ∧ (f.sent A now).watched = f.watched := by
  unfold Filter.sent
  split
  · split <;> exact ⟨rfl, rfl⟩
  · exact ⟨rfl, rfl⟩

theorem faces_sent (A : Antares F) (id : FilterId) (now : Instant) :
    (ix.sent A id now).faces = ix.faces := by
  rw [faces, sent, List.map_map, faces]
  refine List.map_congr_left fun f _ => ?_
  simp only [Function.comp_apply]
  split_ifs
  · rw [(sent_key A f.2 now).1, (sent_key A f.2 now).2]
  · rfl

variable [GridFloat F]

@[simp] theorem filters_dropKey (id : FilterId) (key : Key F) :
    (ix.dropKey id key).filters = ix.filters := by
  cases key <;> rfl

@[simp] theorem filters_insertKey (id : FilterId) (key : Key F) :
    (ix.insertKey id key).filters = ix.filters := by
  cases key <;> rfl

theorem filters_remove (id : FilterId) : (ix.remove id).filters = Assoc.without id ix.filters := by
  unfold remove
  rcases hid : ix.filters.lookup id with _ | filter
  · refine (List.filter_eq_self.2 fun f hf => ?_).symm
    have hnot : id ∉ ix.filters.map Prod.fst := fun hmem => by
      simpa [hid] using Assoc.lookup_isSome_iff.2 hmem
    simpa using fun heq : f.1 = id => hnot (heq ▸ List.mem_map_of_mem hf)
  · simp

theorem filters_insert (id : FilterId) (filter : Filter F) :
    (ix.insert id filter).filters = Assoc.without id ix.filters ++ [(id, filter)] := by
  simp [insert, filters_remove]

theorem faces_remove (id : FilterId) :
    (ix.remove id).faces = ix.faces.filter fun f => f.1 ∉ [id] := by
  rw [faces, filters_remove, faces, List.filter_map, Assoc.without]
  simp [Function.comp_def]

theorem faces_insert (id : FilterId) (filter : Filter F) :
    (ix.insert id filter).faces =
      (ix.faces.filter fun f => f.1 ∉ [id]) ++ [(id, filter.key, filter.watched)] := by
  rw [faces, filters_insert, List.map_append, ← filters_remove, ← faces, faces_remove]
  rfl

end Index

namespace Hub

theorem faces_dropFilters [GridFloat F] : ∀ (subs : List (ℕ × Sub)) (hub : Hub F),
    (hub.dropFilters subs).index.faces =
      hub.index.faces.filter fun f => f.1 ∉ subs.map fun s => s.2.filter
  | [], hub => by simp [dropFilters]
  | s :: rest, hub => by
    have ih := faces_dropFilters rest (hub.dropFilters [s])
    have hone : (hub.dropFilters [s]).index.faces =
        hub.index.faces.filter fun f => f.1 ∉ [s.2.filter] := Index.faces_remove _
    rw [hone, List.filter_filter] at ih
    refine ih.trans (List.filter_congr fun f _ => ?_)
    rw [List.map_cons, ← Bool.decide_and, decide_eq_decide, List.mem_singleton, List.mem_cons,
      not_or, and_comm]

variable (hub : Hub F)

@[simp] theorem conns_forgetUnwatched : hub.forgetUnwatched.conns = hub.conns := by
  unfold forgetUnwatched
  split_ifs <;> rfl

@[simp] theorem nextConn_forgetUnwatched : hub.forgetUnwatched.nextConn = hub.nextConn := by
  unfold forgetUnwatched
  split_ifs <;> rfl

@[simp] theorem index_forgetUnwatched : hub.forgetUnwatched.index = hub.index := by
  unfold forgetUnwatched
  split_ifs <;> rfl

end Hub

end Faces

section Dropping

variable {F : Type} {hub hub' : Hub F}

namespace Drops

theorem forgetUnwatched {gone : List FilterId} (h : Drops gone hub hub') :
    Drops gone hub hub'.forgetUnwatched := by
  have hforget : Drops [] hub' hub'.forgetUnwatched := of_eq (by simp) (by simp) (by simp)
  simpa using h.trans hforget

/-- One connection's queue changed. -/
theorem setQueue (hnumbered : Numbered hub) {id : ℕ} {conn : Conn}
    (hconn : hub.conns.lookup id = some conn) (queue : Queue) :
    Drops [] hub (hub.setConn id { conn with queue := queue }) := by
  have hmem := Assoc.mem_of_lookup hconn
  refine of_map (fun c hc => ?_) (fun c hc => ?_) rfl rfl (by simp [Hub.setConn])
  · split_ifs with hid
    · exact hid.symm
    · rfl
  · split_ifs with hid
    · obtain rfl := hnumbered.conn_eq hc hmem hid
      simp
    · simp

theorem without [GridFloat F] (hnumbered : Numbered hub) {id : ℕ} {conn : Conn}
    (hconn : hub.conns.lookup id = some conn) :
    Drops (conn.subs.map fun s => s.2.filter) hub
      ({ hub with conns := Assoc.without id hub.conns }.dropFilters conn.subs) where
  nextConn := rfl
  connIds := List.filter_sublist.map Prod.fst
  subs c hc := ⟨c, List.mem_of_mem_filter hc, rfl, List.Sublist.refl _⟩
  subscriptions := hnumbered.filter_without (Assoc.mem_of_lookup hconn)
  faces := Hub.faces_dropFilters conn.subs _

theorem pushAll (out : Out) : Drops [] hub (hub.pushAll out) :=
  of_map (f := fun c => (c.1, { c.2 with queue := c.2.queue.push out })) (fun _ _ => rfl)
    (fun _ _ => by simp) rfl rfl (by simp [Hub.pushAll])

theorem unsubscribe [GridFloat F] (hnumbered : Numbered hub) {id n : ℕ} {conn : Conn} {sub : Sub}
    (hconn : hub.conns.lookup id = some conn) (hsub : (n, sub) ∈ conn.subs) :
    Drops [sub.filter] hub
      { hub.setConn id { conn with subs := Assoc.without n conn.subs } with
        index := hub.index.remove sub.filter } := by
  have hmem := Assoc.mem_of_lookup hconn
  refine of_map (f := fun c => if c.1 = id then
    (id, { conn with subs := Assoc.without n conn.subs }) else c)
    (fun c hc => ?_) (fun c hc => ?_) rfl rfl (Index.faces_remove _)
  · split_ifs with hid
    · exact hid.symm
    · rfl
  · split_ifs with hid
    · obtain rfl := hnumbered.conn_eq hc hmem hid
      refine List.filter_congr fun s hs => ?_
      have hiff : s.1 = n ↔ s.2.filter = sub.filter := by
        constructor
        · intro hn
          obtain rfl : s = (n, sub) :=
            List.inj_on_of_nodup_map (hnumbered.numbers _ hmem) hs hsub hn
          rfl
        · exact fun hfilter => congrArg Prod.fst (hnumbered.eq_of_filter hmem hs hsub hfilter)
      simp [hiff]
    · refine (List.filter_eq_self.2 fun s hs => ?_).symm
      have hne : s.2.filter ≠ sub.filter := fun hfilter => hid (by
        rw [← hnumbered.div_filter hc hs, hfilter, hnumbered.div_filter hmem hsub])
      simpa using hne

end Drops

end Dropping

end JoinedContext.Fanout
