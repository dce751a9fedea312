import JoinedContext.Fanout.Table

/-!
# The subscriptions and their filters

The filters the index holds are those of the connections' subscriptions, each compiled from the body
of its subscription. Every operation keeps them so: a subscription puts one in, and the other
operations take filters out with their subscriptions.
-/

namespace JoinedContext.Fanout

section Wired

variable {F : Type} [GridFloat F] (A : Antares F)

/-- Whether the index holds the filters of the subscriptions and no others. -/
structure Wired (hub : Hub F) : Prop where
  numbered : Numbered hub
  faceIds : (hub.index.faces.map Prod.fst).Nodup
  owned : ∀ f ∈ hub.index.faces, ∃ s ∈ hub.subscriptions, s.2.filter = f.1
  compiled : ∀ s ∈ hub.subscriptions, ∃ f, compile A s.2.body = .ok f ∧
    (s.2.filter, f.key, f.watched) ∈ hub.index.faces
  few : ∀ c ∈ hub.conns, c.2.subs.length ≤ maxFilters

variable {A} {hub hub' : Hub F}

theorem Drops.wired {gone : List FilterId} (h : Drops gone hub hub') (hw : Wired A hub) :
    Wired A hub' where
  numbered := h.numbered hw.numbered
  faceIds := by
    rw [h.faces]
    exact hw.faceIds.sublist (List.filter_sublist.map _)
  owned f hf := by
    rw [h.faces, List.mem_filter, decide_eq_true_eq] at hf
    obtain ⟨s, hs, hid⟩ := hw.owned f hf.1
    refine ⟨s, ?_, hid⟩
    rw [h.subscriptions, List.mem_filter, decide_eq_true_eq, hid]
    exact ⟨hs, hf.2⟩
  compiled s hs := by
    rw [h.subscriptions, List.mem_filter, decide_eq_true_eq] at hs
    obtain ⟨f, hok, hf⟩ := hw.compiled s hs.1
    refine ⟨f, hok, ?_⟩
    rw [h.faces, List.mem_filter, decide_eq_true_eq]
    exact ⟨hf, hs.2⟩
  few c hc := by
    obtain ⟨c', hc', -, hsubs⟩ := h.subs c hc
    exact hsubs.length_le.trans (hw.few c' hc')

/-- The index's filters are the subscriptions' filters. -/
theorem Wired.perm (hw : Wired A hub) :
    (hub.index.filters.map Prod.fst).Perm (hub.subscriptions.map fun s => s.2.filter) := by
  have hids : hub.index.filters.map Prod.fst = hub.index.faces.map Prod.fst := by
    simp [Index.faces]
  rw [hids]
  refine (List.perm_ext_iff_of_nodup hw.faceIds hw.numbered.filters_nodup).2 fun id => ?_
  rw [List.mem_map, List.mem_map]
  constructor
  · rintro ⟨f, hf, rfl⟩
    exact hw.owned f hf
  · rintro ⟨s, hs, rfl⟩
    obtain ⟨f, -, hf⟩ := hw.compiled s hs
    exact ⟨_, hf, rfl⟩

end Wired

section Subscribing

variable {F : Type} [GridFloat F] {A : Antares F} {hub hub' : Hub F}

def Answer.isError (answer : Answer) : Bool := 400 ≤ answer.status

/-- Whether a subscription comes to a connection that has given out all its numbers. -/
def Hub.Spent (A : Antares F) (hub : Hub F) : Op → Prop
  | .subscribe conn id body update => update = false ∧ hub.refused = none ∧
      ∃ c, hub.conns.lookup conn = some c ∧
        (id.bind fun id => c.subs.find? fun s => s.2.id = id) = none ∧
        c.subs.length < maxFilters ∧ (∃ f, compile A body = .ok f) ∧ subIds ≤ c.next
  | _ => False

/-- What a subscription comes to. -/
inductive Subscribed (A : Antares F) (hub : Hub F) (conn : ℕ) (op : Op) : Answer × Hub F → Prop where
  | refused {answer : Answer} (herror : answer.isError = true) (hspent : ¬ hub.Spent A op) :
    Subscribed A hub conn op (answer, hub)
  | spent {answer : Answer} {c : Conn} (herror : answer.isError = true) (hspent : hub.Spent A op)
      (hconn : hub.conns.lookup conn = some c) :
    Subscribed A hub conn op (answer, hub.setConn conn { c with next := c.next + 1 })
  | made {answer : Answer} {c : Conn} {n next : ℕ} {sub : Sub} {filter : Filter F}
      (hmade : answer.isError = false) (hspent : ¬ hub.Spent A op)
      (hconn : hub.conns.lookup conn = some c) (hnumber : n < subIds)
      (hid : sub.filter = conn * subIds + n) (hcompiled : compile A sub.body = .ok filter)
      (hfew : c.subs.length ≤ maxFilters → (Assoc.put n sub c.subs).length ≤ maxFilters) :
    Subscribed A hub conn op (answer, { hub with index := hub.index.insert sub.filter filter }.setConn
      conn { c with subs := Assoc.put n sub c.subs, next := next })

/-- A subscription under a new number. -/
theorem subscribe_new {conn : ℕ} {id : Option String} {body : Value} {c : Conn}
    (hrefused : hub.refused = none) (hconn : hub.conns.lookup conn = some c)
    (hheld : (id.bind fun id => c.subs.find? fun s => s.2.id = id) = none) :
    Subscribed A hub conn (.subscribe conn id body false) (hub.subscribe A conn id body false) := by
  simp only [Hub.subscribe, hrefused, hconn, hheld]
  rw [if_neg (by simp)]
  by_cases hfull : maxFilters ≤ c.subs.length
  · rw [if_pos (by simpa using hfull)]
    exact .refused rfl (by simp [Hub.Spent, hconn]; omega)
  rw [if_neg (by simpa using hfull)]
  rw [if_neg (by simp)]
  rcases hcompiled : compile A body with why | filter
  · exact .refused rfl (by simp [Hub.Spent, hcompiled])
  by_cases hspent : subIds ≤ c.next
  · have hspends : hub.Spent A (.subscribe conn id body false) :=
      ⟨rfl, hrefused, c, hconn, hheld, not_le.1 hfull, ⟨filter, hcompiled⟩, hspent⟩
    have hanswer : (Answer.problem 400 "BadRequestData"
        "this connection made too many subscriptions").isError = true := rfl
    simpa [hspent, hcompiled] using Subscribed.spent hanswer hspends hconn
  · have hunspent : ¬ hub.Spent A (.subscribe conn id body false) := by
      rintro ⟨-, -, c', hconn', -, -, -, hspent'⟩
      obtain rfl := Option.some.inj (hconn.symm.trans hconn')
      exact hspent hspent'
    let sub : Sub := ⟨id.getD (hub.subId conn c.next), conn * subIds + c.next, body,
      Hub.notifiedAttributes body⟩
    have hfew : c.subs.length ≤ maxFilters →
        (Assoc.put c.next sub c.subs).length ≤ maxFilters := fun _ => by
      rw [Assoc.length_put]
      split_ifs <;> omega
    have hmade := @Subscribed.made _ _ A hub conn (.subscribe conn id body false)
      ⟨201, some (.obj [("id", .str sub.id), ("type", .str "Subscription")])⟩ c c.next (c.next + 1)
      sub filter rfl hunspent hconn (not_le.1 hspent) rfl hcompiled hfew
    simpa [hspent, hcompiled, hrefused, sub] using hmade

/-- A subscription in the place of one the connection holds. -/
theorem subscribe_held {conn : ℕ} {id : Option String} {body : Value} {update : Bool} {c : Conn}
    {held : ℕ × Sub} (hrefused : hub.refused = none) (hconn : hub.conns.lookup conn = some c)
    (hnumbers : ∀ s ∈ c.subs, s.1 < subIds)
    (hheld : (id.bind fun id => c.subs.find? fun s => s.2.id = id) = some held) :
    Subscribed A hub conn (.subscribe conn id body update) (hub.subscribe A conn id body update) := by
  have hmem : held ∈ c.subs := by
    rcases id with _ | id
    · cases hheld
    · exact List.mem_of_find?_eq_some hheld
  have hunspent : ¬ hub.Spent A (.subscribe conn id body update) := by
    rintro ⟨-, -, c', hconn', hheld', -⟩
    obtain rfl := Option.some.inj (hconn.symm.trans hconn')
    rw [hheld] at hheld'
    cases hheld'
  simp only [Hub.subscribe, hrefused, hconn, hheld]
  rw [if_neg (by simp)]
  by_cases hfull : (!update) = true ∧ maxFilters ≤ c.subs.length
  · rw [if_pos hfull]
    exact .refused rfl hunspent
  rw [if_neg hfull]
  generalize (if update = true then ((some held).map fun s => Hub.mergedBody s.2.body body).getD body
    else body) = body'
  rcases hcompiled : compile A body' with why | filter
  · exact .refused rfl hunspent
  have hnumber := hnumbers held hmem
  let sub : Sub := ⟨id.getD (hub.subId conn held.1), conn * subIds + held.1, body',
    Hub.notifiedAttributes body'⟩
  have hfew : c.subs.length ≤ maxFilters → (Assoc.put held.1 sub c.subs).length ≤ maxFilters := by
    rw [Assoc.length_put, if_pos (Assoc.lookup_isSome_iff.2 (List.mem_map_of_mem hmem))]
    exact fun hle => hle
  have hmade (answer : Answer) (hmade : answer.isError = false) :=
    @Subscribed.made _ _ A hub conn (.subscribe conn id body update) answer c held.1 c.next sub filter
      hmade hunspent hconn hnumber rfl hcompiled hfew
  simp only [Option.map_some, Option.getD_some, reduceCtorEq, if_false, not_le.2 hnumber]
  simp only [hrefused] at hmade
  refine hmade _ ?_
  split_ifs <;> rfl

theorem subscribe_cases (conn : ℕ) (id : Option String) (body : Value) (update : Bool)
    (hnumbers : ∀ c, hub.conns.lookup conn = some c → ∀ s ∈ c.subs, s.1 < subIds) :
    Subscribed A hub conn (.subscribe conn id body update) (hub.subscribe A conn id body update) := by
  rcases hrefused : hub.refused with _ | ⟨status, detail⟩
  · rcases hconn : hub.conns.lookup conn with _ | c
    · simp only [Hub.subscribe, hrefused, hconn]
      exact .refused rfl (by simp [Hub.Spent, hconn])
    · rcases hheld : (id.bind fun id => c.subs.find? fun s => s.2.id = id) with _ | held
      · rcases update with _ | _
        · exact subscribe_new hrefused hconn hheld
        · simp only [Hub.subscribe, hrefused, hconn, hheld]
          exact .refused rfl (by simp [Hub.Spent])
      · exact subscribe_held hrefused hconn (hnumbers c hconn) hheld
  · simp only [Hub.subscribe, hrefused]
    exact .refused rfl (by simp [Hub.Spent, hrefused])

end Subscribing

section Growing

variable {F : Type} [GridFloat F] {A : Antares F} {hub : Hub F}

namespace Wired

theorem openConn (hw : Wired A hub) (endpoint : Endpoint) (principal : String)
    (client : Option String) : Wired A (hub.openConn endpoint principal client).2 := by
  have hsubs : (hub.openConn endpoint principal client).2.subscriptions = hub.subscriptions := by
    simp [Hub.subscriptions, Hub.openConn]
  have hconns : ∀ {c}, c ∈ (hub.openConn endpoint principal client).2.conns →
      c ∈ hub.conns ∨ c.1 = hub.nextConn ∧ c.2.subs = [] := by
    intro c hc
    rcases List.mem_append.1 hc with hc | hc
    · exact Or.inl hc
    · rw [List.mem_singleton.1 hc]
      exact Or.inr ⟨rfl, rfl⟩
  refine ⟨⟨?_, ?_, ?_, ?_⟩, hw.faceIds, fun f hf => ?_, fun s hs => ?_, fun c hc => ?_⟩
  · show ((hub.conns ++ [_]).map Prod.fst).Nodup
    rw [List.map_append, List.nodup_append]
    refine ⟨hw.numbered.connIds, by simp, fun a ha b hb hab => ?_⟩
    obtain ⟨c, hc, rfl⟩ := List.mem_map.1 ha
    have hlt := hw.numbered.below c hc
    have hb : b = hub.nextConn := by simpa using hb
    omega
  · intro c hc
    show c.1 < hub.nextConn + 1
    rcases hconns hc with hc | ⟨hid, -⟩
    · exact (hw.numbered.below c hc).trans (Nat.lt_succ_self _)
    · omega
  · intro c hc
    rcases hconns hc with hc | ⟨-, hnil⟩
    · exact hw.numbered.numbers c hc
    · simp [hnil]
  · intro c hc s hs
    rcases hconns hc with hc | ⟨-, hnil⟩
    · exact hw.numbered.filterIds c hc s hs
    · simp [hnil] at hs
  · rw [hsubs]
    exact hw.owned f hf
  · rw [hsubs] at hs
    exact hw.compiled s hs
  · rcases hconns hc with hc | ⟨-, hnil⟩
    · exact hw.few c hc
    · simp [hnil]

/-- A connection with one subscription put under a number. -/
theorem subscribed (hw : Wired A hub) {conn n next : ℕ} {c : Conn} {sub : Sub} {filter : Filter F}
    (hconn : hub.conns.lookup conn = some c) (hnumber : n < subIds)
    (hid : sub.filter = conn * subIds + n) (hcompiled : compile A sub.body = .ok filter)
    (hfew : c.subs.length ≤ maxFilters → (Assoc.put n sub c.subs).length ≤ maxFilters) :
    Wired A ({ hub with index := hub.index.insert sub.filter filter }.setConn conn
      { c with subs := Assoc.put n sub c.subs, next := next }) := by
  have hmem := Assoc.mem_of_lookup hconn
  have hkey := List.mem_map_of_mem (f := Prod.fst) hmem
  set hub' := { hub with index := hub.index.insert sub.filter filter }.setConn conn
    { c with subs := Assoc.put n sub c.subs, next := next } with hhub'
  have hconns : ∀ {d}, d ∈ hub'.conns ↔
      d = (conn, { c with subs := Assoc.put n sub c.subs, next := next }) ∨
        d ∈ hub.conns ∧ d.1 ≠ conn := Assoc.mem_replace_iff hkey
  have hfaces : hub'.index.faces = (hub.index.faces.filter fun f => f.1 ∉ [sub.filter]) ++
      [(sub.filter, filter.key, filter.watched)] := Index.faces_insert _ _
  -- The subscriptions under the other filters stay, beside the new one.
  have hsubs : ∀ {s}, s ∈ hub'.subscriptions ↔
      s = (n, sub) ∨ s ∈ hub.subscriptions ∧ s.2.filter ≠ sub.filter := by
    intro s
    rw [mem_subscriptions, mem_subscriptions]
    constructor
    · rintro ⟨d, hd, hs⟩
      rcases hconns.1 hd with rfl | ⟨hd, hne⟩
      · rcases Assoc.mem_put.1 hs with rfl | ⟨hs, hne⟩
        · exact Or.inl rfl
        · refine Or.inr ⟨⟨_, hmem, hs⟩, fun heq => hne ?_⟩
          exact Nat.add_left_cancel ((hw.numbered.filterIds _ hmem s hs).2.symm.trans (heq.trans hid))
      · refine Or.inr ⟨⟨d, hd, hs⟩, fun heq => hne ?_⟩
        rw [← hw.numbered.div_filter hd hs, heq, hid, Nat.add_comm,
          Nat.add_mul_div_right _ _ (by decide : 0 < subIds), Nat.div_eq_of_lt hnumber, Nat.zero_add]
    · rintro (rfl | ⟨⟨d, hd, hs⟩, hne⟩)
      · exact ⟨_, hconns.2 (Or.inl rfl), Assoc.mem_put.2 (Or.inl rfl)⟩
      · by_cases hc : d.1 = conn
        · obtain rfl := hw.numbered.conn_eq hd hmem hc
          refine ⟨_, hconns.2 (Or.inl rfl), Assoc.mem_put.2 (Or.inr ⟨hs, fun heq => hne ?_⟩)⟩
          rw [(hw.numbered.filterIds _ hmem s hs).2, heq, hid]
        · exact ⟨d, hconns.2 (Or.inr ⟨hd, hc⟩), hs⟩
  refine ⟨⟨?_, ?_, ?_, ?_⟩, ?_, ?_, ?_, ?_⟩
  · exact (Assoc.keys_replace (k := conn) (l := hub.conns)).symm ▸ hw.numbered.connIds
  · intro d hd
    rcases hconns.1 hd with rfl | ⟨hd, -⟩
    · exact hw.numbered.below (conn, c) hmem
    · exact hw.numbered.below d hd
  · intro d hd
    rcases hconns.1 hd with rfl | ⟨hd, -⟩
    · exact Assoc.nodup_put (hw.numbered.numbers _ hmem)
    · exact hw.numbered.numbers d hd
  · intro d hd s hs
    rcases hconns.1 hd with rfl | ⟨hd, -⟩
    · rcases Assoc.mem_put.1 hs with rfl | ⟨hs, -⟩
      · exact ⟨hnumber, hid⟩
      · exact hw.numbered.filterIds _ hmem s hs
    · exact hw.numbered.filterIds d hd s hs
  · rw [hfaces, List.map_append, List.nodup_append]
    refine ⟨hw.faceIds.sublist (List.filter_sublist.map _), by simp, fun a ha b hb hab => ?_⟩
    obtain ⟨f, hf, rfl⟩ := List.mem_map.1 ha
    have hne : f.1 ≠ sub.filter := by simpa using List.of_mem_filter hf
    exact hne (hab.trans (by simpa using hb))
  · intro f hf
    rcases List.mem_append.1 (hfaces ▸ hf) with hf | hf
    · obtain ⟨s, hs, heq⟩ := hw.owned f (List.mem_of_mem_filter hf)
      have hne : f.1 ≠ sub.filter := by simpa using List.of_mem_filter hf
      exact ⟨s, hsubs.2 (Or.inr ⟨hs, heq ▸ hne⟩), heq⟩
    · rw [List.mem_singleton.1 hf]
      exact ⟨(n, sub), hsubs.2 (Or.inl rfl), rfl⟩
  · intro s hs
    rw [hfaces]
    rcases hsubs.1 hs with rfl | ⟨hs, hne⟩
    · exact ⟨filter, hcompiled, by simp⟩
    · obtain ⟨f, hok, hf⟩ := hw.compiled s hs
      exact ⟨f, hok, List.mem_append_left _ (List.mem_filter.2 ⟨hf, by simpa using hne⟩)⟩
  · intro d hd
    rcases hconns.1 hd with rfl | ⟨hd, -⟩
    · exact hfew (hw.few _ hmem)
    · exact hw.few d hd

/-- A connection that only gives out its next number. -/
theorem spent (hw : Wired A hub) {conn : ℕ} {c : Conn} (hconn : hub.conns.lookup conn = some c)
    (next : ℕ) : Wired A (hub.setConn conn { c with next := next }) := by
  have hmem := Assoc.mem_of_lookup hconn
  refine Drops.wired (show Drops [] hub _ from
    Drops.of_map (fun d hd => ?_) (fun d hd => ?_) rfl rfl ?_) hw
  · split_ifs with hid
    · exact hid.symm
    · rfl
  · split_ifs with hid
    · obtain rfl := hw.numbered.conn_eq hd hmem hid
      simp
    · simp
  · simp [Hub.setConn]

end Wired

end Growing

end JoinedContext.Fanout
