import JoinedContext.Fanout.Invariants
import JoinedContext.Fanout.Session

/-!
# What a resume gives back

A closed connection the hub holds has subscriptions that a connection may have. A resume makes them
again one by one and answers that it did; they are all there unless the hub refuses subscriptions
meanwhile, a reload ends the new connection, or two of them have one id.
-/

namespace JoinedContext.Fanout

section Spec

variable {F : Type} [GridFloat F] (A : Antares F)

/-- The subscriptions of a connection, as a close keeps them. -/
def Conn.kept (c : Conn) : List (String × Value) := c.subs.map fun s => (s.2.id, s.2.body)

/-- Whether a connection holds these subscriptions and no others, each with its filter in the index
and under a record of the Endpoint that a reload now would keep. -/
def Restored (present : Option Endpoint) (admits : String → Bool) (hub : Hub F) (conn : ℕ)
    (subs : List (String × Value)) : Prop :=
  ∃ c, hub.conns.lookup conn = some c ∧ c.kept = subs ∧
    ∀ s ∈ c.subs, Hub.recheckReason present admits c = none ∧
      ∃ f, compile A s.2.body = .ok f ∧ (s.2.filter, f.key, f.watched) ∈ hub.index.faces

/-- Whether a resume answered as one gave the closed connection's subscriptions back, and every
other resume was answered with the refusal alone. -/
def KeepsWord (present : Option Endpoint) (admits : String → Bool) (hub : Hub F) (now : Instant)
    (conn : ℕ) (principal : String) (metadata : List (String × Value)) (s : Session) : Prop :=
  let resumed := Session.resume A hub now conn principal metadata s
  let resumedText := Session.resultText metadata ⟨200, none⟩
  (resumed.1.head? = some resumedText → ∃ closed hub',
    hub.takeClosed now (Session.textOf metadata "x-connection")
        (Session.textOf metadata "x-resume-token") principal = some (closed, hub') ∧
      Restored A present admits resumed.2.2 conn closed.subs) ∧
  (resumed.1.head? ≠ some resumedText →
    resumed.1 = [Session.resultText metadata Session.notResumed])

end Spec

section Kept

variable {F : Type} [GridFloat F] {A : Antares F} {hub : Hub F}

/-- Whether a connection may have these subscriptions. -/
structure Fits (A : Antares F) (subs : List (String × Value)) : Prop where
  few : subs.length ≤ maxFilters
  compiled : ∀ s ∈ subs, ∃ f, compile A s.2 = .ok f

theorem Wired.fits (hw : Wired A hub) {c : ℕ × Conn} (hc : c ∈ hub.conns) : Fits A c.2.kept where
  few := by simpa [Conn.kept] using hw.few c hc
  compiled s hs := by
    obtain ⟨sub, hsub, rfl⟩ := List.mem_map.1 hs
    obtain ⟨f, hok, -⟩ := hw.compiled sub (mem_subscriptions.2 ⟨c, hc, hsub⟩)
    exact ⟨f, hok⟩

theorem mem_of_mem_trimClosed {c : String × Closed} : ∀ {fuel : ℕ}
    {closed : List (String × Closed)}, c ∈ Hub.trimClosed fuel closed → c ∈ closed
  | 0, _, h => h
  | fuel + 1, closed, h => by
    unfold Hub.trimClosed at h
    split_ifs at h
    · split at h
      · exact List.mem_of_mem_filter (mem_of_mem_trimClosed h)
      · exact h
    · exact h

/-- A step holds only closed connections held before, and the one it closes. -/
theorem mem_closed_step {c : String × Closed} {op : Op} (hc : c ∈ (hub.step A op).closed) :
    c ∈ hub.closed ∨ ∃ conn ∈ hub.conns, c.2.subs = conn.2.kept := by
  by_cases hclose : ∃ now conn name token sent, op = .close now conn name token sent
  · obtain ⟨now, conn, name, token, sent, rfl⟩ := hclose
    simp only [Hub.step, Hub.close] at hc
    split at hc
    · exact Or.inl hc
    · next held hconn =>
      rcases List.mem_append.1 (mem_of_mem_trimClosed hc) with hc | hc
      · have hold := List.mem_of_mem_filter (List.mem_of_mem_filter hc)
        exact Or.inl (by simpa [Hub.dropFilters] using hold)
      · rw [List.mem_singleton.1 hc]
        exact Or.inr ⟨(conn, held), Assoc.mem_of_lookup hconn, rfl⟩
  · exact Or.inl ((closed_step_sublist A fun now conn name token sent hop =>
      hclose ⟨now, conn, name, token, sent, hop⟩).subset hc)

/-- In every run the closed connections hold what a connection may. -/
theorem fits_of_run (slug : String) (bound : ℕ) (start : Instant) (ops : List Op)
    {c : String × Closed}
    (hc : c ∈ (Machine.run (Hub.step A) (Hub.new slug bound start) ops).closed) :
    Fits A c.2.subs := by
  let P := fun hub : Hub F => Wired A hub ∧ ∀ c ∈ hub.closed, Fits A c.2.subs
  have hstart : P (Hub.new slug bound start) :=
    ⟨(Sound.new slug bound start).wired, by simp [Hub.new]⟩
  have hstep : ∀ hub op, P hub → P (hub.step A op) := by
    intro hub op h
    refine ⟨h.1.step op, fun c hc => ?_⟩
    rcases mem_closed_step hc with hold | ⟨conn, hconn, hsubs⟩
    · exact h.2 c hold
    · exact hsubs ▸ h.1.fits hconn
  exact (Machine.run_preserves hstep hstart ops).2 c hc

end Kept

section Resubscribing

variable {F : Type} [GridFloat F] {A : Antares F} {hub : Hub F} {conn : ℕ} {c : Conn}

theorem resubscribe_cons (s : String × Value) (rest : List (String × Value)) :
    Session.resubscribe A conn (s :: rest) hub =
      Session.resubscribe A conn rest (hub.subscribe A conn (some s.1) s.2 false).2 := rfl

theorem Wired.resubscribe : ∀ {hub : Hub F}, Wired A hub → ∀ subs : List (String × Value),
    Wired A (Session.resubscribe A conn subs hub)
  | _, hw, [] => hw
  | _, hw, s :: rest => (hw.step (.subscribe conn (some s.1) s.2 false)).resubscribe rest

/-- While the hub refuses subscriptions nothing is made again. -/
theorem resubscribe_of_refused (hrefused : hub.refused.isSome) : ∀ subs : List (String × Value),
    Session.resubscribe A conn subs hub = hub
  | [] => rfl
  | s :: rest => by
    have hsame : (hub.subscribe A conn (some s.1) s.2 false).2 = hub := by
      obtain ⟨refusal, hrefusal⟩ := Option.isSome_iff_exists.1 hrefused
      simp only [Hub.subscribe, hrefusal]
    rw [resubscribe_cons, hsame, resubscribe_of_refused hrefused rest]

/-- A put keeps the ids distinct when only the entry it replaces has the new one's id. -/
theorem nodup_ids_put {n : ℕ} {sub : Sub} {subs : List (ℕ × Sub)}
    (hnumbers : (subs.map Prod.fst).Nodup) (hids : (subs.map fun s => s.2.id).Nodup)
    (hsame : ∀ s ∈ subs, s.2.id = sub.id → s.1 = n) :
    ((Assoc.put n sub subs).map fun s => s.2.id).Nodup := by
  unfold Assoc.put
  split_ifs with hheld
  · rw [Assoc.replace, List.map_map]
    refine List.Nodup.map_on (fun s hs s' hs' heq => ?_) (List.Nodup.of_map _ hnumbers)
    have hnumber {s s'} (hs : s ∈ subs) (hs' : s' ∈ subs) : s.1 = s'.1 → s = s' :=
      List.inj_on_of_nodup_map hnumbers hs hs'
    simp only [Function.comp_apply] at heq
    split_ifs at heq with hn hn' hn'
    · exact hnumber hs hs' (hn.trans hn'.symm)
    · exact absurd (hsame s' hs' heq.symm) hn'
    · exact absurd (hsame s hs heq) hn
    · exact List.inj_on_of_nodup_map hids hs hs' heq
  · rw [List.map_append, List.nodup_append]
    refine ⟨hids, by simp, fun id hid id' hid' heq => hheld ?_⟩
    obtain ⟨s, hs, rfl⟩ := List.mem_map.1 hid
    have hnumber : s.1 = n := hsame s hs (heq.trans (by simpa using hid'))
    exact Assoc.lookup_isSome_iff.2 (hnumber ▸ List.mem_map_of_mem hs)

/-- What a subscription under a given id leaves of its connection. -/
structure Kept (c c' : Conn) : Prop where
  endpoint : c'.endpoint = c.endpoint
  client : c'.client = c.client
  distinct : (c.subs.map Prod.fst).Nodup → (c.subs.map fun s => s.2.id).Nodup →
    (c'.subs.map fun s => s.2.id).Nodup

theorem Kept.refl (c : Conn) : Kept c c := ⟨rfl, rfl, fun _ h => h⟩

/-- The number a subscription under a given id takes, and the connection's next one after it. -/
def Conn.numberFor (c : Conn) (id : String) : ℕ × ℕ :=
  match c.subs.find? fun s => s.2.id = id with
  | some held => (held.1, c.next)
  | none => (c.next, c.next + 1)

theorem subscribe_given (hrefused : hub.refused = none) (hconn : hub.conns.lookup conn = some c)
    (id : String) (body : Value) : (hub.subscribe A conn (some id) body false).2 =
      if maxFilters ≤ c.subs.length then hub
      else match compile A body with
        | .error _ => hub
        | .ok filter =>
          if subIds ≤ (c.numberFor id).1 then
            hub.setConn conn { c with next := (c.numberFor id).2 }
          else
            { hub with
              index := hub.index.insert (conn * subIds + (c.numberFor id).1) filter }.setConn conn
              { c with
                subs := Assoc.put (c.numberFor id).1 ⟨id, conn * subIds + (c.numberFor id).1, body,
                  Hub.notifiedAttributes body⟩ c.subs
                next := (c.numberFor id).2 } := by
  unfold Conn.numberFor
  simp only [Hub.subscribe, hrefused, hconn]
  rw [if_neg (by simp)]
  by_cases hfull : maxFilters ≤ c.subs.length
  · rw [if_pos (by simpa using hfull), if_pos hfull]
  · rw [if_neg (by simpa using hfull), if_neg hfull]
    rcases hheld : c.subs.find? (fun s => s.2.id = id) with _ | held <;>
      rcases hcompiled : compile A body with why | filter <;> simp [hheld, hcompiled]
    · split_ifs <;> rfl
    · split_ifs <;> rfl

theorem subscribe_kept (hconn : hub.conns.lookup conn = some c) (id : String) (body : Value) :
    ∃ c', (hub.subscribe A conn (some id) body false).2.conns.lookup conn = some c' ∧
      Kept c c' := by
  have hset {hub' : Hub F} (hconns : hub'.conns = hub.conns) (c' : Conn) :
      (hub'.setConn conn c').conns.lookup conn = some c' := by
    rw [Hub.setConn, Assoc.lookup_replace, if_pos rfl, hconns, hconn, Option.map_some]
  rcases hrefused : hub.refused with _ | refusal
  · rw [subscribe_given hrefused hconn]
    by_cases hfull : maxFilters ≤ c.subs.length
    · rw [if_pos hfull]
      exact ⟨c, hconn, .refl c⟩
    rw [if_neg hfull]
    rcases compile A body with why | filter <;> dsimp only
    · exact ⟨c, hconn, .refl c⟩
    split_ifs
    · exact ⟨_, hset rfl _, rfl, rfl, fun _ h => h⟩
    · refine ⟨_, hset rfl _, rfl, rfl, fun hnumbers hids => ?_⟩
      refine nodup_ids_put hnumbers hids fun s hs hid => ?_
      -- The first subscription with the id is the only one.
      rcases hheld : c.subs.find? (fun s => s.2.id = id) with _ | held
      · exact absurd hid (by simpa using List.find?_eq_none.1 hheld s hs)
      · have hheldId : held.2.id = id := by simpa using List.find?_some hheld
        have hsame : s.2.id = held.2.id := hid.trans hheldId.symm
        rw [List.inj_on_of_nodup_map hids hs (List.mem_of_find?_eq_some hheld) hsame]
        simp [Conn.numberFor, hheld]
  · simp only [Hub.subscribe, hrefused]
    exact ⟨c, hconn, .refl c⟩

/-- What resubscribing leaves of a connection. -/
theorem resubscribe_kept : ∀ (subs : List (String × Value)) {hub : Hub F} {c : Conn}, Wired A hub →
    hub.conns.lookup conn = some c → (c.subs.map fun s => s.2.id).Nodup →
      ∃ c', (Session.resubscribe A conn subs hub).conns.lookup conn = some c' ∧
        c'.endpoint = c.endpoint ∧ c'.client = c.client ∧ (c'.subs.map fun s => s.2.id).Nodup
  | [], _, c, _, hconn, hids => ⟨c, hconn, rfl, rfl, hids⟩
  | s :: rest, hub, c, hw, hconn, hids => by
    obtain ⟨mid, hmid, hkept⟩ := subscribe_kept (A := A) hconn s.1 s.2
    have hnumbers := hw.numbered.numbers _ (Assoc.mem_of_lookup hconn)
    obtain ⟨c', hconn', hendpoint, hclient, hids'⟩ := resubscribe_kept rest
      (hw.step (.subscribe conn (some s.1) s.2 false)) hmid (hkept.distinct hnumbers hids)
    exact ⟨c', hconn', hendpoint.trans hkept.endpoint, hclient.trans hkept.client, hids'⟩

/-- The connection with one more subscription, under its next number. -/
def Conn.withSub (conn : ℕ) (c : Conn) (s : String × Value) : Conn :=
  { c with
    subs := Assoc.put c.next ⟨s.1, conn * subIds + c.next, s.2, Hub.notifiedAttributes s.2⟩ c.subs
    next := c.next + 1 }

theorem subs_withSub (hbelow : ∀ s ∈ c.subs, s.1 < c.next) (s : String × Value) :
    (c.withSub conn s).subs = c.subs ++
      [(c.next, ⟨s.1, conn * subIds + c.next, s.2, Hub.notifiedAttributes s.2⟩)] := by
  have hunused : ¬ (c.subs.lookup c.next).isSome = true := by
    rw [Assoc.lookup_isSome_iff]
    intro hmem
    obtain ⟨sub, hsub, heq⟩ := List.mem_map.1 hmem
    exact absurd (hbelow sub hsub) (by omega)
  rw [Conn.withSub, Assoc.put, if_neg hunused]

theorem kept_withSub (hbelow : ∀ s ∈ c.subs, s.1 < c.next) (s : String × Value) :
    (c.withSub conn s).kept = c.kept ++ [s] := by
  simp [Conn.kept, subs_withSub hbelow]

theorem below_withSub (hbelow : ∀ s ∈ c.subs, s.1 < c.next) (s : String × Value) :
    ∀ sub ∈ (c.withSub conn s).subs, sub.1 < (c.withSub conn s).next := by
  intro sub hsub
  show sub.1 < c.next + 1
  rw [subs_withSub hbelow] at hsub
  rcases List.mem_append.1 hsub with hsub | hsub
  · exact (hbelow sub hsub).trans (Nat.lt_succ_self _)
  · rw [List.mem_singleton.1 hsub]
    exact Nat.lt_succ_self _

/-- A subscription under an id that is new to a connection with room for it is made. -/
theorem subscribe_fresh (hrefused : hub.refused = none) (hconn : hub.conns.lookup conn = some c)
    {s : String × Value} {filter : Filter F} (hok : compile A s.2 = .ok filter)
    (hfew : c.subs.length < maxFilters) (hnew : ∀ sub ∈ c.subs, sub.2.id ≠ s.1)
    (hnext : c.next < subIds) :
    (hub.subscribe A conn (some s.1) s.2 false).2 =
      { hub with index := hub.index.insert (conn * subIds + c.next) filter }.setConn conn
        (c.withSub conn s) := by
  have hnone : c.subs.find? (fun sub => sub.2.id = s.1) = none :=
    List.find?_eq_none.2 fun sub hsub => by simpa using hnew sub hsub
  have hnumber : c.numberFor s.1 = (c.next, c.next + 1) := by simp [Conn.numberFor, hnone]
  rw [subscribe_given hrefused hconn, if_neg (not_le.2 hfew), hok, hnumber]
  dsimp only
  rw [if_neg (not_le.2 hnext)]
  rfl

/-- Subscriptions that fit beside those a connection has are all made again, in their order. -/
theorem resubscribe_made : ∀ (subs : List (String × Value)) {hub : Hub F} {c : Conn},
    hub.refused = none → hub.conns.lookup conn = some c → (∀ s ∈ c.subs, s.1 < c.next) →
      Fits A (c.kept ++ subs) → ((c.kept ++ subs).map Prod.fst).Nodup →
        c.next + subs.length ≤ subIds →
          ∃ c', (Session.resubscribe A conn subs hub).conns.lookup conn = some c' ∧
            c'.kept = c.kept ++ subs
  | [], _, c, _, hconn, _, _, _, _ => ⟨c, hconn, (List.append_nil _).symm⟩
  | s :: rest, hub, c, hrefused, hconn, hbelow, hfits, hids, hnext => by
    obtain ⟨filter, hok⟩ := hfits.compiled s (by simp)
    have hfew : c.subs.length < maxFilters := by
      have := hfits.few
      simp [Conn.kept] at this
      omega
    have hnew : ∀ sub ∈ c.subs, sub.2.id ≠ s.1 := by
      intro sub hsub hid
      rw [List.map_append, List.nodup_append] at hids
      have hheld : sub.2.id ∈ c.kept.map Prod.fst := by
        simpa [Conn.kept] using ⟨sub.1, sub.2, hsub, rfl⟩
      exact hids.2.2 _ hheld s.1 (by simp) hid
    have hlength : (s :: rest).length = rest.length + 1 := rfl
    have hstep := subscribe_fresh (A := A) hrefused hconn hok hfew hnew (by omega)
    have hrefused' : (hub.subscribe A conn (some s.1) s.2 false).2.refused = none := by
      rw [hstep]
      exact hrefused
    have hconn' : (hub.subscribe A conn (some s.1) s.2 false).2.conns.lookup conn =
        some (c.withSub conn s) := by
      rw [hstep, Hub.setConn, Assoc.lookup_replace, if_pos rfl, hconn, Option.map_some]
    have happend : (c.withSub conn s).kept ++ rest = c.kept ++ s :: rest := by
      rw [kept_withSub hbelow, List.append_assoc, List.singleton_append]
    have hnext' : (c.withSub conn s).next + rest.length ≤ subIds := by
      show c.next + 1 + rest.length ≤ subIds
      omega
    obtain ⟨c', hlast, hkept⟩ := resubscribe_made rest hrefused' hconn' (below_withSub hbelow s)
      (happend ▸ hfits) (happend ▸ hids) hnext'
    exact ⟨c', hlast, hkept.trans happend⟩

end Resubscribing

section Resumed

variable {F : Type} [GridFloat F] {A : Antares F} {hub : Hub F} {conn : ℕ} {c : Conn}

theorem resultText_ne (metadata : List (String × Value)) :
    Session.resultText metadata Session.notResumed ≠ Session.resultText metadata ⟨200, none⟩ := by
  intro h
  have hbody : Value.quote "body" = '"' :: 'b' :: "ody\"".toList := by decide
  have hmetadata : Value.quote "metadata" = '"' :: 'm' :: "etadata\"".toList := by decide
  have hchars := String.ofList_injective h
  simp only [Session.notResumed, Answer.problem, Option.toList_some, Option.toList_none,
    List.map_cons, List.map_nil, List.nil_append, List.cons_append, Value.toChars,
    Value.membersToChars, hbody, hmetadata, List.cons.injEq] at hchars
  exact absurd hchars.2.2.1 (by decide)

theorem recheckReason_congr {present : Option Endpoint} {admits : String → Bool} {c c' : Conn}
    (hendpoint : c'.endpoint = c.endpoint) (hclient : c'.client = c.client) :
    Hub.recheckReason present admits c' = Hub.recheckReason present admits c := by
  unfold Hub.recheckReason
  rw [hendpoint, hclient]

/-- A new connection is given subscriptions back exactly while the hub takes subscriptions, a reload
would keep the connection and no two of them have one id. -/
theorem restored_iff (hw : Wired A hub) (hconn : hub.conns.lookup conn = some c)
    (hnone : c.subs = []) (hfirst : c.next = 1) {subs : List (String × Value)} (hfits : Fits A subs)
    (present : Option Endpoint) (admits : String → Bool) :
    Restored A present admits (Session.resubscribe A conn subs hub) conn subs ↔
      subs = [] ∨ hub.refused = none ∧ Hub.recheckReason present admits c = none ∧
        (subs.map Prod.fst).Nodup := by
  have hempty : c.kept = [] := by simp [Conn.kept, hnone]
  obtain ⟨c', hconn', hendpoint, hclient, hids⟩ := resubscribe_kept subs hw hconn
    (by simp [hnone])
  have hreason : Hub.recheckReason present admits c' = Hub.recheckReason present admits c :=
    recheckReason_congr hendpoint hclient
  constructor
  · rintro ⟨d, hd, hkept, hpresent⟩
    obtain rfl := Option.some.inj (hconn'.symm.trans hd)
    refine or_iff_not_imp_left.2 fun hsubs => ⟨?_, ?_, ?_⟩
    · by_contra hrefused
      rw [resubscribe_of_refused (Option.isSome_iff_ne_none.2 hrefused), hconn,
        Option.some_inj] at hconn'
      exact hsubs (hkept.symm.trans (hconn' ▸ hempty))
    · obtain ⟨s, hs⟩ := List.exists_mem_of_ne_nil c'.subs fun hnil => hsubs (by
        rw [← hkept, Conn.kept, hnil, List.map_nil])
      exact hreason ▸ (hpresent s hs).1
    · rw [← hkept, Conn.kept, List.map_map]
      exact hids
  · intro h
    have hmade : ∃ d, (Session.resubscribe A conn subs hub).conns.lookup conn = some d ∧
        d.kept = subs ∧ (subs = [] ∨ Hub.recheckReason present admits c = none) := by
      rcases h with rfl | ⟨hrefused, hkeeps, hdistinct⟩
      · exact ⟨c, hconn, hempty, Or.inl rfl⟩
      · have hfew := hfits.few
        obtain ⟨d, hd, hkept⟩ := resubscribe_made subs hrefused hconn (by simp [hnone])
          (by rwa [hempty]) (by rwa [hempty]) (by rw [hfirst]; unfold subIds maxFilters at *; omega)
        exact ⟨d, hd, by rw [hkept, hempty, List.nil_append], Or.inr hkeeps⟩
    obtain ⟨d, hd, hkept, hkeeps⟩ := hmade
    obtain rfl := Option.some.inj (hconn'.symm.trans hd)
    refine ⟨c', hconn', hkept, fun s hs => ⟨?_, ?_⟩⟩
    · rcases hkeeps with rfl | hkeeps
      · rw [Conn.kept, List.map_eq_nil_iff] at hkept
        simp [hkept] at hs
      · exact hreason.trans hkeeps
    · have hwired' : Wired A (Session.resubscribe A conn subs hub) := hw.resubscribe subs
      exact hwired'.compiled s
        (mem_subscriptions.2 ⟨_, Assoc.mem_of_lookup hconn', hs⟩)

omit [GridFloat F] in
theorem takeClosed_eq_some {now : Instant} {name token principal : String} {closed : Closed}
    {hub' : Hub F} (h : hub.takeClosed now name token principal = some (closed, hub')) :
    (name, closed) ∈ hub.closed ∧ hub' = { hub with closed := Assoc.without name hub.closed } := by
  unfold Hub.takeClosed at h
  split at h
  · cases h
  · next held hheld =>
    split_ifs at h
    cases h
    exact ⟨Assoc.mem_of_lookup hheld, rfl⟩

/-- In every run, the first message of a connection resumes a closed one truthfully exactly when it
finds none to resume, or one that held nothing, or the hub takes subscriptions, a reload would keep
the new connection and the closed one held no two subscriptions under one id. -/
theorem resume_truthful_iff (slug : String) (bound : ℕ) (start : Instant) (ops : List Op)
    (now : Instant) (principal : String) (metadata : List (String × Value)) (s : Session)
    (present : Option Endpoint) (admits : String → Bool)
    (hconn : (Machine.run (Hub.step A) (Hub.new slug bound start) ops).conns.lookup conn = some c)
    (hnone : c.subs = []) (hfirst : c.next = 1) :
    KeepsWord A present admits (Machine.run (Hub.step A) (Hub.new slug bound start) ops) now conn
        principal metadata s ↔
      ∀ closed hub', (Machine.run (Hub.step A) (Hub.new slug bound start) ops).takeClosed now
          (Session.textOf metadata "x-connection") (Session.textOf metadata "x-resume-token")
          principal = some (closed, hub') →
        closed.subs = [] ∨
          (Machine.run (Hub.step A) (Hub.new slug bound start) ops).refused = none ∧
          Hub.recheckReason present admits c = none ∧ (closed.subs.map Prod.fst).Nodup := by
  have hwired : Wired A (Machine.run (Hub.step A) (Hub.new slug bound start) ops) :=
    Machine.run_preserves (fun _ op h => h.step op) (Sound.new slug bound start).wired ops
  have hfits {c : String × Closed} := @fits_of_run F _ A slug bound start ops c
  generalize Machine.run (Hub.step A) (Hub.new slug bound start) ops = hub at *
  unfold KeepsWord Session.resume
  rcases htaken : hub.takeClosed now (Session.textOf metadata "x-connection")
    (Session.textOf metadata "x-resume-token") principal with _ | ⟨closed, hub'⟩
  · simp [resultText_ne metadata]
  · obtain ⟨hmem, rfl⟩ := takeClosed_eq_some htaken
    -- The subscriptions and the index are those of before: only the closed one was taken out.
    have hdrops : Drops [] hub { hub with
        closed := Assoc.without (Session.textOf metadata "x-connection") hub.closed } :=
      .of_eq rfl rfl rfl
    simpa using restored_iff (hdrops.wired hwired) hconn hnone hfirst (hfits hmem) present admits

/-- A visitor whose connection closed and who opened another, the broker having refused the fan-out
in between or not. -/
def reopened (between : List Op) : List Op :=
  [.openConn ⟨true, .null⟩ "visitor" none, .subscribe 1 none powerBody false,
    .close 0 1 "name" "token" []] ++ between ++ [.openConn ⟨true, .null⟩ "visitor" none]

def resumeName : List (String × Value) :=
  [("x-op", .str "x-resume"), ("x-connection", .str "name"), ("x-resume-token", .str "token")]

theorem resume_truthful_reopened : KeepsWord (bareAntares ℚ) (some ⟨true, .null⟩) (fun _ => true)
    (Machine.run (Hub.step (bareAntares ℚ)) (Hub.new "lamps" 100 0) (reopened [])) 0 2 "visitor"
    resumeName Session.new :=
  (resume_truthful_iff (A := bareAntares ℚ) "lamps" 100 0 (reopened []) 0 "visitor" resumeName
    Session.new (some ⟨true, .null⟩) (fun _ => true) rfl rfl rfl).2
    fun closed _ htaken => Or.inr ⟨rfl, rfl, by
      obtain ⟨rfl, -⟩ := Prod.mk.inj (Option.some.inj htaken)
      exact List.nodup_singleton _⟩

/-- While the hub refuses subscriptions, a resume is answered as one and holds nothing. -/
theorem resume_without_subscriptions : ¬ KeepsWord (bareAntares ℚ) (some ⟨true, .null⟩)
    (fun _ => true) (Machine.run (Hub.step (bareAntares ℚ)) (Hub.new "lamps" 100 0)
      (reopened [.refuse 403 "no Policy lists the gateway"])) 0 2 "visitor" resumeName
      Session.new := by
  intro h
  obtain ⟨closed, hub', htaken, c, hconn, hkept, -⟩ := h.1 rfl
  obtain ⟨rfl, -⟩ := Prod.mk.inj (Option.some.inj htaken)
  obtain rfl := Option.some.inj hconn
  exact absurd (congrArg List.length hkept) (by decide)

end Resumed

end JoinedContext.Fanout
