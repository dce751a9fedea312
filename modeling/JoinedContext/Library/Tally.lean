import JoinedContext.Library.Machine
import JoinedContext.Library.SortedMap
import Mathlib.Data.Finset.Card

/-!
# Tallies that are posted

Counts by key, of at most `limit` keys and each up to `cap`, that are taken as a whole, posted, and
put back where the post fails. In whatever order counts, posts and answers come, nothing is received
more often than it was counted but for what was received without its answer, and where the keys and
the counts fit nothing is lost.
-/

namespace JoinedContext.Tally

variable {κ : Type} [LinearOrder κ]

section Source

def add (limit cap : ℕ) (tally : SortedMap κ ℕ) (k : κ) (n : ℕ) : SortedMap κ ℕ :=
  match tally.get? k with
  | some held => tally.insert k (min (held + n) cap)
  | none => if tally.entries.length < limit then tally.insert k n else tally

def addAll (limit cap : ℕ) (tally : SortedMap κ ℕ) (counts : List (κ × ℕ)) : SortedMap κ ℕ :=
  counts.foldl (fun tally c => add limit cap tally c.1 c.2) tally

/-- What some counts say of a key. -/
def countOf (counts : List (κ × ℕ)) (k : κ) : ℕ := (counts.lookup k).getD 0

/-- The counts that are held, those on their way, what was received of a key, and what was received
of it and put back all the same. -/
structure State (κ : Type) [LinearOrder κ] where
  tally : SortedMap κ ℕ
  flight : Option (SortedMap κ ℕ)
  received : κ → ℕ
  doubled : κ → ℕ

/-- What becomes of a post: it is received, it is not, or it is and the answer does not arrive. -/
inductive Answer where
  | taken
  | refused
  | lost
  deriving DecidableEq

inductive Event (κ : Type) where
  | count (k : κ)
  | flush
  | answer (a : Answer)

def Event.key : Event κ → Option κ
  | count k => some k
  | _ => none

/-- How often a key is counted. -/
def counted (k : κ) (events : List (Event κ)) : ℕ := (events.filterMap Event.key).count k

def start : State κ := ⟨SortedMap.empty, none, fun _ => 0, fun _ => 0⟩

def step (limit cap : ℕ) (s : State κ) : Event κ → State κ
  | .count k => { s with tally := add limit cap s.tally k 1 }
  | .flush =>
    match s.flight with
    | some _ => s
    | none =>
      if s.tally.entries.isEmpty then s
      else { s with tally := SortedMap.empty, flight := some s.tally }
  | .answer a =>
    match s.flight, a with
    | none, _ => s
    | some counts, .taken => { s with
        flight := none
        received := fun k => s.received k + countOf counts.entries k }
    | some counts, .refused => { s with
        flight := none
        tally := addAll limit cap s.tally counts.entries }
    | some counts, .lost => { s with
        flight := none
        tally := addAll limit cap s.tally counts.entries
        received := fun k => s.received k + countOf counts.entries k
        doubled := fun k => s.doubled k + countOf counts.entries k }

/-- What is on its way of a key. -/
def State.inFlight (s : State κ) (k : κ) : ℕ := s.flight.elim 0 fun counts => countOf counts.entries k

def State.held (s : State κ) (k : κ) : ℕ := countOf s.tally.entries k + s.inFlight k

end Source

section Sums

variable {limit cap n : ℕ} {t : SortedMap κ ℕ} {k a : κ} {l : List (κ × ℕ)} {K : Finset κ}

@[simp] theorem countOf_nil : countOf ([] : List (κ × ℕ)) a = 0 := rfl

theorem countOf_insert : countOf (t.insert k n).entries a =
    if a = k then n else countOf t.entries a := by
  have hget : countOf (t.insert k n).entries a = ((t.insert k n).get? a).getD 0 := rfl
  rw [hget, SortedMap.get?_insert]
  split_ifs <;> rfl

theorem countOf_cons (hl : ((k, n) :: l).map Prod.fst |>.Nodup) :
    countOf ((k, n) :: l) a = (if a = k then n else 0) + countOf l a := by
  unfold countOf
  rw [Assoc.lookup_cons]
  split_ifs with ha
  · rw [List.lookup_eq_none_iff.2 fun c hc => by
      simpa using fun hac => (List.nodup_cons.1 hl).1 (List.mem_map.2 ⟨c, hc, hac.symm.trans ha⟩)]
    rfl
  · rw [Nat.zero_add]

theorem countOf_add_le (limit cap : ℕ) (t : SortedMap κ ℕ) (k a : κ) (n : ℕ) :
    countOf (add limit cap t k n).entries a ≤ countOf t.entries a + if a = k then n else 0 := by
  unfold add
  cases hget : t.get? k with
  | some held =>
    have hheld : countOf t.entries k = held := congrArg (Option.getD · 0) hget
    simp only [countOf_insert]
    split_ifs with ha
    · subst ha
      omega
    · omega
  | none =>
    simp only []
    split_ifs with hlength ha ha
    · rw [countOf_insert, if_pos ha]
      omega
    · rw [countOf_insert, if_neg ha]
      omega
    · omega
    · omega

theorem countOf_addAll_le (limit cap : ℕ) (a : κ) : ∀ {l : List (κ × ℕ)} (t : SortedMap κ ℕ),
    (l.map Prod.fst).Nodup →
      countOf (addAll limit cap t l).entries a ≤ countOf t.entries a + countOf l a
  | [], _, _ => le_rfl
  | (k, n) :: l, t, hl => by
    have hrest := countOf_addAll_le limit cap a (add limit cap t k n) (List.nodup_cons.1 hl).2
    have hone := countOf_add_le limit cap t k a n
    rw [countOf_cons hl, show addAll limit cap t ((k, n) :: l) =
      addAll limit cap (add limit cap t k n) l from rfl]
    omega

/-- Where the keys are some of a set that fits, one of it is held or there is room for it. -/
theorem held_or_room (hkeys : ∀ a ∈ t.keys, a ∈ K) (hK : K.card ≤ limit) (hk : k ∈ K) :
    (t.get? k).isSome = true ∨ t.entries.length < limit := by
  by_contra hnot
  rw [not_or, ← SortedMap.mem_keys] at hnot
  obtain ⟨hk', hlength⟩ := hnot
  have hnodup : t.keys.Nodup := t.nodup_keys
  have hsub : insert k t.keys.toFinset ⊆ K := by
    intro b hb
    rcases Finset.mem_insert.1 hb with rfl | hb
    · exact hk
    · exact hkeys b (List.mem_toFinset.1 hb)
  have hcard := Finset.card_le_card hsub
  rw [Finset.card_insert_of_notMem (by simpa using hk'), List.toFinset_card_of_nodup hnodup,
    SortedMap.keys, List.length_map] at hcard
  omega

theorem mem_keys_add (h : a ∈ (add limit cap t k n).keys) : a = k ∨ a ∈ t.keys := by
  rw [SortedMap.mem_keys] at h ⊢
  unfold add at h
  split at h
  · exact SortedMap.isSome_insert.1 h
  · split_ifs at h
    · exact SortedMap.isSome_insert.1 h
    · exact .inr h

theorem countOf_add (hroom : (t.get? k).isSome = true ∨ t.entries.length < limit)
    (hcap : countOf t.entries k + n ≤ cap) : countOf (add limit cap t k n).entries a =
      countOf t.entries a + if a = k then n else 0 := by
  unfold add
  cases hget : t.get? k with
  | some held =>
    have hheld : countOf t.entries k = held := congrArg (Option.getD · 0) hget
    simp only [countOf_insert]
    split_ifs with ha
    · subst ha
      omega
    · omega
  | none =>
    have hnone : countOf t.entries k = 0 := congrArg (Option.getD · 0) hget
    rw [hget] at hroom
    simp only [if_pos (hroom.resolve_left (by simp)), countOf_insert]
    split_ifs with ha
    · subst ha
      omega
    · omega

theorem countOf_addAll (cap : ℕ) (hK : K.card ≤ limit) : ∀ {l : List (κ × ℕ)} {t : SortedMap κ ℕ},
    (l.map Prod.fst).Nodup → (∀ c ∈ l, c.1 ∈ K) → (∀ b ∈ t.keys, b ∈ K) →
      (∀ b, countOf t.entries b + countOf l b ≤ cap) →
        (∀ b, countOf (addAll limit cap t l).entries b = countOf t.entries b + countOf l b) ∧
          ∀ b ∈ (addAll limit cap t l).keys, b ∈ K
  | [], _, _, _, hkeys, _ => ⟨fun _ => rfl, hkeys⟩
  | (k, n) :: l, t, hl, hmem, hkeys, hcap => by
    obtain ⟨hk, hmore⟩ := List.forall_mem_cons.1 hmem
    have hone : ∀ b, countOf (add limit cap t k n).entries b =
        countOf t.entries b + if b = k then n else 0 := by
      intro b
      refine countOf_add (held_or_room hkeys hK hk) ?_
      have hle := hcap k
      rw [countOf_cons hl, if_pos rfl] at hle
      omega
    have hkeys' : ∀ b ∈ (add limit cap t k n).keys, b ∈ K := fun b hb =>
      (mem_keys_add hb).elim (fun heq => heq ▸ hk) (hkeys b)
    obtain ⟨hsum, hlast⟩ := countOf_addAll cap hK (List.nodup_cons.1 hl).2 hmore hkeys' fun b => by
      have hle := hcap b
      rw [countOf_cons hl] at hle
      rw [hone]
      omega
    refine ⟨fun b => ?_, hlast⟩
    rw [countOf_cons hl, show addAll limit cap t ((k, n) :: l) =
      addAll limit cap (add limit cap t k n) l from rfl, hsum, hone, Nat.add_assoc]

end Sums

section Runs

variable {limit cap n : ℕ} {s : State κ} {e : Event κ} {events : List (Event κ)} {K : Finset κ}

theorem step_le (limit cap : ℕ) (s : State κ) (e : Event κ) (k : κ) :
    (step limit cap s e).received k + (step limit cap s e).held k + s.doubled k ≤
      s.received k + s.held k + (e.key.toList.count k) + (step limit cap s e).doubled k := by
  obtain ⟨tally, flight, received, doubled⟩ := s
  cases e with
  | count a =>
    have hone := countOf_add_le limit cap tally a k 1
    simp only [step, State.held, State.inFlight, Event.key, Option.toList_some,
      List.count_singleton, beq_iff_eq]
    rw [if_congr (eq_comm (a := a)) rfl rfl]
    omega
  | flush =>
    cases flight with
    | some counts => simp [step, Event.key]
    | none =>
      unfold step
      simp only [Event.key, Option.toList_none, List.count_nil, Nat.add_zero]
      split_ifs
      · exact le_rfl
      · simp only [State.held, State.inFlight, Option.elim, SortedMap.empty, countOf_nil]
        omega
  | answer a =>
    cases flight with
    | none => cases a <;> simp [step, Event.key]
    | some counts =>
      have hback := countOf_addAll_le limit cap k tally counts.nodup_keys
      cases a <;> simp only [step, Event.key, State.held, State.inFlight, Option.elim,
        Option.toList_none, List.count_nil] <;> omega

theorem counted_cons (k : κ) :
    counted k (e :: events) = e.key.toList.count k + counted k events := by
  unfold counted
  cases hkey : e.key <;> simp [hkey, List.count_cons, Nat.add_comm]

/-- Nothing is received or held more often than it was counted, but for what was received and put
back. -/
theorem run_le (limit cap : ℕ) : ∀ (events : List (Event κ)) (s : State κ) (k : κ),
    (Machine.run (step limit cap) s events).received k +
        (Machine.run (step limit cap) s events).held k + s.doubled k ≤
      s.received k + s.held k + counted k events +
        (Machine.run (step limit cap) s events).doubled k
  | [], s, k => by simp [counted]
  | e :: events, s, k => by
    have hrest := run_le limit cap events (step limit cap s e) k
    have hone := step_le limit cap s e k
    rw [Machine.run_cons, counted_cons]
    omega

/-- Keys of a set that fits, and counts to which `n` more may be added. -/
structure Roomy (K : Finset κ) (cap n : ℕ) (s : State κ) : Prop where
  tally : ∀ a ∈ s.tally.keys, a ∈ K
  flight : ∀ counts, s.flight = some counts → ∀ a ∈ counts.keys, a ∈ K
  room : ∀ a, s.held a + n ≤ cap

theorem start_roomy : Roomy K cap cap (start : State κ) where
  tally _ h := by cases h
  flight _ h := by cases h
  room a := by simp [start, State.held, State.inFlight, SortedMap.empty]

theorem Roomy.mono {m : ℕ} (h : Roomy K cap n s) (hm : m ≤ n) : Roomy K cap m s :=
  ⟨h.tally, h.flight, fun a => le_trans (by omega) (h.room a)⟩

theorem received_le (limit cap : ℕ) (s : State κ) (e : Event κ) (k : κ) :
    s.received k ≤ (step limit cap s e).received k := by
  obtain ⟨tally, flight, received, doubled⟩ := s
  cases e with
  | count a => exact le_rfl
  | flush =>
    unfold step
    cases flight with
    | some counts => exact le_rfl
    | none => split_ifs <;> exact le_rfl
  | answer a => cases flight <;> cases a <;> simp [step]

/-- A step of a state with room loses no count, and holds keys of the set alone. -/
theorem Roomy.keeps (hK : K.card ≤ limit) (h : Roomy K cap (n + 1) s) (hkey : ∀ k ∈ e.key, k ∈ K)
    (hlost : e ≠ .answer .lost) : (∀ a ∈ (Tally.step limit cap s e).tally.keys, a ∈ K) ∧
      (∀ counts, (Tally.step limit cap s e).flight = some counts → ∀ a ∈ counts.keys, a ∈ K) ∧
      ∀ k, (Tally.step limit cap s e).received k + (Tally.step limit cap s e).held k =
        s.received k + s.held k + e.key.toList.count k := by
  obtain ⟨tally, flight, received, doubled⟩ := s
  obtain ⟨htally, hflight, hroom⟩ := h
  cases e with
  | count a =>
    have ha : a ∈ K := hkey a rfl
    have hone : ∀ k, countOf (add limit cap tally a 1).entries k =
        countOf tally.entries k + if k = a then 1 else 0 := fun k =>
      countOf_add (held_or_room htally hK ha) (by
        have hle := hroom a
        simp only [State.held] at hle
        omega)
    refine ⟨fun b hb => (mem_keys_add hb).elim (fun heq => heq ▸ ha) (htally b), hflight,
      fun k => ?_⟩
    simp only [Tally.step, State.held, State.inFlight, hone, Event.key, Option.toList_some,
      List.count_singleton, beq_iff_eq]
    rw [if_congr (eq_comm (a := a)) rfl rfl]
    omega
  | flush =>
    cases flight with
    | some counts => exact ⟨htally, hflight, fun k => by simp [Tally.step, Event.key]⟩
    | none =>
      unfold Tally.step
      simp only [Event.key, Option.toList_none, List.count_nil, Nat.add_zero]
      split_ifs
      · exact ⟨htally, (fun _ hnone => hnone.elim), fun _ => rfl⟩
      · refine ⟨(fun _ hb => by cases hb), ?_, fun k => ?_⟩
        · rintro _ ⟨⟩
          exact htally
        · simp only [State.held, State.inFlight, Option.elim, SortedMap.empty, countOf_nil]
          omega
  | answer a =>
    cases flight with
    | none => cases a <;> exact ⟨htally, hflight, fun k => by simp [Tally.step, Event.key]⟩
    | some counts =>
      cases a with
      | lost => exact absurd rfl hlost
      | taken =>
        refine ⟨htally, (fun _ hflight => by cases hflight), fun k => ?_⟩
        simp only [Tally.step, State.held, State.inFlight, Option.elim, Event.key,
          Option.toList_none, List.count_nil]
        omega
      | refused =>
        obtain ⟨hsum, hkeys⟩ := countOf_addAll cap hK counts.nodup_keys
          (fun c hc => hflight counts rfl c.1 (List.mem_map_of_mem hc)) htally fun b => by
            have hle : countOf tally.entries b + countOf counts.entries b + (n + 1) ≤ cap := hroom b
            show countOf tally.entries b + countOf counts.entries b ≤ cap
            omega
        refine ⟨hkeys, (fun _ hflight => by cases hflight), fun k => ?_⟩
        simp only [Tally.step, State.held, State.inFlight, Option.elim, hsum, Event.key,
          Option.toList_none, List.count_nil]
        omega

/-- A step takes room for one count at most. -/
theorem Roomy.step (hK : K.card ≤ limit) (h : Roomy K cap (n + 1) s) (hkey : ∀ k ∈ e.key, k ∈ K)
    (hlost : e ≠ .answer .lost) : Roomy K cap n (step limit cap s e) := by
  obtain ⟨htally, hflight, hsum⟩ := h.keeps hK hkey hlost
  refine ⟨htally, hflight, fun a => ?_⟩
  have hone : e.key.toList.count a ≤ 1 :=
    List.count_le_length.trans (by cases e.key <;> simp)
  have hreceived := received_le limit cap s e a
  have hroom := h.room a
  have heq := hsum a
  omega

/-- Where the keys and the counts fit and no answer is lost, what is counted is received or held. -/
theorem run_eq (hK : K.card ≤ limit) : ∀ {events : List (Event κ)} {s : State κ},
    Roomy K cap events.length s → (∀ k ∈ events.filterMap Event.key, k ∈ K) →
      .answer .lost ∉ events → ∀ k, (Machine.run (step limit cap) s events).received k +
        (Machine.run (step limit cap) s events).held k =
          s.received k + s.held k + counted k events
  | [], s, _, _, _, k => by simp [counted]
  | e :: events, s, h, hkeys, hlost, k => by
    have hmem : ∀ k ∈ e.key, k ∈ K := fun k hk =>
      hkeys k (List.mem_filterMap.2 ⟨e, List.mem_cons_self, hk⟩)
    have hkept : e ≠ .answer .lost := fun heq => hlost (heq ▸ List.mem_cons_self)
    obtain ⟨-, -, hone⟩ := h.keeps hK hmem hkept
    have hrest := run_eq hK (h.step hK hmem hkept) (fun k hk => by
      obtain ⟨e', he', hk⟩ := List.mem_filterMap.1 hk
      exact hkeys k (List.mem_filterMap.2 ⟨e', List.mem_cons_of_mem _ he', hk⟩))
      (fun hmem => hlost (List.mem_cons_of_mem _ hmem)) k
    rw [Machine.run_cons, hrest, hone, counted_cons]
    omega

end Runs

end JoinedContext.Tally
