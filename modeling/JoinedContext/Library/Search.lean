import Mathlib.Data.List.Nodup
import Mathlib.Logic.Relation

/-!
# Searches

A queue is worked off from the front, and what an item leads to is put at its end unless it was seen
before. The order in which items are worked off holds exactly what the start reaches, each once.

A stack is worked off until an item is met: of the items taken from it, those not seen before put
what they lead to on its top. The item is met exactly if something on the stack reaches it.
-/

namespace JoinedContext.Search

variable {α : Type} [DecidableEq α]

/-- The items not seen yet, each once, in the order they come. -/
def fresh (seen : List α) : List α → List α
  | [] => []
  | a :: l => if a ∈ seen then fresh seen l else a :: fresh (seen ++ [a]) l

theorem fresh_of_mem {seen l : List α} {a : α} (h : a ∈ seen) :
    fresh seen (a :: l) = fresh seen l := if_pos h

theorem fresh_of_notMem {seen l : List α} {a : α} (h : a ∉ seen) :
    fresh seen (a :: l) = a :: fresh (seen ++ [a]) l := if_neg h

theorem mem_fresh : ∀ {l seen : List α} {a : α}, a ∈ fresh seen l ↔ a ∈ l ∧ a ∉ seen
  | [], seen, a => by simp [fresh]
  | b :: l, seen, a => by
    unfold fresh
    split_ifs with hb
    · rw [mem_fresh, List.mem_cons]
      refine and_congr_left fun ha => ⟨Or.inr, fun h => h.resolve_left ?_⟩
      rintro rfl
      exact ha hb
    · rw [List.mem_cons, mem_fresh, List.mem_append, List.mem_singleton, List.mem_cons, not_or]
      constructor
      · rintro (rfl | ⟨hl, hseen, hne⟩)
        · exact ⟨Or.inl rfl, hb⟩
        · exact ⟨Or.inr hl, hseen⟩
      · rintro ⟨rfl | hl, hseen⟩
        · exact Or.inl rfl
        · by_cases hab : a = b
          · exact Or.inl hab
          · exact Or.inr ⟨hl, hseen, hab⟩

theorem fresh_append : ∀ (l m seen : List α),
    fresh seen (l ++ m) = fresh seen l ++ fresh (seen ++ fresh seen l) m
  | [], m, seen => by simp [fresh]
  | a :: l, m, seen => by
    rw [List.cons_append]
    by_cases ha : a ∈ seen
    · rw [fresh_of_mem ha, fresh_of_mem ha, fresh_append l m seen]
    · rw [fresh_of_notMem ha, fresh_of_notMem ha, fresh_append l m (seen ++ [a]),
        List.cons_append, List.append_assoc, List.singleton_append]

theorem nodup_append_fresh : ∀ {l seen : List α}, seen.Nodup → (seen ++ fresh seen l).Nodup
  | [], seen, h => by simpa [fresh] using h
  | a :: l, seen, h => by
    unfold fresh
    split_ifs with ha
    · exact nodup_append_fresh h
    · have hseen : (seen ++ [a]).Nodup := by
        rw [List.nodup_append]
        refine ⟨h, List.nodup_singleton a, fun x hx y hy => ?_⟩
        rw [List.mem_singleton.1 hy]
        rintro rfl
        exact ha hx
      have hrest := nodup_append_fresh (l := l) hseen
      rwa [List.append_assoc, List.singleton_append] at hrest

/-- The order in which the queue is worked off: `none` when the fuel does not empty it. -/
def visit (next : α → List α) : ℕ → List α → List α → Option (List α)
  | _, done, [] => some done
  | 0, _, _ :: _ => none
  | fuel + 1, done, a :: queue =>
    visit next fuel (done ++ [a]) (queue ++ fresh (done ++ a :: queue) (next a))

variable {next : α → List α}

section Visit

theorem visit_cons {fuel : ℕ} {done queue order : List α} {a : α}
    (h : visit next fuel done (a :: queue) = some order) :
    ∃ n, fuel = n + 1 ∧
      visit next n (done ++ [a]) (queue ++ fresh (done ++ a :: queue) (next a)) = some order := by
  rcases fuel with _ | n
  · cases h
  · exact ⟨n, rfl, h⟩

theorem append_fresh (done queue : List α) (a : α) :
    (done ++ [a]) ++ (queue ++ fresh (done ++ a :: queue) (next a)) =
      (done ++ a :: queue) ++ fresh (done ++ a :: queue) (next a) := by
  simp [List.append_assoc]

theorem prefix_of_visit : ∀ {fuel : ℕ} {done queue order : List α},
    visit next fuel done queue = some order → done ++ queue <+: order
  | fuel, done, [], order, h => by
    unfold visit at h
    cases h
    simp
  | fuel, done, a :: queue, order, h => by
    obtain ⟨n, rfl, hn⟩ := visit_cons h
    have hrest := prefix_of_visit hn
    rw [append_fresh] at hrest
    exact (List.prefix_append _ _).trans hrest

theorem nodup_of_visit : ∀ {fuel : ℕ} {done queue order : List α},
    visit next fuel done queue = some order → (done ++ queue).Nodup → order.Nodup
  | fuel, done, [], order, h, hnodup => by
    unfold visit at h
    cases h
    simpa using hnodup
  | fuel, done, a :: queue, order, h, hnodup => by
    obtain ⟨n, rfl, hn⟩ := visit_cons h
    refine nodup_of_visit hn ?_
    rw [append_fresh]
    exact nodup_append_fresh hnodup

/-- What an item of the order leads to is in the order. -/
theorem closed_of_visit : ∀ {fuel : ℕ} {done queue order : List α},
    visit next fuel done queue = some order → (∀ a ∈ done, ∀ b ∈ next a, b ∈ done ++ queue) →
      ∀ a ∈ order, ∀ b ∈ next a, b ∈ order
  | fuel, done, [], order, h, hclosed => by
    unfold visit at h
    cases h
    simpa using hclosed
  | fuel, done, a :: queue, order, h, hclosed => by
    obtain ⟨n, rfl, hn⟩ := visit_cons h
    refine closed_of_visit hn fun b hb c hc => ?_
    rw [append_fresh, List.mem_append]
    rcases List.mem_append.1 hb with hb | hb
    · exact Or.inl (hclosed b hb c hc)
    · rw [List.mem_singleton.1 hb] at hc
      by_cases hseen : c ∈ done ++ a :: queue
      · exact Or.inl hseen
      · exact Or.inr (mem_fresh.2 ⟨hc, hseen⟩)

/-- Every item of the order is reached from what was done or queued. -/
theorem reached_of_visit {P : α → Prop} (hstep : ∀ a b, P a → b ∈ next a → P b) :
    ∀ {fuel : ℕ} {done queue order : List α}, visit next fuel done queue = some order →
      (∀ a ∈ done ++ queue, P a) → ∀ a ∈ order, P a
  | fuel, done, [], order, h, hall => by
    unfold visit at h
    cases h
    simpa using hall
  | fuel, done, a :: queue, order, h, hall => by
    obtain ⟨n, rfl, hn⟩ := visit_cons h
    refine reached_of_visit hstep hn fun b hb => ?_
    rw [append_fresh, List.mem_append] at hb
    rcases hb with hb | hb
    · exact hall b hb
    · exact hstep a b (hall a (by simp)) (mem_fresh.1 hb).1

end Visit

section Order

variable {fuel : ℕ} {start : α} {order : List α} (h : visit next fuel [] [start] = some order)

include h

theorem nodup_order : order.Nodup := nodup_of_visit h (List.nodup_singleton start)

/-- The order starts at the start. -/
theorem order_eq_cons : ∃ rest, order = start :: rest := by
  obtain ⟨rest, hrest⟩ := prefix_of_visit h
  exact ⟨rest, hrest.symm⟩

/-- The order holds exactly what the start reaches. -/
theorem mem_order {a : α} :
    a ∈ order ↔ Relation.ReflTransGen (fun x y => y ∈ next x) start a := by
  constructor
  · refine reached_of_visit (fun x y hx hy => hx.tail hy) h (fun x hx => ?_) a
    rw [List.mem_singleton.1 hx]
  · intro hreach
    obtain ⟨rest, hrest⟩ := order_eq_cons h
    induction hreach with
    | refl => simp [hrest]
    | tail _ hnext ih => exact closed_of_visit h (by simp) _ ih _ hnext

end Order

/-- What each item leads to, where all but some items lead nowhere. -/
structure Graph (α : Type) where
  sources : List α
  next : α → List α
  next_eq_nil : ∀ a, a ∉ sources → next a = []

namespace Graph

variable (g : Graph α) (target : α)

def Step (a b : α) : Prop := b ∈ g.next a

theorem length_filter_cons_le (seen : List α) (a : α) :
    (g.sources.filter (· ∉ a :: seen)).length ≤ (g.sources.filter (· ∉ seen)).length := by
  refine List.Sublist.length_le (List.monotone_filter_right g.sources fun b hb => ?_)
  simp only [List.mem_cons, not_or, decide_eq_true_eq] at hb ⊢
  exact hb.2

theorem length_filter_cons_lt {seen : List α} {a : α} (hsource : a ∈ g.sources) (ha : a ∉ seen) :
    (g.sources.filter (· ∉ a :: seen)).length < (g.sources.filter (· ∉ seen)).length := by
  have hfilter : g.sources.filter (· ∉ a :: seen) =
      (g.sources.filter (· ∉ seen)).filter (· ≠ a) := by
    rw [List.filter_filter]
    exact List.filter_congr fun b _ => by simp
  rw [hfilter]
  refine List.length_filter_lt_length_iff_exists.2 ⟨a, ?_, by simp⟩
  exact List.mem_filter.2 ⟨hsource, by simpa using ha⟩

/-- Whether the item is met, with the stack's top in front. -/
def meets (seen : List α) : List α → Bool
  | [] => false
  | a :: stack =>
    if a = target then true
    else if a ∈ seen then meets seen stack
    else meets (a :: seen) ((g.next a).reverseAux stack)
termination_by stack => ((g.sources.filter (· ∉ seen)).length, stack.length)
decreasing_by
  · exact Prod.Lex.right _ (Nat.lt_succ_self _)
  · rename_i hseen
    by_cases hsource : a ∈ g.sources
    · exact Prod.Lex.left _ _ (length_filter_cons_lt g hsource hseen)
    · rw [g.next_eq_nil a hsource, List.reverseAux_nil]
      rcases Nat.eq_or_lt_of_le (length_filter_cons_le g seen a) with heq | hlt
      · rw [heq]
        exact Prod.Lex.right _ (Nat.lt_succ_self _)
      · exact Prod.Lex.left _ _ hlt

variable {g target}

omit [DecidableEq α] in
theorem exists_of_closed {seen stack : List α}
    (hclosed : ∀ a ∈ seen, ∀ b ∈ g.next a, b ∈ seen ∨ b ∈ stack) (htarget : target ∉ seen) {a : α}
    (h : Relation.ReflTransGen g.Step a target) (ha : a ∈ seen) :
    ∃ b ∈ stack, Relation.ReflTransGen g.Step b target := by
  induction h using Relation.ReflTransGen.head_induction_on with
  | refl => exact (htarget ha).elim
  | head hstep hrest ih =>
    rcases hclosed _ ha _ hstep with hseen | hstack
    · exact ih hseen
    · exact ⟨_, hstack, hrest⟩

/-- Where what was seen leads to what was seen or lies on the stack, the item is met exactly if
something on the stack reaches it. -/
theorem meets_iff {seen stack : List α}
    (hclosed : ∀ a ∈ seen, ∀ b ∈ g.next a, b ∈ seen ∨ b ∈ stack) (htarget : target ∉ seen) :
    g.meets target seen stack = true ↔ ∃ a ∈ stack, Relation.ReflTransGen g.Step a target := by
  induction seen, stack using Graph.meets.induct g target with
  | case1 seen =>
    rw [meets]
    simp
  | case2 seen stack =>
    rw [meets, if_pos rfl]
    exact iff_of_true rfl ⟨target, List.mem_cons_self, .refl⟩
  | case3 seen a stack hne hseen ih =>
    have hclosed' : ∀ b ∈ seen, ∀ c ∈ g.next b, c ∈ seen ∨ c ∈ stack := by
      intro b hb c hc
      rcases hclosed b hb c hc with hc | hc
      · exact .inl hc
      · rcases List.mem_cons.1 hc with rfl | hc
        · exact .inl hseen
        · exact .inr hc
    rw [meets, if_neg hne, if_pos hseen, ih hclosed' htarget]
    constructor
    · rintro ⟨b, hb, hreach⟩
      exact ⟨b, List.mem_cons_of_mem _ hb, hreach⟩
    · rintro ⟨b, hb, hreach⟩
      rcases List.mem_cons.1 hb with rfl | hb
      · exact exists_of_closed hclosed' htarget hreach hseen
      · exact ⟨b, hb, hreach⟩
  | case4 seen a stack hne hseen ih =>
    have hmem : ∀ b, b ∈ (g.next a).reverseAux stack ↔ b ∈ g.next a ∨ b ∈ stack := fun b => by
      rw [List.reverseAux_eq, List.mem_append, List.mem_reverse]
    have hclosed' : ∀ b ∈ a :: seen, ∀ c ∈ g.next b,
        c ∈ a :: seen ∨ c ∈ (g.next a).reverseAux stack := by
      intro b hb c hc
      rw [hmem]
      rcases List.mem_cons.1 hb with rfl | hb
      · exact .inr (.inl hc)
      · rcases hclosed b hb c hc with hc | hc
        · exact .inl (List.mem_cons_of_mem _ hc)
        · rcases List.mem_cons.1 hc with rfl | hc
          · exact .inl List.mem_cons_self
          · exact .inr (.inr hc)
    have htarget' : target ∉ a :: seen := by
      rw [List.mem_cons, not_or]
      exact ⟨Ne.symm hne, htarget⟩
    rw [meets, if_neg hne, if_neg hseen, ih hclosed' htarget']
    constructor
    · rintro ⟨b, hb, hreach⟩
      rcases (hmem b).1 hb with hb | hb
      · exact ⟨a, List.mem_cons_self, hreach.head hb⟩
      · exact ⟨b, List.mem_cons_of_mem _ hb, hreach⟩
    · rintro ⟨b, hb, hreach⟩
      rcases List.mem_cons.1 hb with rfl | hb
      · rcases hreach.cases_head with rfl | ⟨c, hstep, hrest⟩
        · exact (hne rfl).elim
        · exact ⟨c, (hmem c).2 (.inl hstep), hrest⟩
      · exact ⟨b, (hmem b).2 (.inr hb), hreach⟩

/-- What an item leads to meets it again exactly if the item lies on a cycle. -/
theorem meets_next_iff : g.meets target [] ((g.next target).reverseAux []) = true ↔
    Relation.TransGen g.Step target target := by
  rw [meets_iff (by simp) (by simp), Relation.TransGen.head'_iff]
  simp [List.reverseAux_eq, Step]

end Graph

end JoinedContext.Search
