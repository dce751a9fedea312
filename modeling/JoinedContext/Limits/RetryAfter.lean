import JoinedContext.Limits.RateLimit

/-!
# The wait a refusal names

A refused spend names the seconds until the bucket holds its cost, at most until the bucket is full.
A cost that no full bucket covers is refused then, and so is every one where nothing refills.
-/

namespace JoinedContext.RateLimit

section Retry

variable {limits : RateLimits} {b : Bucket} {cost : ℕ} {now : ℚ}

theorem RateLimits.rate_pos_iff : 0 < limits.rate ↔ 0 < limits.requestsPerMinute := by
  unfold RateLimits.rate
  rw [div_pos_iff_of_pos_right (by norm_num), Nat.cast_pos]

/-- What a bucket may hold at most at a time, its limits followed. -/
def held (b : Bucket) (limits : RateLimits) (now : ℚ) : ℚ := min (b.tokensAt now) limits.capacity

theorem allowed_iff : (b.spend limits cost now).1.allowed = true ↔ cost ≤ held b limits now := by
  by_cases h : cost ≤ held b limits now
  · have hspend : b.spend limits cost now =
        (⟨true, limits.requestsPerMinute, ⌊held b limits now - cost⌋₊, 0⟩,
          ⟨held b limits now - cost, now, limits.rate, limits.capacity⟩) := if_pos h
    rw [hspend]
    exact iff_of_true rfl h
  · have hspend : (b.spend limits cost now).1.allowed = false := by
      unfold Bucket.spend
      exact congrArg (fun spent : Decision × Bucket => spent.1.allowed) (if_neg h)
    rw [hspend]
    exact iff_of_false Bool.false_ne_true h

/-- A refusal leaves what was held, and names the wait for what is missing. -/
theorem spend_refused (h : (b.spend limits cost now).1.allowed = false) :
    b.spend limits cost now =
      (⟨false, limits.requestsPerMinute, 0, ⌈if 0 < limits.rate then
          (min (cost : ℚ) limits.capacity - held b limits now) / limits.rate else 60⌉₊⟩,
        ⟨held b limits now, now, limits.rate, limits.capacity⟩) := by
  have hless : ¬ cost ≤ held b limits now := fun hle => by
    rw [allowed_iff.2 hle] at h
    cases h
  unfold Bucket.spend
  exact if_neg hless

/-- What a bucket left by a refusal holds a time later. -/
theorem held_later {tokens wait : ℚ} (hwait : 0 ≤ wait) :
    held ⟨tokens, now, limits.rate, limits.capacity⟩ limits (now + wait) =
      min (tokens + wait * limits.rate) limits.capacity := by
  unfold held Bucket.tokensAt since
  simp only [add_sub_cancel_left, max_eq_left hwait, min_assoc, min_self]

/-- The retry after exactly the wait. -/
theorem retry_allowed_iff (h : (b.spend limits cost now).1.allowed = false) :
    ((b.spend limits cost now).2.spend limits cost
        (now + (b.spend limits cost now).1.reset)).1.allowed = true ↔
      cost ≤ limits.capacity ∧ 0 < limits.requestsPerMinute := by
  have hless : held b limits now < cost := by
    by_contra hle
    rw [allowed_iff.2 (not_lt.1 hle)] at h
    cases h
  rw [spend_refused h, allowed_iff, held_later (Nat.cast_nonneg _), le_min_iff, and_comm,
    ← RateLimits.rate_pos_iff]
  refine and_congr_right fun hcost => ⟨fun hle => ?_, fun hrate => ?_⟩
  · by_contra hrate
    have hzero : limits.rate = 0 := le_antisymm (not_lt.1 hrate) limits.rate_nonneg
    rw [hzero, mul_zero, add_zero] at hle
    linarith
  · rw [if_pos hrate, min_eq_left hcost]
    have hceil := Nat.le_ceil ((cost - held b limits now) / limits.rate)
    have hfill := (div_le_iff₀ hrate).1 hceil
    linarith

end Retry

section Waiting

variable {limits : String → RateLimits} {shardOf : Key → Fin SHARDS} {r : RateLimiter}
  {op other : Spend} {i : Fin SHARDS} {key : Key} {ops : List Spend} {t u : ℚ}

/-- The bucket a spend takes from, after its sweep. -/
def bucketOf (shardOf : Key → Fin SHARDS) (r : RateLimiter) (op : Spend) : Fin SHARDS × Key :=
  (shardOf op.key, (r.sweep op.now).bucketKey shardOf op.key)

theorem level_next_of_ne (h : Good limits op.now r) (hother : bucketOf shardOf r op ≠ (i, key))
    (hu : op.now ≤ u) :
    level limits i key (r.next limits shardOf op) u = level limits i key r u := by
  rw [← h.level_sweep hu]
  have hlookup : ((r.next limits shardOf op).shards i).lookup key = _ :=
    lookup_nextUnswept (r := r.sweep op.now)
  rw [if_neg fun hsame => hother (Prod.ext hsame.1.symm hsame.2.symm)] at hlookup
  unfold level
  rw [hlookup]

theorem good_run : ∀ {ops : List Spend} {r : RateLimiter} {t : ℚ}, Good limits t r →
    (∀ op ∈ ops, t ≤ op.now ∧ op.now ≤ u) → (ops.map Spend.now).Pairwise (· ≤ ·) → t ≤ u →
    Good limits u (Machine.run (RateLimiter.next limits shardOf) r ops)
  | [], _, _, h, _, _, hu => h.later hu
  | op :: ops, r, t, h, hwithin, hsorted, _ => by
    rw [List.map_cons, List.pairwise_cons] at hsorted
    obtain ⟨hfrom, hto⟩ := hwithin op List.mem_cons_self
    have hnext : Good limits op.now (r.next limits shardOf op) :=
      (h.later hfrom).sweep.nextUnswept
    show Good limits u (Machine.run _ (r.next limits shardOf op) ops)
    exact good_run hnext (fun op' hop' => ⟨hsorted.1 _ (List.mem_map_of_mem hop'),
      (hwithin op' (List.mem_cons_of_mem _ hop')).2⟩) hsorted.2 hto

/-- Spends on other buckets leave a bucket as it is. -/
theorem level_run : ∀ {ops : List Spend} {r : RateLimiter} {t : ℚ}, Good limits t r →
    (∀ op ∈ ops, t ≤ op.now ∧ op.now ≤ u) → (ops.map Spend.now).Pairwise (· ≤ ·) →
    Machine.Along (RateLimiter.next limits shardOf)
      (fun r op => bucketOf shardOf r op ≠ (i, key)) r ops →
    level limits i key (Machine.run (RateLimiter.next limits shardOf) r ops) u =
      level limits i key r u
  | [], _, _, _, _, _, _ => rfl
  | op :: ops, r, t, h, hwithin, hsorted, hothers => by
    rw [List.map_cons, List.pairwise_cons] at hsorted
    obtain ⟨hfrom, hto⟩ := hwithin op List.mem_cons_self
    have hop := h.later hfrom
    have hnext : Good limits op.now (r.next limits shardOf op) := hop.sweep.nextUnswept
    have hrest := level_run hnext (fun op' hop' => ⟨hsorted.1 _ (List.mem_map_of_mem hop'),
      (hwithin op' (List.mem_cons_of_mem _ hop')).2⟩) hsorted.2 hothers.2
    exact hrest.trans (level_next_of_ne hop hothers.1 hto)

theorem answer_allowed_iff (h : Good limits op.now r) :
    (r.answer limits shardOf op).allowed = true ↔
      op.cost ≤ level limits (bucketOf shardOf r op).1 (bucketOf shardOf r op).2 r op.now := by
  have hanswer : r.answer limits shardOf op =
      (r.sweep op.now).answerUnswept limits shardOf op := rfl
  rw [hanswer, answerUnswept_eq, Bucket.allowed_spend (fits_drawn h.sweep), tokensAt_drawn,
    h.level_sweep le_rfl]
  rfl

/-- What a spend leaves in its bucket. -/
theorem level_next_self :
    level limits (bucketOf shardOf r op).1 (bucketOf shardOf r op).2 (r.next limits shardOf op) u =
      ((drawn limits shardOf (r.sweep op.now) op).spend (limits op.key.slug) op.cost
        op.now).2.tokensAt u := by
  have hlookup : ((r.next limits shardOf op).shards (bucketOf shardOf r op).1).lookup
      (bucketOf shardOf r op).2 = _ := lookup_nextUnswept (r := r.sweep op.now)
  rw [if_pos ⟨rfl, rfl⟩] at hlookup
  exact level_of_some hlookup

/-- The same spend, as long after it as its refusal names. -/
def retryOf (limits : String → RateLimits) (shardOf : Key → Fin SHARDS) (r : RateLimiter)
    (op : Spend) : Spend :=
  { op with now := op.now + (r.answer limits shardOf op).reset }

/-- A bucket refused a cost allows it after exactly the seconds named, for every cost the bucket
could ever hold and as long as anything refills; so does the limiter, in every run in which the
retry takes from the same bucket and nothing in between does. -/
theorem retry_after_truthful :
    (∀ (b : Bucket) (limits : RateLimits) (cost : ℕ) (now : ℚ),
      (b.spend limits cost now).1.allowed = false →
        (((b.spend limits cost now).2.spend limits cost
            (now + (b.spend limits cost now).1.reset)).1.allowed = true ↔
          cost ≤ limits.capacity ∧ 0 < limits.requestsPerMinute)) ∧
    ∀ (limits : String → RateLimits) (shardOf : Key → Fin SHARDS) (before between : List Spend)
      (op : Spend),
      let r := Machine.run (RateLimiter.next limits shardOf) .new before
      let refused := r.next limits shardOf op
      let last := Machine.run (RateLimiter.next limits shardOf) refused between
      let retry := retryOf limits shardOf r op
      ((before ++ op :: (between ++ [retry])).map Spend.now).Pairwise (· ≤ ·) →
      (r.answer limits shardOf op).allowed = false →
      Machine.Along (RateLimiter.next limits shardOf)
        (fun s other => bucketOf shardOf s other ≠ bucketOf shardOf r op) refused between →
      bucketOf shardOf last retry = bucketOf shardOf r op →
        ((last.answer limits shardOf retry).allowed = true ↔
          op.cost ≤ (limits op.key.slug).capacity ∧
            0 < (limits op.key.slug).requestsPerMinute) := by
  refine ⟨fun b limits cost now => retry_allowed_iff, ?_⟩
  intro limits shardOf before between op r refused last retry hsorted hrefused hothers hsame
  rw [List.map_append, List.map_cons, List.map_append, List.pairwise_append, List.pairwise_cons,
    List.pairwise_append] at hsorted
  obtain ⟨hbefore, ⟨hop, hbetween, -, hretry⟩, hfirst⟩ := hsorted
  have hwait : op.now ≤ retry.now := le_add_of_nonneg_right (Nat.cast_nonneg _)
  obtain ⟨t, ht⟩ := exists_start hbefore
  have hgood : Good limits op.now r :=
    good_run (Good.new (min t op.now)) (fun o ho => ⟨(min_le_left _ _).trans (ht o ho),
      hfirst _ (List.mem_map_of_mem ho) _ List.mem_cons_self⟩) hbefore (min_le_right _ _)
  have hnext : Good limits op.now refused := hgood.sweep.nextUnswept
  have hwithin : ∀ o ∈ between, op.now ≤ o.now ∧ o.now ≤ retry.now := fun o ho =>
    ⟨hop _ (List.mem_append_left _ (List.mem_map_of_mem ho)),
      hretry _ (List.mem_map_of_mem ho) _ (by simp)⟩
  have hlast : Good limits retry.now last := good_run hnext hwithin hbetween hwait
  have hdrawn : Fits (limits op.key.slug) op.now (drawn limits shardOf (r.sweep op.now) op) :=
    fits_drawn hgood.sweep
  have hanswer : r.answer limits shardOf op =
      ((drawn limits shardOf (r.sweep op.now) op).spend (limits op.key.slug) op.cost op.now).1 :=
    answerUnswept_eq
  have hnow : retry.now = op.now + ((drawn limits shardOf (r.sweep op.now) op).spend
      (limits op.key.slug) op.cost op.now).1.reset := by
    rw [← hanswer]
    rfl
  have hlevel : level limits (bucketOf shardOf r op).1 (bucketOf shardOf r op).2 last retry.now =
      level limits (bucketOf shardOf r op).1 (bucketOf shardOf r op).2 refused retry.now :=
    level_run hnext hwithin hbetween hothers
  rw [hanswer] at hrefused
  rw [answer_allowed_iff hlast, hsame, hlevel, level_next_self, ← retry_allowed_iff hrefused,
    ← hnow, Bucket.allowed_spend ((Bucket.fits_spend hdrawn).later hwait)]
  rfl

/-- A batch that asks for more than the bucket ever holds is refused with no wait at all, and again
then. -/
theorem retry_refused_above_capacity : ¬ ∀ (b : Bucket) (limits : RateLimits) (cost : ℕ) (now : ℚ),
    (b.spend limits cost now).1.allowed = false →
      ((b.spend limits cost now).2.spend limits cost
        (now + (b.spend limits cost now).1.reset)).1.allowed = true := by
  intro h
  have hcapacity : (RateLimits.mk 60 (some 10)).capacity = 10 := by norm_num [RateLimits.capacity]
  have hrefused : ((Bucket.fresh ⟨60, some 10⟩ 0).spend ⟨60, some 10⟩ 11 0).1.allowed = false := by
    rw [← Bool.not_eq_true, Bucket.allowed_spend (Fits.fresh _ _), Bucket.tokensAt_fresh, hcapacity]
    norm_num
  have hcost := ((retry_allowed_iff hrefused).1 (h _ _ _ _ hrefused)).1
  rw [hcapacity] at hcost
  norm_num at hcost

end Waiting

end JoinedContext.RateLimit
