import JoinedContext.Library.Assoc
import JoinedContext.Library.Meter
import Mathlib.Algebra.BigOperators.Fin
import Mathlib.Data.Rat.Floor

/-!
# The rate limiter

A bucket for each slug and caller, spread over shards by a hash of the two. Times are seconds on
the process's clock and tokens are exact. A caller who arrives at a full shard spends the overflow
bucket of its slug in that shard, and a sweep drops the buckets that are idle and full.
-/

namespace JoinedContext.RateLimit

section Source

def IDLE_EVICTION : ℚ := 300

def SHARDS : ℕ := 16

/-- The map has to be at least this large before a sweep is worth its scan. -/
def SWEEP_SIZE : ℕ := 1024

/-- The most callers a shard holds. -/
def SHARD_CAP : ℕ := 4096

/-- The caller of the overflow bucket. -/
def OVERFLOW : String := "overflow"

def SWEEP_INTERVAL : ℚ := 60

structure RateLimits where
  requestsPerMinute : ℕ
  burst : Option ℕ

namespace RateLimits

/-- Tokens a second. -/
def rate (limits : RateLimits) : ℚ := limits.requestsPerMinute / 60

def capacity (limits : RateLimits) : ℚ :=
  max (limits.burst.getD limits.requestsPerMinute) 1

end RateLimits

structure Decision where
  allowed : Bool
  limit : ℕ
  remaining : ℕ
  reset : ℕ
deriving DecidableEq

structure Bucket where
  tokens : ℚ
  last : ℚ
  rate : ℚ
  capacity : ℚ

/-- The time since another, none when the other is later. -/
def since (now last : ℚ) : ℚ := max (now - last) 0

namespace Bucket

def tokensAt (b : Bucket) (now : ℚ) : ℚ := min (b.tokens + since now b.last * b.rate) b.capacity

/-- The bucket of a caller not seen before. -/
def fresh (limits : RateLimits) (now : ℚ) : Bucket :=
  ⟨limits.capacity, now, limits.rate, limits.capacity⟩

/-- Takes the cost from a bucket, or nothing when it holds less. -/
def spend (b : Bucket) (limits : RateLimits) (cost : ℕ) (now : ℚ) : Decision × Bucket :=
  let tokens := min (b.tokensAt now) limits.capacity
  if cost ≤ tokens then
    (⟨true, limits.requestsPerMinute, ⌊tokens - cost⌋₊, 0⟩,
      ⟨tokens - cost, now, limits.rate, limits.capacity⟩)
  else
    let missing := min (cost : ℚ) limits.capacity - tokens
    let wait := if 0 < limits.rate then missing / limits.rate else 60
    (⟨false, limits.requestsPerMinute, 0, ⌈wait⌉₊⟩,
      ⟨tokens, now, limits.rate, limits.capacity⟩)

end Bucket

/-- Whose bucket it is. -/
structure Key where
  slug : String
  caller : String
deriving DecidableEq

structure RateLimiter where
  shards : Fin SHARDS → List (Key × Bucket)
  swept : Option ℚ

namespace RateLimiter

def new : RateLimiter := ⟨fun _ => [], none⟩

def len (r : RateLimiter) : ℕ := ∑ i, (r.shards i).length

/-- Drops the buckets that are idle and full again, at most once an interval. -/
def sweep (r : RateLimiter) (now : ℚ) : RateLimiter :=
  if r.swept.any fun swept => since now swept < SWEEP_INTERVAL then r
  else if r.len < SWEEP_SIZE then { r with swept := some now }
  else
    { shards := fun i => (r.shards i).filter fun e =>
        since now e.2.last < IDLE_EVICTION ∨ e.2.tokensAt now < e.2.capacity
      swept := some now }

variable (shardOf : Key → Fin SHARDS)

/-- Whether a caller arrives at a shard that is full of others. -/
def Overflows (r : RateLimiter) (key : Key) : Prop :=
  SHARD_CAP ≤ (r.shards (shardOf key)).length ∧ (r.shards (shardOf key)).lookup key = none

instance (r : RateLimiter) (key : Key) : Decidable (r.Overflows shardOf key) :=
  inferInstanceAs (Decidable (_ ∧ _))

/-- The bucket a caller's key stands for in its shard. -/
def bucketKey (r : RateLimiter) (key : Key) : Key :=
  if r.Overflows shardOf key then ⟨key.slug, OVERFLOW⟩ else key

/-- The part of a spend that follows the sweep. -/
def draw (r : RateLimiter) (limits : RateLimits) (key : Key) (cost : ℕ) (now : ℚ) :
    Decision × RateLimiter :=
  let i := shardOf key
  let key := r.bucketKey shardOf key
  let bucket := ((r.shards i).lookup key).getD (.fresh limits now)
  let spent := bucket.spend limits cost now
  (spent.1, { r with shards := Function.update r.shards i (Assoc.put key spent.2 (r.shards i)) })

/-- Spends `cost` requests of a caller's quota at once, or none when fewer are left. -/
def spend (r : RateLimiter) (limits : RateLimits) (key : Key) (cost : ℕ) (now : ℚ) :
    Decision × RateLimiter :=
  (r.sweep now).draw shardOf limits key cost now

end RateLimiter

end Source

section Runs

/-- One spend of a run. -/
structure Spend where
  key : Key
  cost : ℕ
  now : ℚ

variable (limits : String → RateLimits) (shardOf : Key → Fin SHARDS)

namespace RateLimiter

def answer (r : RateLimiter) (op : Spend) : Decision :=
  (r.spend shardOf (limits op.key.slug) op.key op.cost op.now).1

def next (r : RateLimiter) (op : Spend) : RateLimiter :=
  (r.spend shardOf (limits op.key.slug) op.key op.cost op.now).2

/-- The answer of the limiter that never sweeps. -/
def answerUnswept (r : RateLimiter) (op : Spend) : Decision :=
  (r.draw shardOf (limits op.key.slug) op.key op.cost op.now).1

def nextUnswept (r : RateLimiter) (op : Spend) : RateLimiter :=
  (r.draw shardOf (limits op.key.slug) op.key op.cost op.now).2

/-- The cost allowed to a caller. -/
def allowedTo (key : Key) (r : RateLimiter) (op : Spend) : ℚ :=
  if op.key = key ∧ (r.answer limits shardOf op).allowed then op.cost else 0

/-- The cost taken from a bucket. -/
def chargedTo (i : Fin SHARDS) (key : Key) (r : RateLimiter) (op : Spend) : ℚ :=
  if (shardOf op.key = i ∧ (r.sweep op.now).bucketKey shardOf op.key = key) ∧
    (r.answer limits shardOf op).allowed then op.cost else 0

end RateLimiter

end Runs

section Buckets

variable {b b' : Bucket} {limits : RateLimits} {now t u : ℚ} {cost : ℕ}

theorem RateLimits.rate_nonneg (limits : RateLimits) : 0 ≤ limits.rate :=
  div_nonneg (Nat.cast_nonneg _) (by norm_num)

theorem RateLimits.capacity_pos (limits : RateLimits) : 0 < limits.capacity :=
  lt_max_of_lt_right one_pos

/-- Whether a bucket is one of an endpoint with the limits, last touched by a time. -/
structure Fits (limits : RateLimits) (t : ℚ) (b : Bucket) : Prop where
  nonneg : 0 ≤ b.tokens
  le_capacity : b.tokens ≤ limits.capacity
  last : b.last ≤ t
  rate : b.rate = limits.rate
  capacity : b.capacity = limits.capacity

theorem Fits.later (h : Fits limits t b) (hu : t ≤ u) : Fits limits u b :=
  ⟨h.nonneg, h.le_capacity, h.last.trans hu, h.rate, h.capacity⟩

theorem Fits.fresh (limits : RateLimits) (t : ℚ) : Fits limits t (.fresh limits t) :=
  ⟨limits.capacity_pos.le, le_rfl, le_rfl, rfl, rfl⟩

namespace Bucket

theorem tokensAt_eq (h : Fits limits now b) :
    b.tokensAt now = min (b.tokens + (now - b.last) * limits.rate) limits.capacity := by
  unfold tokensAt since
  rw [h.rate, h.capacity, max_eq_left (sub_nonneg.2 h.last)]

theorem tokensAt_le (h : Fits limits now b) : b.tokensAt now ≤ limits.capacity :=
  (tokensAt_eq h).trans_le (min_le_right _ _)

theorem tokensAt_nonneg (h : Fits limits now b) : 0 ≤ b.tokensAt now := by
  have := mul_nonneg (sub_nonneg.2 h.last) limits.rate_nonneg
  rw [tokensAt_eq h]
  exact le_min (by linarith [h.nonneg]) limits.capacity_pos.le

theorem tokensAt_fills (h : Fits limits now b) (hu : now ≤ u) :
    b.tokensAt u ≤ b.tokensAt now + limits.rate * (u - now) := by
  have hfill := mul_nonneg limits.rate_nonneg (sub_nonneg.2 hu)
  rw [tokensAt_eq h, tokensAt_eq (h.later hu), ← min_add_add_right]
  refine le_min ?_ ?_
  · refine (min_le_left _ _).trans (le_of_eq ?_)
    ring
  · exact (min_le_right _ _).trans (by linarith)

theorem tokensAt_mono (h : Fits limits now b) (hu : now ≤ u) : b.tokensAt now ≤ b.tokensAt u := by
  have := mul_nonneg (sub_nonneg.2 hu) limits.rate_nonneg
  rw [tokensAt_eq h, tokensAt_eq (h.later hu)]
  exact min_le_min_right _ (by linarith)

theorem tokensAt_fresh (limits : RateLimits) (now u : ℚ) :
    (fresh limits now).tokensAt u = limits.capacity := by
  have := mul_nonneg (le_max_right (u - now) 0) limits.rate_nonneg
  exact min_eq_right (by
    show limits.capacity ≤ limits.capacity + since u now * limits.rate
    unfold since
    linarith)

/-- What a spend answers and leaves depends on what the bucket holds at the time. -/
theorem spend_congr (h : b.tokensAt now = b'.tokensAt now) :
    b.spend limits cost now = b'.spend limits cost now := by
  unfold spend
  rw [h]

/-- A bucket that fits its limits covers what it holds at the time, and is left without that. -/
theorem spend_of_fits (h : Fits limits now b) :
    (b.spend limits cost now).1.allowed = decide (cost ≤ b.tokensAt now) ∧
      (b.spend limits cost now).2 = ⟨b.tokensAt now - if cost ≤ b.tokensAt now then cost else 0,
        now, limits.rate, limits.capacity⟩ := by
  unfold spend
  rw [min_eq_left (tokensAt_le h)]
  by_cases hallowed : cost ≤ b.tokensAt now
  · simp [hallowed]
  · simp [hallowed]

theorem allowed_spend (h : Fits limits now b) :
    (b.spend limits cost now).1.allowed = true ↔ cost ≤ b.tokensAt now := by
  rw [(spend_of_fits h).1, decide_eq_true_eq]

theorem spend_eq (h : Fits limits now b) : (b.spend limits cost now).2 =
    ⟨b.tokensAt now - if cost ≤ b.tokensAt now then cost else 0, now, limits.rate,
      limits.capacity⟩ := (spend_of_fits h).2

theorem fits_spend (h : Fits limits now b) : Fits limits now (b.spend limits cost now).2 := by
  have hle := tokensAt_le h
  have hcost : (0 : ℚ) ≤ cost := Nat.cast_nonneg _
  rw [spend_eq h]
  split_ifs with hallowed
  · exact ⟨sub_nonneg.2 hallowed, by simp only []; linarith, le_rfl, rfl, rfl⟩
  · exact ⟨by simpa using tokensAt_nonneg h, by simpa using hle, le_rfl, rfl, rfl⟩

/-- A spend leaves what the bucket held, less what it is charged. -/
theorem tokensAt_spend (h : Fits limits now b) : (b.spend limits cost now).2.tokensAt now =
    b.tokensAt now - if (b.spend limits cost now).1.allowed then (cost : ℚ) else 0 := by
  have hfits : Fits limits now (b.spend limits cost now).2 := fits_spend h
  have hle := hfits.le_capacity
  rw [tokensAt_eq hfits]
  simp only [allowed_spend h]
  rw [spend_eq h] at hle ⊢
  simpa using hle

end Bucket

end Buckets

section Limiter

variable (limits : String → RateLimits)

/-- Whether the buckets of a limiter are of their endpoints, none touched after a time. -/
structure Good (t : ℚ) (r : RateLimiter) : Prop where
  keys : ∀ i, ((r.shards i).map Prod.fst).Nodup
  fits : ∀ i, ∀ e ∈ r.shards i, Fits (limits e.1.slug) t e.2

/-- What a bucket holds at a time; one not there yet would be full. -/
def level (i : Fin SHARDS) (key : Key) (r : RateLimiter) (t : ℚ) : ℚ :=
  (((r.shards i).lookup key).getD (.fresh (limits key.slug) t)).tokensAt t

variable {limits} {shardOf : Key → Fin SHARDS} {r s : RateLimiter} {op : Spend} {i j : Fin SHARDS}
  {key k : Key} {t u now : ℚ} {ops : List Spend}

theorem level_of_none (h : (r.shards i).lookup key = none) :
    level limits i key r t = (limits key.slug).capacity := by
  unfold level
  rw [h]
  exact Bucket.tokensAt_fresh _ _ _

theorem level_of_some {b : Bucket} (h : (r.shards i).lookup key = some b) :
    level limits i key r t = b.tokensAt t := by
  unfold level
  rw [h]
  rfl

namespace Good

theorem new (t : ℚ) : Good limits t .new := ⟨fun _ => List.nodup_nil, by simp [RateLimiter.new]⟩

theorem later (h : Good limits t r) (hu : t ≤ u) : Good limits u r :=
  ⟨h.keys, fun i e he => (h.fits i e he).later hu⟩

theorem fits_getD (h : Good limits t r) (i : Fin SHARDS) (key : Key) : Fits (limits key.slug) t
    (((r.shards i).lookup key).getD (.fresh (limits key.slug) t)) := by
  cases hheld : (r.shards i).lookup key with
  | none => exact Fits.fresh _ _
  | some b => exact h.fits i _ (Assoc.mem_of_lookup hheld)

theorem level_nonneg (h : Good limits t r) : 0 ≤ level limits i key r t :=
  Bucket.tokensAt_nonneg (h.fits_getD i key)

theorem level_le (h : Good limits t r) : level limits i key r t ≤ (limits key.slug).capacity :=
  Bucket.tokensAt_le (h.fits_getD i key)

theorem level_fills (h : Good limits t r) (hu : t ≤ u) :
    level limits i key r u ≤ level limits i key r t + (limits key.slug).rate * (u - t) := by
  cases hheld : (r.shards i).lookup key with
  | none =>
    have := mul_nonneg (limits key.slug).rate_nonneg (sub_nonneg.2 hu)
    rw [level_of_none hheld, level_of_none hheld]
    linarith
  | some b =>
    rw [level_of_some hheld, level_of_some hheld]
    exact Bucket.tokensAt_fills (h.fits i _ (Assoc.mem_of_lookup hheld)) hu

/-- A sweep drops a bucket only when it is full, and so for good. -/
theorem lookup_sweep (h : Good limits now r) (i : Fin SHARDS) (key : Key) :
    ((r.sweep now).shards i).lookup key = (r.shards i).lookup key ∨
      ((r.sweep now).shards i).lookup key = none ∧ ∃ b, (r.shards i).lookup key = some b ∧
        (limits key.slug).capacity ≤ b.tokensAt now := by
  unfold RateLimiter.sweep
  split_ifs
  · exact Or.inl rfl
  · exact Or.inl rfl
  · simp only [Assoc.lookup_filter (h.keys i)]
    cases hheld : (r.shards i).lookup key with
    | none => exact Or.inl rfl
    | some b =>
      by_cases hkept : since now b.last < IDLE_EVICTION ∨ b.tokensAt now < b.capacity
      · exact Or.inl (by simp [Option.filter_some, hkept])
      · refine Or.inr ⟨by simp [Option.filter_some, hkept], b, rfl, ?_⟩
        rw [← (h.fits i _ (Assoc.mem_of_lookup hheld)).capacity]
        exact not_lt.1 fun hlt => hkept (Or.inr hlt)

theorem sublist_sweep (r : RateLimiter) (now : ℚ) (i : Fin SHARDS) :
    ((r.sweep now).shards i).Sublist (r.shards i) := by
  unfold RateLimiter.sweep
  split_ifs
  · exact List.Sublist.refl _
  · exact List.Sublist.refl _
  · exact List.filter_sublist

theorem sweep (h : Good limits now r) : Good limits now (r.sweep now) where
  keys i := (h.keys i).sublist ((sublist_sweep r now i).map _)
  fits i e he := h.fits i e ((sublist_sweep r now i).subset he)

theorem level_sweep (h : Good limits now r) (hu : now ≤ u) :
    level limits i key (r.sweep now) u = level limits i key r u := by
  rcases h.lookup_sweep i key with hsame | ⟨hnone, b, hheld, hfull⟩
  · unfold level
    rw [hsame]
  · have hfits := h.fits i _ (Assoc.mem_of_lookup hheld)
    rw [level_of_none hnone, level_of_some hheld]
    exact le_antisymm (hfull.trans (Bucket.tokensAt_mono hfits hu))
      (Bucket.tokensAt_le (hfits.later hu))

end Good

/-- The bucket a spend takes from, at its time. -/
def drawn (limits : String → RateLimits) (shardOf : Key → Fin SHARDS) (r : RateLimiter)
    (op : Spend) : Bucket :=
  ((r.shards (shardOf op.key)).lookup (r.bucketKey shardOf op.key)).getD
    (.fresh (limits op.key.slug) op.now)

theorem slug_bucketKey : (r.bucketKey shardOf key).slug = key.slug := by
  unfold RateLimiter.bucketKey
  split_ifs <;> rfl

theorem answerUnswept_eq : r.answerUnswept limits shardOf op =
    ((drawn limits shardOf r op).spend (limits op.key.slug) op.cost op.now).1 := by
  simp only [RateLimiter.answerUnswept, RateLimiter.draw, drawn]

theorem shards_nextUnswept : (r.nextUnswept limits shardOf op).shards i =
    if i = shardOf op.key then
      Assoc.put (r.bucketKey shardOf op.key)
        ((drawn limits shardOf r op).spend (limits op.key.slug) op.cost op.now).2
        (r.shards (shardOf op.key))
    else r.shards i :=
  Function.update_apply _ _ _ _

theorem lookup_nextUnswept : ((r.nextUnswept limits shardOf op).shards i).lookup key =
    if i = shardOf op.key ∧ key = r.bucketKey shardOf op.key then
      some ((drawn limits shardOf r op).spend (limits op.key.slug) op.cost op.now).2
    else (r.shards i).lookup key := by
  rw [shards_nextUnswept]
  by_cases hi : i = shardOf op.key
  · rw [if_pos hi, Assoc.lookup_put, hi]
    simp
  · rw [if_neg hi, if_neg fun h => hi h.1]

theorem fits_drawn (h : Good limits op.now r) :
    Fits (limits op.key.slug) op.now (drawn limits shardOf r op) := by
  have hfits := h.fits_getD (shardOf op.key) (r.bucketKey shardOf op.key)
  rwa [slug_bucketKey] at hfits

theorem tokensAt_drawn : (drawn limits shardOf r op).tokensAt op.now =
    level limits (shardOf op.key) (r.bucketKey shardOf op.key) r op.now := by
  unfold drawn level
  rw [slug_bucketKey]

theorem Good.nextUnswept (h : Good limits op.now r) :
    Good limits op.now (r.nextUnswept limits shardOf op) where
  keys i := by
    rw [shards_nextUnswept]
    split_ifs
    · exact Assoc.nodup_put (h.keys _)
    · exact h.keys i
  fits i e he := by
    rw [shards_nextUnswept] at he
    split_ifs at he with hi
    · rcases Assoc.mem_put.1 he with rfl | ⟨he, -⟩
      · simp only []
        rw [slug_bucketKey]
        exact Bucket.fits_spend (fits_drawn h)
      · exact h.fits _ e he
    · exact h.fits i e he

/-- A spend takes from its bucket what it is charged, and leaves the others. -/
theorem level_nextUnswept (shardOf : Key → Fin SHARDS) (i : Fin SHARDS) (key : Key)
    (h : Good limits op.now r) :
    level limits i key (r.nextUnswept limits shardOf op) op.now =
      level limits i key r op.now -
        if (shardOf op.key = i ∧ r.bucketKey shardOf op.key = key) ∧
          (r.answerUnswept limits shardOf op).allowed then (op.cost : ℚ) else 0 := by
  have hlookup : ((r.nextUnswept limits shardOf op).shards i).lookup key = _ := lookup_nextUnswept
  by_cases hhere : i = shardOf op.key ∧ key = r.bucketKey shardOf op.key
  · rw [if_pos hhere] at hlookup
    rw [level_of_some hlookup, Bucket.tokensAt_spend (fits_drawn h), tokensAt_drawn,
      ← answerUnswept_eq, hhere.1, hhere.2]
    simp
  · rw [if_neg hhere] at hlookup
    rw [if_neg fun hcharged => hhere ⟨hcharged.1.1.symm, hcharged.1.2.symm⟩, sub_zero]
    unfold level
    rw [hlookup]

/-- A bucket meters what is charged to it. -/
theorem metered (limits : String → RateLimits) (shardOf : Key → Fin SHARDS) (i : Fin SHARDS)
    (key : Key) : Meter.Metered (RateLimiter.next limits shardOf) Spend.now (Good limits)
      (level limits i key) (RateLimiter.chargedTo limits shardOf i key)
      (limits key.slug).capacity (limits key.slug).rate where
  rate_nonneg := (limits key.slug).rate_nonneg
  nonneg h := h.level_nonneg
  le_capacity h := h.level_le
  later h hu := h.later hu
  fills h hu := h.level_fills hu
  moves h := h.sweep.nextUnswept
  charge_nonneg := by
    intro r op
    unfold RateLimiter.chargedTo
    split_ifs
    · exact Nat.cast_nonneg _
    · exact le_rfl
  charged {r op} h := by
    have hlevel := level_nextUnswept shardOf i key h.sweep
    rw [h.level_sweep le_rfl] at hlevel
    exact le_of_eq (eq_sub_iff_add_eq.1 hlevel)

/-- Whether two limiters hold the same from a time on, no shard of the second over its cap and no
bucket in the first that is not in the second. -/
structure Agree (limits : String → RateLimits) (t : ℚ) (s u : RateLimiter) : Prop where
  left : Good limits t s
  right : Good limits t u
  capped : ∀ i, (u.shards i).length ≤ SHARD_CAP
  keys : ∀ i, (s.shards i).map Prod.fst ⊆ (u.shards i).map Prod.fst
  level : ∀ i key v, t ≤ v → level limits i key s v = level limits i key u v

namespace Agree

variable {u : RateLimiter}

theorem new (limits : String → RateLimits) (t : ℚ) : Agree limits t .new .new :=
  ⟨.new t, .new t, fun _ => Nat.zero_le _, fun _ => List.Subset.refl _, fun _ _ _ _ => rfl⟩

theorem later {v : ℚ} (h : Agree limits t s u) (hv : t ≤ v) : Agree limits v s u :=
  ⟨h.left.later hv, h.right.later hv, h.capped, h.keys,
    fun i key w hw => h.level i key w (hv.trans hw)⟩

theorem sweep (h : Agree limits now s u) : Agree limits now (s.sweep now) u where
  left := h.left.sweep
  right := h.right
  capped := h.capped
  keys i := List.Subset.trans ((Good.sublist_sweep s now i).map _).subset (h.keys i)
  level i key v hv := (h.left.level_sweep hv).trans (h.level i key v hv)

/-- A spend that does not overflow the second does not overflow the first. -/
theorem not_overflows (h : Agree limits t s u) (hu : ¬ u.Overflows shardOf key) :
    ¬ s.Overflows shardOf key := by
  rintro ⟨hfull, hnone⟩
  have hnot : key ∉ (s.shards (shardOf key)).map Prod.fst := by
    rw [← Assoc.lookup_isSome_iff, hnone]
    simp
  have hcapped := h.capped (shardOf key)
  by_cases hheld : key ∈ (u.shards (shardOf key)).map Prod.fst
  · have hsub : key :: (s.shards (shardOf key)).map Prod.fst ⊆
        (u.shards (shardOf key)).map Prod.fst := List.cons_subset.2 ⟨hheld, h.keys _⟩
    have hlen := (List.Nodup.subperm (List.nodup_cons.2 ⟨hnot, h.left.keys _⟩) hsub).length_le
    simp only [List.length_cons, List.length_map] at hlen
    omega
  · have hlen := (List.Nodup.subperm (h.left.keys _) (h.keys (shardOf key))).length_le
    simp only [List.length_map] at hlen
    refine hu ⟨by omega, ?_⟩
    rwa [← Assoc.lookup_isSome_iff, Option.not_isSome_iff_eq_none] at hheld

theorem step (h : Agree limits op.now s u) (hu : ¬ u.Overflows shardOf op.key) :
    (s.sweep op.now).bucketKey shardOf op.key = op.key ∧
      s.answer limits shardOf op = u.answerUnswept limits shardOf op ∧
      Agree limits op.now (s.next limits shardOf op) (u.nextUnswept limits shardOf op) := by
  have hswept := h.sweep
  have hs : (s.sweep op.now).bucketKey shardOf op.key = op.key :=
    if_neg (hswept.not_overflows hu)
  have hkey : u.bucketKey shardOf op.key = op.key := if_neg hu
  have htokens : (drawn limits shardOf (s.sweep op.now) op).tokensAt op.now =
      (drawn limits shardOf u op).tokensAt op.now := by
    rw [tokensAt_drawn, tokensAt_drawn, hs, hkey]
    exact hswept.level _ _ _ le_rfl
  have hanswer : s.answer limits shardOf op = u.answerUnswept limits shardOf op := by
    show (s.sweep op.now).answerUnswept limits shardOf op = _
    rw [answerUnswept_eq, answerUnswept_eq, Bucket.spend_congr htokens]
  refine ⟨hs, hanswer, hswept.left.nextUnswept, h.right.nextUnswept, fun i => ?_,
    fun i key hmem => ?_, fun i key v hv => ?_⟩
  · rw [shards_nextUnswept]
    split_ifs with hi
    · rw [Assoc.length_put, hkey]
      have hcapped := h.capped (shardOf op.key)
      split_ifs with hheld
      · exact hcapped
      · refine Nat.lt_of_not_le fun hfull => hu ⟨hfull, ?_⟩
        rwa [Option.not_isSome_iff_eq_none] at hheld
    · exact h.capped i
  · rw [← Assoc.lookup_isSome_iff] at hmem ⊢
    have hleft : ((s.next limits shardOf op).shards i).lookup key = _ :=
      lookup_nextUnswept (r := s.sweep op.now)
    rw [lookup_nextUnswept, hkey]
    rw [hleft, hs] at hmem
    split_ifs at hmem ⊢
    · rfl
    · exact Assoc.lookup_isSome_iff.2 (hswept.keys i (Assoc.lookup_isSome_iff.1 hmem))
  · have hleft : ((s.next limits shardOf op).shards i).lookup key = _ :=
      lookup_nextUnswept (r := s.sweep op.now)
    have hright : ((u.nextUnswept limits shardOf op).shards i).lookup key = _ :=
      lookup_nextUnswept
    rw [hs, Bucket.spend_congr htokens] at hleft
    rw [hkey] at hright
    by_cases hhere : i = shardOf op.key ∧ key = op.key
    · rw [if_pos hhere] at hleft hright
      rw [level_of_some hleft, level_of_some hright]
    · rw [if_neg hhere] at hleft hright
      have hlevel := hswept.level i key v hv
      unfold RateLimit.level at hlevel ⊢
      rw [hleft, hright, hlevel]

end Agree

end Limiter

section Run

variable {limits : String → RateLimits} {shardOf : Key → Fin SHARDS} {s u : RateLimiter}
  {ops : List Spend} {t t₁ t₂ : ℚ}

/-- As long as no spend of the limiter without sweeps overflows, each spend of the one with sweeps
takes from its caller's bucket, and the answers are the same. -/
theorem Agree.run : ∀ {ops : List Spend} {s u : RateLimiter} {t : ℚ}, Agree limits t s u →
    (∀ op ∈ ops, t ≤ op.now) → (ops.map Spend.now).Pairwise (· ≤ ·) →
    Machine.Along (RateLimiter.nextUnswept limits shardOf)
      (fun u op => ¬ u.Overflows shardOf op.key) u ops →
    Machine.Along (RateLimiter.next limits shardOf)
        (fun s op => (s.sweep op.now).bucketKey shardOf op.key = op.key) s ops ∧
      Machine.outputs (RateLimiter.next limits shardOf) (RateLimiter.answer limits shardOf) s ops =
        Machine.outputs (RateLimiter.nextUnswept limits shardOf)
          (RateLimiter.answerUnswept limits shardOf) u ops
  | [], _, _, _, _, _, _, _ => ⟨trivial, rfl⟩
  | op :: ops, s, u, t, h, hfrom, hsorted, hunder => by
    rw [List.map_cons, List.pairwise_cons] at hsorted
    obtain ⟨hkey, hanswer, hnext⟩ := (h.later (hfrom op List.mem_cons_self)).step hunder.1
    obtain ⟨hkeys, hanswers⟩ := Agree.run hnext
      (fun op' hop' => hsorted.1 _ (List.mem_map_of_mem hop')) hsorted.2 hunder.2
    exact ⟨⟨hkey, hkeys⟩, congrArg₂ List.cons hanswer hanswers⟩

/-- What is allowed to a caller is charged to its bucket or to the overflow bucket. -/
theorem allowedTo_le (key : Key) (r : RateLimiter) (op : Spend) :
    r.allowedTo limits shardOf key op ≤ r.chargedTo limits shardOf (shardOf key) key op +
      r.chargedTo limits shardOf (shardOf key) ⟨key.slug, OVERFLOW⟩ op := by
  have hnonneg : ∀ i k, 0 ≤ r.chargedTo limits shardOf i k op := fun i k =>
    (metered limits shardOf i k).charge_nonneg
  unfold RateLimiter.allowedTo
  split_ifs with hallowed
  · obtain ⟨rfl, hallowed⟩ := hallowed
    by_cases hover : (r.sweep op.now).Overflows shardOf op.key
    · have hcharged : r.chargedTo limits shardOf (shardOf op.key) ⟨op.key.slug, OVERFLOW⟩ op =
          op.cost := if_pos ⟨⟨rfl, if_pos hover⟩, hallowed⟩
      exact hcharged.ge.trans (le_add_of_nonneg_left (hnonneg _ _))
    · have hcharged : r.chargedTo limits shardOf (shardOf op.key) op.key op = op.cost :=
        if_pos ⟨⟨rfl, if_neg hover⟩, hallowed⟩
      exact hcharged.ge.trans (le_add_of_nonneg_right (hnonneg _ _))
  · exact add_nonneg (hnonneg _ _) (hnonneg _ _)

theorem exists_start (hsorted : (ops.map Spend.now).Pairwise (· ≤ ·)) :
    ∃ t, ∀ op ∈ ops, t ≤ op.now := by
  rcases ops with _ | ⟨op, ops⟩
  · exact ⟨0, by simp⟩
  · refine ⟨op.now, fun op' hop' => ?_⟩
    rw [List.map_cons, List.pairwise_cons] at hsorted
    rcases List.mem_cons.1 hop' with rfl | hop'
    · exact le_rfl
    · exact hsorted.1 _ (List.mem_map_of_mem hop')

theorem total_chargedTo_le (limits : String → RateLimits) (shardOf : Key → Fin SHARDS)
    (hsorted : (ops.map Spend.now).Pairwise (· ≤ ·)) (h12 : t₁ ≤ t₂) (i : Fin SHARDS) (key : Key) :
    Meter.total (RateLimiter.next limits shardOf) (Meter.within Spend.now t₁ t₂
        (RateLimiter.chargedTo limits shardOf i key)) .new ops ≤
      (limits key.slug).capacity + (limits key.slug).rate * (t₂ - t₁) := by
  obtain ⟨t, ht⟩ := exists_start hsorted
  exact (metered limits shardOf i key).total_le (Good.new t) h12 ht hsorted

/-- The cost taken from one bucket inside an interval is at most its capacity and what the interval
refills, so that a caller is allowed at most twice that. As long as no spend of the limiter without
sweeps arrives at a full shard, a caller is allowed at most that once, and the sweeps change no
answer. -/
theorem buckets_bounded (limits : String → RateLimits) (shardOf : Key → Fin SHARDS)
    (hsorted : (ops.map Spend.now).Pairwise (· ≤ ·)) :
    (∀ i key t₁ t₂, t₁ ≤ t₂ →
      Meter.total (RateLimiter.next limits shardOf) (Meter.within Spend.now t₁ t₂
          (RateLimiter.chargedTo limits shardOf i key)) .new ops ≤
        (limits key.slug).capacity + (limits key.slug).rate * (t₂ - t₁)) ∧
    (∀ key t₁ t₂, t₁ ≤ t₂ →
      Meter.total (RateLimiter.next limits shardOf) (Meter.within Spend.now t₁ t₂
          (RateLimiter.allowedTo limits shardOf key)) .new ops ≤
        2 * ((limits key.slug).capacity + (limits key.slug).rate * (t₂ - t₁))) ∧
    (Machine.Along (RateLimiter.nextUnswept limits shardOf)
        (fun u op => ¬ u.Overflows shardOf op.key) .new ops →
      (∀ key t₁ t₂, t₁ ≤ t₂ →
        Meter.total (RateLimiter.next limits shardOf) (Meter.within Spend.now t₁ t₂
            (RateLimiter.allowedTo limits shardOf key)) .new ops ≤
          (limits key.slug).capacity + (limits key.slug).rate * (t₂ - t₁)) ∧
      Machine.outputs (RateLimiter.next limits shardOf) (RateLimiter.answer limits shardOf) .new
          ops =
        Machine.outputs (RateLimiter.nextUnswept limits shardOf)
          (RateLimiter.answerUnswept limits shardOf) .new ops) := by
  refine ⟨fun i key t₁ t₂ h12 => total_chargedTo_le limits shardOf hsorted h12 i key,
    fun key t₁ t₂ h12 => ?_, fun hunder => ?_⟩
  · have hown := total_chargedTo_le limits shardOf hsorted h12 (shardOf key) key
    have hover := total_chargedTo_le limits shardOf hsorted h12 (shardOf key)
      ⟨key.slug, OVERFLOW⟩
    refine (Meter.total_le_total ((Machine.along_true _ ops _).mono fun r op _ =>
      (Meter.within_mono (allowedTo_le key r op)).trans_eq Meter.within_add)).trans ?_
    rw [Meter.total_add]
    linarith
  · obtain ⟨t, ht⟩ := exists_start hsorted
    obtain ⟨hkeys, hanswers⟩ := (Agree.new limits t).run ht hsorted hunder
    refine ⟨fun key t₁ t₂ h12 => ?_, hanswers⟩
    refine (Meter.total_le_total (hkeys.mono fun r op hkey => Meter.within_mono ?_)).trans
      (total_chargedTo_le limits shardOf hsorted h12 (shardOf key) key)
    unfold RateLimiter.allowedTo
    split_ifs with hallowed
    · obtain ⟨rfl, hallowed⟩ := hallowed
      exact (if_pos ⟨⟨rfl, hkey⟩, hallowed⟩ : r.chargedTo limits shardOf _ _ op = op.cost).ge
    · exact (metered limits shardOf _ _).charge_nonneg

end Run

section Crowd

/-- One request a minute, ten at once. -/
def slow (_ : String) : RateLimits := ⟨1, some 10⟩

def firstShard : Fin SHARDS := ⟨0, by decide⟩

def oneShard (_ : Key) : Fin SHARDS := firstShard

/-- Callers each of their own name. -/
def stranger (n : ℕ) : Key := ⟨"form", String.ofList (List.replicate n 'a')⟩

def arrival (n : ℕ) : Spend := ⟨stranger n, 1, 0⟩

def late (now : ℚ) : Spend := ⟨⟨"form", "c"⟩, 10, now⟩

theorem slow_capacity (slug : String) : (slow slug).capacity = 10 := by
  norm_num [slow, RateLimits.capacity]

theorem slow_rate (slug : String) : (slow slug).rate = 1 / 60 := by
  norm_num [slow, RateLimits.rate]

theorem stranger_inj {m n : ℕ} (h : stranger m = stranger n) : m = n := by
  have hlist := congrArg (fun key : Key => key.caller.toList.length) h
  simpa [stranger] using hlist

/-- The buckets of the first of the strangers, in the order they arrived. -/
def crowd (n : ℕ) : List (Key × Bucket) :=
  (List.range n).map fun m => (stranger m, ⟨9, 0, 1 / 60, 10⟩)

theorem lookup_crowd {n : ℕ} {key : Key} (hkey : ∀ m, m < n → stranger m ≠ key) :
    (crowd n).lookup key = none := by
  rw [← Option.not_isSome_iff_eq_none, Assoc.lookup_isSome_iff]
  intro hmem
  simp only [crowd, List.map_map, List.mem_map, List.mem_range, Function.comp_apply] at hmem
  obtain ⟨m, hm, heq⟩ := hmem
  exact hkey m hm heq

variable {n : ℕ} {r : RateLimiter} {op : Spend} {buckets : List (Key × Bucket)}

/-- A spend of one not seen before, who finds the bucket full. -/
theorem spend_new (hnone : (r.shards firstShard).lookup (r.bucketKey oneShard op.key) = none)
    (hcost : op.cost ≤ 10) :
    (r.answerUnswept slow oneShard op).allowed = true ∧
      (r.nextUnswept slow oneShard op).shards firstShard = r.shards firstShard ++
        [(r.bucketKey oneShard op.key, ⟨10 - op.cost, op.now, 1 / 60, 10⟩)] := by
  have hdrawn : drawn slow oneShard r op = .fresh (slow op.key.slug) op.now := by
    show ((r.shards firstShard).lookup _).getD _ = _
    rw [hnone]
    rfl
  have hfits := Fits.fresh (slow op.key.slug) op.now
  have htokens := Bucket.tokensAt_fresh (slow op.key.slug) op.now op.now
  have hallowed : (op.cost : ℚ) ≤ (slow op.key.slug).capacity := by
    rw [slow_capacity]
    exact_mod_cast hcost
  constructor
  · rw [answerUnswept_eq, hdrawn, Bucket.allowed_spend hfits, htokens]
    exact hallowed
  · have hshard : (r.nextUnswept slow oneShard op).shards firstShard = _ := shards_nextUnswept
    rw [hshard, if_pos (show firstShard = oneShard op.key from rfl), hdrawn, Bucket.spend_eq hfits, htokens, if_pos hallowed,
      slow_capacity, slow_rate]
    show Assoc.put _ _ (r.shards firstShard) = _
    rw [Assoc.put, hnone]
    rfl

theorem others_next (h : ∀ i, i ≠ firstShard → r.shards i = []) :
    ∀ i, i ≠ firstShard → (r.nextUnswept slow oneShard op).shards i = [] := fun i hi => by
  rw [shards_nextUnswept, if_neg (show i ≠ oneShard op.key from hi), h i hi]

theorem len_eq (h : ∀ i, i ≠ firstShard → r.shards i = []) :
    r.len = (r.shards firstShard).length := by
  unfold RateLimiter.len
  exact Finset.sum_eq_single firstShard (fun i _ hi => by rw [h i hi]; rfl) (by simp)

/-- The strangers before one have arrived, all at once. -/
structure Crowded (n : ℕ) (r : RateLimiter) : Prop where
  shard : r.shards firstShard = crowd n
  others : ∀ i, i ≠ firstShard → r.shards i = []
  swept : r.swept = none ∨ r.swept = some 0

namespace Crowded

theorem length (h : Crowded n r) : (r.shards firstShard).length = n := by
  simp [h.shard, crowd]

theorem next (h : Crowded n r) (hn : n < SHARD_CAP) :
    Crowded (n + 1) (r.nextUnswept slow oneShard (arrival n)) := by
  have hkey : r.bucketKey oneShard (stranger n) = stranger n :=
    if_neg fun hover => absurd hover.1 (not_le.2 (h.length.trans_lt hn))
  have hnone : (r.shards firstShard).lookup (r.bucketKey oneShard (arrival n).key) = none := by
    show (r.shards firstShard).lookup (r.bucketKey oneShard (stranger n)) = none
    rw [hkey, h.shard]
    exact lookup_crowd fun m hm heq => hm.ne (stranger_inj heq)
  refine ⟨?_, others_next h.others, h.swept⟩
  rw [(spend_new hnone (by simp [arrival])).2, h.shard]
  show crowd n ++ [(r.bucketKey oneShard (stranger n), _)] = crowd (n + 1)
  rw [hkey, crowd, crowd, List.range_succ, List.map_append]
  norm_num [arrival]

/-- A sweep drops none of a crowd that came within the idle time. -/
theorem shards_sweep {now : ℚ} (h : Crowded n r) (hnow : since now 0 < IDLE_EVICTION) :
    (r.sweep now).shards = r.shards := by
  unfold RateLimiter.sweep
  split_ifs
  · rfl
  · rfl
  · funext i
    show (r.shards i).filter _ = r.shards i
    by_cases hi : i = firstShard
    · rw [hi, h.shard, List.filter_eq_self]
      intro e he
      obtain ⟨m, -, rfl⟩ := List.mem_map.1 he
      simpa using Or.inl hnow
    · rw [h.others i hi, List.filter_nil]

theorem sweep (h : Crowded n r) : Crowded n (r.sweep 0) := by
  have hshards : (r.sweep 0).shards = r.shards :=
    h.shards_sweep (by norm_num [since, IDLE_EVICTION])
  refine ⟨by rw [hshards, h.shard], by rw [hshards]; exact h.others, ?_⟩
  unfold RateLimiter.sweep
  split_ifs
  · exact h.swept
  · exact Or.inr rfl
  · exact Or.inr rfl

theorem swept_sweep (h : Crowded n r) : (r.sweep 299).swept = some 299 := by
  have hdue : r.swept.any (fun swept => since 299 swept < SWEEP_INTERVAL) = false := by
    rcases h.swept with hnone | hzero
    · rw [hnone]
      rfl
    · rw [hzero]
      norm_num [since, SWEEP_INTERVAL]
  unfold RateLimiter.sweep
  rw [if_neg (by rw [hdue]; decide)]
  split_ifs <;> rfl

/-- Both limiters end with the crowd of the first strangers. -/
theorem run : ∀ n, n ≤ SHARD_CAP →
    Crowded n (Machine.run (RateLimiter.next slow oneShard) .new ((List.range n).map arrival)) ∧
      Crowded n
        (Machine.run (RateLimiter.nextUnswept slow oneShard) .new ((List.range n).map arrival))
  | 0, _ => ⟨⟨rfl, fun _ _ => rfl, Or.inl rfl⟩, rfl, fun _ _ => rfl, Or.inl rfl⟩
  | n + 1, hn => by
    obtain ⟨hswept, hunswept⟩ := run n (Nat.le_of_succ_le hn)
    simp only [List.range_succ, List.map_append, Machine.run_append]
    exact ⟨hswept.sweep.next hn, hunswept.next hn⟩

end Crowded

theorem lookup_crowd_of_ne {caller : String} (hcaller : ∀ c ∈ caller.toList, c ≠ 'a')
    (hne : caller.toList ≠ []) : (crowd n).lookup ⟨"form", caller⟩ = none :=
  lookup_crowd fun m _ heq => by
    have hlist := congrArg (fun key : Key => key.caller.toList) heq
    simp only [stranger, String.toList_ofList] at hlist
    rcases m with _ | m
    · exact hne hlist.symm
    · rw [← hlist] at hcaller
      exact hcaller 'a' (by simp) rfl

theorem lookup_crowd_late : (crowd n).lookup ⟨"form", "c"⟩ = none :=
  lookup_crowd_of_ne (by simp) (by simp)

theorem lookup_crowd_overflow : (crowd n).lookup ⟨"form", OVERFLOW⟩ = none :=
  lookup_crowd_of_ne (by simp [OVERFLOW]) (by simp [OVERFLOW])

/-- The first of the two late spends finds the shard full. -/
theorem late_overflows (hshard : r.shards firstShard = crowd SHARD_CAP) :
    (r.answerUnswept slow oneShard (late 299)).allowed = true ∧
      (r.nextUnswept slow oneShard (late 299)).shards firstShard =
        crowd SHARD_CAP ++ [(⟨"form", OVERFLOW⟩, ⟨0, 299, 1 / 60, 10⟩)] := by
  have hover : r.bucketKey oneShard ⟨"form", "c"⟩ = ⟨"form", OVERFLOW⟩ := by
    refine if_pos ⟨?_, ?_⟩
    · show SHARD_CAP ≤ (r.shards firstShard).length
      rw [hshard]
      simp [crowd]
    · show (r.shards firstShard).lookup _ = none
      rw [hshard]
      exact lookup_crowd_late
  have hnone : (r.shards firstShard).lookup (r.bucketKey oneShard (late 299).key) = none := by
    show (r.shards firstShard).lookup (r.bucketKey oneShard ⟨"form", "c"⟩) = none
    rw [hover, hshard]
    exact lookup_crowd_overflow
  obtain ⟨hallowed, hleft⟩ := spend_new hnone (by simp [late])
  refine ⟨hallowed, ?_⟩
  rw [hleft, hshard]
  show crowd SHARD_CAP ++ [(r.bucketKey oneShard ⟨"form", "c"⟩, _)] = _
  rw [hover]
  norm_num [late]

/-- The second finds room once a sweep has dropped the crowd. -/
theorem late_takes_own (hshard : r.shards firstShard =
      crowd SHARD_CAP ++ [(⟨"form", OVERFLOW⟩, ⟨0, 299, 1 / 60, 10⟩)])
    (hothers : ∀ i, i ≠ firstShard → r.shards i = []) (hswept : r.swept = some 299) :
    (r.answer slow oneShard (late 359)).allowed = true := by
  have hlen : (r.shards firstShard).length = SHARD_CAP + 1 := by simp [hshard, crowd]
  have hsweep : (r.sweep 359).shards firstShard =
      [(⟨"form", OVERFLOW⟩, ⟨0, 299, 1 / 60, 10⟩)] := by
    unfold RateLimiter.sweep
    rw [hswept, len_eq hothers, hlen, if_neg (by norm_num [since, SWEEP_INTERVAL]),
      if_neg (by decide)]
    show (r.shards firstShard).filter _ = _
    rw [hshard, List.filter_append, List.filter_eq_nil_iff.2, List.nil_append]
    · norm_num [since, IDLE_EVICTION]
    · intro e he
      obtain ⟨m, -, rfl⟩ := List.mem_map.1 he
      norm_num [since, IDLE_EVICTION, Bucket.tokensAt]
  have hkey : (r.sweep 359).bucketKey oneShard ⟨"form", "c"⟩ = ⟨"form", "c"⟩ := by
    refine if_neg fun hover => absurd hover.1 ?_
    show ¬ SHARD_CAP ≤ ((r.sweep 359).shards firstShard).length
    rw [hsweep]
    decide
  refine (@spend_new _ (late 359) ?_ (by simp [late])).1
  show ((r.sweep 359).shards firstShard).lookup ((r.sweep 359).bucketKey oneShard ⟨"form", "c"⟩) =
    none
  rw [hkey, hsweep]
  decide

/-- Without sweeps it finds the overflow bucket spent. -/
theorem late_refused (hshard : r.shards firstShard =
      crowd SHARD_CAP ++ [(⟨"form", OVERFLOW⟩, ⟨0, 299, 1 / 60, 10⟩)]) :
    (r.answerUnswept slow oneShard (late 359)).allowed = false := by
  have hover : r.bucketKey oneShard ⟨"form", "c"⟩ = ⟨"form", OVERFLOW⟩ := by
    refine if_pos ⟨?_, ?_⟩
    · show SHARD_CAP ≤ (r.shards firstShard).length
      simp [hshard, crowd]
    · show (r.shards firstShard).lookup _ = none
      rw [hshard, Assoc.lookup_append_singleton, lookup_crowd_late]
      decide
  have hdrawn : drawn slow oneShard r (late 359) = ⟨0, 299, 1 / 60, 10⟩ := by
    show ((r.shards firstShard).lookup (r.bucketKey oneShard ⟨"form", "c"⟩)).getD _ = _
    rw [hover, hshard, Assoc.lookup_append_singleton, lookup_crowd_overflow, if_pos rfl]
    rfl
  have hfits : Fits (slow "form") 359 ⟨0, 299, 1 / 60, 10⟩ := by
    refine ⟨le_rfl, ?_, ?_, ?_, ?_⟩ <;> norm_num [slow_capacity, slow_rate]
  rw [answerUnswept_eq, hdrawn, ← Bool.not_eq_true]
  show ¬ (Bucket.spend _ (slow "form") 10 359).1.allowed = true
  rw [Bucket.allowed_spend hfits]
  norm_num [Bucket.tokensAt, since]

theorem late_overspends {ops : List Spend} (hbefore : ∀ op ∈ ops, op.now < 299)
    (hswept : Crowded SHARD_CAP (Machine.run (RateLimiter.next slow oneShard) .new ops))
    (hunswept : Crowded SHARD_CAP (Machine.run (RateLimiter.nextUnswept slow oneShard) .new ops)) :
    Meter.total (RateLimiter.next slow oneShard) (Meter.within Spend.now 299 359
        (RateLimiter.allowedTo slow oneShard ⟨"form", "c"⟩)) .new (ops ++ [late 299, late 359]) =
        20 ∧
      Machine.outputs (RateLimiter.next slow oneShard) (RateLimiter.answer slow oneShard) .new
          (ops ++ [late 299, late 359]) ≠
        Machine.outputs (RateLimiter.nextUnswept slow oneShard)
          (RateLimiter.answerUnswept slow oneShard) .new (ops ++ [late 299, late 359]) := by
  rw [Meter.total_append, Machine.outputs_append, Machine.outputs_append]
  generalize Machine.run (RateLimiter.next slow oneShard) .new ops = r at *
  generalize Machine.run (RateLimiter.nextUnswept slow oneShard) .new ops = u at *
  have hshards : (r.sweep 299).shards = r.shards :=
    hswept.shards_sweep (by norm_num [since, IDLE_EVICTION])
  obtain ⟨hfirst, hleft⟩ := late_overflows (by rw [hshards, hswept.shard])
  have hsecond : ((r.next slow oneShard (late 299)).answer slow oneShard (late 359)).allowed = true :=
    late_takes_own hleft (others_next fun i hi => (congrFun hshards i).trans (hswept.others i hi))
      hswept.swept_sweep
  have hrefused := late_refused (late_overflows hunswept.shard).2
  constructor
  · have hallowed : ∀ {s : RateLimiter} {now : ℚ}, 299 ≤ now → now ≤ 359 →
        (s.answer slow oneShard (late now)).allowed = true →
        Meter.within Spend.now 299 359
          (RateLimiter.allowedTo slow oneShard ⟨"form", "c"⟩) s (late now) = 10 :=
      fun h299 h359 h => (if_pos ⟨h299, h359⟩).trans ((if_pos ⟨rfl, h⟩).trans (by norm_num [late]))
    rw [Meter.total_within_of_lt hbefore, Meter.total_cons, Meter.total_cons,
      hallowed le_rfl (by norm_num) hfirst, hallowed (by norm_num) le_rfl hsecond]
    norm_num [Meter.total]
  · intro heq
    obtain ⟨-, hlast⟩ := List.append_inj heq
      (Machine.length_outputs.trans Machine.length_outputs.symm)
    simp only [Machine.outputs, List.cons.injEq] at hlast
    have hsame := congrArg Decision.allowed hlast.2.1
    rw [hsecond] at hsame
    exact absurd (hsame.trans hrefused) (by decide)

def crowdThenLate : List Spend := (List.range SHARD_CAP).map arrival ++ [late 299, late 359]

/-- A caller who first overflows and then finds room is allowed two bursts, the second of which the
limiter without sweeps refuses. -/
theorem crowd_overspends : (crowdThenLate.map Spend.now).Pairwise (· ≤ ·) ∧
    (slow "form").capacity + (slow "form").rate * (359 - 299) <
      Meter.total (RateLimiter.next slow oneShard) (Meter.within Spend.now 299 359
        (RateLimiter.allowedTo slow oneShard ⟨"form", "c"⟩)) .new crowdThenLate ∧
    Machine.outputs (RateLimiter.next slow oneShard) (RateLimiter.answer slow oneShard) .new
        crowdThenLate ≠
      Machine.outputs (RateLimiter.nextUnswept slow oneShard)
        (RateLimiter.answerUnswept slow oneShard) .new crowdThenLate := by
  obtain ⟨hswept, hunswept⟩ := Crowded.run SHARD_CAP le_rfl
  have hnow : ∀ op ∈ (List.range SHARD_CAP).map arrival, op.now = 0 := fun op hop => by
    obtain ⟨m, -, rfl⟩ := List.mem_map.1 hop
    rfl
  obtain ⟨htotal, hne⟩ := late_overspends (fun op hop => by rw [hnow op hop]; norm_num)
    hswept hunswept
  unfold crowdThenLate
  refine ⟨?_, ?_, hne⟩
  · rw [List.map_append, List.pairwise_append]
    refine ⟨?_, by norm_num [late], fun a ha b hb => ?_⟩
    · refine List.pairwise_of_forall_mem_list fun a ha b hb => ?_
      obtain ⟨op, hop, rfl⟩ := List.mem_map.1 ha
      obtain ⟨op', hop', rfl⟩ := List.mem_map.1 hb
      rw [hnow op hop, hnow op' hop']
    · obtain ⟨op, hop, rfl⟩ := List.mem_map.1 ha
      rw [hnow op hop]
      have hlate : b = 299 ∨ b = 359 := by simpa [late] using hb
      rcases hlate with rfl | rfl <;> norm_num
  · rw [htotal, slow_capacity, slow_rate]
    norm_num

/-- One who spends its burst and then waits is allowed again, with sweeps or without. -/
theorem buckets_bounded_patient :
    Machine.outputs (RateLimiter.next slow oneShard) (RateLimiter.answer slow oneShard) .new
        [late 0, late 1, late 600] =
      Machine.outputs (RateLimiter.nextUnswept slow oneShard)
        (RateLimiter.answerUnswept slow oneShard) .new [late 0, late 1, late 600] := by
  have hsorted : ([late 0, late 1, late 600].map Spend.now).Pairwise (· ≤ ·) := by
    norm_num [late]
  have hunder : Machine.Along (RateLimiter.nextUnswept slow oneShard)
      (fun u op => ¬ u.Overflows oneShard op.key) .new [late 0, late 1, late 600] :=
    ⟨by decide +kernel, by decide +kernel, by decide +kernel, trivial⟩
  exact ((buckets_bounded slow oneShard hsorted).2.2 hunder).2

end Crowd

end JoinedContext.RateLimit
