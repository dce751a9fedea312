import JoinedContext.Tabular.Table

/-!
# The pages of a download

Each page of the broker is read, cut to the window of the download and appended. Every row and byte
read counts against a ceiling, and past it the download is refused.
-/

namespace JoinedContext.Tabular

/-- `saturating_add` of a 64-bit counter. -/
def saturatingAdd (a b : ℕ) : ℕ := min (a + b) (2 ^ 64 - 1)

structure Limits where
  maxRows : UInt32
  maxBytes : UInt64

inductive Collect where
  | tooLarge
  | unreadable
deriving DecidableEq

structure Window where
  skipped : ℕ
  limit : ℕ

def Window.holds (window : Window) (row : ℕ) : Bool :=
  window.skipped ≤ row && row - window.skipped < window.limit

structure Collector where
  limits : Limits
  window : Window
  maxHeld : UInt64
  seen : ℕ
  held : ℕ
  table : Table

def Collector.new (limits : Limits) (window : Window) (maxHeld : UInt64) : Collector :=
  ⟨limits, window, maxHeld, 0, 0, Table.empty⟩

def Collector.finish (c : Collector) : Table := c.table

section Source

variable (read : List UInt8 → Option Value)

/-- The entities of one page, as `serde_json` reads it. -/
def pageEntities (bytes : List UInt8) : Except Collect (List Value) :=
  if bytes.isEmpty then .ok []
  else match read bytes with
    | none => .error .unreadable
    | some entities => .ok (entitiesOf entities)

/-- The entities of a page within the window, its first one the `first` of the download. -/
def Window.kept (window : Window) (first : ℕ) (page : List Value) : List Value :=
  ((page.zipIdx).filter fun c => window.holds (saturatingAdd first c.2)).map Prod.fst

def Collector.pushPage (c : Collector) (bytes : List UInt8) : Collector × Except Collect ℕ :=
  match pageEntities read bytes with
  | .error e => (c, .error e)
  | .ok page =>
    let counted := { c with
      seen := saturatingAdd c.seen page.length
      held := saturatingAdd c.held bytes.length }
    if c.limits.maxRows.toNat < counted.seen || c.maxHeld.toNat < counted.held then
      (counted, .error .tooLarge)
    else
      ({ counted with table := c.table.append (.arr (c.window.kept c.seen page)) }, .ok page.length)

/-- A download: its pages one after the other, as far as one is refused. -/
def Collector.collect (c : Collector) : List (List UInt8) → Except Collect Collector
  | [] => .ok c
  | page :: rest =>
    match c.pushPage read page with
    | (c, .ok _) => c.collect rest
    | (_, .error e) => .error e

/-- The entities of all pages, in the order they are read. -/
def entitiesIn : List (List UInt8) → Except Collect (List Value)
  | [] => .ok []
  | page :: rest =>
    match pageEntities read page, entitiesIn rest with
    | .ok entities, .ok more => .ok (entities ++ more)
    | .error e, _ => .error e
    | _, .error e => .error e

end Source

section Run

variable {read : List UInt8 → Option Value} {c c' : Collector} {all page : List Value}

/-- The entities of a download within its window. -/
def Window.part (window : Window) (entities : List Value) : List Value :=
  (entities.drop window.skipped).take window.limit

/-- What of a list that begins at a row is within a window. -/
theorem map_filter_zipIdx (window : Window) : ∀ (page : List Value) (first : ℕ),
    ((page.zipIdx first).filter fun c => window.holds c.2).map Prod.fst =
      (page.drop (window.skipped - first)).take (window.limit - (first - window.skipped))
  | [], first => by simp
  | entity :: page, first => by
    have hrest := map_filter_zipIdx window page (first + 1)
    rw [List.zipIdx_cons, List.filter_cons]
    by_cases hbefore : first < window.skipped
    · have hholds : window.holds first = false := by
        simp only [Window.holds, Bool.and_eq_false_iff, decide_eq_false_iff_not]
        omega
      obtain ⟨k, hk⟩ : ∃ k, window.skipped - first = k + 1 := ⟨window.skipped - first - 1, by omega⟩
      have hdrop : window.skipped - (first + 1) = k := by omega
      have htake : first + 1 - window.skipped = first - window.skipped := by omega
      rw [if_neg (by simp [hholds]), hrest, hk, List.drop_succ_cons, hdrop, htake]
    · have hdrop : window.skipped - first = 0 := by omega
      have hdrop' : window.skipped - (first + 1) = 0 := by omega
      have hnext : first + 1 - window.skipped = first - window.skipped + 1 := by omega
      rw [hdrop', List.drop_zero, hnext] at hrest
      rw [hdrop, List.drop_zero]
      by_cases hin : first - window.skipped < window.limit
      · obtain ⟨k, hk⟩ : ∃ k, window.limit - (first - window.skipped) = k + 1 :=
          ⟨window.limit - (first - window.skipped) - 1, by omega⟩
        have hholds : window.holds first = true := by
          simp [Window.holds, hin]
          omega
        have hk' : window.limit - (first - window.skipped + 1) = k := by omega
        rw [if_pos hholds, List.map_cons, hrest, hk, List.take_succ_cons, hk']
      · have hholds : window.holds first = false := by simp [Window.holds, hin]
        have hnone : window.limit - (first - window.skipped) = 0 := by omega
        have hnone' : window.limit - (first - window.skipped + 1) = 0 := by omega
        rw [if_neg (by simp [hholds]), hrest, hnone, hnone', List.take_zero, List.take_zero]

/-- The entities of a download read so far are within a window as the whole download's are. -/
theorem Window.part_append {window : Window} (hsmall : all.length + page.length < 2 ^ 64) :
    window.part (all ++ page) = window.part all ++ window.kept all.length page := by
  have hpart : ∀ l : List Value, window.part l =
      ((l.zipIdx).filter fun c => window.holds c.2).map Prod.fst := by
    intro l
    rw [map_filter_zipIdx]
    simp [Window.part]
  have hkept : window.kept all.length page =
      ((page.zipIdx all.length).filter fun c => window.holds c.2).map Prod.fst := by
    have hshift : page.zipIdx all.length = page.zipIdx.map (Prod.map id (· + all.length)) := by
      rw [List.map_snd_add_zipIdx_eq_zipIdx, Nat.add_zero]
    have hsame : ∀ c ∈ page.zipIdx,
        window.holds (saturatingAdd all.length c.2) = window.holds (c.2 + all.length) := by
      intro c hc
      have hlt : c.2 < page.length := List.snd_lt_of_mem_zipIdx hc
      unfold saturatingAdd
      rw [Nat.min_eq_left (by omega), Nat.add_comm]
    unfold Window.kept
    rw [hshift, List.filter_map, List.map_map, List.filter_congr hsame]
    rfl
  rw [hpart, hpart, hkept, List.zipIdx_append, List.filter_append, List.map_append, Nat.zero_add]

/-- What a collector holds that read entities. -/
structure Collector.Collected (c : Collector) (all : List Value) : Prop where
  seen : c.seen = all.length
  few : all.length ≤ c.limits.maxRows.toNat
  table : c.table.Holds (firstSeen [] (c.window.part all))

theorem Collector.pushPage_ok {bytes : List UInt8} {n : ℕ}
    (h : c.pushPage read bytes = (c', .ok n)) : ∃ page, pageEntities read bytes = .ok page ∧
      saturatingAdd c.seen page.length ≤ c.limits.maxRows.toNat ∧
      c' = { c with
        seen := saturatingAdd c.seen page.length
        held := saturatingAdd c.held bytes.length
        table := c.table.append (.arr (c.window.kept c.seen page)) } := by
  unfold Collector.pushPage at h
  cases hpage : pageEntities read bytes with
  | error e =>
    rw [hpage] at h
    cases h
  | ok page =>
    rw [hpage] at h
    dsimp only at h
    split_ifs at h with hover
    · cases h
    · cases h
      rw [Bool.or_eq_true, decide_eq_true_eq, decide_eq_true_eq, not_or, Nat.not_lt] at hover
      exact ⟨page, rfl, hover.1, rfl⟩

theorem Collector.Collected.pushPage {bytes : List UInt8} {n : ℕ} (h : c.Collected all)
    (hpush : c.pushPage read bytes = (c', .ok n)) : ∃ page, pageEntities read bytes = .ok page ∧
      c'.Collected (all ++ page) ∧ c'.window = c.window := by
  obtain ⟨page, hpage, hseen, rfl⟩ := Collector.pushPage_ok hpush
  have hrows := c.limits.maxRows.toNat_lt
  have hlength : saturatingAdd c.seen page.length = (all ++ page).length ∧
      all.length + page.length < 2 ^ 64 ∧ all.length + page.length ≤ c.limits.maxRows.toNat := by
    unfold saturatingAdd at hseen ⊢
    rw [h.seen, List.length_append] at *
    omega
  refine ⟨page, hpage, ⟨hlength.1, ?_, ?_⟩, rfl⟩
  · rw [List.length_append]
    exact hlength.2.2
  · have happend := h.table.append (c.window.kept c.seen page)
    dsimp only
    rw [Window.part_append hlength.2.1, firstSeen_append, List.nil_append, ← h.table.ids, ← h.seen]
    exact happend

theorem Collector.Collected.collect : ∀ {pages : List (List UInt8)} {c c' : Collector}
    {all : List Value}, c.Collected all → c.collect read pages = .ok c' →
      ∃ more, entitiesIn read pages = .ok more ∧ c'.Collected (all ++ more) ∧ c'.window = c.window
  | [], c, c', all, h, hcollect => by
    cases hcollect
    exact ⟨[], rfl, by simpa using h, rfl⟩
  | bytes :: pages, c, c', all, h, hcollect => by
    unfold Collector.collect at hcollect
    split at hcollect
    · next mid n hpush =>
      obtain ⟨page, hpage, hmid, hwindow⟩ := h.pushPage hpush
      obtain ⟨more, hmore, hc', hwindow'⟩ := hmid.collect hcollect
      refine ⟨page ++ more, ?_, ?_, hwindow'.trans hwindow⟩
      · unfold entitiesIn
        rw [hpage, hmore]
      · rwa [← List.append_assoc]
    · cases hcollect

theorem Collector.new_collected (limits : Limits) (window : Window) (maxHeld : UInt64) :
    (Collector.new limits window maxHeld).Collected [] :=
  ⟨rfl, Nat.zero_le _, by simpa [Window.part, firstSeen, Collector.new] using Table.empty_holds⟩

/-- The table of a download that was not refused. -/
theorem Collector.finish_holds {limits : Limits} {window : Window} {maxHeld : UInt64}
    {pages : List (List UInt8)}
    (h : (Collector.new limits window maxHeld).collect read pages = .ok c) :
    ∃ all, entitiesIn read pages = .ok all ∧ c.finish.Holds (firstSeen [] (window.part all)) := by
  obtain ⟨all, hall, hc, hwindow⟩ := (Collector.new_collected limits window maxHeld).collect h
  have htable := hc.table
  rw [hwindow] at htable
  exact ⟨all, hall, htable⟩

end Run

end JoinedContext.Tabular
