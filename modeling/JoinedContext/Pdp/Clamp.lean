import JoinedContext.Pdp.Temporal

/-!
# What a clamp admits

The query a clamp forwards is read back as the decision point reads any temporal query, and compared
with the caller's window and the granted ones. Its bounds are written to the second.
-/

namespace JoinedContext.Temporal

section Duration

/-- The reading a duration is computed from, once its text is read to the end. -/
def ended (value : String) : Option Reading := do
  let (sign, rest) := match Text.stripPrefix "-" value with
    | some rest => (-1, rest)
    | none => (1, value)
  let rest ← Text.stripPrefix "P" rest
  let (date, time) := (Text.splitOnce 'T' rest).getD (rest, "")
  let r ← date.toList.foldlM (readChar true) ⟨sign, 0, []⟩
  time.toList.foldlM (readChar false) r

/-- What a `chrono::Duration` and its product with the sign can hold. -/
structure Reading.InBounds (r : Reading) : Prop where
  sign : r.sign = 1 ∨ r.sign = -1
  total_nonneg : 0 ≤ r.total
  total_le : r.total ≤ maxSeconds

namespace Reading.InBounds

theorem start {sign : Int} (h : sign = 1 ∨ sign = -1) : (⟨sign, 0, []⟩ : Reading).InBounds :=
  ⟨h, le_refl 0, (by decide : 0 ≤ maxSeconds)⟩

theorem product {r : Reading} (h : r.InBounds) :
    -maxSeconds ≤ r.total * r.sign ∧ r.total * r.sign ≤ maxSeconds := by
  have hnonneg := h.total_nonneg
  have hle := h.total_le
  rcases h.sign with hsign | hsign <;> rw [hsign] <;> constructor <;> omega

theorem readChar {date : Bool} {r r' : Reading} {c : Char} (h : r.InBounds)
    (hread : readChar date r c = some r') : r'.InBounds := by
  unfold Temporal.readChar at hread
  split_ifs at hread with hsign hdigit
  · obtain rfl := Option.some.inj hread
    refine ⟨?_, h.total_nonneg, h.total_le⟩
    rcases h.sign with hs | hs
    · exact Or.inr (by simp [hs])
    · exact Or.inl (by simp [hs])
  · obtain rfl := Option.some.inj hread
    exact ⟨h.sign, h.total_nonneg, h.total_le⟩
  · simp only [Option.bind_eq_bind, Option.bind_eq_some_iff] at hread
    obtain ⟨seconds, hunit, count, -, hread⟩ := hread
    have hseconds : 0 ≤ seconds := by
      unfold unitSeconds at hunit
      repeat' split at hunit
      all_goals cases hunit <;> decide
    have hproduct : 0 ≤ (count : Int) * seconds :=
      Int.mul_nonneg (Int.natCast_nonneg count) hseconds
    split_ifs at hread with hmul hadd
    obtain rfl := Option.some.inj hread
    have hnonneg := h.total_nonneg
    exact ⟨h.sign, by dsimp only; omega, by dsimp only; omega⟩

theorem foldlM {date : Bool} : ∀ {l : List Char} {r r' : Reading}, r.InBounds →
    l.foldlM (Temporal.readChar date) r = some r' → r'.InBounds
  | [], _, _, h, hread => by
    obtain rfl := Option.some.inj hread
    exact h
  | c :: l, r, r', h, hread => by
    rw [List.foldlM_cons] at hread
    obtain ⟨s, hs, hread⟩ := Option.bind_eq_some_iff.1 hread
    exact foldlM (h.readChar hs) hread

end Reading.InBounds

theorem duration_eq (value : String) : duration value = (ended value).bind fun r =>
    if r.digits = [] ∧ r.total ≠ 0 then some (r.total * r.sign) else none := by
  unfold duration ended
  cases Text.stripPrefix "-" value <;> simp only [Option.bind_eq_bind, Option.bind_assoc]

/-- Whatever the text, no step of reading a duration leaves the range of a `chrono::Duration`. -/
theorem ended_inBounds {value : String} {r : Reading} (h : ended value = some r) : r.InBounds := by
  unfold ended at h
  simp only [Option.bind_eq_bind, Option.bind_eq_some_iff] at h
  obtain ⟨rest, -, s, hdate, htime⟩ := h
  refine Reading.InBounds.foldlM (Reading.InBounds.foldlM (Reading.InBounds.start ?_) hdate) htime
  cases Text.stripPrefix "-" value with
  | none => exact Or.inl rfl
  | some rest => exact Or.inr rfl

theorem duration_inBounds {value : String} {offset : Int} (h : duration value = some offset) :
    -maxSeconds ≤ offset ∧ offset ≤ maxSeconds := by
  rw [duration_eq] at h
  obtain ⟨r, hr, h⟩ := Option.bind_eq_some_iff.1 h
  split_ifs at h
  obtain rfl := Option.some.inj h
  exact (ended_inBounds hr).product

theorem duration_eq_none {value : String} (h : 'P' ∉ value.toList) : duration value = none := by
  have hnone : ∀ {rest : String}, 'P' ∉ rest.toList → Text.stripPrefix "P" rest = none := by
    intro rest hrest
    refine Option.eq_none_iff_forall_not_mem.2 fun r hr => hrest ?_
    rw [Text.stripPrefix_eq_some.1 hr]
    simp
  unfold duration
  cases hminus : Text.stripPrefix "-" value with
  | none => simp [hnone h]
  | some rest =>
    have hrest : 'P' ∉ rest.toList := fun hmem => by
      rw [Text.stripPrefix_eq_some.1 hminus] at h
      simp [hmem] at h
    simp [hnone hrest]

end Duration

/-- The years `0000` to `9999`, which RFC 3339 writes in four digits. -/
def fourDigits (t : Instant) : Bool :=
  -62167219200 * nanosPerSecond ≤ t && t < 253402300800 * nanosPerSecond

/-- What `chrono` documents of its RFC 3339 texts to the second: the characters one is made of, the
instant it is read back as, and that a year of any other length is written with its sign, which no
RFC 3339 reader takes. -/
structure Rfc3339 (crates : Crates) : Prop where
  plain : ∀ t, ∀ c ∈ (crates.toRfc3339 t).toList, c.isDigit = true ∨ c ∈ ['+', '-', ':', 'T', 'Z']
  reads : ∀ t, fourDigits t = true →
    crates.parseFromRfc3339 (crates.toRfc3339 t) = some (floorSecond t)
  refuses : ∀ t, fourDigits t = false → crates.parseFromRfc3339 (crates.toRfc3339 t) = none

section Stamped

def stampedMembers (crates : Crates) (relation : String) (stamps : List (String × Instant)) :
    List (String × String) :=
  ("timerel", relation) :: stamps.map fun s => (s.1, crates.toRfc3339 s.2)

def stamped (crates : Crates) (relation : String) (stamps : List (String × Instant)) : String :=
  Text.join ";" ((stampedMembers crates relation stamps).map fun m => m.1 ++ "=" ++ m.2)

variable {crates : Crates} (laws : Rfc3339 crates)
include laws

theorem instant_toRfc3339 (t now : Instant) : instant crates (crates.toRfc3339 t) now =
    if fourDigits t then some (floorSecond t) else none := by
  unfold instant
  cases hfour : fourDigits t with
  | true => simp [laws.reads t hfour]
  | false =>
    have hduration : duration (crates.toRfc3339 t) = none := duration_eq_none fun hmem => by
      have hplain := laws.plain t 'P' hmem
      revert hplain
      decide
    simp [laws.refuses t hfour, hduration]

theorem whitespace_toRfc3339 (t : Instant) : ∀ c ∈ (crates.toRfc3339 t).toList,
    Text.whitespace c = false := by
  intro c hc
  rcases laws.plain t c hc with hdigit | hother
  · simp only [Char.isDigit, Bool.and_eq_true, decide_eq_true_eq] at hdigit
    have hlow : 48 ≤ c.toNat := hdigit.1
    have hhigh : c.toNat ≤ 57 := hdigit.2
    simp only [Text.whitespace, Bool.or_eq_false_iff, Bool.and_eq_false_iff, beq_eq_false_iff_ne,
      decide_eq_false_iff_not]
    omega
  · simp only [List.mem_cons, List.not_mem_nil, or_false] at hother
    rcases hother with rfl | rfl | rfl | rfl | rfl <;> rfl

theorem separator_toRfc3339 (t : Instant) : ∀ c ∈ (crates.toRfc3339 t).toList, c ∉ [';', '&'] := by
  intro c hc hsep
  have hplain := laws.plain t c hc
  simp only [List.mem_cons, List.not_mem_nil, or_false] at hsep
  rcases hsep with rfl | rfl <;> exact absurd hplain (by decide)

/-- The members of a query that compares with some instants are read back by their names. -/
theorem lastMember_stamped {relation : String} (stamps : List (String × Instant))
    (hrelation : relation ∈ ["after", "before", "between"])
    (hstamps : ∀ s ∈ stamps, s.1 ∈ ["timeAt", "endTimeAt"]) (name : String) :
    Text.lastMember [';', '&'] name (stamped crates relation stamps) =
      ((stampedMembers crates relation stamps).reverse.lookup name).map Text.trim := by
  refine Text.lastMember_join (c := ';') List.mem_cons_self (List.cons_ne_nil _ _) ?_ ?_ name
  · intro m hm
    rcases List.mem_cons.1 hm with rfl | hm
    · exact (by decide : '=' ∉ "timerel".toList)
    · obtain ⟨s, hs, rfl⟩ := List.mem_map.1 hm
      have hname : ∀ n ∈ ["timeAt", "endTimeAt"], '=' ∉ n.toList := by decide
      exact hname _ (hstamps s hs)
  · intro m hm c hc
    simp only [String.toList_append, List.mem_append] at hc
    rcases List.mem_cons.1 hm with rfl | hm
    · have hnames : ∀ n ∈ ["after", "before", "between"],
          ("timerel".toList ++ "=".toList ++ n.toList).all (fun c => c ∉ [';', '&']) = true := by
        decide
      simpa using List.all_eq_true.1 (hnames _ hrelation) c
        (by simpa only [List.mem_append] using hc)
    · obtain ⟨s, hs, rfl⟩ := List.mem_map.1 hm
      have hnames : ∀ n ∈ ["timeAt", "endTimeAt"],
          (n.toList ++ "=".toList).all (fun c => c ∉ [';', '&']) = true := by decide
      rcases hc with hc | hc
      · simpa using List.all_eq_true.1 (hnames _ (hstamps s hs)) c
          (by simpa only [List.mem_append] using hc)
      · exact separator_toRfc3339 laws _ c hc

theorem trim_toRfc3339 (t : Instant) : Text.trim (crates.toRfc3339 t) = crates.toRfc3339 t :=
  Text.trim_eq_self (whitespace_toRfc3339 laws t)

end Stamped

/-- Whether the bounds of a window are written in texts RFC 3339 reads. -/
def Window.readable (w : Window) : Bool := w.fromAt.all fourDigits && w.toAt.all fourDigits

/-- What a window is read back as from the query it was written to. -/
theorem asked_toTemporalQ {crates : Crates} (laws : Rfc3339 crates) (w : Window) (now : Instant) :
    asked crates (w.toTemporalQ crates) now = if w.readable then w.floorSeconds else {} := by
  have htrim : ∀ t, some (Text.trim (crates.toRfc3339 t)) = some (crates.toRfc3339 t) := fun t =>
    congrArg some (trim_toRfc3339 laws t)
  rcases w with ⟨_ | a, _ | b⟩
  · rfl
  · have htext : "timerel=before;timeAt=" ++ crates.toRfc3339 b =
        stamped crates "before" [("timeAt", b)] := by
      apply String.toList_injective
      simp [stamped, stampedMembers, Text.join]
    have hread := lastMember_stamped laws [("timeAt", b)] (by simp : "before" ∈ _)
      (by simp)
    rw [← htext] at hread
    have hrelation := hread "timerel"
    have hto := (hread "timeAt").trans (htrim b)
    simp only [asked, Window.toTemporalQ, Option.bind_some, parse, hrelation, hto]
    simp [instant_toRfc3339 laws, Window.readable, Window.floorSeconds]
    cases fourDigits b <;> rfl
  · have htext : "timerel=after;timeAt=" ++ crates.toRfc3339 a =
        stamped crates "after" [("timeAt", a)] := by
      apply String.toList_injective
      simp [stamped, stampedMembers, Text.join]
    have hread := lastMember_stamped laws [("timeAt", a)] (by simp : "after" ∈ _)
      (by simp)
    rw [← htext] at hread
    have hrelation := hread "timerel"
    have hfrom := (hread "timeAt").trans (htrim a)
    simp only [asked, Window.toTemporalQ, Option.bind_some, parse, hrelation, hfrom]
    simp [instant_toRfc3339 laws, Window.readable, Window.floorSeconds]
    cases fourDigits a <;> rfl
  · have htext : "timerel=between;timeAt=" ++ crates.toRfc3339 a ++ ";endTimeAt=" ++
        crates.toRfc3339 b = stamped crates "between" [("timeAt", a), ("endTimeAt", b)] := by
      apply String.toList_injective
      simp [stamped, stampedMembers, Text.join]
    have hread := lastMember_stamped laws [("timeAt", a), ("endTimeAt", b)]
      (by simp : "between" ∈ _) (by simp)
    rw [← htext] at hread
    have hrelation : _ = some "between" := hread "timerel"
    have hfrom := (hread "timeAt").trans (htrim a)
    have hto := (hread "endTimeAt").trans (htrim b)
    simp only [asked, Window.toTemporalQ, Option.bind_some, parse, hrelation, hfrom, hto]
    simp [instant_toRfc3339 laws, Window.readable, Window.floorSeconds]
    cases fourDigits a <;> cases fourDigits b <;> rfl

section Exact

variable (crates : Crates) (caller : Option String) (grants : List String) (now : Instant)

/-- A granted window within the caller's, when it admits anything. -/
def Reached (w : Window) : Prop :=
  (∃ g ∈ grants, ∃ granted, parse crates g now = some granted ∧
    granted.intersect (asked crates caller now) = w) ∧ w.isEmpty = false

/-- Whether the grants admit the instant: none of them narrows time, or one of their windows holds
it. -/
def Granted (i : Instant) : Prop :=
  grants = [] ∨ ∃ g ∈ grants, ∃ w, parse crates g now = some w ∧ w.admits i = true

/-- Whether the query the clamp forwards admits the instant, with the windows it filters by. -/
def Answered (i : Instant) : Prop :=
  (clamp crates caller grants now).empty = false ∧
    (asked crates (clamp crates caller grants now).temporalQ now).admits i = true ∧
    ((clamp crates caller grants now).windows = [] ∨
      ∃ w ∈ (clamp crates caller grants now).windows, w.admits i = true)

structure ClampExact : Prop where
  admits : ∀ i, Answered crates caller grants now i ↔
    (asked crates caller now).admits i = true ∧ Granted crates grants now i
  answersNone : (∀ i, ¬Answered crates caller grants now i) ↔
    ∀ i, ¬((asked crates caller now).admits i = true ∧ Granted crates grants now i)

def Earliest (a : Instant) : Prop :=
  (∃ w, Reached crates caller grants now w ∧ w.fromAt = some a) ∧
    ∀ w, Reached crates caller grants now w → ∃ b, w.fromAt = some b ∧ a ≤ b

def Latest (b : Instant) : Prop :=
  (∃ w, Reached crates caller grants now w ∧ w.toAt = some b) ∧
    ∀ w, Reached crates caller grants now w → ∃ a, w.toAt = some a ∧ a ≤ b

/-- Where the bounds a clamp writes lose nothing: those of the one window reached, and of several
the latest end, unless their bounds are not read back at all. -/
structure Forwardable : Prop where
  one : ∀ w, Reached crates caller grants now w →
    (∀ v, Reached crates caller grants now v → v = w) →
      ∀ t, w.fromAt = some t ∨ w.toAt = some t → fourDigits t = true ∧ floorSecond t = t
  several : ∀ w v, Reached crates caller grants now w → Reached crates caller grants now v → w ≠ v →
    ∀ b, Latest crates caller grants now b → fourDigits b = true →
      (∀ a, Earliest crates caller grants now a → fourDigits a = true) → floorSecond b = b

end Exact

theorem floorSecond_le (t : Instant) : floorSecond t ≤ t := Int.ediv_mul_le t (by decide)

/-- The instants granted are those of the windows reached. -/
theorem granted_iff_reached {crates : Crates} {caller : Option String} {grants : List String}
    {now i : Instant} (hne : grants ≠ []) :
    (asked crates caller now).admits i = true ∧ Granted crates grants now i ↔
      ∃ w, Reached crates caller grants now w ∧ w.admits i = true := by
  constructor
  · rintro ⟨hasked, hnil | ⟨g, hg, granted, hparse, hadmits⟩⟩
    · exact absurd hnil hne
    · have hboth : (granted.intersect (asked crates caller now)).admits i = true := by
        rw [Window.admits_intersect, hadmits, hasked]
        rfl
      exact ⟨_, ⟨⟨g, hg, granted, hparse, rfl⟩, Window.not_isEmpty_of_admits hboth⟩, hboth⟩
  · rintro ⟨w, ⟨⟨g, hg, granted, hparse, rfl⟩, -⟩, hadmits⟩
    rw [Window.admits_intersect, Bool.and_eq_true] at hadmits
    exact ⟨hadmits.2, Or.inr ⟨g, hg, granted, hparse, hadmits.1⟩⟩

section Bounds

theorem exists_hullFrom : ∀ {l : List Window}, (∀ w ∈ l, ∃ b, w.fromAt = some b) → l ≠ [] →
    ∃ a, hullFrom l = some a
  | [w], h, _ => h w List.mem_cons_self
  | w :: v :: rest, h, _ => by
    obtain ⟨x, hx⟩ := h w List.mem_cons_self
    obtain ⟨y, hy⟩ := exists_hullFrom (fun u hu => h u (List.mem_cons_of_mem _ hu))
      (List.cons_ne_nil v rest)
    exact ⟨min x y, by simp [hullFrom, hx, hy]⟩

/-- A hull begins where the first of its windows does, if none of them is open. -/
theorem hullFrom_eq_some {a : Instant} : ∀ {l : List Window}, l ≠ [] →
    (hullFrom l = some a ↔ (∃ w ∈ l, w.fromAt = some a) ∧ ∀ w ∈ l, ∃ b, w.fromAt = some b ∧ a ≤ b)
  | [w], _ => by
    simp only [hullFrom, List.mem_singleton, exists_eq_left, forall_eq]
    exact ⟨fun h => ⟨h, a, h, le_refl a⟩, And.left⟩
  | w :: v :: rest, _ => by
    have ih := fun y => hullFrom_eq_some (a := y) (List.cons_ne_nil v rest)
    have hcons : hullFrom (w :: v :: rest) = some a ↔
        ∃ x, w.fromAt = some x ∧ ∃ y, hullFrom (v :: rest) = some y ∧ min x y = a := by
      simp [hullFrom, Option.bind_eq_some_iff]
    rw [hcons, List.exists_mem_cons_iff, List.forall_mem_cons]
    constructor
    · rintro ⟨x, hx, y, hy, rfl⟩
      obtain ⟨⟨u, hu, huy⟩, hall⟩ := (ih y).1 hy
      refine ⟨?_, ⟨x, hx, min_le_left x y⟩, fun t ht => ?_⟩
      · rcases min_choice x y with hmin | hmin <;> rw [hmin]
        · exact Or.inl hx
        · exact Or.inr ⟨u, hu, huy⟩
      · obtain ⟨b, hb, hyb⟩ := hall t ht
        exact ⟨b, hb, (min_le_right x y).trans hyb⟩
    · rintro ⟨hattained, ⟨x, hx, hax⟩, hall⟩
      obtain ⟨y, hy⟩ := exists_hullFrom (fun u hu => (hall u hu).imp fun _ => And.left)
        (List.cons_ne_nil v rest)
      obtain ⟨⟨u, hu, huy⟩, hleast⟩ := (ih y).1 hy
      obtain ⟨b, hb, hab⟩ := hall u hu
      rw [huy, Option.some.injEq] at hb
      refine ⟨x, hx, y, hy, le_antisymm ?_ (le_min hax (hb ▸ hab))⟩
      rcases hattained with hw | ⟨t, ht, hta⟩
      · rw [hx, Option.some.injEq] at hw
        exact hw ▸ min_le_left x y
      · obtain ⟨b', hb', hyb'⟩ := hleast t ht
        rw [hta, Option.some.injEq] at hb'
        exact hb' ▸ (min_le_right x y).trans hyb'

theorem exists_toBound : ∀ {l : List Window}, (∀ w ∈ l, ∃ b, w.toAt = some b) → l ≠ [] →
    ∃ a, toBound l = some a
  | [w], h, _ => h w List.mem_cons_self
  | w :: v :: rest, h, _ => by
    obtain ⟨x, hx⟩ := h w List.mem_cons_self
    obtain ⟨y, hy⟩ := exists_toBound (fun u hu => h u (List.mem_cons_of_mem _ hu))
      (List.cons_ne_nil v rest)
    exact ⟨max x y, by simp [toBound, hx, hy]⟩

/-- A hull ends where the last of its windows does, if none of them is open. -/
theorem toBound_eq_some {b : Instant} : ∀ {l : List Window}, l ≠ [] →
    (toBound l = some b ↔ (∃ w ∈ l, w.toAt = some b) ∧ ∀ w ∈ l, ∃ a, w.toAt = some a ∧ a ≤ b)
  | [w], _ => by
    simp only [toBound, List.mem_singleton, exists_eq_left, forall_eq]
    exact ⟨fun h => ⟨h, b, h, le_refl b⟩, And.left⟩
  | w :: v :: rest, _ => by
    have ih := fun y => toBound_eq_some (b := y) (List.cons_ne_nil v rest)
    have hcons : toBound (w :: v :: rest) = some b ↔
        ∃ x, w.toAt = some x ∧ ∃ y, toBound (v :: rest) = some y ∧ max x y = b := by
      simp [toBound, Option.bind_eq_some_iff]
    rw [hcons, List.exists_mem_cons_iff, List.forall_mem_cons]
    constructor
    · rintro ⟨x, hx, y, hy, rfl⟩
      obtain ⟨⟨u, hu, huy⟩, hall⟩ := (ih y).1 hy
      refine ⟨?_, ⟨x, hx, le_max_left x y⟩, fun t ht => ?_⟩
      · rcases max_choice x y with hmax | hmax <;> rw [hmax]
        · exact Or.inl hx
        · exact Or.inr ⟨u, hu, huy⟩
      · obtain ⟨a, ha, hay⟩ := hall t ht
        exact ⟨a, ha, hay.trans (le_max_right x y)⟩
    · rintro ⟨hattained, ⟨x, hx, hxb⟩, hall⟩
      obtain ⟨y, hy⟩ := exists_toBound (fun u hu => (hall u hu).imp fun _ => And.left)
        (List.cons_ne_nil v rest)
      obtain ⟨⟨u, hu, huy⟩, hlast⟩ := (ih y).1 hy
      obtain ⟨a, ha, hab⟩ := hall u hu
      rw [huy, Option.some.injEq] at ha
      refine ⟨x, hx, y, hy, le_antisymm (max_le hxb (ha ▸ hab)) ?_⟩
      rcases hattained with hw | ⟨t, ht, hta⟩
      · rw [hx, Option.some.injEq] at hw
        exact hw ▸ le_max_left x y
      · obtain ⟨a', ha', hay'⟩ := hlast t ht
        rw [hta, Option.some.injEq] at ha'
        exact ha' ▸ hay'.trans (le_max_right x y)

end Bounds

section Cut

variable {w : Window}

theorem admits_iff {i : Instant} : w.admits i = true ↔
    (∀ a, w.fromAt = some a → a ≤ i) ∧ ∀ b, w.toAt = some b → i < b := by
  rcases w with ⟨_ | a, _ | b⟩ <;> simp [Window.admits]

theorem isEmpty_eq_false_iff :
    w.isEmpty = false ↔ ∀ a b, w.fromAt = some a → w.toAt = some b → a < b := by
  rcases w with ⟨_ | a, _ | b⟩ <;> simp [Window.isEmpty]

theorem floorSeconds_admits_iff {i : Instant} : w.floorSeconds.admits i = true ↔
    (∀ a, w.fromAt = some a → floorSecond a ≤ i) ∧ ∀ b, w.toAt = some b → i < floorSecond b := by
  rcases w with ⟨_ | a, _ | b⟩ <;> simp [Window.admits, Window.floorSeconds]

theorem exists_admits (h : w.isEmpty = false) : ∃ i, w.admits i = true := by
  rcases w with ⟨_ | a, _ | b⟩
  · exact ⟨0, rfl⟩
  · exact ⟨b - 1, by simp [Window.admits]⟩
  · exact ⟨a, by simp [Window.admits]⟩
  · have hlt : a < b := isEmpty_eq_false_iff.1 h a b rfl rfl
    exact ⟨a, by simp [Window.admits, hlt]⟩

theorem not_admits_all {t : Instant} (ht : w.fromAt = some t ∨ w.toAt = some t) :
    ∃ i, w.admits i = false := by
  rcases ht with ht | ht
  · exact ⟨t - 1, by simp [Window.admits, ht]⟩
  · exact ⟨t, by simp [Window.admits, ht]⟩

/-- Cutting the bounds of a window to the second changes what it admits, unless they are whole. -/
theorem floorSeconds_exact_iff (hne : w.isEmpty = false) :
    (∀ i, w.floorSeconds.admits i = true ↔ w.admits i = true) ↔
      ∀ t, w.fromAt = some t ∨ w.toAt = some t → floorSecond t = t := by
  rw [isEmpty_eq_false_iff] at hne
  constructor
  · rintro h t (hfrom | hto)
    · have hadmits : w.admits t = true := admits_iff.2
        ⟨fun a ha => by rw [hfrom] at ha; cases ha; rfl, fun b hb => hne t b hfrom hb⟩
      have hcut := (floorSeconds_admits_iff.1 ((h t).2 hadmits)).2
      have hbelow : w.floorSeconds.admits (floorSecond t) = true := floorSeconds_admits_iff.2
        ⟨fun a ha => by rw [hfrom] at ha; cases ha; rfl,
          fun b hb => (floorSecond_le t).trans_lt (hcut b hb)⟩
      exact le_antisymm (floorSecond_le t) ((admits_iff.1 ((h _).1 hbelow)).1 t hfrom)
    · have hadmits : w.admits (t - 1) = true := admits_iff.2
        ⟨fun a ha => Int.le_sub_one_of_lt (hne a t ha hto), fun b hb => by
          rw [hto] at hb
          cases hb
          exact Int.sub_one_lt_of_le (le_refl t)⟩
      have hcut := (floorSeconds_admits_iff.1 ((h _).2 hadmits)).2 t hto
      exact le_antisymm (floorSecond_le t) (Int.le_of_sub_one_lt hcut)
  · intro h i
    rw [floorSeconds_admits_iff, admits_iff]
    refine and_congr ?_ ?_
    · exact forall₂_congr fun a ha => by rw [h a (Or.inl ha)]
    · exact forall₂_congr fun b hb => by rw [h b (Or.inr hb)]

end Cut

section Hulls

variable {l : List Window}

/-- The hull of several windows, cut to the second, holds what they hold up to its end. -/
theorem hull_admits (hne : l ≠ []) {w : Window} (hw : w ∈ l) {i : Instant} (hi : w.admits i = true)
    (hend : ∀ b, toBound l = some b → i < floorSecond b) :
    (hull l).floorSeconds.admits i = true := by
  refine floorSeconds_admits_iff.2 ⟨fun a ha => ?_, hend⟩
  obtain ⟨-, hall⟩ := (hullFrom_eq_some hne).1 ha
  obtain ⟨b, hb, hab⟩ := hall w hw
  exact (floorSecond_le a).trans (hab.trans ((admits_iff.1 hi).1 b hb))

/-- The hull of several windows, cut to the second, holds all they hold exactly when it ends on a
whole second or never. -/
theorem hull_covers_iff (hne : l ≠ []) (hempty : ∀ w ∈ l, w.isEmpty = false) :
    (∀ i, (∃ w ∈ l, w.admits i = true) → (hull l).floorSeconds.admits i = true) ↔
      ∀ b, toBound l = some b → floorSecond b = b := by
  constructor
  · intro h b hb
    obtain ⟨⟨w, hw, hwb⟩, -⟩ := (toBound_eq_some hne).1 hb
    have hadmits : w.admits (b - 1) = true := admits_iff.2
      ⟨fun a ha => Int.le_sub_one_of_lt (isEmpty_eq_false_iff.1 (hempty w hw) a b ha hwb),
        fun c hc => by
          rw [hwb] at hc
          cases hc
          exact Int.sub_one_lt_of_le (le_refl b)⟩
    have hcut := (floorSeconds_admits_iff.1 (h _ ⟨w, hw, hadmits⟩)).2 b hb
    exact le_antisymm (floorSecond_le b) (Int.le_of_sub_one_lt hcut)
  · rintro h i ⟨w, hw, hi⟩
    refine hull_admits hne hw hi fun b hb => ?_
    obtain ⟨-, hall⟩ := (toBound_eq_some hne).1 hb
    obtain ⟨a, ha, hab⟩ := hall w hw
    rw [h b hb]
    exact ((admits_iff.1 hi).2 a ha).trans_le hab

end Hulls

theorem readable_iff {w : Window} : w.readable = true ↔
    (∀ a, w.fromAt = some a → fourDigits a = true) ∧
      ∀ b, w.toAt = some b → fourDigits b = true := by
  rcases w with ⟨_ | a, _ | b⟩ <;> simp [Window.readable]

section Forwarded

variable {crates : Crates} (laws : Rfc3339 crates)
include laws

/-- One window is forwarded exactly when its bounds are whole seconds of years RFC 3339 writes. -/
theorem forwarded_one_iff {w : Window} (hne : w.isEmpty = false) (now : Instant) :
    (∀ i, (asked crates (w.toTemporalQ crates) now).admits i = true ↔ w.admits i = true) ↔
      ∀ t, w.fromAt = some t ∨ w.toAt = some t → fourDigits t = true ∧ floorSecond t = t := by
  rw [asked_toTemporalQ laws]
  by_cases hread : w.readable = true
  · rw [if_pos hread, floorSeconds_exact_iff hne]
    obtain ⟨hfrom, hto⟩ := readable_iff.1 hread
    exact forall₂_congr fun t ht => (and_iff_right (ht.elim (hfrom t) (hto t))).symm
  · rw [if_neg hread]
    constructor
    · intro h t ht
      obtain ⟨i, hi⟩ := not_admits_all ht
      rw [(h i).1 rfl] at hi
      cases hi
    · intro h
      exact absurd (readable_iff.2
        ⟨fun a ha => (h a (Or.inl ha)).1, fun b hb => (h b (Or.inr hb)).1⟩) hread

/-- Several windows are forwarded with nothing lost when the last of them ends on a whole second or
their hull is not read back. -/
theorem forwarded_several_iff {l : List Window} (hne : l ≠ []) (hempty : ∀ w ∈ l, w.isEmpty = false)
    (now : Instant) :
    (∀ i, (∃ w ∈ l, w.admits i = true) →
        (asked crates ((hull l).toTemporalQ crates) now).admits i = true) ↔
      ∀ b, toBound l = some b → fourDigits b = true →
        (∀ a, hullFrom l = some a → fourDigits a = true) → floorSecond b = b := by
  rw [asked_toTemporalQ laws]
  by_cases hread : (hull l).readable = true
  · rw [if_pos hread, hull_covers_iff hne hempty]
    obtain ⟨hfrom, hto⟩ := readable_iff.1 hread
    exact forall₂_congr fun b hb => ⟨fun h _ _ => h, fun h => h (hto b hb) hfrom⟩
  · rw [if_neg hread]
    refine iff_of_true (fun _ _ => rfl) fun b hb hfour hfrom =>
      absurd (readable_iff.2 ⟨hfrom, fun c hc => ?_⟩) hread
    obtain rfl : b = c := Option.some.inj (hb.symm.trans hc)
    exact hfour

end Forwarded

section Exact

variable {crates : Crates} {caller : Option String} {grants : List String} {now : Instant}

theorem mem_grantedWindows_iff {w : Window} :
    w ∈ grantedWindows crates caller grants now ↔ Reached crates caller grants now w :=
  mem_grantedWindows

theorem granted_iff {i : Instant} (hne : grants ≠ []) :
    (asked crates caller now).admits i = true ∧ Granted crates grants now i ↔
      ∃ w ∈ grantedWindows crates caller grants now, w.admits i = true := by
  rw [granted_iff_reached hne]
  exact exists_congr fun w => and_congr_left' mem_grantedWindows_iff.symm

theorem clamp_of_windows (hne : grants ≠ [])
    (hwindows : grantedWindows crates caller grants now ≠ []) :
    clamp crates caller grants now =
      { temporalQ := (hull (grantedWindows crates caller grants now)).toTemporalQ crates
        windows := if 1 < (grantedWindows crates caller grants now).length then
          grantedWindows crates caller grants now else []
        restricted :=
          decide (hull (grantedWindows crates caller grants now) ≠ asked crates caller now) } := by
  rw [clamp, if_neg hne, if_neg hwindows]

theorem answered_iff_of_windows (hne : grants ≠ [])
    (hwindows : grantedWindows crates caller grants now ≠ []) {i : Instant} :
    Answered crates caller grants now i ↔
      (asked crates ((hull (grantedWindows crates caller grants now)).toTemporalQ crates)
          now).admits i = true ∧
        (1 < (grantedWindows crates caller grants now).length →
          ∃ w ∈ grantedWindows crates caller grants now, w.admits i = true) := by
  rw [Answered, clamp_of_windows hne hwindows]
  dsimp only
  split_ifs with hlen
  · simp [hlen, hwindows]
  · simp [hlen]

theorem earliest_iff (hwindows : grantedWindows crates caller grants now ≠ []) {a : Instant} :
    hullFrom (grantedWindows crates caller grants now) = some a ↔
      Earliest crates caller grants now a := by
  rw [hullFrom_eq_some hwindows]
  simp only [mem_grantedWindows_iff, Earliest]

theorem latest_iff (hwindows : grantedWindows crates caller grants now ≠ []) {b : Instant} :
    toBound (grantedWindows crates caller grants now) = some b ↔
      Latest crates caller grants now b := by
  rw [toBound_eq_some hwindows]
  simp only [mem_grantedWindows_iff, Latest]

/-- The clamp answers empty when the grants reach no instant of the caller's window. -/
theorem empty_iff : (clamp crates caller grants now).empty = true ↔ grants ≠ [] ∧
    ∀ i, ¬((asked crates caller now).admits i = true ∧ Granted crates grants now i) := by
  by_cases hne : grants = []
  · rw [clamp, if_pos hne]
    simp [hne]
  rw [and_iff_right hne]
  simp only [granted_iff hne]
  by_cases hwindows : grantedWindows crates caller grants now = []
  · rw [clamp, if_neg hne, if_pos hwindows]
    simp [hwindows]
  · rw [clamp_of_windows hne hwindows]
    refine iff_of_false (by simp) fun hnone => ?_
    obtain ⟨w, hw⟩ := List.exists_mem_of_ne_nil _ hwindows
    obtain ⟨i, hi⟩ := exists_admits (mem_grantedWindows_iff.1 hw).2
    exact hnone i ⟨w, hw, hi⟩

variable (crates caller grants now) in
/-- Of the windows a clamp works with, either there is one or two of them differ. -/
theorem one_or_several : grantedWindows crates caller grants now = [] ∨
    (∃ w, grantedWindows crates caller grants now = [w]) ∨
    1 < (grantedWindows crates caller grants now).length ∧
      ∃ w ∈ grantedWindows crates caller grants now,
        ∃ v ∈ grantedWindows crates caller grants now, w ≠ v := by
  have hnodup := nodup_grantedWindows crates caller grants now
  revert hnodup
  rcases grantedWindows crates caller grants now with _ | ⟨w, _ | ⟨v, rest⟩⟩ <;> intro hnodup
  · exact Or.inl rfl
  · exact Or.inr (Or.inl ⟨w, rfl⟩)
  · refine Or.inr (Or.inr ⟨by simp, w, by simp, v, by simp, fun heq => ?_⟩)
    exact (List.nodup_cons.1 hnodup).1 (heq ▸ List.mem_cons_self)

theorem forwardable_iff_one {w : Window} (hone : grantedWindows crates caller grants now = [w]) :
    Forwardable crates caller grants now ↔
      ∀ t, w.fromAt = some t ∨ w.toAt = some t → fourDigits t = true ∧ floorSecond t = t := by
  have hreached : ∀ v, Reached crates caller grants now v ↔ v = w := fun v => by
    rw [← mem_grantedWindows_iff, hone, List.mem_singleton]
  constructor
  · intro h
    exact h.one w ((hreached w).2 rfl) fun v hv => (hreached v).1 hv
  · intro h
    refine ⟨fun u hu _ => (hreached u).1 hu ▸ h, fun u v hu hv hdiff => ?_⟩
    exact absurd (((hreached u).1 hu).trans ((hreached v).1 hv).symm) hdiff

theorem forwardable_iff_several {w v : Window} (hw : w ∈ grantedWindows crates caller grants now)
    (hv : v ∈ grantedWindows crates caller grants now) (hdiff : w ≠ v) :
    Forwardable crates caller grants now ↔
      ∀ b, toBound (grantedWindows crates caller grants now) = some b → fourDigits b = true →
        (∀ a, hullFrom (grantedWindows crates caller grants now) = some a → fourDigits a = true) →
        floorSecond b = b := by
  have hwindows := List.ne_nil_of_mem hw
  simp only [earliest_iff hwindows, latest_iff hwindows]
  constructor
  · intro h
    exact h.several w v (mem_grantedWindows_iff.1 hw) (mem_grantedWindows_iff.1 hv) hdiff
  · intro h
    refine ⟨fun u _ hall => absurd ?_ hdiff, fun _ _ _ _ _ => h⟩
    exact (hall w (mem_grantedWindows_iff.1 hw)).trans (hall v (mem_grantedWindows_iff.1 hv)).symm

theorem clampExact_iff_admits : ClampExact crates caller grants now ↔
    ∀ i, Answered crates caller grants now i ↔
      (asked crates caller now).admits i = true ∧ Granted crates grants now i :=
  ⟨ClampExact.admits, fun h => ⟨h, forall_congr' fun i => not_congr (h i)⟩⟩

theorem exact_iff (laws : Rfc3339 crates) :
    ClampExact crates caller grants now ↔ Forwardable crates caller grants now := by
  rw [clampExact_iff_admits]
  by_cases hne : grants = []
  · have hnone : ∀ w, ¬Reached crates caller grants now w := fun w h => by
      obtain ⟨⟨g, hg, -⟩, -⟩ := h
      simp [hne] at hg
    refine iff_of_true (fun i => ?_)
      ⟨fun w hw => absurd hw (hnone w), fun w _ hw => absurd hw (hnone w)⟩
    rw [Answered, clamp, if_pos hne]
    simp [Granted, hne]
  simp only [granted_iff hne]
  rcases one_or_several crates caller grants now with
    hnil | ⟨w, hone⟩ | ⟨hlen, w, hw, v, hv, hdiff⟩
  · have hnone : ∀ w, ¬Reached crates caller grants now w := fun w h => by
      rw [← mem_grantedWindows_iff, hnil] at h
      cases h
    refine iff_of_true (fun i => ?_)
      ⟨fun w hw => absurd hw (hnone w), fun w _ hw => absurd hw (hnone w)⟩
    rw [Answered, clamp, if_neg hne, if_pos hnil, hnil]
    simp
  · have hwindows : grantedWindows crates caller grants now ≠ [] := by simp [hone]
    have hempty : w.isEmpty = false :=
      (mem_grantedWindows_iff (w := w).1 (hone ▸ List.mem_singleton_self w)).2
    rw [forwardable_iff_one hone, ← forwarded_one_iff laws hempty now]
    simp only [answered_iff_of_windows hne hwindows, hone]
    refine forall_congr' fun i => ?_
    simp [hull, hullFrom, toBound]
  · have hwindows := List.ne_nil_of_mem hw
    rw [forwardable_iff_several hw hv hdiff, ← forwarded_several_iff laws hwindows
      (fun u hu => (mem_grantedWindows_iff.1 hu).2) now]
    refine forall_congr' fun i => ?_
    rw [answered_iff_of_windows hne hwindows, imp_iff_right hlen]
    exact and_iff_right_iff_imp

end Exact

/-- The clamp admits exactly what the caller asks for and a grant covers, when the bounds it
forwards lose nothing; it answers empty when there is no such instant; and reading a duration stays
in range. -/
theorem clamp_exact_iff (crates : Crates) (laws : Rfc3339 crates) (caller : Option String)
    (grants : List String) (now : Instant) :
    (ClampExact crates caller grants now ↔ Forwardable crates caller grants now) ∧
      ((clamp crates caller grants now).empty = true ↔ grants ≠ [] ∧
        ∀ i, ¬((asked crates caller now).admits i = true ∧ Granted crates grants now i)) ∧
      ∀ value : String, (∀ r, ended value = some r → r.InBounds) ∧
        ∀ offset, duration value = some offset → -maxSeconds ≤ offset ∧ offset ≤ maxSeconds :=
  ⟨exact_iff laws, empty_iff, fun _ => ⟨fun _ => ended_inBounds, fun _ => duration_inBounds⟩⟩

section Epoch

def epoch : String := "1970-01-01T00:00:00Z"

def halfPast : String := "1970-01-01T00:00:00.500Z"

/-- A second as its strokes from the year 0000 on; the epoch and the half second after it as
RFC 3339 writes them. -/
def epochCrates : Crates :=
  { bareCrates with
    toRfc3339 := fun t =>
      if fourDigits t then
        if floorSecond t = 0 then epoch
        else String.ofList (List.replicate (t / nanosPerSecond + 62167219201).toNat '+')
      else "-"
    parseFromRfc3339 := fun s =>
      if s = epoch then some 0
      else if s = halfPast then some 500000000
      else if Text.startsWith '+' s then
        some (((s.toList.length : Int) - 62167219201) * nanosPerSecond)
      else none }

theorem strokes_ne {n : Nat} {s : String} (h : s.toList.head? ≠ some '+') :
    String.ofList (List.replicate (n + 1) '+') ≠ s := fun heq => h (by
  rw [← heq, String.toList_ofList, List.replicate_succ, List.head?_cons])

theorem epochCrates_rfc3339 : Rfc3339 epochCrates where
  plain t c hc := by
    simp only [epochCrates] at hc
    split_ifs at hc
    · have hall :
          epoch.toList.all (fun c => c.isDigit || c ∈ ['+', '-', ':', 'T', 'Z']) = true := by decide
      simpa using List.all_eq_true.1 hall c hc
    · rw [String.toList_ofList, List.mem_replicate] at hc
      simp [hc.2]
    · have hdash : c = '-' := by simpa using hc
      simp [hdash]
  reads t ht := by
    simp only [epochCrates, ht, if_true]
    by_cases hzero : floorSecond t = 0
    · simp [hzero]
    obtain ⟨seconds, hseconds⟩ : ∃ seconds : Int, seconds = t / nanosPerSecond := ⟨_, rfl⟩
    have hyear : (-62167219200 : Int) ≤ seconds := hseconds ▸ Int.le_ediv_of_mul_le (by decide)
      (of_decide_eq_true (Bool.and_eq_true_iff.1 ht).1)
    rw [floorSecond, ← hseconds] at hzero ⊢
    obtain ⟨n, hn⟩ : ∃ n, (seconds + 62167219201).toNat = n + 1 :=
      Nat.exists_eq_succ_of_ne_zero (by omega)
    have hcount : ((n + 1 : Nat) : Int) = seconds + 62167219201 := by omega
    have hstarts : Text.startsWith '+' (String.ofList (List.replicate (n + 1) '+')) = true := by
      simp [Text.startsWith, List.replicate_succ]
    rw [if_neg hzero, hn, if_neg (strokes_ne (by decide)), if_neg (strokes_ne (by decide)),
      if_pos hstarts, String.toList_ofList, List.length_replicate, hcount, Int.add_sub_cancel]
  refuses t ht := by
    simp only [epochCrates, ht, Bool.false_eq_true, if_false]
    decide

/-- A grant from the epoch on is forwarded as it stands. -/
theorem clamp_exact_epoch :
    ClampExact epochCrates none ["timerel=after;timeAt=1970-01-01T00:00:00Z"] 0 := by
  refine (clamp_exact_iff epochCrates epochCrates_rfc3339 none _ 0).1.2
    ((forwardable_iff_one (w := ⟨some 0, none⟩) (by decide +kernel)).2 fun t ht => ?_)
  rcases ht with ht | ht
  · obtain rfl := Option.some.inj ht
    decide
  · cases ht

/-- A grant from half a second later on is forwarded as one that begins at the epoch. -/
theorem clamp_not_exact_halfPast :
    ¬ClampExact epochCrates none ["timerel=after;timeAt=1970-01-01T00:00:00.500Z"] 0 := by
  intro h
  obtain ⟨-, hnil | ⟨g, hg, w, hparse, hadmits⟩⟩ := (h.admits 0).1
    ⟨by decide +kernel, by decide +kernel, Or.inl (by decide +kernel)⟩
  · cases hnil
  · obtain rfl := List.mem_singleton.1 hg
    have hw : parse epochCrates "timerel=after;timeAt=1970-01-01T00:00:00.500Z" 0 =
        some ⟨some 500000000, none⟩ := by decide +kernel
    obtain rfl := Option.some.inj (hw.symm.trans hparse)
    exact absurd hadmits (by decide)

end Epoch

end JoinedContext.Temporal
