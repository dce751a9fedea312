import JoinedContext.Tabular.Collector
import Mathlib.Data.List.Lex
import Mathlib.Data.List.Sort
import Mathlib.Data.Prod.Lex
import Mathlib.Data.String.Basic

/-!
# The order of the columns

The columns are put in one order before a table is written: by the rank of their attribute, and
within it with each run of digits read as a number. Columns told apart by that order stand in the
same order whatever the rows mentioned first, and every cell stays under its column.
-/

namespace JoinedContext.Tabular

structure Slot where
  name : String
  kind : String
  scalar : Bool
  unit : Bool

/-- The columns a slot has in every download. -/
def Slot.columns (slot : Slot) : List String :=
  if slot.kind = "GeoProperty" then
    [slot.name ++ ".value.type", slot.name ++ ".value.coordinates[0]",
      slot.name ++ ".value.coordinates[1]"]
  else if slot.kind = "Relationship" ∧ slot.scalar then [slot.name ++ ".object"]
  else if slot.kind = "VocabProperty" ∧ slot.scalar then [slot.name ++ ".vocab"]
  else if slot.kind = "Property" ∧ slot.scalar ∧ slot.unit then
    [slot.name ++ ".value", slot.name ++ ".unitCode"]
  else if slot.kind = "Property" ∧ slot.scalar then [slot.name ++ ".value"]
  else []

/-- A run of digits at the start, without leading zeros. -/
def run (chars : List Char) : List Char :=
  (chars.takeWhile Char.isDigit).dropWhile (· == '0')

theorem length_dropWhile_le {α : Type} (p : α → Bool) (l : List α) :
    (l.dropWhile p).length ≤ l.length := (List.dropWhile_sublist p).length_le

/-- Two column names with each run of digits read as a number. -/
def natural : List Char → List Char → Ordering
  | [], [] => .eq
  | [], _ :: _ => .lt
  | _ :: _, [] => .gt
  | x :: a, y :: b =>
    if x.isDigit && y.isDigit then
      let order := (compare (run (x :: a)).length (run (y :: b)).length).then
        (compare (run (x :: a)) (run (y :: b)))
      if order ≠ .eq then order
      else natural (a.dropWhile Char.isDigit) (b.dropWhile Char.isDigit)
    else if x ≠ y then compare x y
    else natural a b
termination_by a _ => a.length
decreasing_by
  · exact Nat.lt_succ_of_le (length_dropWhile_le _ _)
  · exact Nat.lt_succ_self _

abbrev Group := ℕ ×ₗ ℕ

section Settle

variable (slots : List Slot)

def fixed : List String := slots.flatMap Slot.columns

/-- What of a column stands before its first `.` or `[`. -/
def attributeOf (column : String) : String :=
  String.ofList (column.toList.takeWhile fun c => c ≠ '.' && c ≠ '[')

def groupOf (column : String) : Group :=
  if column = "id" then toLex (0, 0)
  else if column = "type" then toLex (1, 0)
  else if slots.any fun slot => slot.name == attributeOf column then
    toLex (2, slots.findIdx fun slot => slot.name == attributeOf column)
  else toLex (3, 0)

def placeOf (column : String) : ℕ :=
  if column ∈ fixed slots then (fixed slots).idxOf column else 2 ^ 64 - 1

def key (column : String) : Group ×ₗ String ×ₗ ℕ :=
  toLex (groupOf slots column, toLex (attributeOf column, placeOf slots column))

/-- The order of two columns. -/
def order (left right : String) : Ordering :=
  (compare (key slots left) (key slots right)).then (natural left.toList right.toList)

/-- The header with the columns every download has. -/
def widened (columns : List String) : List String :=
  (["id", "type"] ++ fixed slots).foldl
    (fun columns column => if column ∈ columns then columns else columns ++ [column]) columns

/-- The positions of the columns in their order (`sort_by`, which is stable). -/
def positions (columns : List String) : List ℕ :=
  (List.range columns.length).mergeSort fun a b =>
    order slots (columns.getD a "") (columns.getD b "") ≠ .gt

def Table.settle (t : Table) : Table :=
  let columns := widened slots t.columns
  let placed := positions slots columns
  { t with
    columns := placed.map fun i => columns.getD i ""
    rows := t.rows.map fun row => placed.map fun i => (resize columns.length row).getD i .null }

end Settle

section Natural

abbrev Token := ℕ ×ₗ ℕ ×ₗ List Char

/-- A name as its characters and runs of digits, which stand in one place among the characters. -/
def tokens : List Char → List Token
  | [] => []
  | x :: a =>
    if x.isDigit then
      toLex (48, toLex ((run (x :: a)).length, run (x :: a))) :: tokens (a.dropWhile Char.isDigit)
    else toLex (x.toNat, toLex (0, [])) :: tokens a
termination_by a => a.length
decreasing_by
  · exact Nat.lt_succ_of_le (length_dropWhile_le _ _)
  · exact Nat.lt_succ_self _

theorem compare_char (x y : Char) : compare x y = compare x.toNat y.toNat := by
  have hlt : x < y ↔ x.toNat < y.toNat := Iff.rfl
  have heq : x = y ↔ x.toNat = y.toNat := ⟨congrArg _, Char.toNat_inj.1⟩
  change compareOfLessAndEq x y = compareOfLessAndEq x.toNat y.toNat
  unfold compareOfLessAndEq
  simp only [hlt, heq]

/-- The digits stand where `0` does among the characters that are none. -/
theorem compare_zero {x y : Char} (hx : x.isDigit = true) (hy : y.isDigit = false) :
    compare 48 y.toNat = compare x.toNat y.toNat ∧
      compare y.toNat 48 = compare y.toNat x.toNat := by
  have hx : 48 ≤ x.toNat ∧ x.toNat ≤ 57 := by simpa [Char.isDigit, UInt32.le_iff_toNat_le] using hx
  have hy : ¬ (48 ≤ y.toNat ∧ y.toNat ≤ 57) := by
    simpa [Char.isDigit, UInt32.le_iff_toNat_le] using hy
  constructor
  · rcases Nat.lt_or_ge y.toNat 48 with h | h
    · rw [Nat.compare_eq_gt.2 h, Nat.compare_eq_gt.2 (by omega)]
    · rw [Nat.compare_eq_lt.2 (by omega), Nat.compare_eq_lt.2 (by omega)]
  · rcases Nat.lt_or_ge y.toNat 48 with h | h
    · rw [Nat.compare_eq_lt.2 h, Nat.compare_eq_lt.2 (by omega)]
    · rw [Nat.compare_eq_gt.2 (by omega), Nat.compare_eq_gt.2 (by omega)]

theorem compare_toLex {α β : Type} [Ord α] [Ord β] (a c : α) (b d : β) :
    compare (toLex (a, b)) (toLex (c, d)) = (compare a c).then (compare b d) := rfl

theorem then_of_ne_eq {o p : Ordering} (h : o ≠ .eq) : o.then p = o := by
  cases o <;> first | rfl | exact absurd rfl h

theorem compare_runs (a b : List Char) :
    compare (toLex (48, toLex (a.length, a)) : Token) (toLex (48, toLex (b.length, b))) =
      (compare a.length b.length).then (compare a b) := by
  rw [compare_toLex, compare_toLex, Nat.compare_eq_eq.2 rfl]
  rfl

/-- Two names compare as their characters and numbers do. -/
theorem natural_eq (a b : List Char) : natural a b = compare (tokens a) (tokens b) := by
  fun_induction natural a b with
  | case1 => simp [tokens]
  | case2 y b => unfold tokens; split_ifs <;> rfl
  | case3 x a => unfold tokens; split_ifs <;> rfl
  | case4 x a y b hdigits order horder =>
    rw [Bool.and_eq_true] at hdigits
    rw [tokens, tokens, if_pos hdigits.1, if_pos hdigits.2, List.compare_cons_cons, compare_runs,
      then_of_ne_eq horder]
  | case5 x a y b hdigits order horder ih =>
    rw [Bool.and_eq_true] at hdigits
    have hsame : (compare (run (x :: a)).length (run (y :: b)).length).then
        (compare (run (x :: a)) (run (y :: b))) = .eq := not_not.1 horder
    rw [tokens, tokens, if_pos hdigits.1, if_pos hdigits.2, List.compare_cons_cons, compare_runs,
      hsame, ih]
    rfl
  | case6 x a y b hdigits hne =>
    have hchars : compare x y ≠ .eq := fun heq => hne (Std.LawfulEqOrd.eq_of_compare heq)
    have hfirst : ∀ (k k' : ℕ) (p q : ℕ ×ₗ List Char) (l m : List Token),
        compare k k' = compare x.toNat y.toNat →
          compare x y = compare (toLex (k, p) :: l) (toLex (k', q) :: m) := by
      intro k k' p q l m hk
      rw [List.compare_cons_cons, compare_toLex, hk, ← compare_char, then_of_ne_eq hchars,
        then_of_ne_eq hchars]
    rw [tokens, tokens]
    cases hx : x.isDigit <;> cases hy : y.isDigit
    · exact hfirst _ _ _ _ _ _ rfl
    · exact hfirst _ _ _ _ _ _ (compare_zero hy hx).2
    · exact hfirst _ _ _ _ _ _ (compare_zero hx hy).1
    · exact absurd (by simp [hx, hy]) hdigits
  | case7 x a y b hdigits hsame ih =>
    obtain rfl : x = y := not_not.1 hsame
    have hx : x.isDigit = false := by simpa using hdigits
    rw [tokens, tokens, hx, if_neg (by simp), if_neg (by simp), List.compare_cons_cons, ih,
      Std.ReflOrd.compare_self]
    rfl

end Natural

section Order

variable {slots : List Slot} {columns columns' : List String} {t : Table} {entities : List Value}

def rank (slots : List Slot) (column : String) : (Group ×ₗ String ×ₗ ℕ) ×ₗ List Token :=
  toLex (key slots column, tokens column.toList)

theorem order_eq (left right : String) :
    order slots left right = compare (rank slots left) (rank slots right) := by
  unfold order rank
  rw [natural_eq, compare_toLex]

theorem order_trans {a b c : String} (hab : order slots a b ≠ .gt) (hbc : order slots b c ≠ .gt) :
    order slots a c ≠ .gt := by
  rw [order_eq] at *
  exact Ordering.isLE_iff_ne_gt.1 (Std.TransOrd.isLE_trans (Ordering.isLE_iff_ne_gt.2 hab)
    (Ordering.isLE_iff_ne_gt.2 hbc))

theorem order_swap (a b : String) : order slots a b = (order slots b a).swap := by
  rw [order_eq, order_eq]
  exact Std.OrientedOrd.eq_swap

theorem order_total (a b : String) : order slots a b ≠ .gt ∨ order slots b a ≠ .gt := by
  rw [order_swap a b]
  cases order slots b a <;> simp

theorem order_antisymm {a b : String} (hab : order slots a b ≠ .gt) (hba : order slots b a ≠ .gt) :
    order slots a b = .eq := by
  rw [order_swap a b] at hab ⊢
  cases h : order slots b a <;> simp_all

theorem widened_eq : ∀ (more columns : List String),
    more.foldl (fun columns column => if column ∈ columns then columns else columns ++ [column])
      columns = columns ++ Search.fresh columns more
  | [], columns => by simp [Search.fresh]
  | column :: more, columns => by
    rw [List.foldl_cons]
    by_cases hmem : column ∈ columns
    · rw [if_pos hmem, Search.fresh_of_mem hmem, widened_eq more]
    · rw [if_neg hmem, Search.fresh_of_notMem hmem, widened_eq more, List.append_assoc,
        List.singleton_append]

theorem nodup_widened (slots : List Slot) (h : columns.Nodup) : (widened slots columns).Nodup := by
  unfold widened
  rw [widened_eq]
  exact Search.nodup_append_fresh h

theorem mem_widened {name : String} :
    name ∈ widened slots columns ↔ name ∈ columns ∨ name ∈ ["id", "type"] ++ fixed slots := by
  unfold widened
  rw [widened_eq, List.mem_append, Search.mem_fresh]
  tauto

theorem positions_perm : (positions slots columns).Perm (List.range columns.length) :=
  List.mergeSort_perm _ _

theorem lt_of_mem_positions {i : ℕ} (h : i ∈ positions slots columns) : i < columns.length :=
  List.mem_range.1 (positions_perm.mem_iff.1 h)

/-- The columns in their order. -/
def ordered (slots : List Slot) (columns : List String) : List String :=
  (positions slots columns).map fun i => columns.getD i ""

theorem ordered_perm : (ordered slots columns).Perm columns := by
  have hall : (List.range columns.length).map (fun i => columns.getD i "") = columns := by
    refine List.ext_getElem (by simp) fun i hi hi' => ?_
    simp [hi']
  exact (positions_perm.map _).trans (List.Perm.of_eq hall)

theorem ordered_sorted : (ordered slots columns).Pairwise fun a b => order slots a b ≠ .gt := by
  unfold ordered positions
  rw [List.pairwise_map]
  refine (List.pairwise_mergeSort ?_ ?_ _).imp of_decide_eq_true
  · intro a b c hab hbc
    exact decide_eq_true (order_trans (of_decide_eq_true hab) (of_decide_eq_true hbc))
  · intro a b
    rw [Bool.or_eq_true]
    exact (order_total _ _).imp decide_eq_true decide_eq_true

/-- The order tells different columns apart: no two of an attribute are one but for zeros that
lead a run of digits. -/
def ToldApart (slots : List Slot) (columns : List String) : Prop :=
  ∀ a ∈ columns, ∀ b ∈ columns, order slots a b = .eq → a = b

theorem ordered_congr (happart : ToldApart slots (ordered slots columns))
    (hperm : columns.Perm columns') : ordered slots columns' = ordered slots columns := by
  have hall : (ordered slots columns').Perm (ordered slots columns) :=
    ordered_perm.trans (hperm.symm.trans ordered_perm.symm)
  refine List.Perm.eq_of_pairwise (fun a b ha hb hab hba => ?_) ordered_sorted ordered_sorted hall
  exact happart a (hall.mem_iff.1 ha) b hb (order_antisymm hab hba)

end Order

section Complete

variable {slots : List Slot} {t : Table} {entities : List Value} {entity : Value} {name : String}

theorem cellOf_of_none (h : ∀ path steps leaf, LeafOf entity path steps leaf →
    render path steps ≠ name) : cellOf entity name = .null := by
  refine cellOf_of_notMem fun hmem => ?_
  obtain ⟨c, hc, rfl⟩ := List.mem_map.1 hmem
  obtain ⟨path, steps, hleaf, heq⟩ := mem_flatten.1 hc
  exact h path steps c.2 hleaf heq.symm

/-- A table of entities: a row each, as wide as the header, where every leaf has its column, a cell
holds the first leaf in the entity of its column's name, and a cell without one is null. -/
structure Table.Complete (t : Table) (entities : List Value) : Prop where
  rows : t.rows = entities.map fun entity => t.columns.map (cellOf entity)
  nodup : t.columns.Nodup
  column : ∀ entity ∈ entities, ∀ path steps leaf, LeafOf entity path steps leaf →
    render path steps ∈ t.columns
  first : ∀ entity ∈ entities, ∀ before name leaf after,
    flatten entity = before ++ (name, leaf) :: after → name ∉ before.map Prod.fst →
      cellOf entity name = leaf
  none : ∀ entity ∈ entities, ∀ name, (∀ path steps leaf, LeafOf entity path steps leaf →
    render path steps ≠ name) → cellOf entity name = .null

theorem Table.Complete.of_rows
    (hrows : t.rows = entities.map fun entity => t.columns.map (cellOf entity))
    (hnodup : t.columns.Nodup)
    (hnames : ∀ entity ∈ entities, ∀ name ∈ names entity, name ∈ t.columns) :
    t.Complete entities where
  rows := hrows
  nodup := hnodup
  column := fun entity hentity path steps leaf hleaf => by
    have hmem : (render path steps, leaf) ∈ flatten entity :=
      mem_flatten.2 ⟨path, steps, hleaf, rfl⟩
    exact hnames entity hentity _ (List.mem_map.2 ⟨_, hmem, rfl⟩)
  first := fun entity _ before _ leaf after hflatten hname => by
    unfold cellOf
    rw [hflatten, Assoc.lookup_append_cons _ hname, Option.getD_some]
  none := fun entity _ _ => cellOf_of_none

theorem Table.Holds.complete (h : t.Holds entities) : t.Complete entities :=
  .of_rows h.rows h.nodup fun entity hentity _ hname => h.mem_columns.2 ⟨entity, hentity, hname⟩

theorem Table.Holds.settle (slots : List Slot) (h : t.Holds entities) : (t.settle slots).columns =
      ordered slots (widened slots t.columns) ∧ (t.settle slots).rows =
        entities.map fun entity => (t.settle slots).columns.map (cellOf entity) := by
  have hnodup := nodup_widened slots h.nodup
  refine ⟨rfl, ?_⟩
  unfold Table.settle
  dsimp only
  rw [h.rows, List.map_map]
  refine List.map_congr_left fun entity hentity => ?_
  have hbegun : Begun 0 (widened slots t.columns) (t.columns.map (cellOf entity)) entity := by
    have htake : (widened slots t.columns).take t.columns.length = t.columns := by
      unfold widened
      rw [widened_eq, List.take_left]
    refine ⟨t.columns.length, Nat.zero_le _, ?_, ?_⟩
    · unfold widened
      rw [widened_eq, List.length_append]
      exact Nat.le_add_right _ _
    · rw [htake]
      exact ⟨rfl, fun name hname => h.mem_columns.2 ⟨entity, hentity, hname⟩⟩
  rw [Function.comp_apply, hbegun.resize hnodup, List.map_map]
  refine List.map_congr_left fun i hi => ?_
  have hlt := lt_of_mem_positions hi
  simp [hlt]

theorem Table.Holds.settle_complete (h : t.Holds entities) :
    (t.settle slots).Complete entities := by
  obtain ⟨hcolumns, hrows⟩ := h.settle slots
  have hmem : ∀ {name}, name ∈ (t.settle slots).columns ↔
      name ∈ t.columns ∨ name ∈ ["id", "type"] ++ fixed slots := by
    intro name
    rw [hcolumns, ordered_perm.mem_iff, mem_widened]
  have hnodup : (t.settle slots).columns.Nodup := by
    rw [hcolumns, ordered_perm.nodup_iff]
    exact nodup_widened slots h.nodup
  exact .of_rows hrows hnodup fun entity hentity name hname =>
    hmem.2 (Or.inl (h.mem_columns.2 ⟨entity, hentity, hname⟩))

/-- The distinct entities of a list: the first of each id, and all without one. -/
structure Distinct (kept l : List Value) : Prop where
  sublist : kept.Sublist l
  ids : kept.filterMap idOf = Search.fresh [] (l.filterMap idOf)
  anonymous :
    (kept.filter fun entity => idOf entity = none) = l.filter fun entity => idOf entity = none

theorem firstSeen_sublist : ∀ (l : List Value) (seen : List String), (firstSeen seen l).Sublist l
  | [], seen => List.Sublist.refl _
  | entity :: l, seen => by
    unfold firstSeen
    split
    · split_ifs
      · exact (firstSeen_sublist l seen).cons _
      · exact (firstSeen_sublist l _).cons_cons _
    · exact (firstSeen_sublist l seen).cons_cons _

theorem ids_firstSeen : ∀ (l : List Value) (seen : List String),
    (firstSeen seen l).filterMap idOf = Search.fresh seen (l.filterMap idOf)
  | [], seen => rfl
  | entity :: l, seen => by
    unfold firstSeen
    cases hid : idOf entity with
    | none => simp [hid, ids_firstSeen l]
    | some id =>
      by_cases hseen : id ∈ seen
      · simp [hid, hseen, ids_firstSeen l, Search.fresh_of_mem hseen]
      · simp [hid, hseen, ids_firstSeen l, Search.fresh_of_notMem hseen]

theorem anonymous_firstSeen : ∀ (l : List Value) (seen : List String),
    ((firstSeen seen l).filter fun entity => idOf entity = none) =
      l.filter fun entity => idOf entity = none
  | [], seen => rfl
  | entity :: l, seen => by
    unfold firstSeen
    cases hid : idOf entity with
    | none => simp [hid, anonymous_firstSeen l]
    | some id =>
      by_cases hseen : id ∈ seen
      · simp [hid, hseen, anonymous_firstSeen l]
      · simp [hid, hseen, anonymous_firstSeen l]

theorem firstSeen_distinct (l : List Value) : Distinct (firstSeen [] l) l :=
  ⟨firstSeen_sublist l [], ids_firstSeen l [], anonymous_firstSeen l []⟩

end Complete

section Download

variable {read : List UInt8 → Option Value}

theorem Table.Holds.unique {t t' : Table} {entities : List Value} (h : t.Holds entities)
    (h' : t'.Holds entities) : t' = t := by
  obtain ⟨columns, rows, ids⟩ := t
  obtain ⟨columns', rows', ids'⟩ := t'
  obtain ⟨hids, hcolumns, hrows⟩ := h
  obtain ⟨hids', hcolumns', hrows'⟩ := h'
  dsimp only at *
  rw [hrows, hrows', hcolumns, hcolumns', hids, hids']

/-- A download that is not refused has one complete row for each distinct entity of its window. Its
table is the same however the entities were cut into pages, and once settled its columns stand in
the order of every other table's of the same columns, where that order tells them apart. -/
theorem Collector.finish_complete {limits : Limits} {window : Window} {maxHeld : UInt64}
    {pages : List (List UInt8)} {c : Collector} (slots : List Slot)
    (h : (Collector.new limits window maxHeld).collect read pages = .ok c) :
    ∃ all entities, entitiesIn read pages = .ok all ∧ Distinct entities (window.part all) ∧
      c.finish.Complete entities ∧ (c.finish.settle slots).Complete entities ∧
      (∀ limits' maxHeld' pages' c',
        (Collector.new limits' window maxHeld').collect read pages' = .ok c' →
          entitiesIn read pages' = .ok all → c'.finish = c.finish) ∧
      ∀ t : Table, t.columns.Nodup → (∀ name, name ∈ t.columns ↔ name ∈ c.finish.columns) →
        ToldApart slots (c.finish.settle slots).columns →
          (t.settle slots).columns = (c.finish.settle slots).columns := by
  obtain ⟨all, hall, hholds⟩ := Collector.finish_holds h
  refine ⟨all, _, hall, firstSeen_distinct _, hholds.complete, hholds.settle_complete, ?_, ?_⟩
  · intro limits' maxHeld' pages' c' hcollect hread
    obtain ⟨all', hall', hholds'⟩ := Collector.finish_holds hcollect
    rw [hread] at hall'
    cases hall'
    exact hholds.unique hholds'
  · intro t hnodup hsame happart
    have hperm : (widened slots c.finish.columns).Perm (widened slots t.columns) := by
      rw [List.perm_ext_iff_of_nodup (nodup_widened slots hholds.nodup)
        (nodup_widened slots hnodup)]
      intro name
      rw [mem_widened, mem_widened, hsame name]
    exact ordered_congr happart hperm

/-- An entity with two leaves whose paths have one name. -/
def sharedName : Value :=
  .obj [("id", .str "urn:ngsi-ld:Thing:1"), ("name", .obj [("type", .str "JsonProperty"),
    ("json", .obj [("a.b", .num 1 0), ("a", .obj [("b", .num 2 0)])])])]

def sharedNamePage : List UInt8 :=
  ("\x7b\"id\":\"urn:ngsi-ld:Thing:1\",\"name\":\x7b\"type\":\"JsonProperty\"," ++
    "\"json\":\x7b\"a.b\":1,\"a\":\x7b\"b\":2\x7d\x7d\x7d\x7d").toUTF8.toList

def readSharedName (bytes : List UInt8) : Option Value :=
  if bytes = sharedNamePage then some sharedName else none

def ofSharedName : Collector := Collector.new ⟨100000, 67108864⟩ ⟨0, 2 ^ 64 - 1⟩ 67108864

theorem collect_sharedName : (ofSharedName.collect readSharedName [sharedNamePage]).map
    Collector.finish = .ok ⟨["id", "name.json.a.b"], [[.str "urn:ngsi-ld:Thing:1", .num 1 0]],
      ["urn:ngsi-ld:Thing:1"]⟩ := by decide +kernel

/-- One of two leaves on one name is in no cell of the table. -/
theorem leaf_lost : entitiesIn readSharedName [sharedNamePage] = .ok [sharedName] ∧
    (ofSharedName.collect readSharedName [sharedNamePage]).map (fun c => c.finish.rows) =
      .ok [[.str "urn:ngsi-ld:Thing:1", .num 1 0]] ∧
    LeafOf sharedName "name" [.member "json", .member "a", .member "b"] (.num 2 0) := by
  have hb : LeafAt (.obj [("b", .num 2 0)]) [.member "b"] (.num 2 0) :=
    .member rfl ⟨List.mem_cons_self, rfl, nofun⟩ (.scalar rfl)
  have ha : LeafAt (.obj [("a.b", .num 1 0), ("a", .obj [("b", .num 2 0)])])
      [.member "a", .member "b"] (.num 2 0) :=
    .member rfl ⟨List.mem_cons_of_mem _ List.mem_cons_self, rfl, nofun⟩ hb
  refine ⟨by decide +kernel, by decide +kernel, ?_⟩
  refine .data (List.mem_cons_of_mem _ List.mem_cons_self) (by decide) rfl (.member rfl ?_ ha)
  exact ⟨List.mem_cons_of_mem _ List.mem_cons_self, rfl, fun _ => by decide⟩

theorem finish_complete_sharedName : ∃ c entities,
    ofSharedName.collect readSharedName [sharedNamePage] = .ok c ∧ c.finish.Complete entities := by
  have hrun := collect_sharedName
  cases hcollect : ofSharedName.collect readSharedName [sharedNamePage] with
  | error e =>
    rw [hcollect] at hrun
    cases hrun
  | ok c =>
    obtain ⟨all, entities, -, -, hcomplete, -⟩ := Collector.finish_complete [] hcollect
    exact ⟨c, entities, rfl, hcomplete⟩

end Download

end JoinedContext.Tabular
