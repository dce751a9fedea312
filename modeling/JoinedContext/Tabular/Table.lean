import JoinedContext.Library.Search
import JoinedContext.Tabular.Flatten

/-!
# The table of a download

A table is built page by page: an entity is a row unless its id has one, and a column new to the
header widens every row. What is built holds one row an entity, with its leaves in the cells of
their columns, however the entities were cut into pages.
-/

namespace JoinedContext.Tabular

structure Table where
  columns : List String
  rows : List (List Value)
  ids : List String
deriving DecidableEq

def Table.empty : Table := ⟨[], [], []⟩

/-- The header with a name in it, and where the name stands. -/
def position (columns : List String) (name : String) : List String × ℕ :=
  if name ∈ columns then (columns, columns.idxOf name) else (columns ++ [name], columns.length)

def place : List String → Cells → List String × List (ℕ × Value)
  | columns, [] => (columns, [])
  | columns, (name, value) :: rest =>
    let placed := place (position columns name).1 rest
    (placed.1, ((position columns name).2, value) :: placed.2)

/-- Set in reverse, so of two leaves on one path the first one written is the one kept. -/
def rowOf (width : ℕ) (cells : List (ℕ × Value)) : List Value :=
  cells.reverse.foldl (fun row c => row.set c.1 c.2) (List.replicate width .null)

/-- `Vec::resize` with nulls. -/
def resize (width : ℕ) (row : List Value) : List Value :=
  row.take width ++ List.replicate (width - row.length) .null

def idOf (entity : Value) : Option String := (entity.get "id").bind Value.asStr

def Table.addRow (t : Table) (entity : Value) : Table :=
  let placed := place t.columns (flatten entity)
  { t with columns := placed.1, rows := t.rows ++ [rowOf placed.1.length placed.2] }

def Table.appendEntity (t : Table) (entity : Value) : Table :=
  match idOf entity with
  | some id => if id ∈ t.ids then t else { t with ids := t.ids ++ [id] }.addRow entity
  | none => t.addRow entity

def entitiesOf : Value → List Value
  | .arr entities => entities
  | .obj members => [.obj members]
  | _ => []

def Table.append (t : Table) (entities : Value) : Table :=
  let grown := (entitiesOf entities).foldl Table.appendEntity t
  if t.columns.length < grown.columns.length then
    { grown with rows := grown.rows.map (resize grown.columns.length) }
  else grown

def names (entity : Value) : List String := (flatten entity).map Prod.fst

/-- What the cell of a column holds for an entity. -/
def cellOf (entity : Value) (name : String) : Value := ((flatten entity).lookup name).getD .null

/-- The entities of which each id is met first. -/
def firstSeen (seen : List String) : List Value → List Value
  | [] => []
  | entity :: rest =>
    match idOf entity with
    | some id =>
      if id ∈ seen then firstSeen seen rest else entity :: firstSeen (seen ++ [id]) rest
    | none => entity :: firstSeen seen rest

/-- A table that holds the leaves of entities, one row each. -/
structure Table.Holds (t : Table) (entities : List Value) : Prop where
  ids : t.ids = entities.filterMap idOf
  columns : t.columns = Search.fresh [] (entities.flatMap names)
  rows : t.rows = entities.map fun entity => t.columns.map (cellOf entity)

section Place

variable {columns : List String} {cells : Cells}

theorem place_columns : ∀ (cells : Cells) (columns : List String),
    (place columns cells).1 = columns ++ Search.fresh columns (cells.map Prod.fst)
  | [], columns => by simp [place, Search.fresh]
  | (name, value) :: rest, columns => by
    rw [place, List.map_cons]
    dsimp only
    rw [place_columns rest]
    unfold position
    by_cases hname : name ∈ columns
    · rw [if_pos hname, Search.fresh_of_mem hname]
    · rw [if_neg hname, Search.fresh_of_notMem hname, List.append_assoc, List.singleton_append]

theorem position_mem (columns : List String) (name : String) :
    name ∈ (position columns name).1 ∧
      (position columns name).2 = (position columns name).1.idxOf name := by
  unfold position
  split_ifs with hname
  · exact ⟨hname, rfl⟩
  · refine ⟨by simp, ?_⟩
    dsimp only
    rw [List.idxOf_append_of_notMem hname, List.idxOf_cons_self, Nat.add_zero]

theorem place_cells : ∀ (cells : Cells) (columns : List String), (place columns cells).2 =
    cells.map fun c => ((place columns cells).1.idxOf c.1, c.2)
  | [], columns => rfl
  | (name, value) :: rest, columns => by
    obtain ⟨hmem, hindex⟩ := position_mem columns name
    rw [place, List.map_cons]
    dsimp only
    rw [← place_cells rest, place_columns rest, List.idxOf_append_of_mem hmem, hindex]

theorem set_idxOf {name : String} {value : Value} (f : String → Value) (hnodup : columns.Nodup)
    (hname : name ∈ columns) : (columns.map f).set (columns.idxOf name) value =
      columns.map fun n => if n = name then value else f n := by
  induction columns with
  | nil => cases hname
  | cons column rest ih =>
    rw [List.nodup_cons] at hnodup
    rw [List.map_cons, List.map_cons]
    by_cases hcolumn : column = name
    · have hrest : ∀ n ∈ rest, (if n = name then value else f n) = f n := by
        intro n hn
        rw [if_neg]
        rintro rfl
        exact hnodup.1 (hcolumn ▸ hn)
      rw [hcolumn, List.idxOf_cons_self, List.set_cons_zero, if_pos rfl, List.map_congr_left hrest]
    · have hin := (List.mem_cons.1 hname).resolve_left (Ne.symm hcolumn)
      rw [List.idxOf_cons_ne _ hcolumn, List.set_cons_succ, if_neg hcolumn, ih hnodup.2 hin]

theorem rowOf_map (hnodup : columns.Nodup) : ∀ {cells : Cells},
    (∀ name ∈ cells.map Prod.fst, name ∈ columns) →
      rowOf columns.length (cells.map fun c => (columns.idxOf c.1, c.2)) =
        columns.map fun name => (cells.lookup name).getD .null
  | [], _ => by simp [rowOf]
  | (name, value) :: rest, h => by
    have hrest := rowOf_map hnodup fun n hn => h n (List.mem_cons_of_mem _ hn)
    unfold rowOf at hrest ⊢
    rw [List.map_cons, List.reverse_cons, List.foldl_append, hrest, List.foldl_cons, List.foldl_nil]
    dsimp only
    rw [set_idxOf _ hnodup (h name List.mem_cons_self)]
    refine List.map_congr_left fun n _ => ?_
    rw [Assoc.lookup_cons]
    split_ifs <;> rfl

end Place

section Append

variable {t : Table} {entities : List Value} {entity : Value} {w : ℕ}

theorem cellOf_of_notMem {name : String} (h : name ∉ names entity) :
    cellOf entity name = .null := by
  unfold cellOf
  rw [Option.not_isSome_iff_eq_none.1 (mt Assoc.lookup_isSome_iff.1 h), Option.getD_none]

theorem Table.Holds.nodup (h : t.Holds entities) : t.columns.Nodup := by
  rw [h.columns]
  exact Search.nodup_append_fresh List.nodup_nil

theorem Table.Holds.mem_columns (h : t.Holds entities) {name : String} :
    name ∈ t.columns ↔ ∃ entity ∈ entities, name ∈ names entity := by
  rw [h.columns, Search.mem_fresh, List.mem_flatMap]
  exact and_iff_left List.not_mem_nil

/-- A row as wide as the header was when it was added, which held the row's own columns. -/
def Begun (w : ℕ) (columns : List String) (row : List Value) (entity : Value) : Prop :=
  ∃ k, w ≤ k ∧ k ≤ columns.length ∧ row = (columns.take k).map (cellOf entity) ∧
    ∀ name ∈ names entity, name ∈ columns.take k

/-- A table a page is being appended to that was `w` wide. -/
structure Table.Growing (w : ℕ) (t : Table) (entities : List Value) : Prop where
  columns : t.columns = Search.fresh [] (entities.flatMap names)
  rows : List.Forall₂ (Begun w t.columns) t.rows entities
  wide : w ≤ t.columns.length

theorem Begun.extend {columns more : List String} {row : List Value}
    (h : Begun w columns row entity) : Begun w (columns ++ more) row entity := by
  obtain ⟨k, hw, hk, hrow, hnames⟩ := h
  refine ⟨k, hw, Nat.le_trans hk (by simp), ?_⟩
  rw [List.take_append_of_le_length hk]
  exact ⟨hrow, hnames⟩

theorem Table.Growing.addRow (h : t.Growing w entities) (entity : Value) :
    (t.addRow entity).Growing w (entities ++ [entity]) := by
  have hcolumns : (t.addRow entity).columns = t.columns ++ Search.fresh t.columns (names entity) :=
    place_columns (flatten entity) t.columns
  have hnodup : (t.addRow entity).columns.Nodup := by
    rw [hcolumns]
    refine Search.nodup_append_fresh ?_
    rw [h.columns]
    exact Search.nodup_append_fresh List.nodup_nil
  have hnames : ∀ name ∈ names entity, name ∈ (t.addRow entity).columns := by
    intro name hname
    rw [hcolumns, List.mem_append]
    by_cases hmem : name ∈ t.columns
    · exact Or.inl hmem
    · exact Or.inr (Search.mem_fresh.2 ⟨hname, hmem⟩)
  have hrow : (t.addRow entity).rows =
      t.rows ++ [(t.addRow entity).columns.map (cellOf entity)] := by
    unfold Table.addRow
    dsimp only
    rw [place_cells]
    exact congrArg (t.rows ++ [·]) (rowOf_map hnodup hnames)
  refine ⟨?_, ?_, ?_⟩
  · rw [hcolumns, h.columns, List.flatMap_append, Search.fresh_append, List.nil_append,
      List.flatMap_singleton]
  · rw [hrow]
    refine List.rel_append ?_ (List.forall₂_cons.2 ⟨?_, List.Forall₂.nil⟩)
    · rw [hcolumns]
      exact h.rows.imp fun _ _ hbegun => hbegun.extend
    · have hwide : w ≤ (t.addRow entity).columns.length := by
        rw [hcolumns, List.length_append]
        exact Nat.le_trans h.wide (Nat.le_add_right _ _)
      refine ⟨_, hwide, Nat.le_refl _, ?_⟩
      rw [List.take_length]
      exact ⟨rfl, hnames⟩
  · rw [hcolumns, List.length_append]
    exact Nat.le_trans h.wide (Nat.le_add_right _ _)

theorem Table.Growing.appendEntity (h : t.Growing w entities) (entity : Value) :
    (t.appendEntity entity).Growing w (entities ++ firstSeen t.ids [entity]) ∧
      (t.appendEntity entity).ids = t.ids ++ (firstSeen t.ids [entity]).filterMap idOf := by
  unfold Table.appendEntity
  cases hid : idOf entity with
  | none =>
    simp only [firstSeen, hid, List.filterMap_cons, List.filterMap_nil, List.append_nil]
    exact ⟨h.addRow entity, rfl⟩
  | some id =>
    by_cases hseen : id ∈ t.ids
    · simp [firstSeen, hid, hseen, h]
    · simp only [firstSeen, hid, hseen, if_false, List.filterMap_cons, List.filterMap_nil]
      have hgrowing : Table.Growing w { t with ids := t.ids ++ [id] } entities :=
        ⟨h.columns, h.rows, h.wide⟩
      exact ⟨hgrowing.addRow entity, rfl⟩

theorem firstSeen_cons (seen : List String) (entity : Value) (rest : List Value) :
    firstSeen seen (entity :: rest) = firstSeen seen [entity] ++
      firstSeen (seen ++ (firstSeen seen [entity]).filterMap idOf) rest := by
  cases hid : idOf entity with
  | none => simp [firstSeen, hid]
  | some id => by_cases hseen : id ∈ seen <;> simp [firstSeen, hid, hseen]

theorem firstSeen_append : ∀ (l m : List Value) (seen : List String), firstSeen seen (l ++ m) =
    firstSeen seen l ++ firstSeen (seen ++ (firstSeen seen l).filterMap idOf) m
  | [], m, seen => by simp [firstSeen]
  | entity :: l, m, seen => by
    rw [List.cons_append, firstSeen_cons, firstSeen_append l m, firstSeen_cons seen entity l,
      List.filterMap_append, List.append_assoc, List.append_assoc]

theorem Table.Growing.foldl : ∀ (page : List Value) {t : Table} {entities : List Value},
    t.Growing w entities → (page.foldl Table.appendEntity t).Growing w
        (entities ++ firstSeen t.ids page) ∧
      (page.foldl Table.appendEntity t).ids = t.ids ++ (firstSeen t.ids page).filterMap idOf
  | [], t, entities, h => by simpa [firstSeen] using h
  | entity :: page, t, entities, h => by
    obtain ⟨hstep, hids⟩ := h.appendEntity entity
    obtain ⟨hrun, hrest⟩ := Table.Growing.foldl page hstep
    rw [hids] at hrun hrest
    rw [List.foldl_cons, firstSeen_cons, List.filterMap_append, ← List.append_assoc,
      ← List.append_assoc]
    exact ⟨hrun, hrest⟩

theorem Table.Holds.growing (h : t.Holds entities) : t.Growing t.columns.length entities := by
  refine ⟨h.columns, ?_, Nat.le_refl _⟩
  rw [h.rows, List.forall₂_map_left_iff, List.forall₂_same]
  intro entity hentity
  refine ⟨_, Nat.le_refl _, Nat.le_refl _, ?_⟩
  rw [List.take_length]
  exact ⟨rfl, fun name hname => h.mem_columns.2 ⟨entity, hentity, hname⟩⟩

theorem Begun.resize {columns : List String} {row : List Value} (h : Begun w columns row entity)
    (hnodup : columns.Nodup) : resize columns.length row = columns.map (cellOf entity) := by
  obtain ⟨k, -, hk, rfl, hnames⟩ := h
  have hdrop : (columns.drop k).map (cellOf entity) =
      List.replicate (columns.length - k) .null := by
    rw [List.eq_replicate_iff, List.length_map, List.length_drop]
    refine ⟨rfl, fun v hv => ?_⟩
    obtain ⟨name, hname, rfl⟩ := List.mem_map.1 hv
    refine cellOf_of_notMem fun hmem => ?_
    rw [← List.take_append_drop k columns] at hnodup
    exact (List.nodup_append.1 hnodup).2.2 name (hnames name hmem) name hname rfl
  unfold JoinedContext.Tabular.resize
  have hwidth : ((columns.take k).map (cellOf entity)).length ≤ columns.length := by
    rw [List.length_map, List.length_take]
    exact Nat.min_le_right _ _
  rw [List.take_of_length_le hwidth, List.length_map, List.length_take, Nat.min_eq_left hk,
    ← hdrop, ← List.map_append, List.take_append_drop]

theorem eq_map_of_begun {columns : List String} : ∀ {rows : List (List Value)}
    {entities : List Value} {g : List Value → List Value},
    List.Forall₂ (Begun w columns) rows entities →
      (∀ row entity, Begun w columns row entity → g row = columns.map (cellOf entity)) →
        rows.map g = entities.map fun entity => columns.map (cellOf entity)
  | _, _, _, .nil, _ => rfl
  | _, _, _, .cons hrow hrows, hg => by
    rw [List.map_cons, List.map_cons, hg _ _ hrow, eq_map_of_begun hrows hg]

theorem Table.Holds.append (h : t.Holds entities) (page : List Value) :
    (t.append (.arr page)).Holds (entities ++ firstSeen t.ids page) := by
  obtain ⟨hgrown, hids⟩ := Table.Growing.foldl page h.growing
  rw [h.ids, ← List.filterMap_append, ← h.ids] at hids
  have hnodup : (page.foldl Table.appendEntity t).columns.Nodup := by
    rw [hgrown.columns]
    exact Search.nodup_append_fresh List.nodup_nil
  unfold Table.append
  dsimp only [entitiesOf]
  split_ifs with hwider
  · exact ⟨hids, hgrown.columns,
      eq_map_of_begun hgrown.rows fun row entity hbegun => hbegun.resize hnodup⟩
  · refine ⟨hids, hgrown.columns, ?_⟩
    rw [← List.map_id (page.foldl Table.appendEntity t).rows]
    refine eq_map_of_begun hgrown.rows fun row entity hbegun => ?_
    obtain ⟨k, hw, hk, rfl, -⟩ := hbegun
    have hfull : k = (page.foldl Table.appendEntity t).columns.length := by
      have := hgrown.wide
      omega
    rw [hfull, List.take_length, id_eq]

theorem Table.empty_holds : Table.empty.Holds [] := ⟨rfl, rfl, rfl⟩

end Append

end JoinedContext.Tabular
