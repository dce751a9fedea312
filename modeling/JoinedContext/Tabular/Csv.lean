import JoinedContext.Library.Csv
import JoinedContext.Tabular.Settle

/-!
# The text of a table

A table is written as the records of RFC 4180, a field a spreadsheet would run marked as inert. For
a person the wrappers of a value drop out of the header first, and a unit moves from its own column
into the header of the value it measures.
-/

namespace JoinedContext.Tabular

section Source

/-- A dialect. No delimiter a download may ask for has a meaning of its own in a record. -/
structure Dialect where
  delimiter : Char
  bom : Bool
  apart : delimiter ∉ ['"', '\r', '\n']

def Dialect.default : Dialect := ⟨',', false, by decide⟩

/-- `Dialect::of`, of the parameters of a download. -/
def Dialect.of (delimiter bom : Option String) (human : Bool) : Except String Dialect :=
  let mark : Except String Bool :=
    if bom = none then .ok human
    else if bom = some "true" then .ok true
    else if bom = some "false" then .ok false
    else .error "bom must be true or false, e.g. bom=true"
  if delimiter = none ∨ delimiter = some "comma" then mark.map (⟨',', ·, by decide⟩)
  else if delimiter = some "semicolon" then mark.map (⟨';', ·, by decide⟩)
  else if delimiter = some "tab" then mark.map (⟨'\t', ·, by decide⟩)
  else .error "delimiter must be comma, semicolon or tab, e.g. delimiter=semicolon"

/-- `cell.parse::<f64>().is_ok_and(f64::is_finite)`, and the text of a JSON value. -/
structure Texts where
  isFinite : String → Bool
  display : Value → String

variable (texts : Texts)

def FORMULA : List Char := ['=', '+', '-', '@', '\t', '\r']

/-- Whether a spreadsheet would run a field. -/
def formula (field : String) : Bool :=
  FORMULA.any (Text.startsWith · field) && !texts.isFinite field

def quoted (field : String) (delimiter : Char) : String :=
  let special := field.toList.any fun c => [delimiter, '"', '\n', '\r'].contains c
  if formula texts field || (special || (Text.startsWith ' ' field ||
      Text.endsWithAny [' '] field)) then
    "\"" ++ (if formula texts field then "'" else "") ++
      String.ofList (Csv.escape field.toList) ++ "\""
  else field

def cell : Value → String
  | .null => ""
  | .str text => text
  | other => texts.display other

/-- The cells of a record, with the delimiter before each but the first. -/
def writeCells (delimiter : Char) : Bool → List String → String
  | _, [] => ""
  | first, field :: rest => (if first then "" else String.singleton delimiter) ++
      quoted texts field delimiter ++ writeCells delimiter false rest

def writeRow (delimiter : Char) (fields : List String) : String :=
  writeCells texts delimiter true fields ++ "\r\n"

inductive TooLarge where
  | mk
deriving DecidableEq

/-- The ceiling is checked for each row. -/
def writeRows (limits : Limits) (delimiter : Char) : String → List (List Value) →
    Except TooLarge String
  | out, [] => .ok out
  | out, row :: rest =>
    let out := out ++ writeRow texts delimiter (row.map (cell texts))
    if limits.maxBytes.toNat < out.utf8ByteSize then .error .mk
    else writeRows limits delimiter out rest

def BOM : String := "\uFEFF"

def csv (t : Table) (limits : Limits) (dialect : Dialect) : Except TooLarge String :=
  writeRows texts limits dialect.delimiter
    ((if dialect.bom then BOM else "") ++ writeRow texts dialect.delimiter t.columns) t.rows

end Source

section Reading

variable (texts : Texts)

/-- A text of a dialect as an RFC 4180 reader has it, the byte order mark first taken off. -/
def Dialect.read (dialect : Dialect) (text : String) : Option (List (List String)) :=
  ((if dialect.bom then Text.stripPrefix BOM text else some text).bind fun text =>
    Csv.readAll dialect.delimiter text.toList).map fun records =>
      records.map fun record => record.map String.ofList

/-- A field with its mark where it has one. -/
def written (field : String) : String := if formula texts field then "'" ++ field else field

/-- The record of fields. RFC 4180 has none without a field. -/
def recordOf (fields : List String) : List String := if fields = [] then [""] else fields

end Reading

section Csv

variable {texts : Texts} {field : String} {d : Char}

theorem quoted_writes :
    Csv.Writes d (written texts field).toList (quoted texts field d).toList := by
  unfold quoted written
  cases hformula : formula texts field with
  | true =>
    have hlist : ("\"" ++ "'" ++ String.ofList (Csv.escape field.toList) ++ "\"").toList =
        '"' :: Csv.escape ("'" ++ field).toList ++ ['"'] := by
      simp [Csv.escape]
    simp only [Bool.true_or, if_true]
    rw [hlist]
    exact .quoted
  | false =>
    have hlist : ("\"" ++ "" ++ String.ofList (Csv.escape field.toList) ++ "\"").toList =
        '"' :: Csv.escape field.toList ++ ['"'] := by
      simp
    simp only [Bool.false_or, Bool.false_eq_true, if_false]
    split_ifs with hneeds
    · rw [hlist]
      exact .quoted
    · refine .plain fun c hc hspecial => hneeds ?_
      have hany : (field.toList.any fun c => [d, '"', '\n', '\r'].contains c) = true := by
        rw [List.any_eq_true]
        refine ⟨c, hc, ?_⟩
        rcases hspecial with rfl | rfl | rfl | rfl <;> simp
      rw [hany, Bool.true_or]

theorem writeCells_false (field : String) (rest : List String) :
    writeCells texts d false (field :: rest) =
      String.singleton d ++ writeCells texts d true (field :: rest) := by
  simp [writeCells, String.append_assoc]

theorem writeRow_eq : ∀ (fields : List String), (writeRow texts d fields).toList =
    Csv.line d (fields.map fun field => (quoted texts field d).toList)
  | [] => by simp [writeRow, writeCells, Csv.line]
  | [field] => by simp [writeRow, writeCells, Csv.line]
  | field :: next :: rest => by
    have hrest := writeRow_eq (next :: rest)
    rw [List.map_cons] at hrest
    rw [List.map_cons, List.map_cons, Csv.line, ← hrest]
    · unfold writeRow
      rw [writeCells, writeCells_false]
      simp
    · intro hnot
      cases hnot

theorem writeRows_ok {limits : Limits} : ∀ {rows : List (List Value)} {out text : String},
    writeRows texts limits d out rows = .ok text →
      text.toList = out.toList ++ rows.flatMap (fun row =>
        (writeRow texts d (row.map (cell texts))).toList) ∧
      (rows ≠ [] → text.utf8ByteSize ≤ limits.maxBytes.toNat)
  | [], out, text, h => by
    cases h
    simp
  | row :: rows, out, text, h => by
    unfold writeRows at h
    dsimp only at h
    split_ifs at h with hsize
    obtain ⟨htext, hbytes⟩ := writeRows_ok h
    rw [String.toList_append, List.append_assoc] at htext
    refine ⟨htext, fun _ => ?_⟩
    cases rows with
    | nil =>
      cases h
      exact Nat.le_of_not_lt hsize
    | cons _ _ => exact hbytes (by simp)

theorem readAll_writeRow (texts : Texts) (hquote : d ≠ '"') (hreturn : d ≠ '\r')
    (records : List (List String)) :
    Csv.readAll d (records.flatMap fun fields => (writeRow texts d fields).toList) =
      some (records.map fun fields =>
        Csv.asRead (fields.map fun field => (written texts field).toList)) := by
  have hfields : ∀ fields : List String, List.Forall₂ (Csv.Writes d)
      (fields.map fun field => (written texts field).toList)
      (fields.map fun field => (quoted texts field d).toList) := by
    intro fields
    rw [List.forall₂_map_left_iff, List.forall₂_map_right_iff, List.forall₂_same]
    exact fun _ _ => quoted_writes
  have hrecords : List.Forall₂ (List.Forall₂ (Csv.Writes d))
      (records.map fun fields => fields.map fun field => (written texts field).toList)
      (records.map fun fields => fields.map fun field => (quoted texts field d).toList) := by
    rw [List.forall₂_map_left_iff, List.forall₂_map_right_iff, List.forall₂_same]
    exact fun fields _ => hfields fields
  have hread := Csv.readAll_lines hquote hreturn hrecords
  rw [List.flatMap_map, List.map_map] at hread
  simp only [writeRow_eq]
  exact hread

theorem map_asRead (fields : List String) :
    (Csv.asRead (fields.map String.toList)).map String.ofList = recordOf fields := by
  unfold recordOf
  cases fields with
  | nil => rfl
  | cons field rest => simp [Csv.asRead]

/-- What `csv` answers reads back as the header and the rows. -/
theorem read_csv {t : Table} {limits : Limits} {dialect : Dialect} {text : String}
    (h : csv texts t limits dialect = .ok text) : dialect.read text =
      some ((t.columns :: t.rows.map fun row => row.map (cell texts)).map fun fields =>
        recordOf (fields.map (written texts))) := by
  obtain ⟨htext, -⟩ := writeRows_ok h
  have hquote : dialect.delimiter ≠ '"' := fun heq => dialect.apart (by simp [heq])
  have hreturn : dialect.delimiter ≠ '\r' := fun heq => dialect.apart (by simp [heq])
  have hread := readAll_writeRow texts hquote hreturn
    (t.columns :: t.rows.map fun row => row.map (cell texts))
  have hbody : (t.columns :: t.rows.map fun row => row.map (cell texts)).flatMap
      (fun fields => (writeRow texts dialect.delimiter fields).toList) =
      (writeRow texts dialect.delimiter t.columns).toList ++ t.rows.flatMap fun row =>
        (writeRow texts dialect.delimiter (row.map (cell texts))).toList := by
    rw [List.flatMap_cons, List.flatMap_map]
  have hfields : ∀ fields : List String,
      (Csv.asRead (fields.map fun field => (written texts field).toList)).map String.ofList =
        recordOf (fields.map (written texts)) := by
    intro fields
    rw [← map_asRead, List.map_map]
    rfl
  have hmark : (if dialect.bom then Text.stripPrefix BOM text else some text) =
      some (String.ofList ((t.columns :: t.rows.map fun row => row.map (cell texts)).flatMap
        fun fields => (writeRow texts dialect.delimiter fields).toList)) := by
    rw [hbody]
    rw [String.toList_append, List.append_assoc] at htext
    cases hbom : dialect.bom with
    | false =>
      rw [hbom, if_neg (by simp), String.toList_empty, List.nil_append] at htext
      rw [if_neg (by simp), ← htext, String.ofList_toList]
    | true =>
      rw [hbom, if_pos rfl] at htext
      rw [if_pos rfl, Text.stripPrefix_eq_some, String.toList_ofList, htext]
  unfold Dialect.read
  rw [hmark, Option.bind_some, String.toList_ofList, hread, Option.map_some, List.map_map]
  exact congrArg some (List.map_congr_left fun fields _ => hfields fields)

end Csv

section Humanize

/-- A column name for a person: the members a value is wrapped in drop out. -/
def readable (column : String) : String :=
  match Text.splitAny ['.'] column with
  | [] => ""
  | first :: segments => segments.foldl
      (fun out segment =>
        let name := String.ofList (segment.toList.takeWhile (· ≠ '['))
        let index := String.ofList (segment.toList.dropWhile (· ≠ '['))
        if ATTRIBUTE_MEMBERS.contains name then out ++ index else out ++ "." ++ segment)
      first

def isUnitCode (column : String) : Bool := (Text.stripSuffix ".unitCode" column).isSome

/-- The first text of the rows at a position. -/
def firstCode (rows : List (List Value)) (index : ℕ) : Option String :=
  (rows.filterMap (·[index]?)).findSome? Value.asStr

variable (symbolOf : String → Option String)

/-- The symbol of a code (`units::lookup`), or the code when there is none. -/
def symbol (code : String) : String := ((symbolOf code).filter (· ≠ "")).getD code

/-- The units a table has, each with the readable name it belongs to. -/
def units (t : Table) : List (String × String) :=
  t.columns.zipIdx.filterMap fun c =>
    (Text.stripSuffix ".unitCode" c.1).bind fun base =>
      let code := (firstCode t.rows c.2).getD ""
      if code = "" then none else some (readable base, symbol symbolOf code)

def dropped (columns : List String) : List ℕ :=
  (columns.zipIdx.filter fun c => isUnitCode c.1).map Prod.snd

def headerOf (units : List (String × String)) (column : String) : String :=
  match units.find? (·.1 = readable column) with
  | some (_, symbol) => readable column ++ " [" ++ symbol ++ "]"
  | none => readable column

def humanize (t : Table) : Table :=
  { t with
    columns := (t.columns.zipIdx.filter fun c => !(dropped t.columns).contains c.2).map fun c =>
      headerOf (units symbolOf t) c.1
    rows := t.rows.map fun row =>
      (row.zipIdx.filter fun c => !(dropped t.columns).contains c.2).map Prod.fst }

variable {symbolOf : String → Option String} {t : Table} {columns : List String}

theorem contains_dropped {i : ℕ} {column : String} (h : columns[i]? = some column) :
    (dropped columns).contains i = isUnitCode column := by
  have hmem : i ∈ dropped columns ↔ isUnitCode column = true := by
    unfold dropped
    rw [List.mem_map]
    constructor
    · rintro ⟨⟨x, j⟩, hc, rfl⟩
      obtain ⟨hx, hunit⟩ := List.mem_filter.1 hc
      rw [List.mk_mem_zipIdx_iff_getElem?, h, Option.some_inj] at hx
      exact hx ▸ hunit
    · intro hunit
      exact ⟨(column, i), List.mem_filter.2 ⟨List.mk_mem_zipIdx_iff_getElem?.2 h, hunit⟩, rfl⟩
  rw [Bool.eq_iff_iff, List.contains_iff_mem, hmem]

/-- What is kept by its position is kept by the column it stands under. -/
theorem filter_zipIdx {α : Type} {p : String → Bool} {out : ℕ → Bool} :
    ∀ {columns : List String} {row : List α} {k : ℕ}, row.length = columns.length →
      (∀ i column, columns[i]? = some column → out (k + i) = p column) →
        ((row.zipIdx k).filter fun c => !out c.2).map Prod.fst =
          ((columns.zip row).filter fun c => !p c.1).map Prod.snd
  | [], [], _, _, _ => rfl
  | column :: columns, v :: row, k, hlength, hout => by
    have hrest := filter_zipIdx (Nat.succ.inj hlength) fun i name hname => by
      have := hout (i + 1) name hname
      rwa [← Nat.add_assoc, Nat.add_right_comm] at this
    have hhead : out k = p column := hout 0 column rfl
    rw [List.zipIdx_cons, List.zip_cons_cons, List.filter_cons, List.filter_cons, hhead]
    cases p column <;> simp [hrest]

/-- What of a table a person's header leaves, and what that header says. -/
structure Humanized (symbolOf : String → Option String) (t h : Table) : Prop where
  columns : h.columns = (t.columns.filter (!isUnitCode ·)).map (headerOf (units symbolOf t))
  rows : (∀ row ∈ t.rows, row.length = t.columns.length) → h.rows = t.rows.map fun row =>
    ((t.columns.zip row).filter fun c => !isUnitCode c.1).map Prod.snd
  named : ∀ column, headerOf (units symbolOf t) column = readable column ∨
    ∃ (i : ℕ) (base : String) (before : List (List Value)) (row : List Value)
      (after : List (List Value)) (code : String), t.columns[i]? = some (base ++ ".unitCode") ∧
      readable base = readable column ∧ t.rows = before ++ row :: after ∧
      row[i]? = some (Value.str code) ∧
      (∀ r ∈ before, ∀ other, r[i]? ≠ some (Value.str other)) ∧
      headerOf (units symbolOf t) column =
        readable column ++ " [" ++ symbol symbolOf code ++ "]"
  apart : ∀ column column', ' ' ∉ (readable column).toList → ' ' ∉ (readable column').toList →
    readable column ≠ readable column' →
      headerOf (units symbolOf t) column ≠ headerOf (units symbolOf t) column'

theorem firstCode_some {rows : List (List Value)} {i : ℕ} {code : String}
    (h : firstCode rows i = some code) : ∃ before row after, rows = before ++ row :: after ∧
      row[i]? = some (Value.str code) ∧ ∀ r ∈ before, ∀ other, r[i]? ≠ some (Value.str other) := by
  induction rows with
  | nil => cases h
  | cons row rows ih =>
    have hnext : (∀ other, row[i]? ≠ some (Value.str other)) → firstCode rows i = some code →
        ∃ before r after, row :: rows = before ++ r :: after ∧ r[i]? = some (Value.str code) ∧
          ∀ r' ∈ before, ∀ other, r'[i]? ≠ some (Value.str other) := by
      intro hnone hrest
      obtain ⟨before, r, after, rfl, hcode, hbefore⟩ := ih hrest
      refine ⟨row :: before, r, after, rfl, hcode, fun r' hr' => ?_⟩
      rcases List.mem_cons.1 hr' with rfl | hr'
      · exact hnone
      · exact hbefore r' hr'
    unfold firstCode at h
    cases hv : row[i]? with
    | none =>
      rw [List.filterMap_cons, hv] at h
      exact hnext (by simp [hv]) h
    | some v =>
      rw [List.filterMap_cons, hv] at h
      dsimp only at h
      rw [List.findSome?_cons] at h
      cases v with
      | str text =>
        cases h
        exact ⟨[], row, rows, rfl, hv, by simp⟩
      | _ => exact hnext (by simp [hv]) h

theorem mem_units {u : String × String} (h : u ∈ units symbolOf t) : ∃ i base code,
    t.columns[i]? = some (base ++ ".unitCode") ∧ firstCode t.rows i = some code ∧
      u = (readable base, symbol symbolOf code) := by
  unfold units at h
  obtain ⟨⟨column, i⟩, hc, hu⟩ := List.mem_filterMap.1 h
  obtain ⟨base, hbase, hu⟩ := Option.bind_eq_some_iff.1 hu
  dsimp only at hu
  split_ifs at hu with hempty
  obtain ⟨code, hcode⟩ : ∃ code, firstCode t.rows i = some code := by
    cases hcode : firstCode t.rows i with
    | none => exact absurd (by rw [hcode]; rfl) hempty
    | some code => exact ⟨code, rfl⟩
  have hcolumn : column = base ++ ".unitCode" := by
    apply String.ext
    rw [String.toList_append]
    exact Text.stripSuffix_eq_some.1 hbase
  rw [List.mk_mem_zipIdx_iff_getElem?, hcolumn] at hc
  rw [hcode, Option.getD_some] at hu
  exact ⟨i, base, code, hc, hcode, (Option.some.inj hu).symm⟩

theorem headerOf_eq (units : List (String × String)) (column : String) :
    headerOf units column = readable column ∨ ∃ u ∈ units, u.1 = readable column ∧
      headerOf units column = readable column ++ " [" ++ u.2 ++ "]" := by
  unfold headerOf
  cases h : units.find? (·.1 = readable column) with
  | none => exact Or.inl rfl
  | some u => exact Or.inr ⟨u, List.mem_of_find?_eq_some h, by simpa using List.find?_some h, rfl⟩

/-- Up to its first space a header is the readable name. -/
theorem takeWhile_headerOf {units : List (String × String)} {column : String}
    (h : ' ' ∉ (readable column).toList) :
    (headerOf units column).toList.takeWhile (· ≠ ' ') = (readable column).toList := by
  have hname : ∀ c ∈ (readable column).toList, decide (c ≠ ' ') = true := by
    intro c hc
    exact decide_eq_true fun heq => h (heq ▸ hc)
  rcases headerOf_eq units column with heq | ⟨u, -, -, heq⟩
  · rw [heq, List.takeWhile_eq_self_iff.2 hname]
  · have hlist : (readable column ++ " [" ++ u.2 ++ "]").toList =
        (readable column).toList ++ ' ' :: ('[' :: u.2.toList ++ [']']) := by
      simp
    rw [heq, hlist, List.takeWhile_append_of_pos hname]
    simp

theorem humanize_humanized (symbolOf : String → Option String) (t : Table) :
    Humanized symbolOf t (humanize symbolOf t) where
  columns := by
    have hself : ∀ columns : List String, ((columns.zip columns).filter fun c =>
        !isUnitCode c.1).map Prod.snd = columns.filter (!isUnitCode ·) := by
      intro columns
      induction columns with
      | nil => rfl
      | cons column columns ih =>
        rw [List.zip_cons_cons, List.filter_cons, List.filter_cons]
        cases isUnitCode column <;> simp [ih]
    have hkeep : (t.columns.zipIdx.filter fun c => !(dropped t.columns).contains c.2).map Prod.fst =
        t.columns.filter (!isUnitCode ·) := by
      rw [← hself]
      exact filter_zipIdx rfl fun i column h => by rw [Nat.zero_add, contains_dropped h]
    rw [← hkeep, List.map_map]
    rfl
  rows := fun hwide => by
    refine List.map_congr_left fun row hrow => ?_
    exact filter_zipIdx (hwide row hrow) fun i column h => by rw [Nat.zero_add, contains_dropped h]
  named := fun column => by
    rcases headerOf_eq (units symbolOf t) column with heq | ⟨u, hu, hbase, heq⟩
    · exact Or.inl heq
    · obtain ⟨i, base, code, hcolumn, hcode, rfl⟩ := mem_units hu
      obtain ⟨before, row, after, hrows, hrow, hbefore⟩ := firstCode_some hcode
      exact Or.inr ⟨i, base, before, row, after, code, hcolumn, hbase, hrows, hrow, hbefore, heq⟩
  apart := fun column column' hspace hspace' hne heq => by
    have hsame := @takeWhile_headerOf (units symbolOf t) column hspace
    rw [heq, takeWhile_headerOf hspace'] at hsame
    exact hne (String.ext hsame.symm)

/-- The text of a table reads back, a field that would run with its mark, and is within its ceiling
once there is a row. A person's header loses no column but those of unit codes, tells apart what its
names do, and names the unit of the first row that has one. -/
theorem csv_humanize (texts : Texts) (symbolOf : String → Option String) (t : Table)
    (limits : Limits) (dialect : Dialect) :
    (∀ text, csv texts t limits dialect = .ok text →
      dialect.read text =
        some ((t.columns :: t.rows.map fun row => row.map (cell texts)).map fun fields =>
          recordOf (fields.map (written texts))) ∧
      (∀ field, ∀ c ∈ FORMULA, Text.startsWith c field = true → texts.isFinite field = false →
        written texts field = "'" ++ field) ∧
      (t.rows ≠ [] → text.utf8ByteSize ≤ limits.maxBytes.toNat)) ∧
    Humanized symbolOf t (humanize symbolOf t) := by
  refine ⟨fun text h => ⟨read_csv h, fun field c hc hstart hfinite => ?_, (writeRows_ok h).2⟩,
    humanize_humanized symbolOf t⟩
  have hformula : formula texts field = true := by
    unfold formula
    rw [hfinite, List.any_eq_true.2 ⟨c, hc, hstart⟩]
    rfl
  unfold written
  rw [if_pos hformula]

/-- Two measures of one attribute, each in its own unit. -/
def measures : Table where
  columns := ["id", "no2.value", "no2.unitCode"]
  rows := [[.str "urn:ngsi-ld:AirQualityObserved:1", .num 40 0, .str "GQ"],
    [.str "urn:ngsi-ld:AirQualityObserved:2", .num 40 0, .str "GP"]]
  ids := ["urn:ngsi-ld:AirQualityObserved:1", "urn:ngsi-ld:AirQualityObserved:2"]

def massSymbols (code : String) : Option String :=
  [("GP", "mg/m³"), ("GQ", "µg/m³")].lookup code

/-- The header names the unit of the first row over the value of a row that has another. -/
theorem unit_of_first : (humanize massSymbols measures).columns = ["id", "no2 [µg/m³]"] ∧
    (humanize massSymbols measures).rows = [[.str "urn:ngsi-ld:AirQualityObserved:1", .num 40 0],
      [.str "urn:ngsi-ld:AirQualityObserved:2", .num 40 0]] ∧
    (measures.rows[1]?.bind (·[2]?)) = some (.str "GP") ∧ symbol massSymbols "GP" = "mg/m³" := by
  decide +kernel

def plainTexts : Texts where
  isFinite := fun field => field ≠ "" && field.toList.all Char.isDigit
  display := fun
    | .num m _ => toString m
    | _ => ""

theorem csv_humanize_measures : ∃ text,
    csv plainTexts measures ⟨100000, 67108864⟩ Dialect.default = .ok text ∧
      Dialect.default.read text = some [["id", "no2.value", "no2.unitCode"],
        ["urn:ngsi-ld:AirQualityObserved:1", "40", "GQ"],
        ["urn:ngsi-ld:AirQualityObserved:2", "40", "GP"]] := by
  cases h : csv plainTexts measures ⟨100000, 67108864⟩ Dialect.default with
  | error e =>
    have hok : (csv plainTexts measures ⟨100000, 67108864⟩
        Dialect.default).toOption.isSome = true := by decide +kernel
    rw [h] at hok
    cases hok
  | ok text =>
    refine ⟨text, rfl, ?_⟩
    rw [((csv_humanize plainTexts massSymbols measures _ _).1 text h).1]
    decide +kernel

end Humanize

end JoinedContext.Tabular
