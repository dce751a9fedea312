import JoinedContext.Query.Compound

/-!
# What a query refers to

A filter is a read, so every attribute by which a forwarded parameter selects or orders entities has
to be among those the request refers to, as the term the decision compares. The references are read
from the first value of a parameter that is not empty; what is forwarded is every value of it, and
the members a compound is split into.
-/

namespace JoinedContext.Query

def passthrough : List String :=
  ["aggrMethods", "aggrPeriodDuration", "containedBy", "count", "csf", "datasetId", "details",
    "entityMap", "format", "id", "idPattern", "join", "joinLevel", "lang", "lastN", "limit",
    "local", "offset", "omit", "options", "scopeQ", "pick", "timeproperty", "via"]

def viewSelectors : List String :=
  ["type", "attrs", "q", "georel", "geometry", "coordinates", "geoproperty", "geometryProperty",
    "timerel", "timeAt", "endTimeAt", "orderBy"]

/-- `str::parse::<u64>`. -/
def parseU64 (s : String) : Option Nat :=
  let digits := match s.toList with
    | '+' :: rest => rest
    | chars => chars
  if digits ≠ [] ∧ digits.all Char.isDigit then
    let n := digits.foldl (fun n c => n * 10 + (c.toNat - 48)) 0
    if n < 2 ^ 64 then some n else none
  else none

def lastNCap : Nat := 1000

def joinLevelCap : Nat := 3

def capped (cap : Nat) (value : String) : String :=
  if (parseU64 value).any fun n => decide (cap < n) then toString cap else value

/-- The caller's own parameters that survive, in the order they were sent. -/
def kept (params : List (String × String)) : List (String × String) :=
  (params.filter fun pair => pair.1 ∈ passthrough).map fun pair =>
    if pair.1 = "lastN" then (pair.1, capped lastNCap pair.2)
    else if pair.1 = "joinLevel" then (pair.1, capped joinLevelCap pair.2)
    else pair

def unselected (crates : Crates) (params : List (String × String)) : Bool :=
  let asked := requested crates params
  decide (asked.types = ∅ ∧ asked.attrs = ∅ ∧ asked.q = none ∧ asked.geoQ = none)

/-- The parameters of a read through the broker's view. -/
def viewParams (crates : Crates) (params : List (String × String)) (fallbackTypes : List String) :
    List (String × String) :=
  kept params ++ params.filter (fun pair => pair.1 ∈ viewSelectors) ++
    if unselected crates params ∧ fallbackTypes ≠ [] then [("type", Text.join "," fallbackTypes)]
    else []

def viewRead (crates : Crates) (params : List (String × String)) (fallbackTypes : List String) :
    String :=
  render (viewParams crates params fallbackTypes)

/-- What of a caller's query leaves the gateway: what a read through the view carries, and what the
compounds the decision starts from are split into. -/
def Forwards (crates : Crates) (params : List (String × String)) (pair : String × String) : Prop :=
  (∃ fallbackTypes, pair ∈ parse (viewRead crates params fallbackTypes)) ∨
    pair ∈ (requested crates params).geoQ.elim [] splitCompound ∨
    pair ∈ (requested crates params).temporalQ.elim [] splitCompound

/-! ## The attributes a parameter names -/

def listSelectors : List String := ["attrs", "orderBy", "geoproperty", "timeproperty"]

/-- The names and the paths by which a parameter selects or orders entities, as they are written. -/
def namesIn (crates : Crates) (pair : String × String) : Finset String :=
  if pair.1 = "q" then
    if crates.parseQ pair.2 then (crates.attributePaths pair.2).toFinset else ∅
  else if pair.1 ∈ listSelectors then splitList (some pair.2)
  else ∅

def dropBangs (name : String) : String := String.ofList (name.toList.dropWhile (· == '!'))

/-- What the gateway reads a name as. -/
def readAs (param name : String) : String :=
  if param = "attrs" then compact name
  else if param = "q" then headOf name
  else headOf (dropBangs name)

def afterLast (seps : List Char) (s : String) : String := (Text.splitAny seps s).getLastD ""

/-- An item of an order without its direction: a `!` before it, or what follows a `;`. -/
def directionless (item : String) : String :=
  String.ofList ((dropBangs item).toList.takeWhile (· != ';'))

/-- The term a name stands for: the head of a path, and of an expanded or compact IRI what it ends
in. -/
def termOf (param name : String) : String :=
  let path := if param = "orderBy" then directionless name else name
  let last := if contains "://" path then afterLast ['/', '#'] path else path
  afterLast [':'] (if param = "attrs" then last else (Text.splitAny ['.', '['] last).headD "")

/-- A forwarded parameter selects or orders by an attribute. A geo query without a `geoproperty` is
one on `location`. -/
inductive SelectsBy (crates : Crates) (params : List (String × String)) : String × String → String →
    String → Prop where
  | name {pair : String × String} {name : String} : Forwards crates params pair →
    name ∈ namesIn crates pair → termOf pair.1 name ≠ "" →
    SelectsBy crates params pair (termOf pair.1 name) (readAs pair.1 name)
  | location {pair : String × String} : Forwards crates params pair → pair.1 ∈ geoMembers →
    pair.2 ≠ "" → (∀ value, Forwards crates params ("geoproperty", value) → value = "") →
    SelectsBy crates params pair "location" "location"

/-- The first value of a parameter names an attribute, in a spelling that is read as its term. -/
def Named (crates : Crates) (params : List (String × String)) (a : String) : Prop :=
  (∃ param ∈ "q" :: listSelectors, ∃ value, first params param = some value ∧
    ∃ name ∈ namesIn crates (param, value), readAs param name = a) ∨
  (a = unreadable ∧ ∃ q, first params "q" = some q ∧ crates.parseQ q = false) ∨
  (a = "location" ∧ joined params geoMembers ≠ none ∧ first params "geoproperty" = none)

theorem first_eq_some {params : List (String × String)} {name value : String}
    (h : first params name = some value) : (name, value) ∈ params ∧ value ≠ "" := by
  unfold first at h
  obtain ⟨pair, hfind, rfl⟩ := Option.map_eq_some_iff.1 h
  have hpair := List.find?_some hfind
  simp only [Bool.and_eq_true, beq_iff_eq, bne_iff_ne] at hpair
  have hmem := List.mem_of_find?_eq_some hfind
  rw [← hpair.1]
  exact ⟨hmem, hpair.2⟩

theorem joined_ne_none {params : List (String × String)} {names : List String} {name value : String}
    (hname : name ∈ names) (h : first params name = some value) : joined params names ≠ none := by
  have hmem : (name, value) ∈ members params names := mem_members.2 ⟨hname, h⟩
  rw [joined_eq, if_neg (List.ne_nil_of_mem hmem)]
  exact Option.some_ne_none _

/-- The names of a list selector's first value, as the gateway reads them. -/
theorem mem_image_first {crates : Crates} {params : List (String × String)} {param a : String}
    (hparam : param ∈ listSelectors) {read : String → String} (hread : readAs param = read) :
    a ∈ (splitList (first params param)).image read ↔
      ∃ value, first params param = some value ∧
        ∃ name ∈ namesIn crates (param, value), readAs param name = a := by
  have hq : param ≠ "q" := by
    rintro rfl
    exact absurd hparam (by decide)
  subst hread
  rcases first params param with _ | value
  · simp [splitList]
  · simp [namesIn, hq, hparam]

/-- The references of the first `q`. -/
def ofQ (crates : Crates) (params : List (String × String)) : Finset String :=
  match first params "q" with
  | some q => qAttributes crates q
  | none => ∅

def defaultLocation (params : List (String × String)) : Finset String :=
  if (joined params geoMembers).isSome ∧ first params "geoproperty" = none then {"location"} else ∅

theorem mem_ofQ {crates : Crates} {params : List (String × String)} {a : String} :
    a ∈ ofQ crates params ↔
      (∃ value, first params "q" = some value ∧
        ∃ name ∈ namesIn crates ("q", value), readAs "q" name = a) ∨
      (a = unreadable ∧ ∃ q, first params "q" = some q ∧ crates.parseQ q = false) := by
  unfold ofQ
  rcases first params "q" with _ | q
  · simp
  · by_cases hparse : crates.parseQ q = true
    · simp [qAttributes, namesIn, readAs, hparse]
    · simp [qAttributes, namesIn, hparse]

theorem referencedAttributes_eq (crates : Crates) (params : List (String × String)) :
    referencedAttributes crates params =
      (ofQ crates params ∪ (splitList (first params "attrs")).image compact ∪
        unions (fun selector => (splitList (first params selector)).image fun name =>
          headOf (dropBangs name)) ["orderBy", "geoproperty", "timeproperty"] ∪
        defaultLocation params).erase "" := rfl

theorem mem_defaultLocation {params : List (String × String)} {a : String} :
    a ∈ defaultLocation params ↔
      a = "location" ∧ joined params geoMembers ≠ none ∧ first params "geoproperty" = none := by
  unfold defaultLocation
  split_ifs with h
  · rw [Finset.mem_singleton]
    exact ⟨fun ha => ⟨ha, Option.isSome_iff_ne_none.1 h.1, h.2⟩, And.left⟩
  · simp only [Finset.notMem_empty, false_iff, not_and]
    exact fun _ hjoined hnone => h ⟨Option.isSome_iff_ne_none.2 hjoined, hnone⟩

theorem readAs_of_ne {param : String} (hattrs : param ≠ "attrs") (hq : param ≠ "q") :
    readAs param = fun name => headOf (dropBangs name) := by
  funext name
  rw [readAs, if_neg hattrs, if_neg hq]

theorem readAs_attrs : readAs "attrs" = compact := by
  funext name
  rw [readAs, if_pos rfl]

theorem mem_referencedAttributes {crates : Crates} {params : List (String × String)} {a : String} :
    a ∈ referencedAttributes crates params ↔ a ≠ "" ∧ Named crates params a := by
  rw [referencedAttributes_eq, Finset.mem_erase]
  refine and_congr_right fun _ => ?_
  rw [Finset.mem_union, Finset.mem_union, Finset.mem_union, mem_ofQ, mem_defaultLocation,
    @mem_image_first crates params "attrs" a (by decide) _ readAs_attrs, mem_unions]
  have hpath : ∀ param ∈ ["orderBy", "geoproperty", "timeproperty"],
      (a ∈ (splitList (first params param)).image (fun name => headOf (dropBangs name)) ↔
        ∃ value, first params param = some value ∧
          ∃ name ∈ namesIn crates (param, value), readAs param name = a) := by
    intro param hparam
    have hne : param ≠ "attrs" ∧ param ≠ "q" ∧ param ∈ listSelectors := by
      revert param
      decide
    exact mem_image_first hne.2.2 (readAs_of_ne hne.1 hne.2.1)
  constructor
  · rintro ((((⟨value, hvalue, hname⟩ | hunread) | ⟨value, hvalue, hname⟩) |
      ⟨param, hparam, h⟩) | hlocation)
    · exact Or.inl ⟨"q", List.mem_cons_self, value, hvalue, hname⟩
    · exact Or.inr (Or.inl hunread)
    · exact Or.inl ⟨"attrs", by decide, value, hvalue, hname⟩
    · obtain ⟨value, hvalue, hname⟩ := (hpath param hparam).1 h
      exact Or.inl ⟨param, List.mem_cons_of_mem _ (List.mem_cons_of_mem _ hparam), value, hvalue,
        hname⟩
    · exact Or.inr (Or.inr hlocation)
  · rintro (⟨param, hparam, value, hvalue, hname⟩ | hunread | hlocation)
    · rcases List.mem_cons.1 hparam with rfl | hparam
      · exact Or.inl (Or.inl (Or.inl (Or.inl ⟨value, hvalue, hname⟩)))
      · rcases List.mem_cons.1 hparam with rfl | hparam
        · exact Or.inl (Or.inl (Or.inr ⟨value, hvalue, hname⟩))
        · exact Or.inl (Or.inr ⟨param, hparam, (hpath param hparam).2 ⟨value, hvalue, hname⟩⟩)
    · exact Or.inl (Or.inl (Or.inl (Or.inr hunread)))
    · exact Or.inr hlocation

/-! ## Names that are read as they are written -/

/-- A name without the characters that mean something in a query, a path or an IRI. -/
def PlainName (name : String) : Prop :=
  ∀ c ∈ name.toList, c ∉ ['%', '+', '"', '.', '[', '/', '#', ':', ';', '!'] ∧
    Text.whitespace c = false

theorem decode_of_plain {name : String} (hpercent : '%' ∉ name.toList) (hplus : '+' ∉ name.toList) :
    decode name = name := by
  have hbytes : ∀ b ∈ Text.utf8Bytes name, b ≠ 0x25 ∧ b ≠ 0x2B := by
    intro b hb
    unfold Text.utf8Bytes at hb
    obtain ⟨c, hc, hb⟩ := List.mem_flatMap.1 hb
    by_cases hascii : c.toNat < 0x80
    · rw [Text.utf8EncodeChar_ascii hascii, List.mem_singleton] at hb
      subst hb
      refine ⟨fun heq => hpercent ?_, fun heq => hplus ?_⟩
      · rwa [Char.toNat_inj.1 (show c.toNat = '%'.toNat from heq)] at hc
      · rwa [Char.toNat_inj.1 (show c.toNat = '+'.toNat from heq)] at hc
    · obtain ⟨byte, hbyte, hvalue⟩ := List.mem_map.1 hb
      have hle := Text.le_of_mem_utf8EncodeChar (by omega) hbyte
      omega
  have hdecode : ∀ bytes : List Nat, (∀ b ∈ bytes, b ≠ 0x25 ∧ b ≠ 0x2B) →
      decodeBytes bytes = bytes := by
    intro bytes h
    induction bytes with
    | nil => rfl
    | cons b bytes ih =>
      rw [List.forall_mem_cons] at h
      rw [decodeBytes_cons h.1.1, plusAsSpace_of_ne h.1.2, ih h.2]
  rw [decode, hdecode _ hbytes, Text.fromUtf8Lossy_utf8Bytes]

theorem dropWhile_eq_self {p : Char → Bool} {l : List Char} (h : ∀ c ∈ l, p c = false) :
    l.dropWhile p = l := by
  cases l with
  | nil => rfl
  | cons c l => rw [List.dropWhile_cons_of_neg (by simp [h c List.mem_cons_self])]

theorem rdropWhile_eq_self {p : Char → Bool} {l : List Char} (h : ∀ c ∈ l, p c = false) :
    l.rdropWhile p = l := by
  rw [List.rdropWhile, dropWhile_eq_self (by simpa using h), List.reverse_reverse]

namespace PlainName

variable {name : String} (h : PlainName name)

include h

theorem splitAny {seps : List Char}
    (hseps : ∀ c ∈ seps, c ∈ ['%', '+', '"', '.', '[', '/', '#', ':', ';', '!']) :
    Text.splitAny seps name = [name] :=
  Text.splitAny_eq_singleton fun c hc hsep => (h c hc).1 (hseps c hsep)

theorem trim : Text.trim name = name := by
  have hspace : ∀ c ∈ name.toList, Text.whitespace c = false := fun c hc => (h c hc).2
  rw [Text.trim, dropWhile_eq_self hspace, rdropWhile_eq_self hspace, String.ofList_toList]

theorem not_contains : contains "://" name = false := by
  by_contra hcontains
  rw [Bool.not_eq_false] at hcontains
  obtain ⟨tail, htail, hprefix⟩ := List.any_eq_true.1 hcontains
  have hmem : ':' ∈ tail := (List.isPrefixOf_iff_prefix.1 hprefix).subset (by decide)
  exact (h ':' (((List.mem_tails _ _).1 htail).subset hmem)).1 (by decide)

theorem compact : Query.compact name = name := by
  have hquote : ∀ c ∈ name.toList, (c == '"') = false := fun c hc =>
    beq_eq_false_iff_ne.2 fun heq => (h c hc).1 (by simp [heq])
  have htrim : trimMatches '"' (decode (Text.trim name)) = name := by
    rw [h.trim, decode_of_plain (fun hc => (h _ hc).1 (by decide)) fun hc => (h _ hc).1 (by decide),
      trimMatches, dropWhile_eq_self hquote, rdropWhile_eq_self hquote, String.ofList_toList]
  have hsplit : Text.splitAny ['/', '#'] name = [name] := h.splitAny (by simp)
  unfold Query.compact
  simp only [htrim, hsplit, h.not_contains, List.getLast?_singleton, Bool.false_eq_true, false_and,
    if_false]

theorem headOf : Query.headOf name = name := by
  rw [Query.headOf, h.compact, h.splitAny (by simp), List.headD_cons, h.trim]

theorem dropBangs : Query.dropBangs name = name := by
  rw [Query.dropBangs, dropWhile_eq_self fun c hc => beq_eq_false_iff_ne.2 fun heq =>
    (h c hc).1 (by simp [heq]), String.ofList_toList]

end PlainName

/-- A plain name is read as the term it is. -/
theorem readAs_plain {name : String} (h : PlainName name) (param : String) :
    readAs param name = name ∧ termOf param name = name := by
  constructor
  · unfold readAs
    rw [h.dropBangs, h.headOf, h.compact]
    split_ifs <;> rfl
  · have hdirection : directionless name = name := by
      have htake : name.toList.takeWhile (· != ';') = name.toList :=
        List.takeWhile_eq_self_iff.2 fun c hc => bne_iff_ne.2 fun heq => (h c hc).1 (by simp [heq])
      rw [directionless, h.dropBangs, htake, String.ofList_toList]
    have hpath : Text.splitAny ['.', '['] name = [name] := h.splitAny (by simp)
    have hcolon : Text.splitAny [':'] name = [name] := h.splitAny (by simp)
    unfold termOf
    simp only [hdirection, ite_self, h.not_contains, Bool.false_eq_true, if_false, afterLast, hpath,
      hcolon, List.headD_cons, List.getLastD_cons, List.getLastD_nil]

/-! ## Completeness -/

theorem forwards_of_mem (crates : Crates) {params : List (String × String)} {name value : String}
    (h : (name, value) ∈ params) (hname : name ∈ viewSelectors) :
    Forwards crates params (name, value) := by
  refine Or.inl ⟨[], ?_⟩
  rw [viewRead, parse_render, viewParams]
  exact List.mem_append_left _ (List.mem_append_right _ (List.mem_filter.2 ⟨h, by simpa using hname⟩))

theorem mem_selectors_of_namesIn {crates : Crates} {pair : String × String} {name : String}
    (h : name ∈ namesIn crates pair) : pair.1 ∈ "q" :: listSelectors := by
  unfold namesIn at h
  split_ifs at h with hq _ hlist
  · rw [hq]
    exact List.mem_cons_self
  · exact absurd h (Finset.notMem_empty _)
  · exact List.mem_cons_of_mem _ hlist
  · exact absurd h (Finset.notMem_empty _)

/-- What a first value names in a spelling that is read as its term is named. -/
theorem named_of_first {crates : Crates} {params : List (String × String)}
    {pair : String × String} {a read : String} (hselects : SelectsBy crates params pair a read)
    (hfirst : first params pair.1 = some pair.2) (hread : read = a) : Named crates params a := by
  cases hselects with
  | name _ hname _ =>
    exact Or.inl ⟨pair.1, mem_selectors_of_namesIn hname, pair.2, hfirst, _, hname, hread⟩
  | location _ hgeo _ hnone =>
    refine Or.inr (Or.inr ⟨rfl, joined_ne_none hgeo hfirst, ?_⟩)
    by_contra hsome
    obtain ⟨value, hvalue⟩ := Option.ne_none_iff_exists'.1 hsome
    obtain ⟨hmem, hne⟩ := first_eq_some hvalue
    exact hne (hnone value (forwards_of_mem crates hmem (by decide)))

/-- A plain name of a first value is referenced as it is written. -/
theorem referenced_of_plain {crates : Crates} {params : List (String × String)}
    {param value name : String} (hfirst : first params param = some value)
    (hname : name ∈ namesIn crates (param, value)) (hplain : PlainName name) (hne : name ≠ "") :
    name ∈ referencedAttributes crates params :=
  mem_referencedAttributes.2 ⟨hne, Or.inl ⟨param, mem_selectors_of_namesIn hname, value, hfirst,
    name, hname, (readAs_plain hplain param).1⟩⟩

/-- The references are complete exactly if whatever is named only past the first value of its
parameter, or only in a spelling that is not read as its term, is named properly as well. -/
theorem referenced_complete_iff (crates : Crates) (query : String) :
    (∀ pair a read, SelectsBy crates (parse query) pair a read →
      a ∈ referencedAttributes crates (parse query)) ↔
    ∀ pair a read, SelectsBy crates (parse query) pair a read →
      first (parse query) pair.1 ≠ some pair.2 ∨ read ≠ a → Named crates (parse query) a := by
  constructor
  · intro h pair a read hselects _
    exact (mem_referencedAttributes.1 (h pair a read hselects)).2
  · intro h pair a read hselects
    have hne : a ≠ "" := by
      cases hselects with
      | name _ _ hterm => exact hterm
      | location _ _ _ _ => decide
    refine mem_referencedAttributes.2 ⟨hne, ?_⟩
    by_cases hproper : first (parse query) pair.1 = some pair.2 ∧ read = a
    · exact named_of_first hselects hproper.1 hproper.2
    · exact h pair a read hselects (not_and_or.1 hproper)

/-- An order with a direction refers to nothing the decision knows. -/
theorem not_referenced_complete :
    ¬∀ (crates : Crates) (query : String) (pair : String × String) (a read : String),
      SelectsBy crates (parse query) pair a read →
        a ∈ referencedAttributes crates (parse query) := by
  intro h
  have hparse : parse "orderBy=capacity%3Bdesc" = [("orderBy", "capacity;desc")] := by decide
  have hterm : termOf "orderBy" "capacity;desc" = "capacity" := by decide
  have hcomplete := h bareCrates "orderBy=capacity%3Bdesc"
  rw [hparse] at hcomplete
  have hforwards : Forwards bareCrates [("orderBy", "capacity;desc")] ("orderBy", "capacity;desc") :=
    forwards_of_mem _ (List.mem_singleton_self _) (by decide)
  have hname : "capacity;desc" ∈ namesIn bareCrates ("orderBy", "capacity;desc") := by decide
  have hne : termOf "orderBy" "capacity;desc" ≠ "" := by
    rw [hterm]
    decide
  have hmem : termOf "orderBy" "capacity;desc" ∈
      referencedAttributes bareCrates [("orderBy", "capacity;desc")] :=
    hcomplete _ _ _ (SelectsBy.name hforwards hname hne)
  rw [hterm] at hmem
  exact absurd hmem (by decide)

end JoinedContext.Query
