import JoinedContext.Core.Urn
import JoinedContext.Jcctl.Windows
import JoinedContext.Library.Interpolate
import JoinedContext.Library.Numeral
import JoinedContext.Query.Referenced

/-!
# The query of a derived pipeline

A derived pipeline reads its source through a URL it renders from its manifest. The runner fills in
the instant of a window, and the gateway reads the query back: every value is read as it was
written. The gateway trims the names of a list and drops the empty ones, so a list keeps its names
only where it has none to trim or drop.
-/

namespace JoinedContext.Jcctl.Derived

section Render

/-- One page of a source query. -/
def PAGE_LIMIT : ℕ := 1000

/-- What a pipeline reads, its ids those that were read from a manifest. -/
structure SourceQuery where
  entityType : Option String
  attrs : List String
  ids : List Urn
  q : Option String
  scopeQ : Option String
  geoQ : Option String
  temporalQ : Option String
  ids_ok : ∀ id ∈ ids, ∃ text, Urn.parse text = .ok id

inductive KindError where
  | name (e : Names.NameError)
  | kind (expected got : String)
deriving DecidableEq

/-- What is checked of the query of a source. -/
def SourceQuery.validate (query : SourceQuery) : Except KindError Unit :=
  match query.entityType.map Names.validateEntityType with
  | some (.error e) => .error (.name e)
  | _ =>
    match query.ids.find? fun id => ',' ∈ id.id.toList with
    | some listed =>
      .error (.kind "query.ids without a comma, the separator of the id list" listed.toString)
    | none =>
      match query.entityType.bind fun t => query.ids.find? fun id => id.entityType ≠ t with
      | some other =>
        .error (.kind "query.type" (other.entityType ++ " in query.ids (" ++ other.toString ++ ")"))
      | none => .ok ()

/-- The source Endpoint's tree, a URL without a query, a fragment or a variable. -/
structure DerivedContext where
  sourceUrl : String
  plain : ∀ c ∈ sourceUrl.toList, c ∉ ['?', '#', '$']

inductive DerivedError where
  | badWindow (window : String)
  | badAttribute (name : String)
deriving DecidableEq

structure Fetch where
  url : String
  verb : String
  accept : String
  authorization : String
deriving DecidableEq

def componentByte (b : ℕ) : List Char :=
  if Query.unreserved b || b == 0x3A then [Char.ofNat b]
  else ['%', Url.hexDigit (b / 16), Url.hexDigit (b % 16)]

/-- One query-string component: the unreserved characters and `:` left alone, every other byte
percent-encoded. -/
def component (value : String) : String :=
  String.ofList ((Text.utf8Bytes value).flatMap componentByte)

/-- The instant so many seconds before now, which the runner computes. -/
def instantText (seconds : ℕ) : String :=
  "$\x7b! (now().ts_unix() - " ++ toString seconds ++ ").ts_format(\"2006-01-02T15:04:05Z\") \x7d"

/-- A parameter of a list, when it has items. -/
def listParam (name : String) (items : List String) : Option String :=
  if items = [] then none else some (name ++ "=" ++ Text.join "," (items.map component))

/-- The parameters of a query and, with a window, the instant it begins at. -/
def params (query : SourceQuery) (instant : Option String) : List String :=
  [query.entityType.map fun value => "type" ++ "=" ++ component value,
    listParam "attrs" query.attrs,
    listParam "id" (query.ids.map Urn.toString),
    query.q.map fun value => "q" ++ "=" ++ component value,
    query.scopeQ.map fun value => "scopeQ" ++ "=" ++ component value,
    query.geoQ.map fun value => "geoQ" ++ "=" ++ component value,
    instant.map fun _ => "timerel" ++ "=" ++ "after",
    instant.map fun instant => "timeAt" ++ "=" ++ instant,
    some ("limit" ++ "=" ++ toString PAGE_LIMIT)].filterMap id

def fetchUrl (context : DerivedContext) (path : String) (params : List String) : String :=
  context.sourceUrl ++ "/" ++ path ++ "?" ++ Text.join "&" params

def fetchOf (context : DerivedContext) (path : String) (params : List String) : Fetch where
  url := fetchUrl context path params
  verb := "GET"
  accept := "application/ld+json"
  authorization := "Bearer $\x7bSERVICE_ACCOUNT_TOKEN\x7d"

def querySource (query : SourceQuery) (context : DerivedContext) : Except DerivedError Fetch :=
  match query.attrs.find? fun name => ',' ∈ name.toList with
  | some name => .error (.badAttribute name)
  | none =>
    match query.temporalQ with
    | none => .ok (fetchOf context "entities" (params query none))
    | some window =>
      match Windows.windowSeconds window with
      | .error _ => .error (.badWindow window)
      | .ok seconds =>
        .ok (fetchOf context "temporal/entities" (params query (some (instantText seconds))))

end Render

section Property

/-- The runner at a moment: it fills the instant of a window in, where it can compute it, and
keeps every other text. -/
structure Runner where
  instant : ℕ → Option String
  fill : String → Option String
  plain : ∀ n text, instant n = some text →
    ∀ c ∈ text.toList, c.isDigit = true ∨ c ∈ ['-', ':', 'T', 'Z']
  fill_plain : ∀ text, '$' ∉ text.toList → fill text = some text
  fill_instant : ∀ before after n, '$' ∉ before.toList → '$' ∉ after.toList →
    fill (before ++ instantText n ++ after) = (instant n).map fun text => before ++ text ++ after

/-- The query of a URL: what is behind its `?` and before a fragment. -/
def queryText (url : String) : String :=
  String.ofList ((Url.cut '?' (Url.cut '#' url.toList).1).2.getD [])

namespace SourceQuery

variable (query : SourceQuery)

/-- When a window begins, as the runner computes it. -/
def time (runner : Runner) : Option String :=
  query.temporalQ.bind fun window => (Windows.windowSeconds window).toOption.bind runner.instant

def listValue (items : List String) : Option String :=
  if items = [] then none else some (Text.join "," items)

/-- The parameters a manifest asks for, each with its exact value. -/
def asked (time : Option String) : List (String × String) :=
  [query.entityType.map ("type", ·), (listValue query.attrs).map ("attrs", ·),
    (listValue (query.ids.map Urn.toString)).map ("id", ·), query.q.map ("q", ·),
    query.scopeQ.map ("scopeQ", ·), query.geoQ.map ("geoQ", ·),
    time.map fun _ => ("timerel", "after"), time.map ("timeAt", ·),
    some ("limit", "1000")].filterMap id

end SourceQuery

/-- Whether a query reaches the gateway as it was written: whatever the environment, the gateway
reads the parameters the manifest asks for, and the names and ids of its lists. -/
structure AsWritten (runner : Runner) (query : SourceQuery) (url : String) : Prop where
  sent : ∀ env sent, runner.fill (Interpolate.expand env url) = some sent →
    Query.parse (queryText sent) = query.asked (query.time runner)
  attrs : Query.splitList (Query.first (query.asked (query.time runner)) "attrs") =
    query.attrs.toFinset
  ids : Query.splitList (Query.first (query.asked (query.time runner)) "id") =
    (query.ids.map Urn.toString).toFinset

end Property

section Component

variable {value : String} {c : Char}

theorem char_of_unreserved : ∀ b < 128, Query.unreserved b = true →
    (Char.ofNat b).isAlphanum = true ∨ Char.ofNat b ∈ ['-', '_', '.', '~'] := by decide

theorem isAlphanum_hexDigit : ∀ n < 16, (Url.hexDigit n).isAlphanum = true := by decide

/-- What a component is written with. -/
def ComponentChar (c : Char) : Prop := c.isAlphanum = true ∨ c ∈ ['-', '_', '.', '~', ':', '%']

theorem componentChar_of_mem_componentByte {b : ℕ} (hb : b < 256) (hc : c ∈ componentByte b) :
    ComponentChar c := by
  unfold componentByte at hc
  split_ifs at hc with hplain
  · obtain rfl := List.mem_singleton.1 hc
    rw [Bool.or_eq_true, beq_iff_eq] at hplain
    rcases hplain with hplain | rfl
    · refine (char_of_unreserved b (Query.lt_of_unreserved hplain) hplain).imp_right fun h => ?_
      simp only [List.mem_cons, List.not_mem_nil, or_false] at h ⊢
      tauto
    · exact Or.inr (by decide)
  · simp only [List.mem_cons, List.not_mem_nil, or_false] at hc
    rcases hc with rfl | rfl | rfl
    · exact Or.inr (by decide)
    · exact Or.inl (isAlphanum_hexDigit _ (by omega))
    · exact Or.inl (isAlphanum_hexDigit _ (by omega))

theorem componentChar_of_mem (hc : c ∈ (component value).toList) : ComponentChar c := by
  rw [component, String.toList_ofList] at hc
  obtain ⟨b, hb, hc⟩ := List.mem_flatMap.1 hc
  exact componentChar_of_mem_componentByte (Text.lt_of_mem_utf8Bytes hb) hc

theorem ComponentChar.graphic (h : ComponentChar c) : 0x20 < c.toNat ∧ c.toNat < 0x7F := by
  rcases h with h | h
  · exact Text.toNat_of_isAlphanum h
  · exact Text.graphic_of_mem (by decide) h

theorem decodeBytes_componentByte {b : ℕ} (hb : b < 256) (rest : List ℕ) :
    Query.decodeBytes ((componentByte b).map Char.toNat ++ rest) = b :: Query.decodeBytes rest := by
  by_cases hcolon : b = 0x3A
  · subst hcolon
    exact Query.decodeBytes_cons (by decide) rest
  · have hbyte : componentByte b = Query.encodeByte b := by
      unfold componentByte Query.encodeByte
      simp [hcolon]
    rw [hbyte, Query.decodeBytes_encodeByte hb]

theorem utf8Bytes_component (value : String) : Text.utf8Bytes (component value) =
    ((Text.utf8Bytes value).flatMap componentByte).map Char.toNat := by
  refine Text.utf8Bytes_ascii fun c hc => ?_
  obtain ⟨b, hb, hc⟩ := List.mem_flatMap.1 hc
  have hchar := componentChar_of_mem_componentByte (Text.lt_of_mem_utf8Bytes hb) hc
  exact hchar.graphic.2.trans (by decide)

theorem decodeBytes_component (value : String) (rest : List ℕ) :
    Query.decodeBytes (Text.utf8Bytes (component value) ++ rest) =
      Text.utf8Bytes value ++ Query.decodeBytes rest := by
  have hbytes : ∀ b ∈ Text.utf8Bytes value, b < 256 := fun b => Text.lt_of_mem_utf8Bytes
  rw [utf8Bytes_component]
  generalize Text.utf8Bytes value = bytes at hbytes
  induction bytes with
  | nil => rfl
  | cons b bytes ih =>
    rw [List.forall_mem_cons] at hbytes
    rw [List.flatMap_cons, List.map_append, List.append_assoc, decodeBytes_componentByte hbytes.1,
      ih hbytes.2, List.cons_append]

theorem decode_component (value : String) : Query.decode (component value) = value := by
  have h := decodeBytes_component value []
  rw [List.append_nil, show Query.decodeBytes [] = [] from rfl, List.append_nil] at h
  rw [Query.decode, h, Text.fromUtf8Lossy_utf8Bytes]

theorem decodeBytes_join : ∀ (items : List String), Query.decodeBytes (Text.utf8Bytes
    (Text.join "," (items.map component))) = Text.utf8Bytes (Text.join "," items)
  | [] => rfl
  | [item] => by
    have h := decodeBytes_component item []
    rwa [List.append_nil, show Query.decodeBytes [] = [] from rfl, List.append_nil] at h
  | item :: next :: items => by
    have ih := decodeBytes_join (next :: items)
    have hcomma : Text.utf8Bytes "," = [0x2C] := by decide
    rw [List.map_cons, List.map_cons, Text.join_cons_cons, Text.join_cons_cons, ← List.map_cons,
      Text.utf8Bytes_append, Text.utf8Bytes_append, Text.utf8Bytes_append, Text.utf8Bytes_append,
      hcomma, List.append_assoc, List.append_assoc, decodeBytes_component, List.singleton_append,
      Query.decodeBytes_cons (by decide), ih]
    rfl

theorem decode_join (items : List String) :
    Query.decode (Text.join "," (items.map component)) = Text.join "," items := by
  rw [Query.decode, decodeBytes_join, Text.fromUtf8Lossy_utf8Bytes]

end Component

section Parameters

variable {name value text : String} {items : List String} {query : SourceQuery} {instant : String}

/-- A text that ends no parameter and no query and begins no variable. -/
def Plain (text : String) : Prop := ∀ c ∈ text.toList, c ∉ ['&', '#', '$', '?']

instance (text : String) : Decidable (Plain text) :=
  decidable_of_iff ((text.toList.all fun c => decide (c ∉ ['&', '#', '$', '?'])) = true) (by
    unfold Plain
    simp only [List.all_eq_true, decide_eq_true_eq])

theorem Plain.append (h : Plain text) (h' : Plain value) : Plain (text ++ value) := fun c hc => by
  rw [String.toList_append] at hc
  exact (List.mem_append.1 hc).elim (h c) (h' c)

theorem plain_component (value : String) : Plain (component value) := by
  intro c hc hmem
  have hchar := componentChar_of_mem hc
  simp only [List.mem_cons, List.not_mem_nil, or_false] at hmem
  rcases hmem with rfl | rfl | rfl | rfl <;> exact absurd hchar (by unfold ComponentChar; decide)

theorem plain_join {sep : String} (hsep : Plain sep) (h : ∀ item ∈ items, Plain item) :
    Plain (Text.join sep items) := fun c hc => by
  rcases Text.mem_of_mem_join hc with hc | ⟨item, hitem, hc⟩
  · exact hsep c hc
  · exact h item hitem c hc

theorem plain_items (items : List String) : Plain (Text.join "," (items.map component)) := by
  refine plain_join (by decide) fun item hitem => ?_
  obtain ⟨value, -, rfl⟩ := List.mem_map.1 hitem
  exact plain_component value

theorem plain_of_instant {runner : Runner} {n : ℕ} (h : runner.instant n = some text) :
    Plain text := by
  intro c hc hmem
  have hchar := runner.plain n text h c hc
  simp only [List.mem_cons, List.not_mem_nil, or_false] at hmem
  rcases hmem with rfl | rfl | rfl | rfl <;> exact absurd hchar (by decide)

theorem decode_of_instant {runner : Runner} {n : ℕ} (h : runner.instant n = some text) :
    Query.decode text = text := by
  refine Query.decode_of_plain (fun hc => ?_) fun hc => ?_
  · exact absurd (runner.plain n text h _ hc) (by decide)
  · exact absurd (runner.plain n text h _ hc) (by decide)

/-- One parameter is read as its name and its value. -/
theorem parse_pair (hname : Plain name) (hequals : '=' ∉ name.toList) (hvalue : Plain value) :
    Query.parse (name ++ "=" ++ value) = [(Query.decode name, Query.decode value)] := by
  have hplain : Plain (name ++ "=" ++ value) :=
    (hname.append (by decide)).append hvalue
  have hsplit : Text.splitAny ['&'] (name ++ "=" ++ value) = [name ++ "=" ++ value] :=
    Text.splitAny_eq_singleton fun c hc hsep => hplain c hc (by
      rw [List.mem_singleton.1 hsep]
      decide)
  have hne : name ++ "=" ++ value ≠ "" := fun h => by
    have hlist := congrArg String.toList h
    rw [String.toList_append, String.toList_append] at hlist
    simp at hlist
  have hfilter : [name ++ "=" ++ value].filter (· ≠ "") = [name ++ "=" ++ value] :=
    List.filter_cons_of_pos (decide_eq_true hne)
  unfold Query.parse
  rw [hsplit, hfilter, List.map_cons, List.map_nil, Query.splitOnce_equals hequals]

/-- Parameters that end none are read one by one. -/
theorem parse_join {texts : List String} (hne : texts ≠ []) (h : ∀ text ∈ texts, Plain text) :
    Query.parse (Text.join "&" texts) = texts.flatMap Query.parse := by
  have hsep : ∀ text ∈ texts, '&' ∉ text.toList := fun text htext hc =>
    h text htext _ hc (by decide)
  have hone : ∀ text ∈ texts, Text.splitAny ['&'] text = [text] := fun text htext =>
    Text.splitAny_eq_singleton fun c hc hmem => hsep text htext (by
      rwa [List.mem_singleton.1 hmem] at hc)
  have hsplit : Text.splitAny ['&'] (Text.join "&" texts) = texts := Text.splitAny_join hne hsep
  obtain ⟨read, hread⟩ : ∃ read : String → String × String, ∀ query, Query.parse query =
      ((Text.splitAny ['&'] query).filter (· ≠ "")).map read := ⟨_, fun _ => rfl⟩
  have heach : texts.flatMap Query.parse =
      texts.flatMap fun text => ([text].filter (· ≠ "")).map read :=
    List.flatMap_congr fun text htext => by rw [hread, hone text htext]
  rw [hread, hsplit, heach]
  clear hsplit heach hone hsep h hne
  induction texts with
  | nil => rfl
  | cons text texts ih =>
    rw [List.flatMap_cons, ← ih, ← List.map_append, ← List.filter_append, List.singleton_append]

/-- Parameters read one by one, those that are absent left out on both sides. -/
theorem flatMap_filterMap_id {f : String → List (String × String)} :
    ∀ {texts : List (Option String)} {pairs : List (Option (String × String))},
      List.Forall₂ (fun text pair => text.toList.flatMap f = pair.toList) texts pairs →
        (texts.filterMap id).flatMap f = pairs.filterMap id
  | [], [], .nil => rfl
  | none :: texts, pair :: pairs, .cons h hrest => by
    have hpair : pair = none := by simpa using h
    subst hpair
    have ih := flatMap_filterMap_id hrest
    simpa using ih
  | some text :: texts, pair :: pairs, .cons h hrest => by
    have ih := flatMap_filterMap_id hrest
    cases pair with
    | none =>
      have hnil : f text = [] := by simpa using h
      simpa [hnil] using ih
    | some pair =>
      have hone : f text = [pair] := by simpa using h
      simpa [hone] using ih

theorem parse_component (hname : Plain name) (hequals : '=' ∉ name.toList)
    (hdecode : Query.decode name = name) (value : Option String) :
    (value.map fun value => name ++ "=" ++ component value).toList.flatMap Query.parse =
      (value.map (name, ·)).toList := by
  cases value with
  | none => rfl
  | some value =>
    show Query.parse _ ++ [] = [_]
    rw [parse_pair hname hequals (plain_component value), hdecode, decode_component,
      List.append_nil]

theorem parse_listParam (hname : Plain name) (hequals : '=' ∉ name.toList)
    (hdecode : Query.decode name = name) (items : List String) :
    (listParam name items).toList.flatMap Query.parse =
      ((SourceQuery.listValue items).map (name, ·)).toList := by
  unfold listParam SourceQuery.listValue
  split_ifs
  · rfl
  · show Query.parse _ ++ [] = [_]
    rw [parse_pair hname hequals (plain_items items), hdecode, decode_join, List.append_nil]

theorem plain_of_mem_params {instant : Option String} (h : ∀ t ∈ instant, Plain t) :
    ∀ text ∈ params query instant, Plain text := by
  have hname : ∀ name ∈ ["type", "attrs", "id", "q", "scopeQ", "geoQ", "timerel", "timeAt", "limit",
      "="], Plain name := by decide
  have hcomponent : ∀ (name : String) (value : Option String), Plain name →
      ∀ text ∈ value.map fun value => name ++ "=" ++ component value, Plain text := by
    intro name value hname' text htext
    obtain ⟨value, -, rfl⟩ := Option.map_eq_some_iff.1 htext
    exact (hname'.append (hname "=" (by decide))).append (plain_component value)
  have hlist : ∀ (name : String) (items : List String), Plain name →
      ∀ text ∈ listParam name items, Plain text := by
    intro name items hname' text htext
    unfold listParam at htext
    split_ifs at htext
    · cases htext
    · obtain rfl := Option.some.inj htext
      exact (hname'.append (hname "=" (by decide))).append (plain_items items)
  intro text htext
  obtain ⟨option, hmem, hoption⟩ := List.mem_filterMap.1 htext
  have hin : text ∈ option := hoption
  simp only [List.mem_cons, List.not_mem_nil, or_false] at hmem
  rcases hmem with rfl | rfl | rfl | rfl | rfl | rfl | rfl | rfl | rfl
  · exact hcomponent _ _ (hname _ (by decide)) text hin
  · exact hlist _ _ (hname _ (by decide)) text hin
  · exact hlist _ _ (hname _ (by decide)) text hin
  · exact hcomponent _ _ (hname _ (by decide)) text hin
  · exact hcomponent _ _ (hname _ (by decide)) text hin
  · exact hcomponent _ _ (hname _ (by decide)) text hin
  · obtain ⟨t, -, rfl⟩ := Option.map_eq_some_iff.1 hin
    decide
  · obtain ⟨t, ht, rfl⟩ := Option.map_eq_some_iff.1 hin
    exact ((hname "timeAt" (by decide)).append (hname "=" (by decide))).append (h t ht)
  · obtain rfl := Option.some.inj hin
    decide

/-- The parameters are read as the manifest asks for them. -/
theorem parse_params {instant : Option String}
    (h : ∀ t ∈ instant, Plain t ∧ Query.decode t = t) :
    Query.parse (Text.join "&" (params query instant)) = query.asked instant := by
  have hne : params query instant ≠ [] := by
    have hlimit : "limit" ++ "=" ++ toString PAGE_LIMIT ∈ params query instant :=
      List.mem_filterMap.2 ⟨_, by simp, rfl⟩
    exact List.ne_nil_of_mem hlimit
  rw [parse_join hne (plain_of_mem_params fun t ht => (h t ht).1)]
  refine flatMap_filterMap_id ?_
  have hdecode : ∀ name ∈ ["type", "attrs", "id", "q", "scopeQ", "geoQ", "timeAt"],
      Plain name ∧ '=' ∉ name.toList ∧ Query.decode name = name := by decide +kernel
  have hcomponent : ∀ (name : String) (value : Option String),
      name ∈ ["type", "attrs", "id", "q", "scopeQ", "geoQ", "timeAt"] →
        (value.map fun value => name ++ "=" ++ component value).toList.flatMap Query.parse =
          (value.map (name, ·)).toList := fun name value hname =>
    parse_component (hdecode name hname).1 (hdecode name hname).2.1 (hdecode name hname).2.2 value
  have hlist : ∀ (name : String) (items : List String),
      name ∈ ["type", "attrs", "id", "q", "scopeQ", "geoQ", "timeAt"] →
        (listParam name items).toList.flatMap Query.parse =
          ((SourceQuery.listValue items).map (name, ·)).toList := fun name items hname =>
    parse_listParam (hdecode name hname).1 (hdecode name hname).2.1 (hdecode name hname).2.2 items
  refine .cons (hcomponent _ _ (by decide)) (.cons (hlist _ _ (by decide)) (.cons
    (hlist _ _ (by decide)) (.cons (hcomponent _ _ (by decide)) (.cons (hcomponent _ _ (by decide))
      (.cons (hcomponent _ _ (by decide)) (.cons ?_ (.cons ?_ (.cons ?_ .nil))))))))
  · cases instant with
    | none => rfl
    | some t =>
      show Query.parse ("timerel" ++ "=" ++ "after") ++ [] = [("timerel", "after")]
      decide +kernel
  · cases instant with
    | none => rfl
    | some t =>
      obtain ⟨hplain, hvalue⟩ := h t rfl
      obtain ⟨hname, hequals, hself⟩ := hdecode "timeAt" (by decide)
      show Query.parse _ ++ [] = [_]
      rw [parse_pair hname hequals hplain, hself, hvalue, List.append_nil]
  · show Query.parse ("limit" ++ "=" ++ toString PAGE_LIMIT) ++ [] = [("limit", "1000")]
    decide +kernel

end Parameters

section Sent

variable {context : DerivedContext} {query : SourceQuery} {path url : String} {runner : Runner}

theorem queryText_fetchUrl {texts : List String} (hpath : Plain path)
    (h : ∀ text ∈ texts, Plain text) :
    queryText (fetchUrl context path texts) = Text.join "&" texts := by
  have hjoin : '#' ∉ (Text.join "&" texts).toList := fun hc => by
    rcases Text.mem_of_mem_join hc with hc | ⟨text, htext, hc⟩
    · exact absurd hc (by decide)
    · exact h text htext _ hc (by decide)
  have hfront : ∀ c ∈ (context.sourceUrl ++ "/" ++ path).toList, c ≠ '?' ∧ c ≠ '#' := by
    intro c hc
    simp only [String.toList_append, List.mem_append] at hc
    rcases hc with (hc | hc) | hc
    · have hplain := context.plain c hc
      constructor <;> rintro rfl <;> exact hplain (by decide)
    · obtain rfl : c = '/' := by simpa using hc
      decide
    · have hplain := hpath c hc
      constructor <;> rintro rfl <;> exact hplain (by decide)
  have htext : (fetchUrl context path texts).toList =
      (context.sourceUrl ++ "/" ++ path).toList ++ '?' :: (Text.join "&" texts).toList := by
    unfold fetchUrl
    rw [String.toList_append, String.toList_append, List.append_assoc]
    rfl
  have hhash : '#' ∉ (fetchUrl context path texts).toList := by
    rw [htext, List.mem_append, List.mem_cons]
    rintro (hc | hc | hc)
    · exact (hfront _ hc).2 rfl
    · cases hc
    · exact hjoin hc
  unfold queryText
  rw [Url.cut_of_notMem hhash, htext, Url.cut_append fun hc => (hfront _ hc).1 rfl,
    Option.getD_some, String.ofList_toList]

theorem join_append_pair (front : List String) (a b : String) :
    Text.join "&" (front ++ [a, b]) = Text.join "&" (front ++ [""]) ++ a ++ "&" ++ b := by
  induction front with
  | nil => rfl
  | cons text front ih =>
    obtain ⟨next, rest, hnext⟩ : ∃ next rest, front ++ [a, b] = next :: rest :=
      List.exists_cons_of_ne_nil (by simp)
    obtain ⟨next', rest', hnext'⟩ : ∃ next rest, front ++ [""] = next :: rest :=
      List.exists_cons_of_ne_nil (by simp)
    rw [List.cons_append, List.cons_append, hnext, hnext', Text.join_cons_cons, Text.join_cons_cons,
      ← hnext, ← hnext', ih]
    simp only [String.append_assoc]

/-- A URL that is put together of plain parts holds no dollar. -/
theorem dollar_notMem_fetchUrl (hpath : Plain path) {pieces : List String}
    (h : ∀ text ∈ pieces, Plain text) : '$' ∉ (fetchUrl context path pieces).toList := by
  intro hc
  unfold fetchUrl at hc
  simp only [String.toList_append, List.mem_append] at hc
  rcases hc with (((hc | hc) | hc) | hc) | hc
  · exact context.plain _ hc (by decide)
  · exact absurd hc (by decide)
  · exact hpath _ hc (by decide)
  · exact absurd hc (by decide)
  · rcases Text.mem_of_mem_join hc with hc | ⟨text, htext, hc⟩
    · exact absurd hc (by decide)
    · exact h text htext _ hc (by decide)

/-- A URL with a window has its one variable sign where the instant stands. -/
theorem fetchUrl_window (hpath : Plain path) : ∃ before after, '$' ∉ before.toList ∧
    '$' ∉ after.toList ∧ ∀ instant,
      fetchUrl context path (params query (some instant)) = before ++ instant ++ after := by
  obtain ⟨front, hparams⟩ : ∃ front, ∀ instant, params query (some instant) =
      front ++ ["timeAt" ++ "=" ++ instant, "limit" ++ "=" ++ toString PAGE_LIMIT] := by
    refine ⟨[query.entityType.map fun value => "type" ++ "=" ++ component value,
      listParam "attrs" query.attrs, listParam "id" (query.ids.map Urn.toString),
      query.q.map fun value => "q" ++ "=" ++ component value,
      query.scopeQ.map fun value => "scopeQ" ++ "=" ++ component value,
      query.geoQ.map fun value => "geoQ" ++ "=" ++ component value,
      some ("timerel" ++ "=" ++ "after")].filterMap id, fun instant => ?_⟩
    have hlast : ["timeAt" ++ "=" ++ instant, "limit" ++ "=" ++ toString PAGE_LIMIT] =
        [some ("timeAt" ++ "=" ++ instant),
          some ("limit" ++ "=" ++ toString PAGE_LIMIT)].filterMap id := rfl
    rw [hlast, ← List.filterMap_append]
    rfl
  have hplain : ∀ text ∈ params query (some ""), Plain text :=
    plain_of_mem_params (by unfold Plain; simp)
  have hfront : ∀ text ∈ front, Plain text := fun text htext =>
    hplain text (hparams "" ▸ List.mem_append_left _ htext)
  have hbefore : ∀ text ∈ front ++ [""], Plain text := by
    intro text htext
    rcases List.mem_append.1 htext with htext | htext
    · exact hfront text htext
    · rw [List.mem_singleton.1 htext]
      exact fun c hc => by cases hc
  refine ⟨fetchUrl context path (front ++ [""]) ++ "timeAt" ++ "=",
    "&" ++ ("limit" ++ "=" ++ toString PAGE_LIMIT), fun hc => ?_, by decide, fun instant => ?_⟩
  · simp only [String.toList_append, List.mem_append] at hc
    rcases hc with (hc | hc) | hc
    · exact dollar_notMem_fetchUrl hpath hbefore hc
    · exact absurd hc (by decide)
    · exact absurd hc (by decide)
  · unfold fetchUrl
    rw [hparams, join_append_pair]
    simp only [String.append_assoc]

theorem literal_instantText {after : String} (h : '$' ∉ after.toList) (n : ℕ) :
    Interpolate.literal (instantText n ++ after) = true := by
  have hdigits : '$' ∉ (toString n).toList := fun hc =>
    absurd (Numeral.plain_of_mem_toString hc) (by decide)
  obtain ⟨rest, hrest, hnone⟩ : ∃ rest,
      instantText n ++ after = String.ofList ('$' :: '{' :: '!' :: rest) ∧ '$' ∉ rest := by
    refine ⟨(" (now().ts_unix() - " ++ toString n ++
      ").ts_format(\"2006-01-02T15:04:05Z\") \x7d" ++ after).toList, ?_, fun hc => ?_⟩
    · have hopen : ("$\x7b! (now().ts_unix() - ").toList =
          '$' :: '{' :: '!' :: (" (now().ts_unix() - ").toList := by decide
      refine String.toList_inj.1 ?_
      unfold instantText
      simp only [String.toList_ofList, String.toList_append, hopen, List.cons_append]
    · simp only [String.toList_append, List.mem_append] at hc
      rcases hc with ((hc | hc) | hc) | hc
      · exact absurd hc (by decide)
      · exact hdigits hc
      · exact absurd hc (by decide)
      · exact h hc
  rw [hrest]
  exact Interpolate.literal_cons rfl (by simpa using hnone)

/-- What the runner sends: the URL with the instant in its place. -/
theorem fill_window {n : ℕ} (hpath : Plain path) (env : String → Option String) :
    runner.fill (Interpolate.expand env
      (fetchUrl context path (params query (some (instantText n))))) =
      (runner.instant n).map fun t => fetchUrl context path (params query (some t)) := by
  obtain ⟨before, after, hbefore, hafter, hurl⟩ := @fetchUrl_window context query path hpath
  have hliteral : Interpolate.literal (before ++ instantText n ++ after) = true := by
    rw [String.append_assoc, Interpolate.literal_append hbefore, literal_instantText hafter]
  rw [hurl, Interpolate.expand_of_literal hliteral, runner.fill_instant _ _ _ hbefore hafter]
  simp only [hurl]

theorem fill_plain (hpath : Plain path) (env : String → Option String) :
    runner.fill (Interpolate.expand env (fetchUrl context path (params query none))) =
      some (fetchUrl context path (params query none)) := by
  have hdollar : '$' ∉ (fetchUrl context path (params query none)).toList :=
    dollar_notMem_fetchUrl hpath (plain_of_mem_params (by simp))
  rw [Interpolate.expand_of_literal (Interpolate.literal_of_notMem hdollar),
    runner.fill_plain _ hdollar]

end Sent

section Lists

variable {query : SourceQuery} {items : List String}

theorem first_cons_of_ne {name : String} {pair : Option (String × String)}
    (h : ∀ p ∈ pair, p.1 ≠ name) (rest : List (Option (String × String))) :
    Query.first ((pair :: rest).filterMap id) name = Query.first (rest.filterMap id) name := by
  cases pair with
  | none => rfl
  | some p =>
    show Option.map _ (List.find? _ (p :: rest.filterMap id)) = _
    rw [List.find?_cons_of_neg (by simp [h p rfl])]
    rfl

theorem first_cons_self (name : String) (value : Option String)
    (rest : List (Option (String × String))) :
    Query.first ((value.map (name, ·) :: rest).filterMap id) name =
      (value.filter (· ≠ "")).or (Query.first (rest.filterMap id) name) := by
  unfold Query.first
  cases value with
  | none => rfl
  | some v =>
    by_cases hv : v = ""
    · simp [hv, Option.filter_some]
    · simp [hv, Option.filter_some]

theorem first_attrs (query : SourceQuery) (time : Option String) :
    Query.first (query.asked time) "attrs" =
      (SourceQuery.listValue query.attrs).filter (· ≠ "") := by
  unfold SourceQuery.asked
  rw [first_cons_of_ne (by simp), first_cons_self]
  repeat rw [first_cons_of_ne (by simp)]
  exact Option.or_none

theorem first_id (query : SourceQuery) (time : Option String) :
    Query.first (query.asked time) "id" =
      (SourceQuery.listValue (query.ids.map Urn.toString)).filter (· ≠ "") := by
  unfold SourceQuery.asked
  rw [first_cons_of_ne (by simp), first_cons_of_ne (by simp), first_cons_self]
  repeat rw [first_cons_of_ne (by simp)]
  exact Option.or_none

/-- The items the gateway makes of a list: trimmed, and the empty ones dropped. -/
theorem splitList_listValue (hcomma : ∀ item ∈ items, ',' ∉ item.toList) :
    Query.splitList ((SourceQuery.listValue items).filter (· ≠ "")) =
      ((items.map Text.trim).filter (· ≠ "")).toFinset := by
  unfold SourceQuery.listValue
  split_ifs with hnil
  · rw [hnil]
    rfl
  · have hsplit : Text.splitAny [','] (Text.join "," items) = items :=
      Text.splitAny_join hnil hcomma
    by_cases hempty : Text.join "," items = ""
    · have hone : items = [""] := by
        rw [← hsplit, hempty]
        rfl
      rw [hone]
      decide +kernel
    · rw [Option.filter_some, if_pos (by simpa using hempty)]
      show (((Text.splitAny [','] (Text.join "," items)).map Text.trim).filter _).toFinset = _
      rw [hsplit]

/-- A list keeps its items where none is empty and none begins or ends with whitespace. -/
theorem splitList_eq_iff (hcomma : ∀ item ∈ items, ',' ∉ item.toList) :
    Query.splitList ((SourceQuery.listValue items).filter (· ≠ "")) = items.toFinset ↔
      ∀ item ∈ items, item ≠ "" ∧ Text.trim item = item := by
  rw [splitList_listValue hcomma]
  constructor
  · intro heq item hitem
    have hmem : item ∈ ((items.map Text.trim).filter (· ≠ "")).toFinset :=
      heq ▸ List.mem_toFinset.2 hitem
    obtain ⟨hmap, hne⟩ := List.mem_filter.1 (List.mem_toFinset.1 hmem)
    obtain ⟨source, -, rfl⟩ := List.mem_map.1 hmap
    exact ⟨of_decide_eq_true hne, Text.trim_trim source⟩
  · intro h
    have hmap : items.map Text.trim = items :=
      (List.map_congr_left fun item hitem => (h item hitem).2).trans (List.map_id _)
    have hfilter : items.filter (· ≠ "") = items :=
      List.filter_eq_self.2 fun item hitem => decide_eq_true (h item hitem).1
    rw [hmap, hfilter]

theorem comma_of_validate (h : query.validate = .ok ()) :
    ∀ id ∈ query.ids, ',' ∉ id.id.toList := by
  intro id hid
  unfold SourceQuery.validate at h
  split at h
  · cases h
  · split at h
    · cases h
    · next hfind =>
      simpa using List.find?_eq_none.1 hfind id hid

end Lists

section Reading

variable {runner : Runner} {query : SourceQuery} {context : DerivedContext} {fetch : Fetch}

theorem comma_of_querySource (h : querySource query context = .ok fetch) :
    ∀ name ∈ query.attrs, ',' ∉ name.toList := by
  intro name hname
  unfold querySource at h
  split at h
  · cases h
  · next hfind => simpa using List.find?_eq_none.1 hfind name hname

/-- Whatever the environment, the gateway reads the parameters the manifest asks for. -/
theorem parse_sent (h : querySource query context = .ok fetch) (env : String → Option String)
    {sent : String} (hsent : runner.fill (Interpolate.expand env fetch.url) = some sent) :
    Query.parse (queryText sent) = query.asked (query.time runner) := by
  have hentities : Plain "entities" := by decide
  have htemporal : Plain "temporal/entities" := by decide
  unfold querySource at h
  split at h
  · cases h
  · unfold SourceQuery.time
    split at h
    · next hnone =>
      cases h
      rw [show (fetchOf context "entities" (params query none)).url = fetchUrl context "entities"
        (params query none) from rfl, fill_plain hentities, Option.some.injEq] at hsent
      rw [← hsent, queryText_fetchUrl hentities (plain_of_mem_params (by simp)),
        parse_params (by simp), hnone]
      rfl
    · next window hwindow =>
      split at h
      · cases h
      · next n hn =>
        cases h
        rw [show (fetchOf context "temporal/entities" (params query (some (instantText n)))).url =
          fetchUrl context "temporal/entities" (params query (some (instantText n))) from rfl,
          fill_window htemporal, Option.map_eq_some_iff] at hsent
        obtain ⟨t, ht, rfl⟩ := hsent
        have hplain : ∀ u ∈ some t, Plain u ∧ Query.decode u = u := fun u hu => by
          obtain rfl := Option.some.inj hu
          exact ⟨plain_of_instant ht, decode_of_instant ht⟩
        rw [queryText_fetchUrl htemporal (plain_of_mem_params fun u hu => (hplain u hu).1),
          parse_params hplain, hwindow, Option.bind_some, hn]
        show _ = query.asked (runner.instant n)
        rw [ht]

theorem splitList_ids (h : query.validate = .ok ()) (time : Option String) :
    Query.splitList (Query.first (query.asked time) "id") =
      (query.ids.map Urn.toString).toFinset := by
  have hcomma : ∀ item ∈ query.ids.map Urn.toString, ',' ∉ item.toList := by
    intro item hitem hc
    obtain ⟨id, hid, rfl⟩ := List.mem_map.1 hitem
    obtain ⟨text, hparse⟩ := query.ids_ok id hid
    simp only [Urn.toString, String.toList_append, List.mem_append] at hc
    rcases hc with ((hc | hc) | hc) | hc
    · exact absurd hc (by decide)
    · have hvalid := (Urn.parse_eq_ok hparse).1
      exact absurd (Names.alphanum_of_validateEntityType hvalid _ hc) (by decide)
    · exact absurd hc (by decide)
    · exact comma_of_validate h id hid hc
  rw [first_id, (splitList_eq_iff hcomma).2]
  intro item hitem
  obtain ⟨id, hid, rfl⟩ := List.mem_map.1 hitem
  obtain ⟨text, hparse⟩ := query.ids_ok id hid
  refine ⟨fun hempty => ?_, Text.trim_eq_self fun c hc =>
    Text.whitespace_of_graphic (Urn.graphic_of_mem_toString hparse hc)⟩
  have hlist := congrArg String.toList hempty
  simp [Urn.toString] at hlist

/-- A rendered query reaches the gateway as it was written exactly when no attribute name in it is
empty or begins or ends with whitespace. -/
theorem asWritten_iff (runner : Runner) (hvalid : query.validate = .ok ())
    (h : querySource query context = .ok fetch) : AsWritten runner query fetch.url ↔
      ∀ name ∈ query.attrs, name ≠ "" ∧ Text.trim name = name := by
  have hattrs := splitList_eq_iff (comma_of_querySource h)
  constructor
  · intro hwritten
    rw [← hattrs, ← first_attrs query (query.time runner)]
    exact hwritten.attrs
  · intro hnames
    refine ⟨fun env sent hsent => parse_sent h env hsent, ?_, splitList_ids hvalid _⟩
    rw [first_attrs, hattrs]
    exact hnames

end Reading

section Instances

def expression (n : ℕ) : List Char :=
  ("\x7b! (now().ts_unix() - " ++ toString n ++ ").ts_format(\"2006-01-02T15:04:05Z\") ").toList

/-- A runner that evaluates the one expression of a text. -/
def Runner.ofEval (eval : List Char → Option String)
    (plain : ∀ expr text, eval expr = some text →
      ∀ c ∈ text.toList, c.isDigit = true ∨ c ∈ ['-', ':', 'T', 'Z']) : Runner where
  instant n := eval (expression n)
  fill text :=
    let (before, rest) := Url.cut '$' text.toList
    rest.elim (some text) fun rest =>
      let (expr, after) := Url.cut '}' rest
      (eval expr).map fun t => String.ofList before ++ t ++ String.ofList (after.getD [])
  plain n := plain (expression n)
  fill_plain text htext := by
    rw [Url.cut_of_notMem htext]
    rfl
  fill_instant before after n hbefore hafter := by
    have hbrace : '}' ∉ expression n := fun hc => by
      simp only [expression, String.toList_append, List.mem_append] at hc
      rcases hc with (hc | hc) | hc
      · exact absurd hc (by decide)
      · exact absurd (Numeral.plain_of_mem_toString hc) (by decide)
      · exact absurd hc (by decide)
    have htext : (before ++ instantText n ++ after).toList =
        before.toList ++ '$' :: (expression n ++ '}' :: after.toList) := by
      have hopen : ("$\x7b! (now().ts_unix() - ").toList =
          '$' :: ("\x7b! (now().ts_unix() - ").toList := by decide
      have hclose : (").ts_format(\"2006-01-02T15:04:05Z\") \x7d").toList =
          (").ts_format(\"2006-01-02T15:04:05Z\") ").toList ++ ['}'] := by decide
      unfold instantText expression
      simp only [String.toList_append, hopen, hclose, List.append_assoc, List.cons_append,
        List.nil_append]
    rw [htext, Url.cut_append hbefore]
    simp only [Option.elim_some, Url.cut_append hbrace, Option.getD_some, String.ofList_toList]

/-- The runner at the second of January 2026, asked for the day before. -/
def runner : Runner :=
  Runner.ofEval (fun expr => if expr = expression 86400 then some "2026-01-01T00:00:00Z" else none)
    fun expr text h c hc => by
      split_ifs at h
      obtain rfl := Option.some.inj h
      have hall : "2026-01-01T00:00:00Z".toList.all
          (fun c => c.isDigit || c ∈ ['-', ':', 'T', 'Z']) = true := by decide
      simpa using List.all_eq_true.1 hall c hc

def context : DerivedContext where
  sourceUrl := "https://bb.example.sk/api/endpoint/ep-air-quality/ngsi-ld/v1"
  plain c hc := by
    have hall : "https://bb.example.sk/api/endpoint/ep-air-quality/ngsi-ld/v1".toList.all
        (fun c => decide (c ∉ ['?', '#', '$'])) = true := by decide
    exact of_decide_eq_true (List.all_eq_true.1 hall c hc)

def airQuality (attrs : List String) : SourceQuery where
  entityType := some "AirQualityObserved"
  attrs := attrs
  ids := []
  q := some "pm10>50&limit=1#$\x7bTOKEN\x7d"
  scopeQ := none
  geoQ := none
  temporalQ := some "P1D"
  ids_ok := by simp

theorem asWritten_iff_day : ∃ fetch, querySource (airQuality ["pm10"]) context = .ok fetch ∧
    AsWritten runner (airQuality ["pm10"]) fetch.url := by
  refine ⟨_, rfl, (asWritten_iff runner rfl rfl).2 ?_⟩
  decide +kernel

/-- The gateway reads the attribute `pm10` where the manifest names another. -/
theorem space_trimmed : ¬ ∀ (runner : Runner) (query : SourceQuery) (context : DerivedContext)
    (fetch : Fetch), query.validate = .ok () → querySource query context = .ok fetch →
      AsWritten runner query fetch.url := by
  intro h
  have hwritten := (h runner (airQuality ["pm10 "]) context _ rfl rfl).attrs
  rw [first_attrs] at hwritten
  exact absurd hwritten (by decide +kernel)

end Instances

end JoinedContext.Jcctl.Derived
