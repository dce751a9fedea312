import JoinedContext.Sources.DataSource

/-!
# What is known of a checked data source

Each walk over a document, with what it has seen of the document when it refuses nothing, and from
them what is known of a spec that passes its checks.
-/

namespace JoinedContext.Sources

variable {checks : Checks} {own : List String} {files : String}

theorem elim_eq_ok {α : Type} {o : Option α} {f : α → Except Error Unit} :
    o.elim (.ok ()) f = .ok () ↔ ∀ a, o = some a → f a = .ok () := by
  rcases o with _ | a <;> simp

/-- A chain of refusals lets a value pass that none of them refuses. -/
theorem elim_refuse_eq_ok {o : Option String} {f : String → Except Error Unit}
    (hf : ∀ a, f a ≠ .ok ()) : o.elim (.ok ()) f = .ok () ↔ o = none := by
  rcases o with _ | a <;> simp [hf]

theorem refuseName_ne_ok {field value reason : String} : refuseName field value reason ≠ .ok () :=
  fun h => by cases h

theorem refuseInvalid_ne_ok {field reason : String} : refuseInvalid field reason ≠ .ok () :=
  fun h => by cases h

theorem onlyIf_eq_ok {c : Bool} {check : Except Error Unit} :
    onlyIf c check = .ok () ↔ (c = true → check = .ok ()) := by
  cases c <;> simp [onlyIf]

/-! ## The fields -/

/-- Every value a path leads to is collected. -/
theorem exists_of_fieldAt {path : List String} {v target : Value} (h : FieldAt path v target) :
    ∀ current, ∃ found, (found, target) ∈ collectSecretTargets path v current := by
  induction h with
  | here => exact fun current => ⟨current, by simp [collectSecretTargets]⟩
  | field hsuffix hget _ ih =>
    intro current
    simp only [collectSecretTargets, hsuffix, hget]
    exact ih _
  | @item key list path v items child target hsuffix hget hmem _ ih =>
    intro current
    simp only [collectSecretTargets, hsuffix, hget]
    obtain ⟨i, hi⟩ := List.mem_iff_getElem?.1 hmem
    obtain ⟨found, hfound⟩ := ih ((if current == "" then list else current ++ "." ++ list) ++ "[" ++
      toString i ++ "]")
    exact ⟨found, List.mem_flatMap.2 ⟨(child, i), List.mem_zipIdx_iff_getElem?.2 hi, hfound⟩⟩

/-! ## The strings -/

theorem lastKey_eq (path : String) : lastKey path =
    String.ofList ((path.toList.rtakeWhile (· ∉ ['.'])).takeWhile (· ∉ ['['])) := by
  rw [lastKey, List.headD_eq_head?_getD, Text.head?_splitAny, Text.getLast?_splitAny]
  simp

theorem lastKey_member (path key : String) : lastKey (path ++ "." ++ key) = lastKey key := by
  have hchars : (path ++ "." ++ key).toList = path.toList ++ '.' :: key.toList := by simp
  rw [lastKey_eq, lastKey_eq, hchars, Text.rtakeWhile_append_stop (by simp)]

theorem lastKey_item (path : String) (i : Nat) :
    lastKey (path ++ "[" ++ toString i ++ "]") = lastKey path := by
  have hchars : (path ++ "[" ++ toString i ++ "]").toList =
      path.toList ++ '[' :: (Nat.toDigits 10 i ++ [']']) := by simp
  have hplain : ∀ c ∈ '[' :: (Nat.toDigits 10 i ++ [']']), decide (c ∉ ['.']) = true := by
    intro c hc
    have hdot : c ≠ '.' := fun heq => by
      subst heq
      have hdigit : '.' ∈ Nat.toDigits 10 i := by simpa using hc
      exact absurd (Nat.isDigit_of_mem_toDigits (by decide) (by decide) hdigit) (by decide)
    simpa using hdot
  rw [lastKey_eq, lastKey_eq, hchars, Text.rtakeWhile_append_of_pos hplain,
    Text.takeWhile_append_stop (by simp)]

theorem stringsOf_subset_itemsOf {v : Value} {items : List Value} (h : v ∈ items) :
    ∀ path index, ∃ i : Nat,
      stringsOf (path ++ "[" ++ toString i ++ "]") v ⊆ itemsOf path index items := by
  induction items with
  | nil => cases h
  | cons w rest ih =>
    intro path index
    rcases List.mem_cons.1 h with rfl | h
    · exact ⟨index, by rw [itemsOf]; exact List.subset_append_left _ _⟩
    · obtain ⟨i, hi⟩ := ih h path (index + 1)
      exact ⟨i, by rw [itemsOf]; exact List.subset_append_of_subset_right _ hi⟩

theorem stringsOf_subset_membersOf {c : String × Value} {members : List (String × Value)}
    (h : c ∈ members) (path : String) :
    stringsOf (path ++ "." ++ c.1) c.2 ⊆ membersOf path members := by
  induction members with
  | nil => cases h
  | cons d rest ih =>
    rcases List.mem_cons.1 h with rfl | h
    · rw [membersOf]
      exact List.subset_append_left _ _
    · rw [membersOf]
      exact List.subset_append_of_subset_right _ (ih h)

/-- Every string is read, at a path that ends in the key it stands under. -/
theorem exists_of_hasString {key k s : String} {v : Value} (h : HasString key v k s) :
    ∀ path, lastKey path = lastKey key →
      ∃ found, (found, s) ∈ stringsOf path v ∧ lastKey found = lastKey k := by
  induction h with
  | here => exact fun path hpath => ⟨path, by simp [stringsOf], hpath⟩
  | item hmem _ ih =>
    intro path hpath
    obtain ⟨i, hi⟩ := stringsOf_subset_itemsOf hmem path 0
    obtain ⟨found, hfound, hkey⟩ := ih _ ((lastKey_item path i).trans hpath)
    exact ⟨found, by rw [stringsOf]; exact hi hfound, hkey⟩
  | member hmem _ ih =>
    intro path _
    obtain ⟨found, hfound, hkey⟩ := ih _ (lastKey_member path _)
    exact ⟨found, by rw [stringsOf]; exact stringsOf_subset_membersOf hmem path hfound, hkey⟩

/-! ## The variables -/

theorem takeWhile_of_reads {name rest : List Char} (hname : ∀ c ∈ name, inName c = true)
    (hrest : ∀ c, rest.head? = some c → inName c = false) :
    (name ++ rest).takeWhile inName = name := by
  rw [List.takeWhile_append_of_pos hname]
  cases rest with
  | nil => simp
  | cons c rest => rw [List.takeWhile_cons_of_neg (by simp [hrest c rfl]), List.append_nil]

/-- Where only known names are interpolated, and none of them holds a `$`, only these are read. -/
theorem mem_of_reads {known : List String} {text name : String}
    (hknown : ∀ n ∈ interpolatedIn text, n ∈ known) (hplain : ∀ n ∈ known, '$' ∉ n.toList)
    (h : Reads text name) : name ∈ known := by
  obtain ⟨rest, hsuffix, hname, hrest⟩ := h
  have hmem := mem_interpolatedIn (fun n hn => hplain n (hknown n hn)) hsuffix
  rw [takeWhile_of_reads hname hrest, String.ofList_toList] at hmem
  exact hknown name hmem

theorem dollar_notMem_of_envVarRe {cs : List Char} (h : envVarRe cs = true) : '$' ∉ cs := by
  intro hmem
  cases cs with
  | nil => cases hmem
  | cons c rest =>
    rw [envVarRe, Bool.and_eq_true, List.all_eq_true] at h
    rcases List.mem_cons.1 hmem with rfl | hmem
    · exact absurd h.1 (by decide)
    · exact absurd (h.2 '$' hmem) (by decide)

theorem envChar_of_mem_urlVariables : ∀ n ∈ URL_VARIABLES, n.toList.all envChar = true := by
  decide

theorem inName_of_mem_escape {cs : List Char} (h : ∀ c ∈ cs, inName c = true) :
    ∀ c ∈ cs.flatMap Value.escapeChar, inName c = true := by
  intro d hd
  obtain ⟨c, hc, hmem⟩ := List.mem_flatMap.1 hd
  rcases Value.mem_escapeChar hmem with rfl | rfl | rfl | halnum
  · exact h d hc
  · decide
  · decide
  · have hne : d ≠ '}' ∧ d ≠ ':' := ⟨fun heq => absurd (heq ▸ halnum) (by decide),
      fun heq => absurd (heq ▸ halnum) (by decide)⟩
    simpa [inName] using hne

/-- A typed connection whose text is not refused reads no variable but the permitted ones. -/
theorem mem_urlVariables_of_reads {v : Value} {text name : String} (htext : text ∈ v.texts)
    (h : refusedRunnerRead v.toText = none) (hreads : Reads text name) : name ∈ URL_VARIABLES := by
  obtain ⟨rest, ⟨lead, hlead⟩, hname, hrest⟩ := hreads
  obtain ⟨before, after, hquote⟩ := Value.quote_infix_toChars htext
  have hsuffix : ['$', '{'] ++ (name.toList.flatMap Value.escapeChar ++
      (rest.flatMap Value.escapeChar ++ '"' :: after)) <:+ v.toText.toList := by
    refine ⟨before ++ '"' :: lead.flatMap Value.escapeChar, ?_⟩
    rw [Value.toText, String.toList_ofList, ← hquote, Value.quote, Value.escape, ← hlead]
    simp [Value.escapeChar]
  obtain ⟨n, hn, later, heq⟩ := exists_of_refusedRunnerRead h hsuffix
  have henv := List.all_eq_true.1 (envChar_of_mem_urlVariables n hn)
  have hplain : ∀ c ∈ n.toList, inName c = true := fun c hc => by
    have hne : c ≠ '}' ∧ c ≠ ':' := ⟨fun heq => absurd (heq ▸ henv c hc) (by decide),
      fun heq => absurd (heq ▸ henv c hc) (by decide)⟩
    simpa [inName] using hne
  have hcut := congrArg (List.takeWhile inName) heq
  rw [takeWhile_of_reads hplain (by rintro c ⟨⟩; decide),
    List.takeWhile_append_of_pos (inName_of_mem_escape hname)] at hcut
  cases rest with
  | nil =>
    have hmem : '"' ∈ n.toList := by simp [← hcut, inName]
    exact absurd (henv '"' hmem) (by decide)
  | cons c rest =>
    have hstop : c = '}' ∨ c = ':' := by simpa [inName, Classical.or_iff_not_imp_left] using hrest c rfl
    have hescape : Value.escapeChar c = [c] := by rcases hstop with rfl | rfl <;> decide
    rw [List.flatMap_cons, hescape, List.singleton_append, List.cons_append,
      List.takeWhile_cons_of_neg (by simp [hrest c rfl]), List.append_nil] at hcut
    rw [Value.flatMap_escapeChar_eq fun hmem => absurd (henv '\\' (hcut ▸ hmem)) (by decide)] at hcut
    rwa [String.toList_inj.1 hcut]

/-! ## The inputs -/

theorem notMem_refusedInputs {field name : String} (h : refusedInput field name = .ok ()) :
    name ∉ REFUSED_INPUTS := by
  simpa [refusedInput] using h

/-- What the tree check has found of an input inside another one. -/
def Admitted (checks : Checks) (own : List String) (files : String) (x : Input) : Prop :=
  x.1 ∉ REFUSED_INPUTS ∧ validateInputTree checks own files x.1 x.2 = .ok ()

theorem admitted_of_validateMembers {name : String} : ∀ {members : List (String × Value)},
    validateMembers checks own files name members = .ok () →
      ∀ y ∈ members, y.1 ∉ ["label", "processors"] → Admitted checks own files y
  | [], _, y, hy, _ => by cases hy
  | (childName, childConfig) :: rest, h, y, hy, hkey => by
    rw [validateMembers, andThen_eq_ok, onlyIf_eq_ok] at h
    rcases List.mem_cons.1 hy with rfl | hy
    · have hchild := h.1 (by simpa using hkey)
      rw [andThen_eq_ok, andThen_eq_ok] at hchild
      exact ⟨notMem_refusedInputs hchild.2.1, hchild.2.2⟩
    · exact admitted_of_validateMembers h.2 y hy hkey

theorem validateMembers_of_validateItems {name : String} : ∀ {items : List Value},
    validateItems checks own files name items = .ok () →
      ∀ members, .obj members ∈ items → validateMembers checks own files name members = .ok ()
  | [], _, members, hmem => by cases hmem
  | v :: rest, h, members, hmem => by
    rw [validateItems, andThen_eq_ok] at h
    rcases List.mem_cons.1 hmem with rfl | hmem
    · rw [validateChild, andThen_eq_ok] at h
      exact h.1.2
    · exact validateMembers_of_validateItems h.2 members hmem

theorem validateChildren_of_validateNested {name field : String} {v : Value} :
    ∀ {members : List (String × Value)},
      validateNested checks own files name field members = .ok () →
        members.lookup field = some v → validateChildren checks own files name v = .ok ()
  | [], _, hlookup => by cases hlookup
  | (key, w) :: rest, h, hlookup => by
    rw [validateNested] at h
    rw [List.lookup_cons] at hlookup
    split_ifs at h with hkey
    · rw [hkey, beq_self_eq_true] at hlookup
      rwa [← Option.some.inj hlookup]
    · rw [beq_false_of_ne hkey] at hlookup
      exact validateChildren_of_validateNested h hlookup

/-- The tree check goes from an input to every input nested in it. -/
theorem admitted_child {x y : Input} (h : validateInputTree checks own files x.1 x.2 = .ok ())
    (hchild : Child x y) : Admitted checks own files y := by
  obtain ⟨members, hmem, hy, hkey⟩ := hchild
  refine admitted_of_validateMembers (?_ : validateMembers checks own files x.1 members = _) y hy hkey
  obtain ⟨name, config⟩ := x
  unfold nestedValues at hmem
  dsimp only at h hmem ⊢
  cases hwrapper : WRAPPER_INPUTS.lookup name with
  | none => simp [hwrapper] at hmem
  | some field =>
    rw [hwrapper, Option.bind_some] at hmem
    cases config with
    | obj fields =>
      rw [validateInputTree, andThen_eq_ok, andThen_eq_ok, elim_eq_ok] at h
      have hnested := h.2.2 field hwrapper
      rw [Value.get_obj] at hmem
      cases hlookup : fields.lookup field with
      | none => simp [hlookup] at hmem
      | some v =>
        have hchildren := validateChildren_of_validateNested hnested hlookup
        rw [hlookup] at hmem
        cases v with
        | arr items => exact validateMembers_of_validateItems hchildren members hmem
        | obj child =>
          obtain rfl := Value.obj.inj (List.mem_singleton.1 hmem)
          rw [validateChildren, andThen_eq_ok] at hchildren
          exact hchildren.2
        | null | bool | num | str => cases List.mem_singleton.1 hmem
    | null | bool | num | str | arr => simp [Value.get] at hmem

/-- Every input nested at any depth passes the tree check, and none but the outermost may be a
refused one. -/
theorem validateInputTree_of_nested {x y : Input}
    (h : validateInputTree checks own files x.1 x.2 = .ok ()) (hnested : Nested x y) :
    validateInputTree checks own files y.1 y.2 = .ok () ∧ (x.1 ∉ REFUSED_INPUTS → y.1 ∉ REFUSED_INPUTS) := by
  induction hnested with
  | refl => exact ⟨h, id⟩
  | tail _ hchild ih =>
    have := admitted_child ih.1 hchild
    exact ⟨this.2, fun _ => this.1⟩

theorem validateFiles_of_validateInputTree {x : Input}
    (h : validateInputTree checks own files x.1 x.2 = .ok ()) : validateFiles x files = .ok () := by
  obtain ⟨name, config⟩ := x
  cases config with
  | obj members =>
    rw [validateInputTree, andThen_eq_ok] at h
    exact h.1
  | null | bool | num | str | arr => simp [validateFiles, checkedFiles, Value.get, pure, Except.pure]

/-- The files an input is checked for lie below the folder. -/
theorem below_of_validateFiles {x : Input} (h : validateFiles x files = .ok ()) :
    ∀ c ∈ checkedFiles x, Below files c.2 := by
  intro c hc
  have hfile := forM_eq_ok.1 h c hc
  simpa [checkFilePath, Below] using hfile

/-! ## A whole spec -/

theorem refusedTarget_of_validateUrl {value field : String} {schemes : List String}
    (h : validateUrl value schemes field = .ok ()) : refusedTarget value = none := by
  rw [validateUrl, andThen_eq_ok, elim_refuse_eq_ok fun _ => refuseName_ne_ok] at h
  exact (Option.or_eq_none_iff.1 h.2).2

namespace DataSourceSpec

variable {spec : DataSourceSpec}

/-- The URLs of the typed connections. -/
def urls (spec : DataSourceSpec) : List String :=
  (spec.mqtt.map MqttConnection.urls).getD [] ++ (spec.http.map HttpConnection.url).toList ++
    (spec.webSocket.map WebSocketConnection.url).toList ++
    (spec.gtfsRt.map GtfsRtConnection.url).toList

/-- The block of a connection, as `type` names it. -/
def blockOf : DataSourceType → List String
  | .mqtt => ["mqtt"]
  | .http => ["http"]
  | .webSocket => ["webSocket"]
  | .gtfsRt => ["gtfsRt"]
  | .runner _ => []

theorem present_of_validateType (h : spec.validateType = .ok ()) :
    spec.present = blockOf spec.sourceType := by
  unfold validateType at h
  cases hsource : spec.sourceType with
  | mqtt | http | webSocket | gtfsRt =>
    simp only [hsource, validateTyped, onlyIf_refuseName, ne_eq, decide_eq_false_iff_not,
      Decidable.not_not] at h
    exact h
  | runner name =>
    simp only [hsource] at h
    rw [andThen_eq_ok, andThen_eq_ok, onlyIf_refuseName] at h
    simpa [blockOf] using h.2.2

theorem validateConnection_eq_ok {α : Type} {block : Option α} {validate : α → Except Error Unit}
    (h : spec.validateConnection block validate = .ok ()) :
    spec.input = none ∧ ∀ a, block = some a → validate a = .ok () := by
  rw [validateConnection, andThen_eq_ok, validateTypedCommon, andThen_eq_ok, elim_eq_ok] at h
  exact ⟨by simpa using h.1.1, h.2⟩

/-- The check of the connection the type names. -/
def validateLive (spec : DataSourceSpec) (checks : Checks) (files : String) : Except Error Unit :=
  match spec.sourceType with
  | .mqtt => spec.validateConnection spec.mqtt validateMqtt
  | .http => spec.validateConnection spec.http validateHttp
  | .webSocket => spec.validateConnection spec.webSocket validateWebSocket
  | .gtfsRt => spec.validateConnection spec.gtfsRt validateGtfsRt
  | .runner name => spec.validateRunner checks name files

theorem validateReadingFiles_eq_ok (h : spec.validateReadingFiles checks files = .ok ()) :
    spec.validateType = .ok () ∧ spec.blocks.forM validateBlock = .ok () ∧
      spec.validateLive checks files = .ok () := by
  rw [validateReadingFiles, andThen_eq_ok, andThen_eq_ok, andThen_eq_ok, andThen_eq_ok,
    andThen_eq_ok] at h
  exact ⟨h.1, h.2.2.2.2.1, h.2.2.2.2.2⟩

theorem refusedTarget_of_mem_urls (h : spec.validateReadingFiles checks files = .ok ()) :
    ∀ url ∈ spec.urls, refusedTarget url = none := by
  obtain ⟨htype, -, hlive⟩ := validateReadingFiles_eq_ok h
  have hpresent := present_of_validateType htype
  intro url hurl
  simp only [urls, List.mem_append, Option.mem_toList, Option.map_eq_some_iff] at hurl
  unfold validateLive at hlive
  rcases hurl with ((hurl | ⟨http, hhttp, rfl⟩) | ⟨socket, hsocket, rfl⟩) | ⟨gtfs, hgtfs, rfl⟩
  · cases hmqtt : spec.mqtt with
    | none => simp [hmqtt] at hurl
    | some mqtt =>
      rw [hmqtt, Option.map_some, Option.getD_some] at hurl
      have hmem : "mqtt" ∈ spec.present := by simp [present, hmqtt]
      rw [hpresent] at hmem
      cases hsource : spec.sourceType <;> simp [hsource, blockOf] at hmem hlive
      have hvalid := (validateConnection_eq_ok hlive).2 mqtt hmqtt
      rw [validateMqtt, andThen_eq_ok, andThen_eq_ok, andThen_eq_ok] at hvalid
      exact refusedTarget_of_validateUrl (forM_eq_ok.1 hvalid.2.2.1 url hurl)
  · have hmem : "http" ∈ spec.present := by simp [present, hhttp]
    rw [hpresent] at hmem
    cases hsource : spec.sourceType <;> simp [hsource, blockOf] at hmem hlive
    have hvalid := (validateConnection_eq_ok hlive).2 http hhttp
    rw [validateHttp, andThen_eq_ok] at hvalid
    exact refusedTarget_of_validateUrl hvalid.1
  · have hmem : "webSocket" ∈ spec.present := by simp [present, hsocket]
    rw [hpresent] at hmem
    cases hsource : spec.sourceType <;> simp [hsource, blockOf] at hmem hlive
    exact refusedTarget_of_validateUrl ((validateConnection_eq_ok hlive).2 socket hsocket)
  · have hmem : "gtfsRt" ∈ spec.present := by simp [present, hgtfs]
    rw [hpresent] at hmem
    cases hsource : spec.sourceType <;> simp [hsource, blockOf] at hmem hlive
    exact refusedTarget_of_validateUrl ((validateConnection_eq_ok hlive).2 gtfs hgtfs)

/-- A value that is one interpolation of a declared secret, and nothing else. -/
def HoldsSecret (declared : List String) (v : Value) : Prop :=
  ∃ var ∈ declared, v = .str ("$\x7b" ++ var ++ "\x7d")

theorem holdsSecret_of_validateSecretTarget {target : String × Value}
    (h : validateSecretTarget own target = .ok ()) : HoldsSecret own target.2 := by
  rw [validateSecretTarget, onlyIf_refuseInvalid, Bool.not_eq_false', Option.any_eq_true] at h
  obtain ⟨var, hvar, hmem⟩ := h
  obtain ⟨s, hs, hexact⟩ := Option.bind_eq_some_iff.1 hvar
  refine ⟨var, by simpa using hmem, ?_⟩
  rw [← eq_of_isExactVarInterpolation hexact]
  cases htarget : target.2 <;> simp [htarget, Value.asStr] at hs ⊢
  exact hs

/-- What is known of the input of a runner source. -/
structure RunnerChecked (spec : DataSourceSpec) (checks : Checks) (files name : String)
    (input : Value) : Prop where
  admitted : name ∉ REFUSED_INPUTS
  plain : ∀ n ∈ spec.envVars, '$' ∉ n.toList
  secrets : ∀ path ∈ secretFields name, ∀ target, FieldAt (segmentsOf path) input target →
    HoldsSecret spec.envVars target
  names : ∀ n ∈ interpolatedNames input, n ∈ spec.envVars
  strings : validateInputStrings checks input = .ok ()
  tree : validateInputTree checks spec.envVars files name input = .ok ()

theorem runnerChecked {name : String} {input : Value}
    (h : spec.validateReadingFiles checks files = .ok ())
    (hsource : spec.sourceType = .runner name) (hinput : spec.input = some input) :
    spec.RunnerChecked checks files name input := by
  obtain ⟨htype, -, hlive⟩ := validateReadingFiles_eq_ok h
  simp only [validateLive, hsource] at hlive
  simp only [validateType, hsource] at htype
  rw [andThen_eq_ok, andThen_eq_ok] at htype
  unfold validateRunner at hlive
  split at hlive
  · rename_i member members hsome
    obtain rfl := Option.some.inj (hinput.symm.trans hsome)
    rw [andThen_eq_ok, andThen_eq_ok, andThen_eq_ok, andThen_eq_ok] at hlive
    obtain ⟨henv, hfields, hnames, hstrings, htree⟩ := hlive
    refine ⟨notMem_refusedInputs htype.2.1, fun n hn => ?_, fun path hpath target htarget => ?_,
      fun n hn => ?_, hstrings, htree⟩
    · obtain ⟨ref, href, hvar⟩ := List.mem_filterMap.1 hn
      have hvalid := forM_eq_ok.1 henv ref href
      rw [validateEnvVar, hvar, Option.elim_some, onlyIf_refuseName] at hvalid
      exact dollar_notMem_of_envVarRe (by simpa using hvalid)
    · obtain ⟨found, hfound⟩ := exists_of_fieldAt htarget ""
      exact holdsSecret_of_validateSecretTarget
        (forM_eq_ok.1 (forM_eq_ok.1 hfields path hpath) _ hfound)
    · rw [validateNames, elim_refuse_eq_ok fun _ => refuseInvalid_ne_ok, List.find?_eq_none] at hnames
      simpa using hnames n hn
  · cases hlive

/-- A typed source has no input of the runner. -/
theorem input_eq_none (h : spec.validateReadingFiles checks files = .ok ())
    (hsource : ∀ name, spec.sourceType ≠ .runner name) : spec.input = none := by
  obtain ⟨-, -, hlive⟩ := validateReadingFiles_eq_ok h
  unfold validateLive at hlive
  cases hs : spec.sourceType <;> simp only [hs] at hlive
  case runner name => exact (hsource name hs).elim
  all_goals exact (validateConnection_eq_ok hlive).1

theorem refusedRunnerRead_of_mem_blocks (h : spec.validateReadingFiles checks files = .ok ()) :
    ∀ block ∈ spec.blocks, refusedRunnerRead block.2.toText = none := by
  intro block hblock
  have hvalid := forM_eq_ok.1 (validateReadingFiles_eq_ok h).2.1 block hblock
  rwa [validateBlock, elim_refuse_eq_ok fun _ => refuseInvalid_ne_ok] at hvalid

end DataSourceSpec

end JoinedContext.Sources
