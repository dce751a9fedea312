import JoinedContext.Query.Codec

/-!
# Compound filters

A geo or a temporal filter is one text joined from the parameters that carry it, and split into
them again before it is sent. A `;` in it separates two parameters only where the name of one
follows, so a value comes back as it was sent unless it has such a `;` itself or begins or ends in
white space (`splitCompound_joined`).
-/

namespace JoinedContext.Query

def compoundMembers : List String :=
  ["georel", "geometry", "coordinates", "geoproperty", "timerel", "timeAt", "endTimeAt",
    "timeproperty"]

/-- Whether the name of a parameter and its `=` come next. -/
def memberFollows (after : List Char) : Bool :=
  compoundMembers.any fun name => (name.toList ++ ['=']).isPrefixOf after

/-- A compound cut at each `;` that a parameter follows. -/
def cutMembers : List Char → List (List Char)
  | [] => [[]]
  | c :: after =>
    if c = ';' ∧ memberFollows after then [] :: cutMembers after
    else (cutMembers after).modifyHead (c :: ·)

def readMember (member : List Char) : Option (String × String) :=
  (Text.splitOnce '=' (String.ofList member)).map fun pair =>
    (Text.trim pair.1, Text.trim pair.2)

def splitCompound (compound : String) : List (String × String) :=
  (cutMembers compound.toList).filterMap readMember

def temporalMembers : List String := ["timerel", "timeAt", "endTimeAt"]

/-- The parameters a compound is joined from. -/
def members (params : List (String × String)) (names : List String) : List (String × String) :=
  names.filterMap fun name => (first params name).map fun value => (name, value)

/-- A value without white space around it and without a `;` that the name of a parameter
follows. -/
def Whole (value : String) : Prop :=
  Text.trim value = value ∧
    ∀ before after, value.toList = before ++ ';' :: after → memberFollows after = false

/-! ## Where a compound is cut -/

theorem notMem_of_mem_compoundMembers {name : String} (hname : name ∈ compoundMembers) :
    ';' ∉ name.toList ∧ '=' ∉ name.toList ∧ Text.trim name = name := by
  revert name
  decide

theorem memberFollows_name {name : String} (hname : name ∈ compoundMembers) (rest : List Char) :
    memberFollows (name.toList ++ '=' :: rest) = true := by
  refine List.any_eq_true.2 ⟨name, hname, ?_⟩
  rw [List.isPrefixOf_iff_prefix]
  exact ⟨rest, by simp⟩

theorem prefix_append_cons {before l rest : List Char} {c : Char} (hc : c ∉ before) :
    before <+: l ++ c :: rest ↔ before <+: l := by
  refine ⟨fun h => ?_, List.prefix_append_of_prefix⟩
  rcases List.prefix_or_prefix_of_prefix h (List.prefix_append l (c :: rest)) with hl | ⟨m, rfl⟩
  · exact hl
  · rw [List.prefix_append_right_inj] at h
    cases m with
    | nil => simp
    | cons d m =>
      obtain ⟨rfl, -⟩ := List.cons_prefix_cons.1 h
      simp at hc

/-- No name reaches past a `;`. -/
theorem memberFollows_append (after rest : List Char) :
    memberFollows (after ++ ';' :: rest) = memberFollows after := by
  rw [Bool.eq_iff_iff]
  simp only [memberFollows, List.any_eq_true, List.isPrefixOf_iff_prefix]
  refine exists_congr fun name => and_congr_right fun hname => prefix_append_cons ?_
  simpa using (notMem_of_mem_compoundMembers hname).1

theorem cutMembers_ne_nil : ∀ l : List Char, cutMembers l ≠ []
  | [] => List.cons_ne_nil _ _
  | c :: l => by
    rw [cutMembers]
    split_ifs
    · exact List.cons_ne_nil _ _
    · simpa using cutMembers_ne_nil l

theorem cutMembers_append : ∀ {before : List Char}, ';' ∉ before → ∀ l : List Char,
    cutMembers (before ++ l) = (cutMembers l).modifyHead (before ++ ·)
  | [], _, l => by
    obtain ⟨first, more, hcut⟩ := List.exists_cons_of_ne_nil (cutMembers_ne_nil l)
    simp [hcut]
  | c :: before, hbefore, l => by
    rw [List.mem_cons, not_or] at hbefore
    have hc : ¬(c = ';' ∧ memberFollows (before ++ l) = true) := fun h => hbefore.1 h.1.symm
    rw [List.cons_append, cutMembers, if_neg hc, cutMembers_append hbefore.2 l]
    obtain ⟨first, more, hcut⟩ := List.exists_cons_of_ne_nil (cutMembers_ne_nil l)
    simp [hcut]

theorem cutMembers_separator {rest : List Char} (hrest : memberFollows rest = true) :
    ∀ l : List Char, cutMembers (l ++ ';' :: rest) = cutMembers l ++ cutMembers rest
  | [] => by simp [cutMembers, hrest]
  | c :: l => by
    rw [List.cons_append, cutMembers, cutMembers, memberFollows_append, cutMembers_separator hrest l]
    split_ifs
    · rfl
    · obtain ⟨first, more, hcut⟩ := List.exists_cons_of_ne_nil (cutMembers_ne_nil l)
      simp [hcut]

/-- A text is one member where no `;` of it has the name of a parameter after it. -/
theorem length_cutMembers_eq_one : ∀ l : List Char, (cutMembers l).length = 1 ↔
    ∀ before after, l = before ++ ';' :: after → memberFollows after = false
  | [] => by simp [cutMembers]
  | c :: l => by
    have ih := length_cutMembers_eq_one l
    rw [cutMembers]
    split_ifs with hcut
    · have hne : (cutMembers l).length ≠ 0 := by simpa using cutMembers_ne_nil l
      simp only [List.length_cons, Nat.add_eq_right, hne, false_iff, not_forall]
      refine ⟨[], l, ?_, by simp [hcut.2]⟩
      rw [hcut.1, List.nil_append]
    · rw [List.length_modifyHead, ih]
      constructor
      · rintro h (_ | ⟨d, before⟩) after heq
        · obtain ⟨rfl, rfl⟩ := List.cons.inj heq
          simpa using hcut
        · exact h before after (List.cons.inj heq).2
      · rintro h before after rfl
        exact h (c :: before) after rfl

theorem cutMembers_eq_singleton : ∀ l : List Char, (cutMembers l).length = 1 → cutMembers l = [l]
  | [], _ => rfl
  | c :: l, h => by
    rw [cutMembers] at h ⊢
    split_ifs at h ⊢
    · have hne : (cutMembers l).length ≠ 0 := by simpa using cutMembers_ne_nil l
      simp only [List.length_cons] at h
      omega
    · rw [cutMembers_eq_singleton l (by simpa using h)]
      rfl

/-! ## What the members are read as -/

theorem cutMembers_name {name : String} (hname : name ∈ compoundMembers) (value : List Char) :
    cutMembers (name.toList ++ '=' :: value) =
      (cutMembers value).modifyHead (name.toList ++ '=' :: ·) := by
  have hplain : ';' ∉ name.toList ++ ['='] := by
    simpa using (notMem_of_mem_compoundMembers hname).1
  have hcut := cutMembers_append hplain value
  simpa using hcut

theorem readMember_name {name : String} (hname : name ∈ compoundMembers) (value : List Char) :
    readMember (name.toList ++ '=' :: value) =
      some (name, Text.trim (String.ofList value)) := by
  have hplain := notMem_of_mem_compoundMembers hname
  rw [readMember, Text.splitOnce_append hplain.2.1, Option.map_some, String.ofList_toList,
    hplain.2.2]

/-- Every member after the first begins with the name of a parameter. -/
theorem readMember_of_mem_tail : ∀ l : List Char, ∀ member ∈ (cutMembers l).tail,
    (readMember member).isSome
  | [], member, h => by simp [cutMembers] at h
  | c :: l, member, h => by
    have ih := readMember_of_mem_tail l
    obtain ⟨first, more, hcut⟩ := List.exists_cons_of_ne_nil (cutMembers_ne_nil l)
    rw [cutMembers] at h
    split_ifs at h with hsep
    · rw [List.tail_cons] at h
      obtain ⟨name, hname, hprefix⟩ := List.any_eq_true.1 hsep.2
      rw [List.isPrefixOf_iff_prefix] at hprefix
      obtain ⟨value, rfl⟩ := hprefix
      rw [List.append_assoc, List.singleton_append, cutMembers_name hname] at h ih
      obtain ⟨first, more, hcut⟩ := List.exists_cons_of_ne_nil (cutMembers_ne_nil value)
      rw [hcut, List.modifyHead_cons] at h ih
      rcases List.mem_cons.1 h with rfl | h
      · rw [readMember_name hname]
        rfl
      · exact ih member h
    · rw [hcut, List.modifyHead_cons, List.tail_cons] at h
      exact ih member (by rw [hcut]; exact h)

/-- The parameters one of those a compound is joined from comes back as. -/
def comesBackAs (pair : String × String) : List (String × String) :=
  (cutMembers (pair.1.toList ++ '=' :: pair.2.toList)).filterMap readMember

theorem comesBackAs_eq {pair : String × String} (hpair : pair.1 ∈ compoundMembers)
    {first : List Char} {more : List (List Char)}
    (hcut : cutMembers pair.2.toList = first :: more) :
    comesBackAs pair =
      (pair.1, Text.trim (String.ofList first)) :: more.filterMap readMember := by
  rw [comesBackAs, cutMembers_name hpair, hcut, List.modifyHead_cons,
    List.filterMap_cons_some (readMember_name hpair first)]

theorem comesBackAs_eq_singleton {pair : String × String} (hpair : pair.1 ∈ compoundMembers) :
    comesBackAs pair = [pair] ↔ Whole pair.2 := by
  obtain ⟨first, more, hcut⟩ := List.exists_cons_of_ne_nil (cutMembers_ne_nil pair.2.toList)
  rw [comesBackAs_eq hpair hcut, Whole, ← length_cutMembers_eq_one]
  constructor
  · intro h
    injection h with hhead hmore
    have hnil : more = [] := by
      cases more with
      | nil => rfl
      | cons member more =>
        have hread := readMember_of_mem_tail pair.2.toList member (by simp [hcut])
        obtain ⟨read, hread⟩ := Option.isSome_iff_exists.1 hread
        rw [List.filterMap_cons_some hread] at hmore
        cases hmore
    have hlength : (cutMembers pair.2.toList).length = 1 := by rw [hcut, hnil]; rfl
    have hwhole := cutMembers_eq_singleton _ hlength
    rw [hcut, hnil] at hwhole
    rw [List.cons.inj hwhole |>.1, String.ofList_toList] at hhead
    exact ⟨congrArg Prod.snd hhead, hlength⟩
  · rintro ⟨htrim, hlength⟩
    have hwhole := cutMembers_eq_singleton _ hlength
    rw [hcut] at hwhole
    injection hwhole with hfirst hmore
    rw [hfirst, hmore, String.ofList_toList, htrim]
    rfl

theorem flatMap_eq_self_iff {α : Type} {f : α → List α} {l : List α} (hf : ∀ a ∈ l, f a ≠ []) :
    l.flatMap f = l ↔ ∀ a ∈ l, f a = [a] := by
  have hlength : ∀ l : List α, (∀ a ∈ l, f a ≠ []) → l.length ≤ (l.flatMap f).length := by
    intro l hl
    induction l with
    | nil => simp
    | cons a l ih =>
      rw [List.forall_mem_cons] at hl
      have hpos := List.length_pos_of_ne_nil hl.1
      have hrest := ih hl.2
      rw [List.flatMap_cons, List.length_append, List.length_cons]
      omega
  induction l with
  | nil => simp
  | cons a l ih =>
    rw [List.forall_mem_cons] at hf
    have hiff := ih hf.2
    rw [List.forall_mem_cons, List.flatMap_cons]
    constructor
    · intro h
      have hcount := congrArg List.length h
      have hpos := List.length_pos_of_ne_nil hf.1
      have hrest := hlength l hf.2
      rw [List.length_append, List.length_cons] at hcount
      obtain ⟨b, hb⟩ := List.length_eq_one_iff.1 (show (f a).length = 1 by omega)
      rw [hb, List.singleton_append] at h
      injection h with hhead htail
      exact ⟨by rw [hb, hhead], hiff.1 htail⟩
    · rintro ⟨hhead, htail⟩
      rw [hhead, hiff.2 htail, List.singleton_append]

/-! ## Round trip -/

def written (pair : String × String) : String := pair.1 ++ "=" ++ pair.2

theorem toList_written (pair : String × String) :
    (written pair).toList = pair.1.toList ++ '=' :: pair.2.toList := by
  simp [written]

theorem joined_eq (params : List (String × String)) (names : List String) :
    joined params names =
      if members params names = [] then none
      else some (Text.join ";" ((members params names).map written)) := by
  have hparts : (names.filterMap fun name => (first params name).map fun value =>
      name ++ "=" ++ value) = (members params names).map written := by
    rw [members, List.map_filterMap]
    refine List.filterMap_congr fun name _ => ?_
    rw [Option.map_map]
    rfl
  rw [joined, hparts]
  simp only [List.map_eq_nil_iff]

theorem cutMembers_join {pairs : List (String × String)}
    (hpairs : ∀ pair ∈ pairs, pair.1 ∈ compoundMembers) (hne : pairs ≠ []) :
    cutMembers (Text.join ";" (pairs.map written)).toList =
      pairs.flatMap fun pair => cutMembers (pair.1.toList ++ '=' :: pair.2.toList) := by
  induction pairs with
  | nil => exact (hne rfl).elim
  | cons pair pairs ih =>
    rw [List.forall_mem_cons] at hpairs
    cases pairs with
    | nil => simp [Text.join, toList_written]
    | cons next pairs =>
      have hfollows : memberFollows (Text.join ";" ((next :: pairs).map written)).toList = true := by
        have hnext := memberFollows_name (hpairs.2 next List.mem_cons_self)
        cases pairs with
        | nil => simpa [Text.join, toList_written] using hnext next.2.toList
        | cons other pairs => simpa [Text.join_cons_cons, toList_written] using hnext _
      rw [List.map_cons, List.map_cons, Text.join_cons_cons, ← List.map_cons, String.toList_append,
        String.toList_append, List.append_assoc, List.flatMap_cons, ← ih hpairs.2 (by simp)]
      rw [toList_written]
      exact cutMembers_separator hfollows _

theorem mem_members {params : List (String × String)} {names : List String}
    {pair : String × String} :
    pair ∈ members params names ↔ pair.1 ∈ names ∧ first params pair.1 = some pair.2 := by
  simp only [members, List.mem_filterMap, Option.map_eq_some_iff]
  constructor
  · rintro ⟨name, hname, value, hvalue, rfl⟩
    exact ⟨hname, hvalue⟩
  · rintro ⟨hname, hvalue⟩
    exact ⟨pair.1, hname, pair.2, hvalue, rfl⟩

theorem splitCompound_joined_iff (params : List (String × String)) {names : List String}
    (hnames : ∀ name ∈ names, name ∈ compoundMembers) :
    (joined params names).elim [] splitCompound = members params names ↔
      ∀ name ∈ names, ∀ value, first params name = some value → Whole value := by
  have hpairs : ∀ pair ∈ members params names, pair.1 ∈ compoundMembers := fun pair hpair =>
    hnames pair.1 (mem_members.1 hpair).1
  have hsplit : (joined params names).elim [] splitCompound =
      (members params names).flatMap comesBackAs := by
    rw [joined_eq]
    split_ifs with hnil
    · rw [hnil]
      rfl
    · rw [Option.elim_some, splitCompound, cutMembers_join hpairs hnil, List.filterMap_flatMap]
      rfl
  have hne : ∀ pair ∈ members params names, comesBackAs pair ≠ [] := fun pair hpair => by
    obtain ⟨first, more, hcut⟩ := List.exists_cons_of_ne_nil (cutMembers_ne_nil pair.2.toList)
    rw [comesBackAs_eq (hpairs pair hpair) hcut]
    exact List.cons_ne_nil _ _
  rw [hsplit, flatMap_eq_self_iff hne]
  constructor
  · intro h name hname value hvalue
    have hpair : (name, value) ∈ members params names := mem_members.2 ⟨hname, hvalue⟩
    exact (comesBackAs_eq_singleton (hpairs _ hpair)).1 (h _ hpair)
  · intro h pair hpair
    have hmem := mem_members.1 hpair
    exact (comesBackAs_eq_singleton (hpairs pair hpair)).2 (h pair.1 hmem.1 pair.2 hmem.2)

/-- A geo and a temporal filter come back as the parameters they were joined from where every
value is whole. -/
theorem splitCompound_joined (params : List (String × String)) :
    ((joined params geoMembers).elim [] splitCompound = members params geoMembers ↔
      ∀ name ∈ geoMembers, ∀ value, first params name = some value → Whole value) ∧
    ((joined params temporalMembers).elim [] splitCompound = members params temporalMembers ↔
      ∀ name ∈ temporalMembers, ∀ value, first params name = some value → Whole value) :=
  ⟨splitCompound_joined_iff params (by decide), splitCompound_joined_iff params (by decide)⟩

theorem not_splitCompound_joined :
    ¬∀ params : List (String × String),
      (joined params geoMembers).elim [] splitCompound = members params geoMembers ∧
      (joined params temporalMembers).elim [] splitCompound = members params temporalMembers :=
  fun h => absurd (h [("georel", "near;maxDistance==5;geoproperty=depot")]).1 (by decide)

end JoinedContext.Query
