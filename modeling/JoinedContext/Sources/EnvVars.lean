import JoinedContext.Sources.Sandbox
import Mathlib

/-!
# The variables of the credentials

The runner of every project's streams takes the credentials of its sources from its environment,
each under the variable a reference states or the one derived from its source and its key. Two
sources keep to their own credentials where no two of these variables are spelled the same; a
derived one is what is left of its source and key once case and punctuation are gone.
-/

namespace JoinedContext.Sources

structure DataSource where
  metadata : ObjectMeta
  spec : DataSourceSpec

def part (s : String) : String :=
  String.ofList (s.toList.map fun c => if c.isAlphanum then c.toUpper else '_')

/-- The environment variable a secret reference is injected as. -/
def envVarOf (sourceName : String) (reference : SecretRef) : String :=
  match reference.envVar with
  | some explicit => explicit
  | none =>
    match reference.key with
    | some key => "DS_" ++ part sourceName ++ "_" ++ part key
    | none => "DS_" ++ part sourceName

/-- The only form a credential takes in a generated config. -/
def interpolation (source : String) (reference : SecretRef) : String :=
  "$\x7b" ++ envVarOf source reference ++ "\x7d"

/-- Whether a variable is the runner's own, by its prefix or by what it steers. -/
def runnersOwn (name : String) : Bool :=
  startsWith "JC_" name || (PROCESS_ENV_VARS.contains name ||
    PROCESS_ENV_PREFIXES.any (startsWith · name) || endsWith "_PROXY" name)

/-! ## A source's own variables -/

/-- What a reference stands for: a key of a secret of a project's store. -/
structure Credential where
  project : Option String
  secret : String
  key : Option String
deriving DecidableEq

namespace DataSource

def references (source : DataSource) : List SecretRef := source.spec.secretReferences.map Prod.snd

def credential (source : DataSource) (reference : SecretRef) : Credential :=
  ⟨source.metadata.namespace, reference.name, reference.key⟩

def varOf (source : DataSource) (reference : SecretRef) : String :=
  envVarOf source.metadata.name reference

/-- An environment that holds the credentials of sources, each under its variable. -/
def Environment (sources : List DataSource) (environment : String → Option Credential) : Prop :=
  ∀ name value, environment name = some value → ∃ source ∈ sources,
    ∃ reference ∈ source.references,
      source.varOf reference = name ∧ source.credential reference = value

structure OwnVariables (sources : List DataSource) : Prop where
  apart : ∀ s ∈ sources, ∀ t ∈ sources, s.metadata ≠ t.metadata → ∀ r ∈ s.references,
    ∀ u ∈ t.references, s.credential r ≠ t.credential u → s.varOf r ≠ t.varOf u
  foreign : ∀ s ∈ sources, ∀ r ∈ s.references, runnersOwn (s.varOf r) = false
  filled : ∀ environment, Environment sources environment → ∀ s ∈ sources, ∀ r ∈ s.references,
    ∃ name, isExactVarInterpolation (interpolation s.metadata.name r) = some name ∧
      ∀ value, environment name = some value → ∃ t ∈ sources, t.metadata = s.metadata ∧
        ∃ u ∈ t.references, value = t.credential u

end DataSource

/-! ## How variables are spelled -/

/-- Two characters that differ in case at most, or are punctuation both. -/
def Alike (c d : Char) : Prop :=
  c.isAlphanum = d.isAlphanum ∧ (c.isAlphanum = true → c.toUpper = d.toUpper)

def SpelledAlike : List Char → List Char → Prop := List.Forall₂ Alike

/-- What a variable is derived from. -/
def derivedFrom (sourceName : String) (key : Option String) : String :=
  key.elim sourceName fun key => sourceName ++ "_" ++ key

/-- A stated variable written as the one derived from a text. -/
def StatesDerived (explicit text : String) : Prop :=
  ∃ rest, explicit.toList = "DS_".toList ++ rest ∧ SpelledAlike rest text.toList

def EndsInProxy (text : String) : Prop :=
  ∃ last, last <:+ '_' :: text.toList ∧ SpelledAlike last "_PROXY".toList

namespace DataSource

def derivedFrom (source : DataSource) (reference : SecretRef) : String :=
  Sources.derivedFrom source.metadata.name reference.key

/-- Two references, of one source each, with nothing left to tell their variables apart. -/
def Clash (s : DataSource) (r : SecretRef) (t : DataSource) (u : SecretRef) : Prop :=
  match r.envVar, u.envVar with
  | some explicit, some other => explicit = other
  | some explicit, none => StatesDerived explicit (t.derivedFrom u)
  | none, some explicit => StatesDerived explicit (s.derivedFrom r)
  | none, none => SpelledAlike (s.derivedFrom r).toList (t.derivedFrom u).toList

structure SpelledApart (sources : List DataSource) : Prop where
  apart : ∀ s ∈ sources, ∀ t ∈ sources, s.metadata ≠ t.metadata → ∀ r ∈ s.references,
    ∀ u ∈ t.references, s.credential r ≠ t.credential u → ¬s.Clash r t u
  proxy : ∀ s ∈ sources, ∀ r ∈ s.references, r.envVar = none → ¬EndsInProxy (s.derivedFrom r)

end DataSource

/-! ## A variable and what it is derived from -/

def partChar (c : Char) : Char := if c.isAlphanum then c.toUpper else '_'

theorem toUpper_ne_underscore {c : Char} (h : c.isAlphanum = true) : c.toUpper ≠ '_' := by
  intro heq
  have hval := congrArg Char.val heq
  rw [Char.toUpper] at hval
  split at hval
  · rename_i hlower
    have hsum : c.val + ('A'.val - 'a'.val) = '_'.val := hval
    have hlow := hlower.1
    have hhigh := hlower.2
    have hnat := congrArg UInt32.toNat hsum
    rw [UInt32.le_iff_toNat_le] at hlow hhigh
    rw [UInt32.toNat_add] at hnat
    simp at hlow hhigh hnat
    omega
  · obtain rfl := Char.ext hval
    exact absurd h (by decide)

theorem toUpper_of_upper_or_digit {c : Char} (h : c.isUpper = true ∨ c.isDigit = true) :
    c.toUpper = c := by
  rw [Char.toUpper, dif_neg]
  rintro ⟨hlow, -⟩
  rw [UInt32.le_iff_toNat_le] at hlow
  simp [Char.isUpper, Char.isDigit, UInt32.le_iff_toNat_le] at h hlow
  omega

theorem partChar_eq_iff {c d : Char} : partChar c = partChar d ↔ Alike c d := by
  unfold partChar Alike
  cases hc : c.isAlphanum <;> cases hd : d.isAlphanum <;> simp
  · exact fun h => toUpper_ne_underscore hd h.symm
  · exact toUpper_ne_underscore hc

theorem spelledAlike_iff {l m : List Char} :
    SpelledAlike l m ↔ l.map partChar = m.map partChar := by
  have hmap : (fun c d => partChar c = partChar d) = Alike := by
    funext c d
    exact propext partChar_eq_iff
  rw [SpelledAlike, ← hmap, ← List.forall₂_eq_eq_eq, List.forall₂_map_left_iff,
    List.forall₂_map_right_iff]

theorem partChar_of_envChar {c : Char} (h : envChar c = true) : partChar c = c := by
  rw [envChar, Bool.or_eq_true, Bool.or_eq_true, beq_iff_eq] at h
  unfold partChar
  rcases h with h | rfl
  · have hal : c.isAlphanum = true := by
      rcases h with h | h <;> simp [Char.isAlphanum, Char.isAlpha, h]
    rw [if_pos hal, toUpper_of_upper_or_digit h]
  · decide

theorem envChar_of_envVarRe {cs : List Char} (h : envVarRe cs = true) : cs.all envChar = true := by
  cases cs with
  | nil => rfl
  | cons c rest =>
    rw [envVarRe, Bool.and_eq_true] at h
    rw [List.all_cons, Bool.and_eq_true]
    exact ⟨by simp [envChar, h.1], h.2⟩

theorem isUpper_toUpper {c : Char} (h : c.isLower = true) : c.toUpper.isUpper = true := by
  simp only [Char.isLower, ge_iff_le, Bool.and_eq_true, decide_eq_true_eq] at h
  rw [Char.toUpper, dif_pos h]
  have hlow := h.1
  have hhigh := h.2
  rw [UInt32.le_iff_toNat_le] at hlow hhigh
  simp [Char.isUpper, UInt32.le_iff_toNat_le] at hlow hhigh ⊢
  omega

theorem envChar_partChar (c : Char) : envChar (partChar c) = true := by
  unfold partChar
  split
  · rename_i h
    simp only [Char.isAlphanum, Char.isAlpha, Bool.or_eq_true] at h
    rcases h with (h | h) | h
    · simp [envChar, toUpper_of_upper_or_digit (.inl h), h]
    · simp [envChar, isUpper_toUpper h]
    · simp [envChar, toUpper_of_upper_or_digit (.inr h), h]
  · decide

theorem map_partChar_of_envChar {l : List Char} (h : l.all envChar = true) :
    l.map partChar = l := by
  have hall := List.all_eq_true.1 h
  exact (List.map_congr_left fun c hc => partChar_of_envChar (hall c hc)).trans (List.map_id l)

theorem toList_part (s : String) : (part s).toList = s.toList.map partChar := by
  rw [part, String.toList_ofList]
  rfl

theorem toList_envVarOf (sourceName : String) {reference : SecretRef}
    (h : reference.envVar = none) :
    (envVarOf sourceName reference).toList =
      "DS_".toList ++ (derivedFrom sourceName reference.key).toList.map partChar := by
  unfold envVarOf derivedFrom
  rw [h]
  cases reference.key with
  | none => simp [toList_part]
  | some key => simp [toList_part, partChar]

theorem envVarOf_of_explicit {sourceName explicit : String} {reference : SecretRef}
    (h : reference.envVar = some explicit) : envVarOf sourceName reference = explicit := by
  unfold envVarOf
  rw [h]

/-- A stated variable is the derived one where it is written so. -/
theorem eq_envVarOf_iff {explicit sourceName : String} {reference : SecretRef}
    (hname : envVarRe explicit.toList = true) (h : reference.envVar = none) :
    explicit = envVarOf sourceName reference ↔
      StatesDerived explicit (derivedFrom sourceName reference.key) := by
  have hall := envChar_of_envVarRe hname
  rw [← String.toList_inj, toList_envVarOf sourceName h]
  constructor
  · intro heq
    refine ⟨_, heq, ?_⟩
    rw [heq, List.all_append, Bool.and_eq_true] at hall
    rw [spelledAlike_iff, map_partChar_of_envChar hall.2]
  · rintro ⟨rest, heq, halike⟩
    rw [heq, List.all_append, Bool.and_eq_true] at hall
    rw [spelledAlike_iff, map_partChar_of_envChar hall.2] at halike
    rw [heq, halike]

/-! ## The runner's own variables -/

theorem runnersOwn_of_envVarRefusal {name : String} (h : envVarRefusal name = none) :
    envVarRe name.toList = true ∧ runnersOwn name = false := by
  unfold envVarRefusal at h
  split_ifs at h with hstart hname hprocess
  rw [Bool.not_eq_true, Bool.not_eq_false', Bool.and_eq_true] at hname
  unfold runnersOwn
  rw [Bool.not_eq_true] at hstart hprocess
  exact ⟨hname.1, by rw [hstart, hprocess]; rfl⟩

theorem startsWith_eq_false {p s : String} {c d : Char} {l m : List Char} (hp : p.toList = c :: l)
    (hs : s.toList = d :: m) (h : c ≠ d) : startsWith p s = false := by
  rw [startsWith, Option.isSome_eq_false_iff, Option.isNone_iff_eq_none,
    Option.eq_none_iff_forall_ne_some]
  intro r hr
  rw [Text.stripPrefix_eq_some, hp, hs, List.cons_append, List.cons_eq_cons] at hr
  exact h hr.1.symm

theorem head?_of_mem_process : ∀ v ∈ PROCESS_ENV_VARS, v.toList.head? ≠ some 'D' := by decide

/-- A name that begins as a derived one does is the runner's own by its end alone. -/
theorem runnersOwn_derived {name : String} {l : List Char} (h : name.toList = "DS_".toList ++ l) :
    runnersOwn name = endsWith "_PROXY" name := by
  have hcons : name.toList = 'D' :: 'S' :: '_' :: l := h
  have hprocess : PROCESS_ENV_VARS.contains name = false := by
    rw [List.contains_eq_mem, decide_eq_false_iff_not]
    intro hmem
    exact head?_of_mem_process name hmem (by rw [hcons]; rfl)
  rw [runnersOwn, startsWith_eq_false rfl hcons (by decide), hprocess, PROCESS_ENV_PREFIXES,
    List.any_cons, List.any_cons, startsWith_eq_false rfl hcons (by decide),
    startsWith_eq_false rfl hcons (by decide)]
  rfl

theorem endsWith_iff {p s : String} : endsWith p s = true ↔ p.toList <:+ s.toList := by
  rw [endsWith, Option.isSome_iff_exists]
  constructor
  · rintro ⟨r, hr⟩
    exact ⟨r.toList, (Text.stripSuffix_eq_some.1 hr).symm⟩
  · rintro ⟨r, hr⟩
    exact ⟨String.ofList r, Text.stripSuffix_eq_some.2 (by rw [String.toList_ofList, hr])⟩

theorem runnersOwn_envVarOf {sourceName : String} {reference : SecretRef}
    (h : reference.envVar = none) :
    runnersOwn (envVarOf sourceName reference) = true ↔
      EndsInProxy (derivedFrom sourceName reference.key) := by
  have hlist := toList_envVarOf sourceName h
  have hmap : "DS_".toList ++ (derivedFrom sourceName reference.key).toList.map partChar =
      'D' :: 'S' :: ('_' :: (derivedFrom sourceName reference.key).toList).map partChar := rfl
  have hproxy : "_PROXY".toList.map partChar = "_PROXY".toList :=
    map_partChar_of_envChar (by decide)
  rw [runnersOwn_derived hlist, endsWith_iff, hlist, hmap, List.suffix_cons_iff,
    List.suffix_cons_iff, EndsInProxy]
  constructor
  · rintro (heq | heq | ⟨front, heq⟩)
    · exact absurd (congrArg List.head? heq) (by simp)
    · exact absurd (congrArg List.head? heq) (by simp)
    · obtain ⟨before, last, hsplit, -, hlast⟩ := List.append_eq_map_iff.1 heq
      refine ⟨last, ⟨before, hsplit.symm⟩, ?_⟩
      rw [spelledAlike_iff, hlast, hproxy]
  · rintro ⟨last, ⟨before, hsplit⟩, halike⟩
    rw [spelledAlike_iff, hproxy] at halike
    rw [← hsplit, List.map_append, halike]
    exact .inr (.inr ⟨_, rfl⟩)

/-! ## The references of a source that validates -/

theorem envVarRefusal_of_validate {reference : SecretRef} {field explicit : String}
    (h : reference.validate field = .ok ()) (hstated : reference.envVar = some explicit) :
    envVarRefusal explicit = none := by
  rw [SecretRef.validate, andThen_eq_ok, andThen_eq_ok, andThen_eq_ok] at h
  have hrefused := h.2.2.2
  rwa [elim_refuse_eq_ok fun _ => refuseInvalid_ne_ok, hstated, Option.bind_some] at hrefused

theorem isExactVarInterpolation_of_envChar {name : String} (hne : name ≠ "")
    (h : name.toList.all envChar = true) :
    isExactVarInterpolation ("$\x7b" ++ name ++ "\x7d") = some name := by
  have hstart : Text.stripPrefix "$\x7b" ("$\x7b" ++ name ++ "\x7d") = some (name ++ "\x7d") := by
    rw [Text.stripPrefix_eq_some, String.append_assoc, String.toList_append]
  have hsuffix : Text.stripSuffix "\x7d" (name ++ "\x7d") = some name := by
    rw [Text.stripSuffix_eq_some, String.toList_append]
  have hplain : name.toList.all (fun c => c ∉ ['$', '{', '}', ' ']) = true := by
    rw [List.all_eq_true] at h ⊢
    intro c hc
    rw [decide_eq_true_eq]
    intro hmem
    have hchar := h c hc
    simp only [List.mem_cons, List.not_mem_nil, or_false] at hmem
    rcases hmem with rfl | rfl | rfl | rfl <;> exact absurd hchar (by decide)
  unfold isExactVarInterpolation
  rw [hstart, Option.bind_eq_bind, Option.bind_some, hsuffix, Option.bind_some, hplain,
    if_pos (by simpa using hne)]

namespace DataSource

variable {checks : Checks} {s t : DataSource} {r u : SecretRef}

theorem exists_validate (h : s.spec.validateSpec checks s.metadata = .ok ())
    (hr : r ∈ s.references) : ∃ field, r.validate field = .ok () := by
  obtain ⟨⟨field, ref⟩, hmem, rfl⟩ := List.mem_map.1 hr
  refine ⟨field, ?_⟩
  rw [DataSourceSpec.validateSpec, andThen_eq_ok] at h
  have hreading : ∃ files, s.spec.validateReadingFiles checks files = .ok () := by
    have hok := h.2
    split at hok
    · exact ⟨_, hok⟩
    · exact ⟨_, hok⟩
  obtain ⟨files, hfiles⟩ := hreading
  rw [DataSourceSpec.validateReadingFiles, andThen_eq_ok, andThen_eq_ok, andThen_eq_ok] at hfiles
  exact forM_eq_ok.1 hfiles.2.2.1 (field, ref) hmem

/-- A stated variable of a source that validates is a name, and not one of the runner's own. -/
theorem stated (h : s.spec.validateSpec checks s.metadata = .ok ()) (hr : r ∈ s.references)
    {explicit : String} (hstated : r.envVar = some explicit) :
    envVarRe explicit.toList = true ∧ runnersOwn explicit = false := by
  obtain ⟨field, hvalid⟩ := exists_validate h hr
  exact runnersOwn_of_envVarRefusal (envVarRefusal_of_validate hvalid hstated)

theorem varOf_eq_iff (hs : s.spec.validateSpec checks s.metadata = .ok ())
    (ht : t.spec.validateSpec checks t.metadata = .ok ()) (hr : r ∈ s.references)
    (hu : u ∈ t.references) : s.varOf r = t.varOf u ↔ s.Clash r t u := by
  unfold Clash varOf
  cases hrv : r.envVar with
  | some explicit =>
    rw [envVarOf_of_explicit hrv]
    cases huv : u.envVar with
    | some other => rw [envVarOf_of_explicit huv]
    | none => exact eq_envVarOf_iff (stated hs hr hrv).1 huv
  | none =>
    cases huv : u.envVar with
    | some explicit =>
      rw [envVarOf_of_explicit huv, eq_comm]
      exact eq_envVarOf_iff (stated ht hu huv).1 hrv
    | none =>
      rw [← String.toList_inj, toList_envVarOf _ hrv, toList_envVarOf _ huv,
        List.append_cancel_left_eq]
      exact spelledAlike_iff.symm

theorem runnersOwn_varOf (hs : s.spec.validateSpec checks s.metadata = .ok ())
    (hr : r ∈ s.references) :
    runnersOwn (s.varOf r) = true ↔ r.envVar = none ∧ EndsInProxy (s.derivedFrom r) := by
  cases hrv : r.envVar with
  | some explicit =>
    rw [varOf, envVarOf_of_explicit hrv, (stated hs hr hrv).2]
    simp
  | none =>
    rw [varOf, runnersOwn_envVarOf hrv]
    exact (and_iff_right rfl).symm

/-- What is written into a stream is one interpolation, of the variable of the reference. -/
theorem isExactVarInterpolation_interpolation
    (hs : s.spec.validateSpec checks s.metadata = .ok ()) (hr : r ∈ s.references) :
    isExactVarInterpolation (interpolation s.metadata.name r) = some (s.varOf r) := by
  cases hrv : r.envVar with
  | some explicit =>
    have hname := (stated hs hr hrv).1
    rw [interpolation, varOf, envVarOf_of_explicit hrv]
    refine isExactVarInterpolation_of_envChar ?_ (envChar_of_envVarRe hname)
    rintro rfl
    cases hname
  | none =>
    have hlist := toList_envVarOf s.metadata.name hrv
    refine isExactVarInterpolation_of_envChar ?_ ?_
    · intro hempty
      rw [hempty] at hlist
      cases hlist
    · rw [hlist, List.all_append, List.all_map, Bool.and_eq_true]
      exact ⟨by decide, List.all_eq_true.2 fun c _ => envChar_partChar c⟩

theorem ownVariables_iff (checks : Checks) (sources : List DataSource)
    (hvalid : ∀ s ∈ sources, s.spec.validateSpec checks s.metadata = .ok ()) :
    OwnVariables sources ↔ SpelledApart sources := by
  constructor
  · intro h
    refine ⟨fun s hs t ht hne r hr u hu hdiffers hclash => ?_, fun s hs r hr hderived hproxy => ?_⟩
    · exact h.apart s hs t ht hne r hr u hu hdiffers
        ((varOf_eq_iff (hvalid s hs) (hvalid t ht) hr hu).2 hclash)
    · have hown := (runnersOwn_varOf (hvalid s hs) hr).2 ⟨hderived, hproxy⟩
      rw [h.foreign s hs r hr] at hown
      cases hown
  · intro h
    have happart : ∀ s ∈ sources, ∀ t ∈ sources, s.metadata ≠ t.metadata → ∀ r ∈ s.references,
        ∀ u ∈ t.references, s.credential r ≠ t.credential u → s.varOf r ≠ t.varOf u := by
      intro s hs t ht hne r hr u hu hdiffers heq
      exact h.apart s hs t ht hne r hr u hu hdiffers
        ((varOf_eq_iff (hvalid s hs) (hvalid t ht) hr hu).1 heq)
    refine ⟨happart, fun s hs r hr => ?_, fun environment henv s hs r hr => ?_⟩
    · rw [← Bool.not_eq_true, runnersOwn_varOf (hvalid s hs) hr]
      exact fun hproxy => h.proxy s hs r hr hproxy.1 hproxy.2
    · refine ⟨s.varOf r, isExactVarInterpolation_interpolation (hvalid s hs) hr, ?_⟩
      intro value hvalue
      obtain ⟨t, ht, u, hu, hname, rfl⟩ := henv _ _ hvalue
      by_cases hcred : s.credential r = t.credential u
      · exact ⟨s, hs, rfl, r, hr, hcred.symm⟩
      · by_cases hsame : s.metadata = t.metadata
        · exact ⟨t, ht, hsame.symm, u, hu, rfl⟩
        · exact absurd hname.symm (happart s hs t ht hsame r hr u hu hcred)

def sampleFeed (name secret : String) (key : Option String) : DataSource where
  metadata := ⟨name, some "espoo"⟩
  spec :=
    { sourceType := .mqtt
      mqtt := some
        { urls := ["tls://" ++ name ++ ".example.org:8883"]
          brokerRef := none
          topics := ["bikes/#"]
          qos := none
          cleanSession := none
          username := some "reader"
          passwordRef := some ⟨secret, key, none⟩ }
      http := none
      webSocket := none
      gtfsRt := none
      tls := none
      input := none
      secrets := []
      personalFields := [] }

/-- A source's key that spells the end of another source's name. -/
def sampleClash : List DataSource :=
  [sampleFeed "bikes-city" "city-broker" none, sampleFeed "bikes" "vendor" (some "city")]

def sampleApart : List DataSource :=
  [sampleFeed "bikes-city" "city-broker" none, sampleFeed "bikes" "vendor" (some "password")]

set_option maxRecDepth 8000 in
theorem ownVariables_feeds :
    (∀ s ∈ sampleApart, s.spec.validateSpec DataSourceSpec.sampleChecks s.metadata = .ok ()) ∧
      (OwnVariables sampleApart ↔ SpelledApart sampleApart) := by
  have hvalid : ∀ s ∈ sampleApart,
      s.spec.validateSpec DataSourceSpec.sampleChecks s.metadata = .ok () := by
    decide +kernel
  exact ⟨hvalid, ownVariables_iff DataSourceSpec.sampleChecks sampleApart hvalid⟩

set_option maxRecDepth 8000 in
theorem variable_shared : ¬∀ (checks : Checks) (sources : List DataSource),
    (∀ s ∈ sources, s.spec.validateSpec checks s.metadata = .ok ()) → OwnVariables sources := by
  intro h
  have hown := h DataSourceSpec.sampleChecks sampleClash (by decide +kernel)
  have hsame : (sampleFeed "bikes-city" "city-broker" none).varOf ⟨"city-broker", none, none⟩ =
      (sampleFeed "bikes" "vendor" (some "city")).varOf ⟨"vendor", some "city", none⟩ := by
    decide +kernel
  refine hown.apart _ List.mem_cons_self _ (List.mem_cons_of_mem _ List.mem_cons_self) ?_
    _ (by decide +kernel) _ (by decide +kernel) (by decide) hsame
  intro heq
  exact absurd (congrArg ObjectMeta.name heq) (by decide)

end DataSource

end JoinedContext.Sources
