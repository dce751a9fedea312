import JoinedContext.Library.Text

/-!
# Names and NGSI-LD URNs

The name validators of `jc-core` and the reader of `urn:ngsi-ld:{Type}:{id}`. The URN names no
space and grants nothing: its type and its id part are all a decision reads of it.
-/

namespace JoinedContext

namespace Names

structure NameError where
  field : String
  value : String
  reason : String
deriving DecidableEq

def NameError.display (e : NameError) : String :=
  "invalid " ++ e.field ++ " `" ++ e.value ++ "`: " ++ e.reason

def lowerOrDigit (c : Char) : Bool := c.isLower || c.isDigit

/-- `^[A-Z][A-Za-z0-9]{1,63}$`. -/
def entityTypeRe : List Char → Bool
  | c :: rest => c.isUpper && (1 ≤ rest.length && rest.length ≤ 63) && rest.all Char.isAlphanum
  | [] => false

/-- `^[a-z0-9][a-z0-9-]{0,62}$`. -/
def spaceNameRe : List Char → Bool
  | c :: rest => lowerOrDigit c && rest.length ≤ 62 && rest.all fun d => lowerOrDigit d || d == '-'
  | [] => false

/-- `^[a-z0-9]([a-z0-9-]{0,61}[a-z0-9])?$`. -/
def dnsLabelRe : List Char → Bool
  | [] => false
  | [c] => lowerOrDigit c
  | c :: rest => lowerOrDigit c && rest.length ≤ 62 &&
      (rest.dropLast.all fun d => lowerOrDigit d || d == '-') && rest.getLast?.all lowerOrDigit

/-- `^[A-Za-z0-9._~-]{1,128}$`. -/
def localIdRe (cs : List Char) : Bool :=
  (1 ≤ cs.length && cs.length ≤ 128) && cs.all fun c => c.isAlphanum || c ∈ ['.', '_', '~', '-']

/-- `^[a-z0-9]([-a-z0-9]*[a-z0-9])?$`. -/
def dns1123LabelRe (cs : List Char) : Bool :=
  cs.head?.any lowerOrDigit && cs.getLast?.any lowerOrDigit &&
    cs.all fun c => lowerOrDigit c || c == '-'

def validateDns1123Label (name : String) : Except NameError Unit :=
  if name == "" || 63 < name.utf8ByteSize || !dns1123LabelRe name.toList then
    .error ⟨"metadata.name", name,
      "must match DNS-1123 label regex ^[a-z0-9]([-a-z0-9]*[a-z0-9])?$ and be 1 to 63 characters"⟩
  else .ok ()

/-- `org` or the slug of a project, which is written as a space is. -/
def validateNamespace (ns : String) : Except NameError Unit :=
  if ns == "" || 63 < ns.utf8ByteSize || !spaceNameRe ns.toList then
    .error ⟨"metadata.namespace", ns,
      "must be `org` or match ^[a-z0-9][a-z0-9-]\x7b0,62\x7d$ and be 1 to 63 characters"⟩
  else .ok ()

def validateEntityType (t : String) : Except NameError Unit :=
  if t.utf8ByteSize < 2 || 64 < t.utf8ByteSize || !entityTypeRe t.toList then
    .error ⟨"entityType", t,
      "must match PascalCase regex ^[A-Z][A-Za-z0-9]\x7b1,63\x7d$ and be 2 to 64 characters"⟩
  else .ok ()

def validateOrgDomain (domain : String) : Except NameError Unit :=
  let labels := Text.splitAny ['.'] domain
  if domain == "" || 253 < domain.utf8ByteSize || Text.startsWith '.' domain ||
      Text.endsWithAny ['.'] domain || ':' ∈ domain.toList || '/' ∈ domain.toList then
    .error ⟨"orgDomain", domain,
      "must be a lowercase DNS name with at least two labels and total length <= 253"⟩
  else if labels.length < 2 then
    .error ⟨"orgDomain", domain, "must contain at least two labels separated by dots"⟩
  else if labels.any fun l => l == "" || 63 < l.utf8ByteSize || !dnsLabelRe l.toList then
    .error ⟨"orgDomain", domain,
      "each label must match ^[a-z0-9]([a-z0-9-]\x7b0,61\x7d[a-z0-9])?$ and be 1 to 63 characters"⟩
  else .ok ()

def validateSpaceName (space : String) : Except NameError Unit :=
  if space == "" || 63 < space.utf8ByteSize || !spaceNameRe space.toList then
    .error ⟨"space", space, "must match ^[a-z0-9][a-z0-9-]\x7b0,62\x7d$ and be 1 to 63 characters"⟩
  else .ok ()

def validateLocalId (localId : String) : Except NameError Unit :=
  if localId == "" || 128 < localId.utf8ByteSize || !localIdRe localId.toList then
    .error ⟨"localId", localId,
      "must match ^[A-Za-z0-9._~-]\x7b1,128\x7d$ and be 1 to 128 characters"⟩
  else .ok ()

theorem alphanum_of_validateEntityType {t : String} (h : validateEntityType t = .ok ()) :
    ∀ c ∈ t.toList, c.isAlphanum = true := by
  unfold validateEntityType at h
  split_ifs at h with hbad
  simp only [Bool.or_eq_true, Bool.not_eq_true', not_or, Bool.not_eq_false] at hbad
  obtain ⟨-, hre⟩ := hbad
  rcases ht : t.toList with _ | ⟨c, rest⟩
  · simp
  · simp only [ht, entityTypeRe, Bool.and_eq_true, List.all_eq_true] at hre
    intro d hd
    rcases List.mem_cons.1 hd with rfl | hd
    · show (d.isUpper || d.isLower || d.isDigit) = true
      simp [hre.1.1]
    · exact hre.2 d hd

end Names

inductive UrnError where
  | invalidPrefix
  | missingId
  | invalidId (segment reason : String)
  | invalidEntityType (segment reason : String)
deriving DecidableEq

structure Prefixed where
  orgDomain : String
  space : String
  localId : String
deriving DecidableEq

structure Urn where
  entityType : String
  id : String
  prefixed : Option Prefixed
deriving DecidableEq

namespace Urn

def orgDomain (u : Urn) : Option String := u.prefixed.map Prefixed.orgDomain

def space (u : Urn) : Option String := u.prefixed.map Prefixed.space

/-- The last segment of a prefixed URN, else its id. -/
def localId (u : Urn) : String := u.prefixed.elim u.id Prefixed.localId

def maxIdChars : Nat := 256

structure Error where
  urn : String
  reason : UrnError
deriving DecidableEq

def isHexDigit (c : Char) : Bool :=
  c.isDigit || ('a' ≤ c && c ≤ 'f') || ('A' ≤ c && c ≤ 'F')

def pchar (c : Char) : Bool :=
  c.isAlphanum || c ∈ ['.', '_', '~', '!', '$', '&', '\'', '(', ')', '*', '+', ',', ';', '=', ':',
    '@', '-']

def idTail : List Char → Bool
  | [] => true
  | '%' :: a :: b :: rest => isHexDigit a && isHexDigit b && idTail rest
  | c :: rest => (pchar c || c == '/') && idTail rest

/-- `ID_RE`: a namespace-specific string of RFC 8141. -/
def idRe : List Char → Bool
  | [] => false
  | '%' :: a :: b :: rest => isHexDigit a && isHexDigit b && idTail rest
  | c :: rest => pchar c && idTail rest

def prefixedParts (id : String) : Option Prefixed :=
  match Text.splitAny [':'] id with
  | [orgDomain, space, localId] =>
    if Names.validateOrgDomain orgDomain = .ok () ∧ Names.validateSpaceName space = .ok () ∧
        Names.validateLocalId localId = .ok () then
      some ⟨orgDomain, space, localId⟩
    else none
  | _ => none

def parse (s : String) : Except Error Urn :=
  if (s.toList.take 12).map Char.toLower ≠ "urn:ngsi-ld:".toList then
    .error ⟨s, .invalidPrefix⟩
  else
    match Text.splitOnce ':' (String.ofList (s.toList.drop 12)) with
    | none => .error ⟨s, .missingId⟩
    | some (entityType, id) =>
      match Names.validateEntityType entityType with
      | .error e => .error ⟨s, .invalidEntityType entityType e.reason⟩
      | .ok () =>
        if id == "" then .error ⟨s, .missingId⟩
        else if maxIdChars < id.length then
          .error ⟨s, .invalidId (String.ofList (id.toList.take 40) ++ "…")
            "is longer than 256 characters"⟩
        else if !idRe id.toList then
          .error ⟨s, .invalidId id
            "may hold only letters, digits, `-._~!$&'()*+,;=:@/` and %-escapes (RFC 8141)"⟩
        else .ok ⟨entityType, id, prefixedParts id⟩

/-- The type an NGSI-LD id names, `urn:ngsi-ld:{Type}:{nss}` with both non-empty; anything else
names no type. -/
def typeOfId (id : String) : Option String :=
  match Text.splitOnce ':' id with
  | some (urn, rest) =>
    match Text.splitOnce ':' rest with
    | some (ngsi, rest) =>
      match Text.splitOnce ':' rest with
      | some (kind, nss) =>
        if Text.eqIgnoreAsciiCase urn "urn" ∧ Text.eqIgnoreAsciiCase ngsi "ngsi-ld" ∧ kind ≠ "" ∧
            nss ≠ "" then
          some kind
        else none
      | none => none
    | none => none
  | none => none

def toString (u : Urn) : String := "urn:ngsi-ld:" ++ u.entityType ++ ":" ++ u.id

theorem parse_eq_ok {s : String} {u : Urn} (h : parse s = .ok u) :
    Names.validateEntityType u.entityType = .ok () ∧ u.id ≠ "" ∧ u.id.length ≤ maxIdChars ∧
      idRe u.id.toList = true ∧ u.prefixed = prefixedParts u.id := by
  unfold parse at h
  split_ifs at h
  split at h
  · simp at h
  · rename_i entityType id _
    split at h
    · simp at h
    · rename_i hvalid
      split_ifs at h with hempty hlong hre
      cases h
      simp only [beq_iff_eq] at hempty
      simp only [Bool.not_eq_true', Bool.not_eq_false] at hre
      exact ⟨hvalid, hempty, Nat.le_of_not_lt hlong, hre, rfl⟩

/-- A URN is read from how it is displayed when its parts are ones that are read. -/
theorem parse_toString_of_valid {u : Urn} (hvalid : Names.validateEntityType u.entityType = .ok ())
    (hid : u.id ≠ "") (hlen : u.id.length ≤ maxIdChars) (hre : idRe u.id.toList = true)
    (hparts : u.prefixed = prefixedParts u.id) : parse u.toString = .ok u := by
  have hcolon : ':' ∉ u.entityType.toList := fun hmem => by
    simpa using Names.alphanum_of_validateEntityType hvalid ':' hmem
  have hchars : u.toString.toList =
      "urn:ngsi-ld:".toList ++ (u.entityType.toList ++ ':' :: u.id.toList) := by
    simp [toString]
  have htake : u.toString.toList.take 12 = "urn:ngsi-ld:".toList := by
    rw [hchars]
    exact List.take_left' (by decide)
  have hdrop : u.toString.toList.drop 12 = u.entityType.toList ++ ':' :: u.id.toList := by
    rw [hchars]
    exact List.drop_left' (by decide)
  unfold parse
  rw [htake, hdrop, Text.splitOnce_append hcolon, if_neg (by decide)]
  simp only [hvalid, String.ofList_toList, beq_iff_eq, hid, if_false, Nat.not_lt.2 hlen, hre,
    Bool.not_true, Bool.false_eq_true, ← hparts]

/-- A URN that was read is read again from how it is displayed, whatever case its scheme had. -/
theorem parse_toString {s : String} {u : Urn} (h : parse s = .ok u) : parse u.toString = .ok u := by
  obtain ⟨hvalid, hid, hlen, hre, hparts⟩ := parse_eq_ok h
  exact parse_toString_of_valid hvalid hid hlen hre hparts

theorem graphic_of_isHexDigit {c : Char} (h : isHexDigit c = true) :
    0x20 < c.toNat ∧ c.toNat < 0x7F := by
  unfold isHexDigit at h
  simp only [Bool.or_eq_true, Bool.and_eq_true, decide_eq_true_eq, Char.le_def,
    UInt32.le_iff_toNat_le] at h
  rcases h with (h | h) | h
  · exact Text.toNat_of_isAlphanum (by simp [Char.isAlphanum, h])
  · have hlow : 97 ≤ c.toNat := h.1
    have hhigh : c.toNat ≤ 102 := h.2
    omega
  · have hlow : 65 ≤ c.toNat := h.1
    have hhigh : c.toNat ≤ 70 := h.2
    omega

theorem graphic_of_pchar {c : Char} (h : pchar c = true) : 0x20 < c.toNat ∧ c.toNat < 0x7F := by
  unfold pchar at h
  rw [Bool.or_eq_true, decide_eq_true_eq] at h
  rcases h with h | h
  · exact Text.toNat_of_isAlphanum h
  · exact Text.graphic_of_mem (by decide) h

theorem graphic_of_idTail {l : List Char} (h : idTail l = true) :
    ∀ c ∈ l, 0x20 < c.toNat ∧ c.toNat < 0x7F := by
  induction l using idTail.induct with
  | case1 => simp
  | case2 a b rest ih =>
    simp only [idTail, Bool.and_eq_true] at h
    rw [List.forall_mem_cons, List.forall_mem_cons, List.forall_mem_cons]
    exact ⟨by decide, graphic_of_isHexDigit h.1.1, graphic_of_isHexDigit h.1.2, ih h.2⟩
  | case3 c rest hplain ih =>
    rw [idTail.eq_3 _ _ hplain] at h
    simp only [Bool.and_eq_true, Bool.or_eq_true, beq_iff_eq] at h
    refine List.forall_mem_cons.2 ⟨?_, ih h.2⟩
    rcases h.1 with h | rfl
    · exact graphic_of_pchar h
    · decide

theorem graphic_of_idRe {l : List Char} (h : idRe l = true) :
    ∀ c ∈ l, 0x20 < c.toNat ∧ c.toNat < 0x7F := by
  unfold idRe at h
  split at h
  · cases h
  · simp only [Bool.and_eq_true] at h
    rw [List.forall_mem_cons, List.forall_mem_cons, List.forall_mem_cons]
    exact ⟨by decide, graphic_of_isHexDigit h.1.1, graphic_of_isHexDigit h.1.2,
      graphic_of_idTail h.2⟩
  · simp only [Bool.and_eq_true] at h
    exact List.forall_mem_cons.2 ⟨graphic_of_pchar h.1, graphic_of_idTail h.2⟩

/-- A URN that was read is written without spaces and controls. -/
theorem graphic_of_mem_toString {s : String} {u : Urn} (h : parse s = .ok u) {c : Char}
    (hc : c ∈ u.toString.toList) : 0x20 < c.toNat ∧ c.toNat < 0x7F := by
  obtain ⟨hvalid, -, -, hre, -⟩ := parse_eq_ok h
  simp only [toString, String.toList_append, List.mem_append] at hc
  rcases hc with ((hc | hc) | hc) | hc
  · exact Text.graphic_of_mem (by decide) hc
  · exact Text.toNat_of_isAlphanum (Names.alphanum_of_validateEntityType hvalid c hc)
  · exact Text.graphic_of_mem (by decide) hc
  · exact graphic_of_idRe hre c hc

end Urn

end JoinedContext
