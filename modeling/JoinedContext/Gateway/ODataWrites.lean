import JoinedContext.Core.Policy
import JoinedContext.Library.Numeral
import JoinedContext.Library.Outcome
import JoinedContext.Library.Utf8
import JoinedContext.Query.Codec
import JoinedContext.Writes.Division

/-!
# Writes through OData

A write below the OData root is judged by the path as it was sent, and the broker acts on the path
it decodes. The two say the same of a path unless an escape hides a parenthesis or a dollar from
the gateway, or the path names a property where the gateway reads none.
-/

namespace JoinedContext.Gateway.ODataWrites

open Writes (ProblemDetails Endpoint hiddenRefusal)

section Judge

/-- Who writes: whether through the Portal's UI, and the reason given for the write. -/
structure Caller where
  ui : Bool
  reason : Option String

structure Write where
  operation : Operation
  set : String
  property : Option String

def batchUnavailable : ProblemDetails :=
  { status := 501, slug := "odata-batch-unavailable", title := "Not Implemented",
    detail := some "a $batch is not served through an endpoint; send each write on its own" }

def segments (rest : String) : List String :=
  Text.splitAny ['/'] (String.ofList (rest.toList.dropWhile (· == '/')))

def operationOf (method : String) (keyed property : Bool) : Operation :=
  match method, keyed, property with
  | "POST", false, _ => .createEntity
  | "DELETE", true, true => .deleteAttrs
  | _, true, true => .updateAttrs
  | "PUT", true, false => .replaceEntity
  | "DELETE", true, false => .deleteEntity
  | _, _, _ => .mergeEntity

/-- Whether a segment below an entity names a property, and not a system resource. -/
def namesProperty (segment : String) : Bool := segment ≠ "" && !Text.startsWith '$' segment

def Write.of (method rest : String) : Except ProblemDetails Write :=
  let first := (segments rest).headD ""
  if first = "$batch" then .error batchUnavailable
  else
    let (set, keyed) := match Text.splitOnce '(' first with
      | some (set, _) => (set, true)
      | none => (first, false)
    let property := ((segments rest)[1]?.filter namesProperty).map Query.decode
    .ok ⟨operationOf method keyed property.isSome, Query.decode set, property⟩

variable (parse : List UInt8 → Option Value)

def members (sent : List UInt8) : Except ProblemDetails (List String) :=
  if sent = [] then .ok []
  else match parse sent with
    | some (.obj object) => .ok (object.map Prod.fst)
    | some _ => .ok []
    | none => .error (ProblemDetails.badRequest.withDetail "request body is not JSON")

/-- The property a member of the body writes; an annotation of the entity writes none. -/
def attributeOf (held : String) : Option String :=
  let name := (Text.splitAny ['@'] held).headD ""
  if name = "" then none else some name

/-- The character an escape of the broker's stands for. -/
def escaped (hex : List Char) : Option Char := do
  let digits ← if hex = [] then none else hex.mapM Numeral.hexValue
  let point := digits.foldl (fun n d => n * 16 + d) 0
  if point.isValidChar then some (Char.ofNat point) else none

/-- A name with its escapes undone, after so many characters that an escape took. -/
def unmangleFrom : ℕ → List Char → List Char
  | _, [] => []
  | skip + 1, _ :: rest => unmangleFrom skip rest
  | 0, '_' :: 'x' :: after =>
    let hex := after.takeWhile (· != '_')
    match if '_' ∈ after then escaped hex else none with
    | some c => c :: unmangleFrom (hex.length + 1) after
    | none => '_' :: 'x' :: unmangleFrom 0 after
  | 0, c :: rest => c :: unmangleFrom 0 rest

/-- The NGSI-LD name an OData property stands for. -/
def unmangle (name : String) : String := String.ofList (unmangleFrom 0 name.toList)

/-- The attributes only the gateway writes: the quarantine mark. -/
def OWNED : List String := ["quarantinedAt", "quarantineRules"]

def names (name term : String) : Bool :=
  (Text.stripSuffix term name).any fun head => head = "" || Text.endsWithAny ['/', '#', ':'] head

def isOwned (name : String) : Bool := OWNED.any (names name)

def ownedPath (targeted : Option String) : Option ProblemDetails :=
  (targeted.filter isOwned).map fun held => ProblemDetails.badRequest.withDetail
    ("\x60" ++ held ++ "\x60 is written by the space's quality rules alone; a write may not set " ++
      "or delete it (DM-90)")

def namedRefusal (e : Endpoint) (write : Write) (members : List String) : Option ProblemDetails :=
  ((write.property.toList ++ members.filterMap attributeOf).map unmangle).findSome? fun name =>
    hiddenRefusal e name <|> ownedPath (some name)

def MAX_REASON : ℕ := 500

def deletes (operation : Operation) : Bool :=
  operation ∈ [.deleteAttrs, .deleteEntity, .deleteBatch, .deleteAttrsTemporal,
    .deleteAttrInstanceTemporal, .deleteTemporal]

def Caller.gives (caller : Caller) : Bool :=
  caller.reason.any fun reason =>
    let length := (Text.trim (Query.decode reason)).length
    1 ≤ length && length ≤ MAX_REASON

/-- A delete, and every write from the Portal's UI, names why. -/
def reasonRefusal (operation : Operation) (caller : Caller) : Option ProblemDetails :=
  let subscription :=
    operation ∈ [Operation.createSubscription, .updateSubscription, .deleteSubscription]
  let uiWrite := operation.isWrite && !subscription && caller.ui
  if (deletes operation || uiWrite) && !caller.gives then
    some (({ status := 400, slug := "reason-required",
             title := "Reason Required" } : ProblemDetails).withDetail
      (if deletes operation then "a delete names why in JC-Reason"
        else "a write from the Portal names why in JC-Reason"))
  else none

def refuse (problem : Option ProblemDetails) : Except ProblemDetails Unit :=
  match problem with
  | some problem => .error problem
  | none => .ok ()

/-- A write that is forwarded, as the guards of its path and body read it. -/
def odataWrite (e : Endpoint) (caller : Caller) (method rest : String) (sent : List UInt8) :
    Except ProblemDetails Write := do
  let write ← Write.of method rest
  refuse (reasonRefusal write.operation caller)
  let members ← members parse sent
  refuse (namedRefusal e write members)
  return write

end Judge

section Broker

/-- The broker decodes each segment of the path. -/
def decoded (segment : String) : String :=
  Text.fromUtf8Lossy (Url.percentDecode (Text.utf8Bytes segment))

def decodedSegments (rest : String) : List String := (segments rest).map decoded

def isKeyed (segment : String) : Bool := segment.toList.contains '('

/-- The operation a path means to who reads it decoded. -/
def meant (method rest : String) : Operation :=
  operationOf method (isKeyed ((decodedSegments rest).headD ""))
    ((decodedSegments rest)[1]?.any namesProperty)

/-- The property a decoded segment names, with the key after it taken off. -/
def propertyName (segment : String) : String :=
  String.ofList (segment.toList.takeWhile (· != '('))

/-- The properties a path names to who reads it decoded: every segment below the entity. -/
def named (rest : String) : List String :=
  ((decodedSegments rest).tail.filter namesProperty).map propertyName

/-- An attribute that no write through the Endpoint may touch. -/
def Guarded (e : Endpoint) (name : String) : Prop :=
  (∃ hidden ∈ e.hiddenAttributes, WriteGuard.namesAttribute name hidden = true) ∨
    isOwned name = true

/-- What a forwarded write is: no batch, the operation its path means, with the reason that one
needs, and nothing guarded in its path or its body. -/
structure Faithful (parse : List UInt8 → Option Value) (e : Endpoint) (caller : Caller)
    (method rest : String) (sent : List UInt8) (write : Write) : Prop where
  batch : (decodedSegments rest).headD "" ≠ "$batch"
  operation : write.operation = meant method rest
  reason : deletes (meant method rest) = true → caller.gives = true
  path : ∀ name ∈ named rest, ¬Guarded e (unmangle name)
  body : ∀ object, sent ≠ [] → parse sent = some (.obj object) → ∀ held ∈ object, ∀ name,
    attributeOf held.1 = some name → ¬Guarded e (unmangle name)

/-- Every write that is forwarded is judged as what the broker does. -/
def JudgedAsDone (parse : List UInt8 → Option Value) (e : Endpoint) (method rest : String)
    (sent : List UInt8) : Prop :=
  ∀ caller write, odataWrite parse e caller method rest sent = .ok write →
    Faithful parse e caller method rest sent write

/-- A write that is not refused whoever sends it: no batch as written, with a body that can be
read and nothing guarded where the gateway looks. -/
structure Passes (parse : List UInt8 → Option Value) (e : Endpoint) (rest : String)
    (sent : List UInt8) : Prop where
  batch : (segments rest).headD "" ≠ "$batch"
  body : ∃ names, members parse sent = .ok names ∧
    ∀ name ∈ names.filterMap attributeOf, ¬Guarded e (unmangle name)
  property : ∀ segment ∈ (segments rest)[1]?, namesProperty segment = true →
    ¬Guarded e (unmangle (Query.decode segment))

/-- A path that hides nothing from who reads it as it is written. -/
structure Plain (e : Endpoint) (method rest : String) : Prop where
  batch : decoded ((segments rest).headD "") ≠ "$batch"
  key : isKeyed ((segments rest).headD "") = false →
    isKeyed (decoded ((segments rest).headD "")) = true →
    (method ≠ "POST" ∧ method ≠ "PUT" ∧ method ≠ "DELETE") ∧
      ∀ segment ∈ (segments rest)[1]?, namesProperty (decoded segment) = false
  system : isKeyed ((segments rest).headD "") = true →
    ∀ segment ∈ (segments rest)[1]?, namesProperty segment = true →
      namesProperty (decoded segment) = true
  property : ∀ segment ∈ (segments rest)[1]?, namesProperty (decoded segment) = true →
    propertyName (decoded segment) ≠ Query.decode segment →
    ¬Guarded e (unmangle (propertyName (decoded segment)))
  below : ∀ segment ∈ (segments rest).drop 2, namesProperty (decoded segment) = true →
    ¬Guarded e (unmangle (propertyName (decoded segment)))

end Broker

section Judged

variable {parse : List UInt8 → Option Value} {e : Endpoint} {caller : Caller}
  {method rest segment name : String} {sent : List UInt8} {write : Write} {c : Char}

/-! ## What decoding keeps -/

theorem percentDecode_append {b : ℕ} (hb : b ≠ 0x25) (hhex : Url.hexValue b = none) :
    ∀ (before after : List ℕ), Url.percentDecode (before ++ b :: after) =
      Url.percentDecode before ++ b :: Url.percentDecode after
  | [], after => Query.percentDecode_cons hb after
  | [a], after => by
    match after with
    | [] => rfl
    | x :: after =>
      rw [List.singleton_append, Url.percentDecode, if_neg (by simp [hhex]),
        Query.percentDecode_cons hb]
      rfl
  | [a, a'], after => by
    rw [List.cons_append, List.singleton_append, Url.percentDecode, if_neg (by simp [hhex])]
    rw [show a' :: b :: after = [a'] ++ b :: after from rfl,
      percentDecode_append hb hhex [a'] after]
    rfl
  | a :: high :: low :: before, after => by
    simp only [List.cons_append]
    rw [Url.percentDecode, Url.percentDecode]
    split_ifs
    · rw [percentDecode_append hb hhex before after, List.cons_append]
    · have := percentDecode_append hb hhex (high :: low :: before) after
      simp only [List.cons_append] at this
      rw [this, List.cons_append]

/-- A character that is no part of an escape stands where it stood. -/
theorem decoded_append (hascii : c.toNat < 0x80) (hpercent : c.toNat ≠ 0x25)
    (hhex : Url.hexValue c.toNat = none) (before after : String) :
    decoded (before ++ (String.ofList [c] ++ after)) =
      decoded before ++ (String.ofList [c] ++ decoded after) := by
  have hc : Text.utf8Bytes (String.ofList [c]) = [c.toNat] := by
    simp [Text.utf8Bytes, Text.utf8EncodeChar_ascii hascii]
  unfold decoded
  rw [Text.utf8Bytes_append, Text.utf8Bytes_append, hc, List.singleton_append,
    percentDecode_append hpercent hhex]
  unfold Text.fromUtf8Lossy
  rw [Text.utf8Lossy_append_ascii hascii _ _ none nofun]
  apply String.toList_injective
  simp

theorem isKeyed_decoded (h : isKeyed segment = true) : isKeyed (decoded segment) = true := by
  obtain ⟨before, after, hsegment⟩ := List.append_of_mem (List.contains_iff_mem.1 h)
  obtain rfl : segment = String.ofList before ++ (String.ofList ['('] ++ String.ofList after) :=
    String.toList_injective (by simp [hsegment])
  rw [decoded_append (by decide) (by decide) (by decide)]
  simp [isKeyed]

theorem startsWith_decoded (h : Text.startsWith '$' segment = true) :
    Text.startsWith '$' (decoded segment) = true := by
  obtain ⟨rest, hrest⟩ := Text.startsWith_iff.1 h
  obtain rfl : segment = "" ++ (String.ofList ['$'] ++ String.ofList rest) :=
    String.toList_injective (by simp [hrest])
  rw [decoded_append (by decide) (by decide) (by decide)]
  have hnil : decoded "" = "" := rfl
  rw [hnil]
  exact Text.startsWith_iff.2 ⟨(decoded (String.ofList rest)).toList, by simp⟩

/-- A segment that names a property once decoded names one as it is written. -/
theorem namesProperty_of_decoded (h : namesProperty (decoded segment) = true) :
    namesProperty segment = true := by
  unfold namesProperty at h ⊢
  simp only [Bool.and_eq_true, decide_eq_true_eq, Bool.not_eq_true'] at h ⊢
  refine ⟨fun hempty => h.1 (by rw [hempty]; rfl), ?_⟩
  by_contra hstart
  rw [startsWith_decoded (Bool.not_eq_false _ ▸ hstart)] at h
  exact absurd h.2 (by simp)

/-! ## What a write is judged as -/

/-- The write a path is judged as. -/
def judged (method rest : String) : Write where
  operation := operationOf method (isKeyed ((segments rest).headD ""))
    ((segments rest)[1]?.any namesProperty)
  set := Query.decode (String.ofList (((segments rest).headD "").toList.takeWhile (· != '(')))
  property := ((segments rest)[1]?.filter namesProperty).map Query.decode

theorem splitOnce_key (segment : String) :
    (match Text.splitOnce '(' segment with
      | some (set, _) => (set, true)
      | none => (segment, false)) =
      (String.ofList (segment.toList.takeWhile (· != '(')), isKeyed segment) := by
  by_cases hkey : '(' ∈ segment.toList
  · have hkeyed : isKeyed segment = true := List.contains_iff_mem.2 hkey
    unfold Text.splitOnce
    rw [List.span_eq_takeWhile_dropWhile, hkeyed]
    cases hdrop : segment.toList.dropWhile (· != '(') with
    | nil => simpa using List.dropWhile_eq_nil_iff.1 hdrop _ hkey
    | cons c rest => rfl
  · have hkeyed : isKeyed segment = false := by simpa [isKeyed] using hkey
    have hall : segment.toList.takeWhile (· != '(') = segment.toList :=
      List.takeWhile_eq_self_iff.2 fun c hc => by
        simpa using fun heq : c = '(' => hkey (heq ▸ hc)
    rw [Text.splitOnce_eq_none hkey, hkeyed, hall, String.ofList_toList]

theorem write_of (hbatch : (segments rest).headD "" ≠ "$batch") :
    Write.of method rest = .ok (judged method rest) := by
  unfold Write.of judged
  dsimp only
  rw [if_neg hbatch, splitOnce_key]
  dsimp only
  congr 2
  cases (segments rest)[1]? with
  | none => rfl
  | some segment => cases h : namesProperty segment <;> simp [h, Option.filter]

theorem guarded_iff :
    (hiddenRefusal e name <|> ownedPath (some name)) = none ↔ ¬Guarded e name := by
  unfold hiddenRefusal ownedPath Guarded
  split_ifs with hhidden
  · simp [hhidden]
  · cases howned : isOwned name <;> simp [hhidden, howned, Option.filter]

theorem namedRefusal_eq_none {names : List String} : namedRefusal e write names = none ↔
    (∀ name ∈ write.property, ¬Guarded e (unmangle name)) ∧
      ∀ name ∈ names.filterMap attributeOf, ¬Guarded e (unmangle name) := by
  unfold namedRefusal
  rw [List.findSome?_eq_none_iff, List.forall_mem_map, List.forall_mem_append]
  simp only [guarded_iff, Option.mem_toList, Option.mem_def]

theorem refuse_eq_ok {problem : Option ProblemDetails} :
    refuse problem = .ok () ↔ problem = none := by
  cases problem <;> simp [refuse]

/-- A write is forwarded when its path and body pass and it has the reason it needs. -/
theorem odataWrite_eq_ok : odataWrite parse e caller method rest sent = .ok write ↔
    Passes parse e rest sent ∧ reasonRefusal (judged method rest).operation caller = none ∧
      write = judged method rest := by
  unfold odataWrite
  by_cases hbatch : (segments rest).headD "" = "$batch"
  · have herror : Write.of method rest = .error batchUnavailable := by
      unfold Write.of
      dsimp only
      rw [if_pos hbatch]
    rw [herror]
    exact ⟨nofun, fun h => (h.1.batch hbatch).elim⟩
  have hproperty : (∀ name ∈ (judged method rest).property, ¬Guarded e (unmangle name)) ↔
      ∀ segment ∈ (segments rest)[1]?, namesProperty segment = true →
        ¬Guarded e (unmangle (Query.decode segment)) := by
    unfold judged
    dsimp only
    cases (segments rest)[1]? with
    | none => simp
    | some segment => cases h : namesProperty segment <;> simp [h, Option.filter]
  constructor
  · intro h
    obtain ⟨judged', hjudged, h⟩ := bind_eq_ok.1 h
    rw [write_of hbatch] at hjudged
    obtain rfl := Except.ok.inj hjudged
    obtain ⟨_, hreason, h⟩ := bind_eq_ok.1 h
    obtain ⟨names, hnames, h⟩ := bind_eq_ok.1 h
    obtain ⟨_, hnamed, h⟩ := bind_eq_ok.1 h
    obtain ⟨hpath, hbody⟩ := namedRefusal_eq_none.1 (refuse_eq_ok.1 hnamed)
    exact ⟨⟨hbatch, ⟨names, hnames, hbody⟩, hproperty.1 hpath⟩, refuse_eq_ok.1 hreason,
      (Except.ok.inj h).symm⟩
  · rintro ⟨⟨-, ⟨names, hnames, hbody⟩, hpath⟩, hreason, rfl⟩
    refine bind_eq_ok.2 ⟨_, write_of hbatch, bind_eq_ok.2 ⟨(), refuse_eq_ok.2 hreason,
      bind_eq_ok.2 ⟨names, hnames, bind_eq_ok.2 ⟨(), refuse_eq_ok.2 ?_, rfl⟩⟩⟩⟩
    exact namedRefusal_eq_none.2 ⟨hproperty.2 hpath, hbody⟩

/-! ## The operation of a path -/

theorem operationOf_unkeyed (property : Bool) : operationOf method false property =
    if method = "POST" then .createEntity else .mergeEntity := by
  unfold operationOf
  split <;> simp_all

theorem operationOf_property : operationOf method true true =
    if method = "DELETE" then .deleteAttrs else .updateAttrs := by
  unfold operationOf
  split <;> simp_all

theorem operationOf_entity : operationOf method true false =
    if method = "PUT" then .replaceEntity else if method = "DELETE" then .deleteEntity
      else .mergeEntity := by
  unfold operationOf
  split <;> simp_all

theorem operationOf_eq_iff {keyed keyed' property property' : Bool}
    (hkeyed : keyed = true → keyed' = true) (hproperty : property' = true → property = true) :
    operationOf method keyed property = operationOf method keyed' property' ↔
      (keyed = false → keyed' = true →
        (method ≠ "POST" ∧ method ≠ "PUT" ∧ method ≠ "DELETE") ∧ property' = false) ∧
      (keyed = true → property = true → property' = true) := by
  cases keyed with
  | false =>
    rw [operationOf_unkeyed]
    cases keyed' with
    | false => simp [operationOf_unkeyed]
    | true =>
      cases property' with
      | false =>
        rw [operationOf_entity]
        by_cases hpost : method = "POST" <;> by_cases hput : method = "PUT" <;>
          by_cases hdelete : method = "DELETE" <;> simp_all
      | true =>
        rw [operationOf_property]
        by_cases hpost : method = "POST" <;> by_cases hdelete : method = "DELETE" <;> simp_all
  | true =>
    rw [hkeyed rfl]
    cases property' with
    | true => simp [hproperty rfl]
    | false =>
      cases property with
      | false => simp
      | true =>
        rw [operationOf_property, operationOf_entity]
        by_cases hput : method = "PUT" <;> by_cases hdelete : method = "DELETE" <;> simp_all

theorem headD_decodedSegments :
    (decodedSegments rest).headD "" = decoded ((segments rest).headD "") := by
  unfold decodedSegments
  cases segments rest <;> rfl

theorem getElem?_decodedSegments : (decodedSegments rest)[1]? = (segments rest)[1]?.map decoded :=
  List.getElem?_map

/-- What is judged of a path and what it means are one operation unless an escape hides the key or
a system resource. -/
theorem operation_eq_iff : (judged method rest).operation = meant method rest ↔
    (isKeyed ((segments rest).headD "") = false →
      isKeyed (decoded ((segments rest).headD "")) = true →
      (method ≠ "POST" ∧ method ≠ "PUT" ∧ method ≠ "DELETE") ∧
        ∀ segment ∈ (segments rest)[1]?, namesProperty (decoded segment) = false) ∧
    (isKeyed ((segments rest).headD "") = true →
      ∀ segment ∈ (segments rest)[1]?, namesProperty segment = true →
        namesProperty (decoded segment) = true) := by
  unfold judged meant
  rw [headD_decodedSegments, getElem?_decodedSegments, Option.any_map]
  have h := fun property property' => @operationOf_eq_iff method
    (isKeyed ((segments rest).headD "")) (isKeyed (decoded ((segments rest).headD "")))
    property property' isKeyed_decoded
  cases (segments rest)[1]? with
  | none => simpa using h false false id
  | some segment =>
    simpa using h (namesProperty segment) (namesProperty (decoded segment)) namesProperty_of_decoded

/-! ## What a path names -/

theorem mem_named_iff : name ∈ named rest ↔
    (∃ segment ∈ (segments rest)[1]?, namesProperty (decoded segment) = true ∧
      propertyName (decoded segment) = name) ∨
    ∃ segment ∈ (segments rest).drop 2, namesProperty (decoded segment) = true ∧
      propertyName (decoded segment) = name := by
  unfold named decodedSegments
  match segments rest with
  | [] => simp
  | [first] => simp
  | first :: second :: below =>
    simp [or_and_right, exists_or, and_assoc]

theorem gives_of_reasonRefusal {operation : Operation}
    (h : reasonRefusal operation caller = none) (hdeletes : deletes operation = true) :
    caller.gives = true := by
  unfold reasonRefusal at h
  by_contra hgives
  simp [hdeletes, hgives] at h

/-- A caller with a reason is refused nothing for want of one. -/
theorem reasonRefusal_of_gives {operation : Operation} (h : caller.gives = true) :
    reasonRefusal operation caller = none := by
  simp [reasonRefusal, h]

/-- A write is judged as what the broker does exactly when it is refused whoever sends it, or its
path hides nothing. -/
theorem judgedAsDone_iff (parse : List UInt8 → Option Value) (e : Endpoint) (method rest : String)
    (sent : List UInt8) : JudgedAsDone parse e method rest sent ↔
      (Passes parse e rest sent → Plain e method rest) := by
  constructor
  · intro h hpasses
    have hgives : Caller.gives ⟨false, some "why"⟩ = true := by decide
    have hfaithful := h ⟨false, some "why"⟩ (judged method rest)
      (odataWrite_eq_ok.2 ⟨hpasses, reasonRefusal_of_gives hgives, rfl⟩)
    have hbatch := hfaithful.batch
    rw [headD_decodedSegments] at hbatch
    obtain ⟨hkey, hsystem⟩ := operation_eq_iff.1 hfaithful.operation
    exact ⟨hbatch, hkey, hsystem, fun segment hsegment hnames _ =>
      hfaithful.path _ (mem_named_iff.2 (Or.inl ⟨segment, hsegment, hnames, rfl⟩)),
      fun segment hsegment hnames =>
        hfaithful.path _ (mem_named_iff.2 (Or.inr ⟨segment, hsegment, hnames, rfl⟩))⟩
  · intro h caller write hwrite
    obtain ⟨hpasses, hreason, rfl⟩ := odataWrite_eq_ok.1 hwrite
    have hplain := h hpasses
    have hoperation := operation_eq_iff.2 ⟨hplain.key, hplain.system⟩
    refine ⟨headD_decodedSegments ▸ hplain.batch, hoperation, fun hdeletes => ?_,
      fun name hname => ?_, fun object hsent hparse held hheld name hname => ?_⟩
    · exact gives_of_reasonRefusal hreason (hoperation ▸ hdeletes)
    · rcases mem_named_iff.1 hname with ⟨segment, hsegment, hnames, rfl⟩ |
        ⟨segment, hsegment, hnames, rfl⟩
      · by_cases heq : propertyName (decoded segment) = Query.decode segment
        · rw [heq]
          exact hpasses.property segment hsegment (namesProperty_of_decoded hnames)
        · exact hplain.property segment hsegment hnames heq
      · exact hplain.below segment hsegment hnames
    · obtain ⟨names, hnames, hbody⟩ := hpasses.body
      rw [members, if_neg hsent, hparse] at hnames
      cases hnames
      exact hbody name (List.mem_filterMap.2 ⟨held.1, List.mem_map_of_mem hheld, hname⟩)

/-- A delete whose key stands in escaped parentheses is judged as a merge, and needs no reason. -/
theorem escaped_key_misjudged : ¬∀ parse e method rest sent,
    JudgedAsDone parse e method rest sent := by
  intro h
  have hnone : (segments "/Vehicle%28'x'%29")[1]? = none := by decide
  have hwrite : odataWrite (fun _ => none) ⟨∅, none⟩ ⟨false, none⟩ "DELETE" "/Vehicle%28'x'%29" [] =
      .ok (judged "DELETE" "/Vehicle%28'x'%29") :=
    odataWrite_eq_ok.2 ⟨⟨by decide, ⟨[], rfl, by simp⟩, by simp [hnone]⟩, by decide, rfl⟩
  exact absurd ((h _ _ _ _ _ _ _ hwrite).reason (by decide)) (by decide)

end Judged

end JoinedContext.Gateway.ODataWrites
