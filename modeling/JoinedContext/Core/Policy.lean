import JoinedContext.Core.Crates
import JoinedContext.Core.Urn
import Mathlib.Data.Finset.Basic

/-!
# Policies

`PolicySpec` as the decision point reads it: one rule, already expanded. What it grants is a list of
operations over its registration entries, narrowed by the residual filters.
-/

namespace JoinedContext

/-- An instant of UTC, in nanoseconds. -/
abbrev Instant := Int

/-- A reference to a resource, by its name or with its kind. -/
inductive Ref where
  | name (name : String)
  | typed (kind name : String) («namespace» : Option String)
  deriving DecidableEq

namespace Ref

def nameOf : Ref → String
  | .name n => n
  | .typed _ n _ => n

def kindOf : Ref → Option String
  | .name _ => none
  | .typed kind _ _ => some kind

end Ref

inductive Operation where
  | createEntity | updateEntity | appendAttrs | updateAttrs | deleteAttrs | deleteEntity
  | createBatch | upsertBatch | updateBatch | deleteBatch
  | upsertTemporal | appendAttrsTemporal | deleteAttrsTemporal | updateAttrInstanceTemporal
  | deleteAttrInstanceTemporal | deleteTemporal
  | mergeEntity | replaceEntity | replaceAttrs | mergeBatch | purgeEntity
  | retrieveEntity | queryEntity | queryBatch | retrieveTemporal | queryTemporal
  | retrieveEntityTypes | retrieveEntityTypeDetails | retrieveEntityTypeInfo
  | retrieveAttrTypes | retrieveAttrTypeDetails | retrieveAttrTypeInfo
  | createSubscription | updateSubscription | retrieveSubscription | querySubscription
  | deleteSubscription
  | retrieveEntityMap | updateEntityMap | deleteEntityMap
  | createEntityMapQueryEntity | createEntityMapQueryTemporal
  | retrieveContextSourceIdentity
deriving DecidableEq

namespace Operation

def isWrite : Operation → Bool
  | .createEntity | .updateEntity | .appendAttrs | .updateAttrs | .deleteAttrs | .deleteEntity
  | .createBatch | .upsertBatch | .updateBatch | .deleteBatch
  | .upsertTemporal | .appendAttrsTemporal | .deleteAttrsTemporal | .updateAttrInstanceTemporal
  | .deleteAttrInstanceTemporal | .deleteTemporal
  | .mergeEntity | .replaceEntity | .replaceAttrs | .mergeBatch | .purgeEntity
  | .createSubscription | .updateSubscription | .deleteSubscription => true
  | _ => false

/-- The wire name. -/
def asStr : Operation → String
  | .createEntity => "createEntity"
  | .updateEntity => "updateEntity"
  | .appendAttrs => "appendAttrs"
  | .updateAttrs => "updateAttrs"
  | .deleteAttrs => "deleteAttrs"
  | .deleteEntity => "deleteEntity"
  | .createBatch => "createBatch"
  | .upsertBatch => "upsertBatch"
  | .updateBatch => "updateBatch"
  | .deleteBatch => "deleteBatch"
  | .upsertTemporal => "upsertTemporal"
  | .appendAttrsTemporal => "appendAttrsTemporal"
  | .deleteAttrsTemporal => "deleteAttrsTemporal"
  | .updateAttrInstanceTemporal => "updateAttrInstanceTemporal"
  | .deleteAttrInstanceTemporal => "deleteAttrInstanceTemporal"
  | .deleteTemporal => "deleteTemporal"
  | .mergeEntity => "mergeEntity"
  | .replaceEntity => "replaceEntity"
  | .replaceAttrs => "replaceAttrs"
  | .mergeBatch => "mergeBatch"
  | .purgeEntity => "purgeEntity"
  | .retrieveEntity => "retrieveEntity"
  | .queryEntity => "queryEntity"
  | .queryBatch => "queryBatch"
  | .retrieveTemporal => "retrieveTemporal"
  | .queryTemporal => "queryTemporal"
  | .retrieveEntityTypes => "retrieveEntityTypes"
  | .retrieveEntityTypeDetails => "retrieveEntityTypeDetails"
  | .retrieveEntityTypeInfo => "retrieveEntityTypeInfo"
  | .retrieveAttrTypes => "retrieveAttrTypes"
  | .retrieveAttrTypeDetails => "retrieveAttrTypeDetails"
  | .retrieveAttrTypeInfo => "retrieveAttrTypeInfo"
  | .createSubscription => "createSubscription"
  | .updateSubscription => "updateSubscription"
  | .retrieveSubscription => "retrieveSubscription"
  | .querySubscription => "querySubscription"
  | .deleteSubscription => "deleteSubscription"
  | .retrieveEntityMap => "retrieveEntityMap"
  | .updateEntityMap => "updateEntityMap"
  | .deleteEntityMap => "deleteEntityMap"
  | .createEntityMapQueryEntity => "createEntityMapQueryEntity"
  | .createEntityMapQueryTemporal => "createEntityMapQueryTemporal"
  | .retrieveContextSourceIdentity => "retrieveContextSourceIdentity"

/-- Every operation, in the order of the vocabulary. -/
def ALL : List Operation :=
  [.createEntity, .updateEntity, .appendAttrs, .updateAttrs, .deleteAttrs, .deleteEntity,
    .createBatch, .upsertBatch, .updateBatch, .deleteBatch, .upsertTemporal, .appendAttrsTemporal,
    .deleteAttrsTemporal, .updateAttrInstanceTemporal, .deleteAttrInstanceTemporal, .deleteTemporal,
    .mergeEntity, .replaceEntity, .replaceAttrs, .mergeBatch, .purgeEntity, .retrieveEntity,
    .queryEntity, .queryBatch, .retrieveTemporal, .queryTemporal, .retrieveEntityTypes,
    .retrieveEntityTypeDetails, .retrieveEntityTypeInfo, .retrieveAttrTypes,
    .retrieveAttrTypeDetails, .retrieveAttrTypeInfo, .createSubscription, .updateSubscription,
    .retrieveSubscription, .querySubscription, .deleteSubscription, .retrieveEntityMap,
    .updateEntityMap, .deleteEntityMap, .createEntityMapQueryEntity, .createEntityMapQueryTemporal,
    .retrieveContextSourceIdentity]

end Operation

inductive OperationGroup where
  | federationOps | associationOps | updateOps | retrieveOps | redirectionOps
deriving DecidableEq

namespace OperationGroup

def operations : OperationGroup → List Operation
  | .federationOps =>
    [.retrieveEntity, .queryEntity, .queryBatch, .retrieveEntityTypes, .retrieveEntityTypeDetails,
      .retrieveEntityTypeInfo, .retrieveAttrTypes, .retrieveAttrTypeDetails, .retrieveAttrTypeInfo,
      .createSubscription, .updateSubscription, .retrieveSubscription, .querySubscription,
      .deleteSubscription, .retrieveEntityMap, .updateEntityMap, .deleteEntityMap,
      .createEntityMapQueryEntity]
  | .associationOps =>
    [.retrieveEntity, .queryEntity, .queryBatch, .retrieveEntityTypes, .retrieveEntityTypeDetails,
      .retrieveEntityTypeInfo, .retrieveAttrTypes, .retrieveAttrTypeDetails, .retrieveAttrTypeInfo,
      .createSubscription, .updateSubscription, .retrieveSubscription, .querySubscription,
      .deleteSubscription]
  | .updateOps => [.updateEntity, .updateAttrs, .replaceEntity, .replaceAttrs]
  | .retrieveOps => [.retrieveEntity, .queryEntity]
  | .redirectionOps =>
    [.createEntity, .updateEntity, .appendAttrs, .updateAttrs, .deleteAttrs, .deleteEntity,
      .mergeEntity, .replaceEntity, .replaceAttrs, .retrieveEntity, .queryEntity, .purgeEntity,
      .retrieveEntityTypes, .retrieveEntityTypeDetails, .retrieveEntityTypeInfo,
      .retrieveAttrTypes, .retrieveAttrTypeDetails, .retrieveAttrTypeInfo, .retrieveEntityMap,
      .updateEntityMap, .deleteEntityMap, .createEntityMapQueryEntity]

def asStr : OperationGroup → String
  | .federationOps => "federationOps"
  | .associationOps => "associationOps"
  | .updateOps => "updateOps"
  | .retrieveOps => "retrieveOps"
  | .redirectionOps => "redirectionOps"

def ALL : List OperationGroup :=
  [.federationOps, .associationOps, .updateOps, .retrieveOps, .redirectionOps]

end OperationGroup

inductive OperationRef where
  | single (operation : Operation)
  | group (group : OperationGroup)
deriving DecidableEq

namespace OperationRef

def asStr : OperationRef → String
  | .single op => op.asStr
  | .group g => g.asStr

/-- The operation, else the group, a wire name is. -/
def ofWire (wire : String) : Option OperationRef :=
  ((Operation.ALL.find? fun op => op.asStr == wire).map .single) <|>
    (OperationGroup.ALL.find? fun g => g.asStr == wire).map .group

theorem ofWire_asStr : ∀ op : OperationRef, ofWire op.asStr = some op
  | .single op => by
    have hall : ∀ op ∈ Operation.ALL, ofWire op.asStr = some (.single op) := by decide +kernel
    exact hall op (by cases op <;> decide)
  | .group g => by
    have hall : ∀ g ∈ OperationGroup.ALL, ofWire g.asStr = some (.group g) := by decide +kernel
    exact hall g (by cases g <;> decide)

end OperationRef

inductive PrincipalKind where
  | user | group | role | serviceAccount | did | organization
deriving DecidableEq

structure Principal where
  kind : PrincipalKind
  id : String
deriving DecidableEq

def isServiceAccountUser (id : String) : Bool :=
  match Text.stripPrefix "service-account-" id with
  | some client =>
    client != "" && client.toList.all fun c => c.isAlphanum || c ∈ ['-', '_', '.']
  | none => false

structure Subject where
  user : Option String := none
  id : Option String := none
  serviceAccount : Option String := none
  serviceAccountProject : Option String := none
  groups : Finset String := ∅
  memberOfOrganization : Bool := false
  organizationGroups : Option (Finset String) := none
  roles : Finset String := ∅
  did : Option String := none
  readOnly : Bool := false

namespace Subject

def grantGroups (s : Subject) : Finset String := s.organizationGroups.getD s.groups

def userPrincipal (s : Subject) : Option String :=
  match s.user with
  | some user => if isServiceAccountUser user then some user else s.id
  | none => s.id

def is (s : Subject) (assignee : Principal) : Bool :=
  match assignee.kind with
  | .user => s.userPrincipal == some assignee.id
  | .group => assignee.id ∈ s.grantGroups
  | .organization => s.memberOfOrganization
  | .role => assignee.id ∈ s.roles
  | .serviceAccount =>
    match Text.splitOnce '/' assignee.id with
    | some (project, name) =>
      s.serviceAccountProject == some project && s.serviceAccount == some name
    | none => s.serviceAccount == some assignee.id
  | .did => s.did == some assignee.id

end Subject

structure EntitySelector where
  entityType : String
  id : Option Urn := none
  idPattern : Option String := none
deriving DecidableEq

/-- The rules a selector keeps wherever it stands: a valid type, an id or a pattern, and a pattern
anchored at both ends that compiles. -/
def EntitySelector.validate (crates : Crates) (e : EntitySelector) :
    Except Names.NameError Unit := do
  Names.validateEntityType e.entityType
  if e.id.isSome && e.idPattern.isSome then
    .error ⟨"entities.idPattern", e.idPattern.getD "",
      "id and idPattern are mutually exclusive on an entity selector"⟩
  match e.idPattern with
  | none => pure ()
  | some pattern =>
    if !Text.startsWith '^' pattern || !Text.endsWithAny ['$'] pattern then
      .error ⟨"entities.idPattern", pattern,
        "idPattern must be anchored with `^` and `$` (R24, R33)"⟩
    if (crates.regex pattern).isNone then
      .error ⟨"entities.idPattern", pattern, "idPattern failed to compile as a valid regex"⟩

inductive PolicyEffect where
  | permission
  | prohibition
deriving DecidableEq

def PolicyEffect.isProhibition (e : PolicyEffect) : Bool := e == .prohibition

structure RegistrationInfo where
  entities : List EntitySelector
  propertyNames : List String := []
  relationshipNames : List String := []
deriving DecidableEq

structure Validity where
  fromAt : Option Instant
  toAt : Option Instant
deriving DecidableEq

structure PolicySpec where
  effect : PolicyEffect := .permission
  assignee : Principal
  operations : List OperationRef
  information : List RegistrationInfo := []
  q : Option String := none
  scopeQ : Option String := none
  geoQ : Option String := none
  temporalQ : Option String := none
  validity : Option Validity := none
deriving DecidableEq

namespace PolicySpec

/-- A `geoQ` as its members by name; a member written twice keeps its last value. -/
def geoParams (geoQ : String) (name : String) : Option String :=
  (((Text.splitAny [';'] geoQ).filterMap (Text.splitOnce '=')).map fun m =>
    (Text.trim m.1, Text.trim m.2)).reverse.lookup name

def refusedQ (crates : Crates) (q : String) : Option Names.NameError :=
  if !crates.parseQ q then
    some ⟨"spec.q", q, "q is no NGSI-LD query, e.g. `speed>50;status==\"open\"`"⟩
  else if crates.hasLinkedPaths q then
    some ⟨"spec.q", q, "q reads a linked Entity (`a\x7bb\x7d`), which a Policy cannot follow"⟩
  else none

def refusedScopeQ (crates : Crates) (scopeQ : String) : Option Names.NameError :=
  if !crates.checkScopeQ scopeQ then
    some ⟨"spec.scopeQ", scopeQ, "scopeQ is no NGSI-LD scope query, e.g. `/geo/SK/BB/#`"⟩
  else none

def refusedGeoQ (crates : Crates) (geoQ : String) : Option Names.NameError :=
  if !crates.geoQueryFromParams (geoParams geoQ) then
    some ⟨"spec.geoQ", geoQ, "geoQ is no NGSI-LD geo-query: georel (near;maxDistance==…, " ++
      "within, contains, intersects, equals, disjoint, overlaps), geometry and coordinates " ++
      "joined by `;`, e.g. `georel=within;geometry=Polygon;" ++
      "coordinates=[[[19.1,48.7],[19.2,48.7],[19.2,48.8],[19.1,48.7]]]`"⟩
  else none

end PolicySpec

end JoinedContext
