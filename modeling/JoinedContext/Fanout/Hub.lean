import JoinedContext.Fanout.Index
import JoinedContext.Fanout.Queue
import JoinedContext.Pdp.Projection
import Mathlib.Data.List.Sort

/-!
# One Endpoint's live state

The connections with their subscriptions and queues, the filters in their index, the latest entity
per id, and the closed connections held for a resume.
-/

namespace JoinedContext.Fanout

def maxFilters : ℕ := 64

/-- The resume window, in nanoseconds. -/
def resumeWindow : Instant := 30000000000

def maxClosed : ℕ := 256

def maxClosedBytes : ℕ := 4 * 1024 * 1024

/-- Filter ids carry their connection above this many. -/
def subIds : ℕ := 2 ^ 20

section State

structure Sub where
  id : String
  filter : FilterId
  body : Value
  attributes : Option (Finset String)

/-- An Endpoint's record: whether it serves the WebSocket, and everything else it holds. -/
structure Endpoint where
  webSocket : Bool
  record : Value
deriving DecidableEq

structure Conn where
  endpoint : Endpoint
  principal : String
  client : Option String
  queue : Queue
  subs : List (ℕ × Sub)
  next : ℕ

/-- A closed connection, held for the resume window. -/
structure Closed where
  token : String
  principal : String
  subs : List (String × Value)
  sent : List (ℕ × String)
  closedAt : Instant

structure Answer where
  status : ℕ
  body : Option Value
deriving DecidableEq

def Answer.problem (status : ℕ) (kind detail : String) : Answer where
  status := status
  body := some (.obj [("type", .str ("https://uri.etsi.org/ngsi-ld/errors/" ++ kind)),
    ("title", .str kind), ("status", .num status 0), ("detail", .str detail)])

structure Hub (F : Type) where
  slug : String
  table : List (String × ℕ × Value)
  tick : ℕ
  bound : ℕ
  index : Index F
  conns : List (ℕ × Conn)
  nextConn : ℕ
  closed : List (String × Closed)
  idleSince : Option Instant
  refused : Option (ℕ × String)
  due : Bool

end State

section Connections

variable {F : Type} [GridFloat F]

namespace Hub

/-- An empty hub whose table holds at most `bound` entities. -/
def new (slug : String) (bound : ℕ) (now : Instant) : Hub F where
  slug := slug
  table := []
  tick := 0
  bound := max bound 1
  index := .empty
  conns := []
  nextConn := 1
  closed := []
  idleSince := some now
  refused := none
  due := true

/-- Drops the table once no filter is left. -/
def forgetUnwatched (hub : Hub F) : Hub F :=
  if hub.index.isEmpty then { hub with table := [], due := true } else hub

def setConn (hub : Hub F) (id : ℕ) (conn : Conn) : Hub F :=
  { hub with conns := Assoc.replace id conn hub.conns }

def dropFilters (hub : Hub F) (subs : List (ℕ × Sub)) : Hub F :=
  { hub with index := subs.foldl (fun ix s => ix.remove s.2.filter) hub.index }

/-- Opens a connection of `principal` on `endpoint`. -/
def openConn (hub : Hub F) (endpoint : Endpoint) (principal : String) (client : Option String) :
    ℕ × Hub F :=
  (hub.nextConn, { hub with
    nextConn := hub.nextConn + 1
    idleSince := none
    conns := hub.conns ++ [(hub.nextConn, ⟨endpoint, principal, client, .empty, [], 1⟩)] })

def keptBytes (closed : Closed) : ℕ := (closed.sent.map fun s => s.2.utf8ByteSize).sum

/-- The closed connection that closed first. -/
def oldest : List (String × Closed) → Option (String × Closed)
  | [] => none
  | c :: rest =>
    match oldest rest with
    | some o => if o.2.closedAt < c.2.closedAt then some o else some c
    | none => some c

/-- Takes out the oldest until the bounds hold. -/
def trimClosed : ℕ → List (String × Closed) → List (String × Closed)
  | 0, closed => closed
  | fuel + 1, closed =>
    if maxClosed < closed.length ∨ maxClosedBytes < (closed.map fun c => keptBytes c.2).sum then
      match oldest closed with
      | some gone => trimClosed fuel (Assoc.without gone.1 closed)
      | none => closed
    else closed

/-- Closes a connection: its filters leave the index, and what a resume needs is held under
`name`. -/
def close (hub : Hub F) (now : Instant) (id : ℕ) (name token : String) (sent : List (ℕ × String)) :
    Hub F :=
  match hub.conns.lookup id with
  | none => hub
  | some conn =>
    let hub := { hub with conns := Assoc.without id hub.conns }
    let hub := (hub.dropFilters conn.subs).forgetUnwatched
    let held : Closed :=
      ⟨token, conn.principal, conn.subs.map fun s => (s.2.id, s.2.body), sent, now⟩
    let closed := hub.closed.filter fun c => decide (now - c.2.closedAt < resumeWindow)
    let closed := Assoc.without name closed ++ [(name, held)]
    { hub with
      closed := trimClosed closed.length closed
      idleSince := if hub.conns = [] then some now else hub.idleSince }

/-- Drops a connection that never reached a session. -/
def discard (hub : Hub F) (now : Instant) (id : ℕ) : Hub F :=
  let hub :=
    match hub.conns.lookup id with
    | none => hub
    | some conn =>
      { hub with conns := Assoc.without id hub.conns }.dropFilters conn.subs
  let hub := hub.forgetUnwatched
  if hub.conns = [] ∧ hub.idleSince = none then { hub with idleSince := some now } else hub

/-- The closed connection `name`, taken out, when the token and the principal match and it closed
within the resume window. -/
def takeClosed (hub : Hub F) (now : Instant) (name token principal : String) :
    Option (Closed × Hub F) :=
  match hub.closed.lookup name with
  | none => none
  | some held =>
    if held.token ≠ token ∨ held.principal ≠ principal ∨ resumeWindow ≤ now - held.closedAt then
      none
    else some (held, { hub with closed := Assoc.without name hub.closed })

end Hub

end Connections

section Subscriptions

variable {F : Type} [GridFloat F] (A : Antares F)

namespace Hub

/-- The answer while the broker refuses the fan-out's own subscription. -/
def unavailable (status : ℕ) (detail : String) : Answer where
  status := 503
  body := some (.obj [
    ("type", .str "https://joinedcontext.com/errors/service-unavailable"),
    ("title", .str "Service Unavailable"), ("status", .num 503 0),
    ("detail", .str ("the context broker refuses this Endpoint's fan-out (" ++ toString status ++
      ": " ++ detail ++ ")")),
    ("hint", .str "The platform is not ready for this yet; try again in a minute.")])

def mergedBody (held changes : Value) : Value :=
  match held, changes with
  | .obj held, .obj changes => .obj (changes.foldl (fun m c => setMember c.1 c.2 m) held)
  | _, _ => held

def notifiedAttributes (body : Value) : Option (Finset String) :=
  (((body.get "notification").bind (Value.get "attributes")).bind Value.asArray).map fun names =>
    (names.filterMap Value.asStr).toFinset

def subId (hub : Hub F) (conn n : ℕ) : String :=
  "urn:ngsi-ld:Subscription:ws:" ++ hub.slug ++ ":" ++ toString conn ++ ":" ++ toString n

/-- `x-subscribe` (without an id) or `x-update` of a subscription. A resume passes the id it
held. -/
def subscribe (hub : Hub F) (conn : ℕ) (id : Option String) (body : Value) (update : Bool) :
    Answer × Hub F :=
  match hub.refused with
  | some (status, detail) => (unavailable status detail, hub)
  | none =>
    match hub.conns.lookup conn with
    | none => (.problem 410 "Gone" "the connection is closed", hub)
    | some c =>
      let held := id.bind fun id => c.subs.find? fun s => s.2.id = id
      if update ∧ held = none then
        (.problem 404 "ResourceNotFound" "no such subscription on this connection", hub)
      else
        let body := if update then (held.map fun s => mergedBody s.2.body body).getD body else body
        if !update ∧ maxFilters ≤ c.subs.length then
          (.problem 400 "BadRequestData"
            ("a connection holds at most " ++ toString maxFilters ++ " subscriptions"), hub)
        else
          match compile A body with
          | .error why => (.problem 400 "BadRequestData" why, hub)
          | .ok filter =>
            let n := (held.map Prod.fst).getD c.next
            let c := { c with next := if held = none then c.next + 1 else c.next }
            if subIds ≤ n then
              (.problem 400 "BadRequestData" "this connection made too many subscriptions",
                hub.setConn conn c)
            else
              let sub : Sub :=
                ⟨id.getD (hub.subId conn n), conn * subIds + n, body, notifiedAttributes body⟩
              let c := { c with subs := Assoc.put n sub c.subs }
              let hub := { hub with index := hub.index.insert sub.filter filter }
              (if update then ⟨204, none⟩
                else ⟨201, some (.obj [("id", .str sub.id), ("type", .str "Subscription")])⟩,
                hub.setConn conn c)

/-- `x-unsubscribe` of a subscription. -/
def unsubscribe (hub : Hub F) (conn : ℕ) (id : String) : Answer × Hub F :=
  match hub.conns.lookup conn with
  | none => (.problem 410 "Gone" "the connection is closed", hub)
  | some c =>
    match c.subs.find? fun s => s.2.id = id with
    | none => (.problem 404 "ResourceNotFound" "no such subscription on this connection", hub)
    | some (n, sub) =>
      let hub := hub.setConn conn { c with subs := Assoc.without n c.subs }
      (⟨204, none⟩, { hub with index := hub.index.remove sub.filter }.forgetUnwatched)

/-- Why a reload of the Endpoint ends a connection, `none` when it keeps it. -/
def recheckReason (now : Option Endpoint) (admits : String → Bool) (c : Conn) : Option String :=
  match now with
  | none => some "view-removed"
  | some endpoint =>
    if !endpoint.webSocket then some "view-removed"
    else if endpoint = c.endpoint ∧ c.client.all admits then none
    else some "endpoint-changed"

/-- Follows every connection's Endpoint through a reload; answers the connections it closes. -/
def recheck (hub : Hub F) (now : Option Endpoint) (admits : String → Bool) : List ℕ × Hub F :=
  let gone := (hub.conns.filter fun c => (recheckReason now admits c.2).isSome)
  let conns := hub.conns.map fun c =>
    match recheckReason now admits c.2 with
    | none => c
    | some reason => (c.1, { c.2 with queue := c.2.queue.push (.closing reason), subs := [] })
  let hub := { hub with conns := conns }
  (gone.map Prod.fst, (gone.foldl (fun hub c => hub.dropFilters c.2.subs) hub).forgetUnwatched)

end Hub

end Subscriptions

section Changes

variable {F : Type} [GridFloat F] (A : Antares F)

/-- An entity in the stored form the matcher reads. -/
def expanded (entity : Value) : Option Value := entity.asObject.bind A.expandEntity

def entityId (entity : Value) : Option String := (entity.get "id").bind Value.asStr

/-- The NGSI-LD Notification of one entity for one subscription. -/
def notification (name subscription : String) (entity : Value) (now : Instant) : Value :=
  .obj [("id", .str ("urn:ngsi-ld:Notification:" ++ name)), ("type", .str "Notification"),
    ("subscriptionId", .str subscription), ("notifiedAt", .str (A.millis now)),
    ("data", .arr [entity])]

def Sub.cut (sub : Sub) (entity : Value) : Value :=
  (sub.attributes.map fun names => Projection.projectEntity entity names ∅).getD entity

namespace Hub

/-- The order of the table's entries: by the change that brought them. -/
def Earlier (a b : String × ℕ × Value) : Prop := a.2.1 < b.2.1 ∨ (a.2.1 = b.2.1 ∧ a.1 ≤ b.1)

instance : DecidableRel Earlier := fun a b =>
  inferInstanceAs (Decidable (a.2.1 < b.2.1 ∨ (a.2.1 = b.2.1 ∧ a.1 ≤ b.1)))

/-- The least recently changed of a table over its bound, to be evicted. -/
def evicted (table : List (String × ℕ × Value)) (bound : ℕ) : List String :=
  if bound < table.length then
    ((table.insertionSort Earlier).take (max (bound / 100) 1)).map Prod.fst
  else []

/-- Keeps an entity as the latest of its id, evicting the least recently changed beyond the
bound. -/
def keep (hub : Hub F) (id : String) (entity : Value) : Hub F :=
  let table := Assoc.without id hub.table ++ [(id, hub.tick + 1, entity)]
  { hub with
    tick := hub.tick + 1
    table := table.filter fun e => e.1 ∉ evicted table hub.bound }

/-- An entity the snapshot read: kept unless the table holds its id. -/
def seed (hub : Hub F) (entity : Value) : Hub F :=
  match entityId entity with
  | none => hub
  | some id =>
    if hub.index.isEmpty ∨ (hub.table.lookup id).isSome then hub else hub.keep id entity

/-- Whether the upstream reads the table now: it is due and a filter needs it. -/
def snapshotNow (hub : Hub F) : Bool × Hub F :=
  if hub.due ∧ hub.index.isEmpty = false then (true, { hub with due := false }) else (false, hub)

def pushAll (hub : Hub F) (out : Out) : Hub F :=
  { hub with conns := hub.conns.map fun c => (c.1, { c.2 with queue := c.2.queue.push out }) }

/-- The broker refused the upstream subscription. -/
def refuse (hub : Hub F) (status : ℕ) (detail : String) : Hub F :=
  { hub with refused := some (status, detail) }.pushAll .refused

/-- The broker accepted the upstream subscription. -/
def live (hub : Hub F) : Hub F := { hub with refused := none }

/-- The upstream lost its place: every connection is told to read again. -/
def gap (hub : Hub F) : Hub F := { hub with due := true }.pushAll .gap

/-- One candidate filter's share of a change. -/
def offer (names : FilterId → String) (now : Instant) (id : String) (entity full : Value)
    (delta : Finset String) (hub : Hub F) (filter : FilterId) : Hub F :=
  match hub.conns.lookup (filter / subIds) with
  | none => hub
  | some conn =>
    if hub.index.decides A now filter full delta then
      match conn.subs.find? fun s => s.2.filter = filter with
      | none => hub
      | some (_, sub) =>
        let out := Out.notification sub.id id
          (notification A (names filter) sub.id (sub.cut entity) now)
        let hub := hub.setConn (filter / subIds) { conn with queue := conn.queue.push out }
        { hub with index := hub.index.sent A filter now }
    else hub

/-- The held filters a change may notify, in the order of their ids. -/
def offered (hub : Hub F) (full : Value) : List FilterId :=
  let candidates := hub.index.candidates A full
  ((hub.index.filters.map Prod.fst).insertionSort (· ≤ ·)).filter fun id => id ∈ candidates

/-- One change from the upstream: the table keeps it, and each connection with a candidate filter is
sent what its filters make of it. The names are the random ones of the notifications. -/
def apply (hub : Hub F) (names : FilterId → String) (now : Instant) (entity : Value) : Hub F :=
  match entityId entity with
  | none => hub
  | some id =>
    if hub.index.isEmpty then hub
    else if (entity.get "deletedAt").isSome then
      { hub with table := Assoc.without id hub.table }
    else
      let previous := (hub.table.lookup id).map Prod.snd
      let hub := hub.keep id entity
      match expanded A entity with
      | none => hub
      | some full =>
        let delta := changed (previous.bind (expanded A)) full
        (hub.offered A full).foldl (offer A names now id entity full delta) hub

end Hub

end Changes

end JoinedContext.Fanout
