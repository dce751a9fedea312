import JoinedContext.Core.JsonText
import JoinedContext.Fanout.Hub

/-!
# A client's session

What a session makes of its queue and of the client's `x-resume`: the messages it sends, the
sequence numbers it uses up and the notifications it keeps for a later resume.
-/

namespace JoinedContext.Fanout

/-- The most notifications a session keeps for a resume. -/
def keptSent : ℕ := 256

/-- How a session ended by its queue. -/
inductive Ended where
  | closing (reason : String)
  | refused
deriving DecidableEq

/-- The sequence numbers used up, and the notifications sent last. -/
structure Session where
  seq : ℕ
  sent : List (ℕ × String)

namespace Session

def new : Session := ⟨0, []⟩

def keep (s : Session) (seq : ℕ) (text : String) : Session :=
  ⟨seq, (if keptSent ≤ s.sent.length then s.sent.tail else s.sent) ++ [(seq, text)]⟩

def notificationText (seq : ℕ) (subscription : String) (body : Value) : String :=
  (Value.obj [("body", body), ("metadata", .obj [("Content-Type", .str "application/json"),
    ("x-op", .str "x-notification"), ("x-seq", .num seq 0),
    ("x-subscription", .str subscription)])]).toText

def gapText (first last : ℕ) : String :=
  (Value.obj [("metadata", .obj [("x-from", .num first 0), ("x-op", .str "x-gap"),
    ("x-to", .num last 0)])]).toText

/-- What a turn of the session leads to. -/
structure Turn where
  session : Session
  outgoing : List String
  ended : Option Ended

/-- Nothing queued behind a close is sent. -/
def writeItems : Turn → List Out → Turn
  | t, [] => t
  | t, .notification subscription _ body :: rest =>
    let seq := t.session.seq + 1
    let text := notificationText seq subscription body
    writeItems { t with session := t.session.keep seq text, outgoing := t.outgoing ++ [text] } rest
  | t, .gap :: rest =>
    let seq := t.session.seq + 1
    writeItems { t with
      session := { t.session with seq }
      outgoing := t.outgoing ++ [gapText seq seq] } rest
  | t, .closing reason :: _ => { t with ended := some (.closing reason) }
  | t, .refused :: rest => writeItems { t with ended := some .refused } rest

/-- What a session makes of what it took from its queue. -/
def turn (s : Session) (taken : List Out × Bool) : Turn :=
  let t := writeItems ⟨s, [], none⟩ taken.1
  if taken.2 then
    { t with
      outgoing := t.outgoing ++ [gapText (t.session.seq + 1) (t.session.seq + 1)]
      ended := some (.closing "overflow") }
  else t

/-- The answer to one message of the client. -/
def resultText (metadata : List (String × Value)) (answer : Answer) : String :=
  let id := (metadata.lookup "x-id").toList.map fun id => ("x-id", id)
  let answered := ("metadata", Value.obj (id ++ [("x-op", .str "x-result"),
    ("x-status", .num answer.status 0)]))
  (Value.obj (answer.body.toList.map (fun body => ("body", body)) ++ [answered])).toText

def textOf (metadata : List (String × Value)) (key : String) : String :=
  ((metadata.lookup key).bind Value.asStr).getD ""

/-- `as_u64`. -/
def asU64 : Value → Option ℕ
  | .num (.ofNat n) 0 => if n < 2 ^ 64 then some n else none
  | _ => none

def notResumed : Answer :=
  .problem 404 "ResourceNotFound" "no connection of yours to resume here; read again over REST"

variable {F : Type} [GridFloat F] (A : Antares F)

/-- The subscriptions a closed connection held, made again on another; what `subscribe` answers is
not read. -/
def resubscribe (conn : ℕ) (subs : List (String × Value)) (hub : Hub F) : Hub F :=
  subs.foldl (fun hub s => (hub.subscribe A conn (some s.1) s.2 false).2) hub

/-- What a resume sends again of what the closed connection sent last. -/
def replay (closed : Closed) (after : ℕ) : List String :=
  let missed := closed.sent.filter fun m => after < m.1
  let last := max ((closed.sent.getLast?.map Prod.fst).getD after) after
  let gap :=
    if missed.head?.any (fun m => after + 1 < m.1) || (missed.isEmpty && decide (after < last)) then
      [gapText (after + 1) ((missed.head?.map fun m => m.1 - 1).getD last)]
    else []
  gap ++ missed.map Prod.snd

/-- The messages that answer an `x-resume`, what it leaves of the session and of the hub. -/
def resume (hub : Hub F) (now : Instant) (conn : ℕ) (principal : String)
    (metadata : List (String × Value)) (s : Session) : List String × Session × Hub F :=
  let after := ((metadata.lookup "x-seq").bind asU64).getD 0
  match hub.takeClosed now (textOf metadata "x-connection") (textOf metadata "x-resume-token")
      principal with
  | none => ([resultText metadata notResumed], s, hub)
  | some (closed, hub) =>
    (resultText metadata ⟨200, none⟩ :: replay closed after,
      ⟨max ((closed.sent.getLast?.map Prod.fst).getD after) after,
        s.sent ++ closed.sent.filter fun m => after < m.1⟩,
      resubscribe A conn closed.subs hub)

end Session

end JoinedContext.Fanout
