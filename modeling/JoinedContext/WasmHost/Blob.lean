import JoinedContext.Library.Assoc
import JoinedContext.Library.Machine
import Mathlib.Algebra.BigOperators.Group.List.Basic
import Mathlib.Algebra.GroupWithZero.Nat
import Mathlib.Algebra.Order.BigOperators.Group.List
import Mathlib.Algebra.Order.Group.Nat
import Mathlib.Tactic.Common

/-!
# The files of an App

An App's files are held to its quota by an estimate of their bytes: the last listing and what was
counted since. A call looks the estimate up, lists the files when it is old, and checks its room; a
write is then stored and counted, a link counted and signed. Each call to the store and each locked
section is a step, and the steps of any number of calls mix.
-/

namespace JoinedContext.WasmHost.Blob

section Source

/-- The bytes are counted in 64 bits. -/
def U64 : ℕ := 2 ^ 64

def MAX_PRESIGN_SECONDS : ℕ := 300

def MAX_FILE_BYTES : ℕ := 25 * 2 ^ 20

def MAX_KEY_BYTES : ℕ := 512

/-- How long a listing is believed, in nanoseconds. -/
def LISTED : ℕ := 30 * 10 ^ 9

/-- Whether a key stays below the App's prefix as written. -/
def checked (key : String) : Bool :=
  key ≠ "" && key.utf8ByteSize ≤ MAX_KEY_BYTES && !key.toList.head?.any (· == '/') &&
    !key.toList.any (fun c => c.toNat < 32 || (127 ≤ c.toNat && c.toNat < 160) || c == '\\') &&
    !(key.toList.splitOn '/').any fun segment => segment == [] || segment == ['.'] || segment == ['.', '.']

/-- What a call asks for; a link's upload that was signed without a length is a `put`. -/
inductive Request where
  | put (key : String) (size : ℕ)
  | presignPut (key : String) (size expires : ℕ)
deriving DecidableEq

namespace Request

def key : Request → String
  | put key _ => key
  | presignPut key _ _ => key

def size : Request → ℕ
  | put _ size => size
  | presignPut _ size _ => size

/-- What is refused of a request at once; `urls` says that links are on the Apps' own hosts. -/
def refused (urls : Bool) : Request → Bool
  | put key _ => !checked key
  | presignPut key size _ => !checked key || (urls && MAX_FILE_BYTES < size)

end Request

/-- A link for a PUT of so many bytes, until a second. -/
structure Link where
  key : String
  size : ℕ
  «until» : ℕ
deriving DecidableEq

/-- Whether a link is accepted at a time in nanoseconds. -/
def Link.isOpen (l : Link) (now : ℕ) : Bool := now / 10 ^ 9 ≤ l.«until»

def signed (key : String) (size expires now : ℕ) : Link :=
  ⟨key, size, now / 10 ^ 9 + max 1 (min expires MAX_PRESIGN_SECONDS)⟩

/-- The bytes of a listing. -/
def bytesOf (objects : List (String × ℕ)) : ℕ := (objects.map Prod.snd).sum

/-- The store after a PUT. -/
def stored (key : String) (size : ℕ) (objects : List (String × ℕ)) : List (String × ℕ) :=
  (key, size) :: Assoc.without key objects

def roomFor (quota used size : ℕ) : Bool := min (used + size) (U64 - 1) ≤ quota

/-- The estimate with so many bytes more, if there is one. -/
def count (size : ℕ) (sizes : Option (ℕ × ℕ)) : Option (ℕ × ℕ) :=
  sizes.map fun used => (used.1, min (used.2 + size) (U64 - 1))

end Source

section Runs

/-- How far a call has come: it has its room, or its write is in the store and not yet counted. -/
inductive Phase where
  | arrived
  | missed
  | listed (bytes : ℕ)
  | passed
  | stored
deriving DecidableEq

structure Call where
  number : ℕ
  request : Request
  phase : Phase
deriving DecidableEq

def Call.at (c : Call) (phase : Phase) : Call := { c with phase }

/-- The estimate, with the time it is of, the objects below the App's prefix, the calls and the uploads on
their way and the deletes that have yet to drop the estimate; and the links so far, of them those not yet
used, the ones signed since the files were last listed apart from the others, the bytes that such links
still allowed when they were, and the calls that were refused and that stored or reserved anything. -/
structure State where
  now : ℕ := 0
  sizes : Option (ℕ × ℕ) := none
  objects : List (String × ℕ) := []
  calls : List Call := []
  uploads : List Link := []
  deletes : ℕ := 0
  links : List Link := []
  held : List Link := []
  loose : List Link := []
  forgotten : ℕ := 0
  next : ℕ := 0
  refused : List ℕ := []
  took : List ℕ := []

inductive Op where
  | tick (later : ℕ)
  | call (request : Request)
  | look (c : Call)
  /-- The App's objects are listed. -/
  | list (c : Call)
  /-- The listing becomes the estimate. -/
  | insert (c : Call) (bytes : ℕ)
  /-- A write reaches the store, which takes it or not. -/
  | put (c : Call) (key : String) (size : ℕ) (ok : Bool)
  | count (c : Call)
  /-- The link is counted and signed. -/
  | sign (c : Call) (key : String) (size expires : ℕ)
  /-- The store does not answer a listing. -/
  | fail (c : Call)
  /-- A link is presented. -/
  | «open» (l : Link)
  /-- The body of an upload reaches the store, which takes it or not. -/
  | upload (l : Link) (ok : Bool)
  | delete (key : String) (removed : Bool)
  /-- The estimate is dropped. -/
  | drop

/-- The bytes that links still allow. -/
def openBytes (now : ℕ) (links : List Link) : ℕ :=
  (links.map fun l => if l.isOpen now then l.size else 0).sum

namespace State

variable (s : State)

/-- The estimate, while it is believed. -/
def fresh : Option ℕ := (s.sizes.filter fun used => s.now - used.1 < LISTED).map Prod.snd

/-- A call with its estimate is let through or refused. -/
def check (quota : ℕ) (c : Call) (used : ℕ) : State :=
  if roomFor quota used c.request.size then { s with calls := c.at .passed :: s.calls.erase c }
  else { s with calls := s.calls.erase c, refused := c.number :: s.refused }

/-- A link is used. -/
def used (l : Link) : State :=
  if l ∈ s.held then { s with held := s.held.erase l } else { s with loose := s.loose.erase l }

def step (quota : ℕ) (urls : Bool) (s : State) : Op → State
  | .tick later => { s with now := s.now + later }
  | .call request =>
    if request.refused urls then { s with next := s.next + 1, refused := s.next :: s.refused }
    else { s with next := s.next + 1, calls := ⟨s.next, request, .arrived⟩ :: s.calls }
  | .look c =>
    if c ∈ s.calls ∧ c.phase = .arrived then
      s.fresh.elim { s with calls := c.at .missed :: s.calls.erase c } (s.check quota c)
    else s
  | .list c =>
    if c ∈ s.calls ∧ c.phase = .missed then { s with
      calls := c.at (.listed (bytesOf s.objects % U64)) :: s.calls.erase c
      held := []
      loose := s.held ++ s.loose
      forgotten := s.forgotten + openBytes s.now s.held }
    else s
  | .insert c bytes =>
    if c ∈ s.calls ∧ c.phase = .listed bytes then
      { s with sizes := some (s.now, bytes) }.check quota c bytes
    else s
  | .put c key size ok =>
    if c ∈ s.calls ∧ c.phase = .passed ∧ c.request = .put key size then
      if ok then { s with
        objects := Blob.stored key size s.objects
        calls := c.at .stored :: s.calls.erase c
        took := c.number :: s.took }
      else { s with calls := s.calls.erase c }
    else s
  | .count c =>
    if c ∈ s.calls ∧ c.phase = .stored then { s with
      sizes := Blob.count c.request.size s.sizes
      calls := s.calls.erase c }
    else s
  | .sign c key size expires =>
    if c ∈ s.calls ∧ c.phase = .passed ∧ c.request = .presignPut key size expires then { s with
      sizes := Blob.count size s.sizes
      calls := s.calls.erase c
      links := signed key size expires s.now :: s.links
      held := signed key size expires s.now :: s.held
      took := c.number :: s.took }
    else s
  | .fail c => if c ∈ s.calls ∧ c.phase = .missed then { s with calls := s.calls.erase c } else s
  | .open l =>
    if l ∈ s.links ∧ l.isOpen s.now then { s with uploads := l :: s.uploads } else s
  | .upload l ok =>
    if l ∈ s.uploads then
      if ok then { s.used l with
        objects := Blob.stored l.key l.size s.objects
        uploads := s.uploads.erase l }
      else { s with uploads := s.uploads.erase l }
    else s
  | .delete key removed => { s with
      objects := if removed then Assoc.without key s.objects else s.objects
      deletes := s.deletes + 1 }
  | .drop => if 0 < s.deletes then { s with sizes := none, deletes := s.deletes - 1 } else s

end State

end Runs

section Property

/-- The App's quota stands: its files and what links still allow pass it by at most the links that were
open when its files were listed, and a call that was refused stored and reserved nothing. -/
structure Fits (quota : ℕ) (s : State) : Prop where
  bytes : bytesOf s.objects + openBytes s.now (s.held ++ s.loose) ≤ quota + s.forgotten
  refused : ∀ n ∈ s.refused, n ∉ s.took

namespace State

variable (s : State)

/-- No other call has its room and is not counted yet. -/
def Alone (c : Call) : Prop := ∀ d ∈ s.calls.erase c, d.phase ≠ .passed ∧ d.phase ≠ .stored

/-- No listing has yet to become the estimate. -/
def Listed : Prop := ∀ d ∈ s.calls, ∀ bytes, d.phase ≠ .listed bytes

/-- A call checks its room while no other is between its check and its count, and stores or counts while
no listing has yet to become the estimate; a link is used once, and stored before its end; and the bytes
are counted in 64 bits. -/
def Orderly : Op → Prop
  | .look c => ∀ used, s.fresh = some used → s.Alone c ∧ used + c.request.size < U64
  | .list _ => bytesOf s.objects < U64
  | .insert c bytes => s.Alone c ∧ bytes + c.request.size < U64
  | .put _ _ _ _ => s.Listed
  | .sign _ _ _ _ => s.Listed
  | .upload l _ => l ∈ s.held ++ s.loose ∧ l.isOpen s.now
  | _ => True

end State

end Property

section Bytes

variable {key : String} {size now later quota used : ℕ} {objects : List (String × ℕ)} {links more : List Link}
  {l : Link} {calls : List Call} {c : Call} {p q : Phase}

theorem bytesOf_without (key : String) (objects : List (String × ℕ)) :
    bytesOf (Assoc.without key objects) ≤ bytesOf objects :=
  List.Sublist.sum_le_sum (List.filter_sublist.map Prod.snd) fun _ _ => Nat.zero_le _

theorem bytesOf_stored (key : String) (size : ℕ) (objects : List (String × ℕ)) :
    bytesOf (stored key size objects) ≤ size + bytesOf objects := by
  have := bytesOf_without key objects
  unfold stored bytesOf at *
  rw [List.map_cons, List.sum_cons]
  omega

theorem openBytes_cons : openBytes now (l :: links) =
    (if l.isOpen now then l.size else 0) + openBytes now links := by
  rw [openBytes, List.map_cons, List.sum_cons, openBytes]

theorem openBytes_append : openBytes now (links ++ more) = openBytes now links + openBytes now more := by
  rw [openBytes, List.map_append, List.sum_append, openBytes, openBytes]

theorem openBytes_erase (hl : l ∈ links) (hopen : l.isOpen now) :
    l.size + openBytes now (links.erase l) = openBytes now links := by
  have := List.sum_map_erase (fun l : Link => if l.isOpen now then l.size else 0) hl
  rwa [if_pos hopen] at this

/-- Links end as time passes. -/
theorem openBytes_tick (now later : ℕ) (links : List Link) :
    openBytes (now + later) links ≤ openBytes now links := by
  refine List.sum_le_sum fun l _ => ?_
  have hle : now / 10 ^ 9 ≤ (now + later) / 10 ^ 9 := Nat.div_le_div_right (Nat.le_add_right _ _)
  by_cases hopen : l.isOpen now
  · rw [if_pos hopen]
    split_ifs <;> omega
  · rw [if_neg hopen, if_neg]
    unfold Link.isOpen at *
    simp only [decide_eq_true_eq] at *
    omega

theorem used_add_le_of_roomFor (hroom : roomFor quota used size) (hlt : used + size < U64) :
    used + size ≤ quota := by
  unfold roomFor at hroom
  simp only [decide_eq_true_eq] at hroom
  omega

/-- The bytes of the calls that have come so far. -/
def bytesAt (p : Phase) (calls : List Call) : ℕ :=
  (calls.map fun c => if c.phase = p then c.request.size else 0).sum

theorem bytesAt_erase (hc : c ∈ calls) :
    (if c.phase = p then c.request.size else 0) + bytesAt p (calls.erase c) = bytesAt p calls :=
  List.sum_map_erase (fun c : Call => if c.phase = p then c.request.size else 0) hc

theorem bytesAt_cons : bytesAt p (c :: calls) =
    (if c.phase = p then c.request.size else 0) + bytesAt p calls := by
  rw [bytesAt, List.map_cons, List.sum_cons, bytesAt]

theorem bytesAt_at (hc : c ∈ calls) :
    bytesAt p (c.at q :: calls.erase c) + (if c.phase = p then c.request.size else 0) =
      bytesAt p calls + if q = p then c.request.size else 0 := by
  have := bytesAt_erase (p := p) hc
  have hat : bytesAt p (c.at q :: calls.erase c) =
      (if q = p then c.request.size else 0) + bytesAt p (calls.erase c) := bytesAt_cons
  omega

theorem bytesAt_eq_zero (h : ∀ d ∈ calls, d.phase ≠ p) : bytesAt p calls = 0 := by
  refine List.sum_eq_zero fun n hn => ?_
  obtain ⟨d, hd, rfl⟩ := List.mem_map.1 hn
  exact if_neg (h d hd)

end Bytes

section Invariant

/-- What is below the prefix, and what links still allow. -/
def taken (now : ℕ) (objects : List (String × ℕ)) (held loose : List Link) : ℕ :=
  bytesOf objects + openBytes now held + openBytes now loose

/-- The room is the calls' that have it; the estimate and each listing miss nothing but what is not
counted yet and what was forgotten. -/
structure Room (quota now : ℕ) (sizes : Option (ℕ × ℕ)) (objects : List (String × ℕ)) (calls : List Call)
    (held loose : List Link) (forgotten : ℕ) : Prop where
  late : openBytes now loose ≤ forgotten
  room : taken now objects held loose + bytesAt .passed calls ≤ quota + forgotten
  estimate : ∀ t used, sizes = some (t, used) →
    taken now objects held loose ≤ used + bytesAt .stored calls + forgotten
  listing : ∀ c ∈ calls, ∀ bytes, c.phase = .listed bytes → taken now objects held loose ≤ bytes + forgotten

variable {quota now now' size t used forgotten : ℕ} {sizes : Option (ℕ × ℕ)} {objects objects' : List (String × ℕ)}
  {calls calls' : List Call} {held held' loose loose' : List Link} {c : Call} {p q : Phase} {l : Link}
  {key : String}

/-- With fewer bytes taken the room stays. -/
theorem Room.less (h : Room quota now sizes objects calls held loose forgotten)
    (hloose : openBytes now' loose' ≤ openBytes now loose)
    (htaken : taken now' objects' held' loose' ≤ taken now objects held loose) :
    Room quota now' sizes objects' calls held' loose' forgotten where
  late := Nat.le_trans hloose h.late
  room := by
    have := h.room
    omega
  estimate t used hsizes := Nat.le_trans htaken (h.estimate t used hsizes)
  listing c hc bytes hphase := Nat.le_trans htaken (h.listing c hc bytes hphase)

/-- Calls that give up their room, or have only come further, leave the others theirs. -/
theorem Room.others (h : Room quota now sizes objects calls held loose forgotten)
    (hpassed : bytesAt .passed calls' ≤ bytesAt .passed calls)
    (hstored : bytesAt .stored calls ≤ bytesAt .stored calls')
    (hlisting : ∀ c ∈ calls', ∀ bytes, c.phase = .listed bytes → c ∈ calls) :
    Room quota now sizes objects calls' held loose forgotten where
  late := h.late
  room := by
    have := h.room
    omega
  estimate t used hsizes := by
    have := h.estimate t used hsizes
    omega
  listing c hc bytes hphase := h.listing c (hlisting c hc bytes hphase) bytes hphase

/-- A call that ends before its write is stored. -/
theorem Room.leave (h : Room quota now sizes objects calls held loose forgotten) (hc : c ∈ calls)
    (hphase : c.phase ≠ .stored) : Room quota now sizes objects (calls.erase c) held loose forgotten := by
  have hstored := bytesAt_erase (p := .stored) hc
  have hpassed := bytesAt_erase (p := .passed) hc
  rw [if_neg hphase] at hstored
  exact h.others (by omega) (by omega) fun d hd _ _ => List.mem_of_mem_erase hd

theorem Room.miss (h : Room quota now sizes objects calls held loose forgotten) (hc : c ∈ calls)
    (hphase : c.phase ≠ .stored) :
    Room quota now sizes objects (c.at .missed :: calls.erase c) held loose forgotten := by
  have hmissed : ∀ p, p ≠ .missed → bytesAt p (c.at .missed :: calls.erase c) = bytesAt p (calls.erase c) :=
    fun p hp => by rw [bytesAt_cons, Call.at, if_neg hp.symm, Nat.zero_add]
  refine (h.leave hc hphase).others (hmissed _ (by simp)).le (hmissed _ (by simp)).ge fun d hd bytes hlisted => ?_
  refine (List.mem_cons.1 hd).resolve_left fun heq => ?_
  rw [heq] at hlisted
  cases hlisted

/-- Alone, a call whose bytes fit beside an estimate that misses nothing has its room. -/
theorem Room.pass (h : Room quota now sizes objects calls held loose forgotten) (hc : c ∈ calls)
    (hphase : c.phase ≠ .passed ∧ c.phase ≠ .stored)
    (halone : ∀ d ∈ calls.erase c, d.phase ≠ .passed ∧ d.phase ≠ .stored)
    (hused : taken now objects held loose ≤ used + forgotten) (hfits : used + c.request.size ≤ quota) :
    Room quota now sizes objects (c.at .passed :: calls.erase c) held loose forgotten := by
  have hpassed := bytesAt_at (p := .passed) (q := .passed) hc
  have hstored := bytesAt_at (p := .stored) (q := .passed) hc
  have hnone := bytesAt_erase (p := .passed) hc
  have hzero : bytesAt .passed (calls.erase c) = 0 := bytesAt_eq_zero fun d hd => (halone d hd).1
  rw [if_neg hphase.1] at hpassed hnone
  rw [if_neg hphase.2, if_neg (by simp)] at hstored
  rw [if_pos rfl] at hpassed
  refine ⟨h.late, by omega, fun t used hsizes => ?_, fun d hd bytes hlisted => ?_⟩
  · have := h.estimate t used hsizes
    omega
  · refine h.listing d ?_ bytes hlisted
    refine List.mem_of_mem_erase ((List.mem_cons.1 hd).resolve_left fun heq => ?_)
    rw [heq] at hlisted
    cases hlisted

/-- The files are listed: the links that are open then are forgotten. -/
theorem Room.list (h : Room quota now sizes objects calls held loose forgotten) (hc : c ∈ calls)
    (hphase : c.phase = .missed) :
    Room quota now sizes objects (c.at (.listed (bytesOf objects)) :: calls.erase c) [] (held ++ loose)
      (forgotten + openBytes now held) := by
  have hpassed := bytesAt_at (p := .passed) (q := .listed (bytesOf objects)) hc
  have hstored := bytesAt_at (p := .stored) (q := .listed (bytesOf objects)) hc
  rw [if_neg (by simp [hphase]), if_neg (by simp)] at hpassed hstored
  have hsame : taken now objects [] (held ++ loose) = taken now objects held loose := by
    rw [taken, openBytes_append, taken, openBytes, List.map_nil, List.sum_nil]
    omega
  have hloose := h.late
  have hroom := h.room
  refine ⟨?_, ?_, fun t used hsizes => ?_, fun d hd bytes hlisted => ?_⟩
  · rw [openBytes_append]
    omega
  · omega
  · have := h.estimate t used hsizes
    omega
  · rw [hsame]
    rcases List.mem_cons.1 hd with rfl | hd
    · obtain rfl : bytesOf objects = bytes := by simpa [Call.at] using hlisted
      unfold taken
      omega
    · have := h.listing d (List.mem_of_mem_erase hd) bytes hlisted
      omega

/-- A listing becomes the estimate. -/
theorem Room.insert (h : Room quota now sizes objects calls held loose forgotten)
    (hused : taken now objects held loose ≤ used + forgotten) :
    Room quota now (some (t, used)) objects calls held loose forgotten where
  late := h.late
  room := h.room
  estimate t' used' hsizes := by
    obtain ⟨-, rfl⟩ : t = t' ∧ used = used' := by simpa using hsizes
    omega
  listing := h.listing

theorem Room.drop (h : Room quota now sizes objects calls held loose forgotten) :
    Room quota now none objects calls held loose forgotten :=
  ⟨h.late, h.room, by simp, h.listing⟩

/-- A write is stored in its room. -/
theorem Room.put (h : Room quota now sizes objects calls held loose forgotten) (hc : c ∈ calls)
    (hphase : c.phase = .passed) (hlisted : ∀ d ∈ calls, ∀ bytes, d.phase ≠ .listed bytes) :
    Room quota now sizes (stored key c.request.size objects) (c.at .stored :: calls.erase c) held loose
      forgotten := by
  have hpassed := bytesAt_at (p := .passed) (q := .stored) hc
  have hstored := bytesAt_at (p := .stored) (q := .stored) hc
  rw [if_pos hphase, if_neg (by simp)] at hpassed
  rw [if_neg (by simp [hphase]), if_pos rfl] at hstored
  have hbytes : taken now (stored key c.request.size objects) held loose ≤
      c.request.size + taken now objects held loose := by
    have := bytesOf_stored key c.request.size objects
    unfold taken
    omega
  have hroom := h.room
  refine ⟨h.late, by omega, fun t used hsizes => ?_, fun d hd bytes hphase => ?_⟩
  · have := h.estimate t used hsizes
    omega
  · rcases List.mem_cons.1 hd with rfl | hd
    · cases hphase
    · exact absurd hphase (hlisted d (List.mem_of_mem_erase hd) bytes)

theorem count_eq_some (h : count size sizes = some (t, used)) :
    ∃ before, sizes = some (t, before) ∧ used = min (before + size) (U64 - 1) := by
  obtain ⟨⟨t', before⟩, hsizes, heq⟩ := Option.map_eq_some_iff.1 h
  obtain ⟨rfl, rfl⟩ : t' = t ∧ min (before + size) (U64 - 1) = used := by simpa using heq
  exact ⟨before, hsizes, rfl⟩

/-- A write that is stored is counted. -/
theorem Room.count (h : Room quota now sizes objects calls held loose forgotten) (hc : c ∈ calls)
    (hphase : c.phase = .stored) (hquota : quota < U64) :
    Room quota now (count c.request.size sizes) objects (calls.erase c) held loose forgotten := by
  have hpassed := bytesAt_erase (p := .passed) hc
  have hstored := bytesAt_erase (p := .stored) hc
  rw [if_neg (by simp [hphase])] at hpassed
  rw [if_pos hphase] at hstored
  have hroom := h.room
  refine ⟨h.late, by omega, fun t used hsizes => ?_,
    fun d hd bytes hlisted => h.listing d (List.mem_of_mem_erase hd) bytes hlisted⟩
  obtain ⟨before, hbefore, rfl⟩ := count_eq_some hsizes
  have := h.estimate t before hbefore
  omega

/-- A link is counted and signed in its room. -/
theorem Room.sign (h : Room quota now sizes objects calls held loose forgotten) (hc : c ∈ calls)
    (hphase : c.phase = .passed) (hquota : quota < U64)
    (hlisted : ∀ d ∈ calls, ∀ bytes, d.phase ≠ .listed bytes) (hsize : l.size = c.request.size) :
    Room quota now (Blob.count c.request.size sizes) objects (calls.erase c) (l :: held) loose forgotten := by
  have hpassed := bytesAt_erase (p := .passed) hc
  have hstored := bytesAt_erase (p := .stored) hc
  rw [if_pos hphase] at hpassed
  rw [if_neg (by simp [hphase])] at hstored
  have hbytes : taken now objects (l :: held) loose ≤ c.request.size + taken now objects held loose := by
    unfold taken
    rw [openBytes_cons]
    split_ifs <;> omega
  have hroom := h.room
  refine ⟨h.late, by omega, fun t used hsizes => ?_,
    fun d hd bytes hphase => absurd hphase (hlisted d (List.mem_of_mem_erase hd) bytes)⟩
  obtain ⟨before, hbefore, rfl⟩ := count_eq_some hsizes
  have := h.estimate t before hbefore
  omega

end Invariant

section Numbers

/-- Each call has a number of its own, a refused one is on its way no more, and one on its way has taken
bytes only as a write that is stored. -/
structure Numbered (next : ℕ) (calls : List Call) (refused took : List ℕ) : Prop where
  below : ∀ n, n ∈ calls.map Call.number ∨ n ∈ refused ∨ n ∈ took → n < next
  nodup : (calls.map Call.number).Nodup
  ended : ∀ n ∈ refused, n ∉ calls.map Call.number
  holding : ∀ c ∈ calls, c.number ∈ took → c.phase = .stored
  apart : ∀ n ∈ refused, n ∉ took

variable {next : ℕ} {calls : List Call} {refused took : List ℕ} {c : Call} {p : Phase} {request : Request}

namespace Numbered

theorem call (h : Numbered next calls refused took) :
    Numbered (next + 1) (⟨next, request, .arrived⟩ :: calls) refused took where
  below n hn := by
    rw [List.map_cons, List.mem_cons] at hn
    rcases hn with (rfl | hn) | hn
    · exact Nat.lt_succ_self _
    · exact Nat.lt_succ_of_lt (h.below n (Or.inl hn))
    · exact Nat.lt_succ_of_lt (h.below n (Or.inr hn))
  nodup := List.nodup_cons.2 ⟨fun hmem => Nat.lt_irrefl _ (h.below _ (Or.inl hmem)), h.nodup⟩
  ended n hn hmem := by
    rcases List.mem_cons.1 hmem with rfl | hmem
    · exact Nat.lt_irrefl _ (h.below _ (Or.inr (Or.inl hn)))
    · exact h.ended n hn hmem
  holding d hd htook := by
    rcases List.mem_cons.1 hd with rfl | hd
    · exact absurd (h.below _ (Or.inr (Or.inr htook))) (Nat.lt_irrefl _)
    · exact h.holding d hd htook
  apart := h.apart

theorem refuseNew (h : Numbered next calls refused took) :
    Numbered (next + 1) calls (next :: refused) took where
  below n hn := by
    rw [List.mem_cons] at hn
    rcases hn with hn | (rfl | hn) | hn
    · exact Nat.lt_succ_of_lt (h.below n (Or.inl hn))
    · exact Nat.lt_succ_self _
    · exact Nat.lt_succ_of_lt (h.below n (Or.inr (Or.inl hn)))
    · exact Nat.lt_succ_of_lt (h.below n (Or.inr (Or.inr hn)))
  nodup := h.nodup
  ended n hn hmem := by
    rcases List.mem_cons.1 hn with rfl | hn
    · exact Nat.lt_irrefl _ (h.below _ (Or.inl hmem))
    · exact h.ended n hn hmem
  holding := h.holding
  apart n hn htook := by
    rcases List.mem_cons.1 hn with rfl | hn
    · exact Nat.lt_irrefl _ (h.below _ (Or.inr (Or.inr htook)))
    · exact h.apart n hn htook

theorem number_notMem (h : Numbered next calls refused took) (hc : c ∈ calls) :
    c.number ∉ (calls.erase c).map Call.number := by
  have hperm := (List.perm_cons_erase hc).map Call.number
  exact (List.nodup_cons.1 (hperm.nodup_iff.1 h.nodup)).1

theorem leave (h : Numbered next calls refused took) : Numbered next (calls.erase c) refused took where
  below n hn := h.below n (hn.imp_left fun hmem => List.map_subset _ List.erase_subset hmem)
  nodup := h.nodup.sublist (List.erase_sublist.map _)
  ended n hn hmem := h.ended n hn (List.map_subset _ List.erase_subset hmem)
  holding d hd := h.holding d (List.mem_of_mem_erase hd)
  apart := h.apart

theorem number_at_mem (hc : c ∈ calls) : (c.at p).number ∈ calls.map Call.number :=
  List.mem_map.2 ⟨c, hc, rfl⟩

/-- A call that is back under its number. -/
theorem back (h : Numbered next calls refused took) (hc : c ∈ calls) (hp : c.number ∈ took → p = .stored) :
    Numbered next (c.at p :: calls.erase c) refused took where
  below n hn := by
    rw [List.map_cons, List.mem_cons] at hn
    rcases hn with (rfl | hn) | hn
    · exact h.below _ (Or.inl (number_at_mem hc))
    · exact h.leave.below n (Or.inl hn)
    · exact h.below n (Or.inr hn)
  nodup := List.nodup_cons.2 ⟨h.number_notMem hc, h.leave.nodup⟩
  ended n hn hmem := by
    rcases List.mem_cons.1 hmem with rfl | hmem
    · exact h.ended _ hn (number_at_mem hc)
    · exact h.leave.ended n hn hmem
  holding d hd htook := by
    rcases List.mem_cons.1 hd with rfl | hd
    · exact hp htook
    · exact h.leave.holding d hd htook
  apart := h.apart

/-- A call that comes further without having taken bytes. -/
theorem further (h : Numbered next calls refused took) (hc : c ∈ calls) (hphase : c.phase ≠ .stored) :
    Numbered next (c.at p :: calls.erase c) refused took :=
  h.back hc fun htook => absurd (h.holding c hc htook) hphase

theorem refuse (h : Numbered next calls refused took) (hc : c ∈ calls) (hphase : c.phase ≠ .stored) :
    Numbered next (calls.erase c) (c.number :: refused) took where
  below n hn := by
    rw [List.mem_cons] at hn
    rcases hn with hn | (rfl | hn) | hn
    · exact h.leave.below n (Or.inl hn)
    · exact h.below _ (Or.inl (List.mem_map_of_mem hc))
    · exact h.below n (Or.inr (Or.inl hn))
    · exact h.below n (Or.inr (Or.inr hn))
  nodup := h.leave.nodup
  ended n hn hmem := by
    rcases List.mem_cons.1 hn with rfl | hn
    · exact h.number_notMem hc hmem
    · exact h.leave.ended n hn hmem
  holding := h.leave.holding
  apart n hn htook := by
    rcases List.mem_cons.1 hn with rfl | hn
    · exact hphase (h.holding c hc htook)
    · exact h.apart n hn htook

/-- A call that takes bytes as it ends. -/
theorem take (h : Numbered next calls refused took) (hc : c ∈ calls) :
    Numbered next (calls.erase c) refused (c.number :: took) where
  below n hn := by
    rw [List.mem_cons] at hn
    rcases hn with hn | hn | rfl | hn
    · exact h.leave.below n (Or.inl hn)
    · exact h.below n (Or.inr (Or.inl hn))
    · exact h.below _ (Or.inl (List.mem_map_of_mem hc))
    · exact h.below n (Or.inr (Or.inr hn))
  nodup := h.leave.nodup
  ended := h.leave.ended
  holding d hd htook := by
    rcases List.mem_cons.1 htook with heq | htook
    · exact absurd (heq ▸ List.mem_map_of_mem hd) (h.number_notMem hc)
    · exact h.leave.holding d hd htook
  apart n hn htook := by
    rcases List.mem_cons.1 htook with rfl | htook
    · exact h.ended _ hn (List.mem_map_of_mem hc)
    · exact h.apart n hn htook

/-- A write that takes bytes and is to be counted. -/
theorem takeBack (h : Numbered next calls refused took) (hc : c ∈ calls) :
    Numbered next (c.at .stored :: calls.erase c) refused (c.number :: took) where
  below n hn := by
    rw [List.map_cons, List.mem_cons] at hn
    rcases hn with (rfl | hn) | hn
    · exact h.below _ (Or.inl (number_at_mem hc))
    · exact h.leave.below n (Or.inl hn)
    · exact (h.take hc).below n (Or.inr hn)
  nodup := (h.back hc fun _ => rfl).nodup
  ended := (h.back hc fun _ => rfl).ended
  holding d hd htook := by
    rcases List.mem_cons.1 hd with rfl | hd
    · rfl
    · exact (h.take hc).holding d hd htook
  apart := (h.take hc).apart

end Numbered

end Numbers

section Steps

/-- What every step keeps. -/
structure Sound (quota : ℕ) (s : State) : Prop where
  room : Room quota s.now s.sizes s.objects s.calls s.held s.loose s.forgotten
  numbers : Numbered s.next s.calls s.refused s.took

variable {quota bytes : ℕ} {urls : Bool} {s : State} {op : Op} {c : Call} {l : Link}

theorem Sound.start : Sound quota {} where
  room := ⟨Nat.le_refl _, Nat.zero_le _, by simp, by simp⟩
  numbers := ⟨by simp, List.nodup_nil, by simp, by simp, by simp⟩

theorem Sound.check (h : Sound quota s) (hc : c ∈ s.calls) (hphase : c.phase ≠ .passed ∧ c.phase ≠ .stored)
    (halone : s.Alone c) (hused : taken s.now s.objects s.held s.loose ≤ bytes + s.forgotten)
    (hlt : bytes + c.request.size < U64) : Sound quota (s.check quota c bytes) := by
  unfold State.check
  split_ifs with hroom
  · exact ⟨h.room.pass hc hphase halone hused (used_add_le_of_roomFor hroom hlt),
      h.numbers.further hc hphase.2⟩
  · exact ⟨h.room.leave hc hphase.2, h.numbers.refuse hc hphase.2⟩

theorem Sound.look (h : Sound quota s) (hop : s.Orderly (.look c)) :
    Sound quota (s.step quota urls (.look c)) := by
  rw [State.step]
  split_ifs with hcall
  · obtain ⟨hc, hphase⟩ := hcall
    cases hfresh : s.fresh with
    | none =>
      exact ⟨h.room.miss hc (by simp [hphase]), h.numbers.further hc (by simp [hphase])⟩
    | some used =>
      obtain ⟨halone, hlt⟩ := hop used hfresh
      obtain ⟨⟨t, bytes⟩, hfilter, rfl⟩ := Option.map_eq_some_iff.1 hfresh
      have hsizes := (Option.filter_eq_some_iff.1 hfilter).1
      have hstored : bytesAt .stored s.calls = 0 := bytesAt_eq_zero fun d hd => by
        by_cases heq : d = c
        · simp [heq, hphase]
        · exact (halone d ((List.mem_erase_of_ne heq).2 hd)).2
      have hused := h.room.estimate t bytes hsizes
      rw [hstored] at hused
      exact h.check hc (by simp [hphase]) halone hused hlt
  · exact h

theorem Sound.insert (h : Sound quota s) (hop : s.Orderly (.insert c bytes)) :
    Sound quota (s.step quota urls (.insert c bytes)) := by
  rw [State.step]
  split_ifs with hcall
  · obtain ⟨hc, hphase⟩ := hcall
    have hused := h.room.listing c hc bytes hphase
    have hinsert : Sound quota { s with sizes := some (s.now, bytes) } :=
      ⟨h.room.insert hused, h.numbers⟩
    exact hinsert.check hc (by simp [hphase]) hop.1 hused hop.2
  · exact h

/-- A link that was open gives its room to its file. -/
theorem Sound.used (h : Sound quota s) (hl : l ∈ s.held ++ s.loose) (hopen : l.isOpen s.now) :
    Sound quota { s.used l with objects := stored l.key l.size s.objects, uploads := s.uploads.erase l } := by
  have hbytes := bytesOf_stored l.key l.size s.objects
  unfold State.used
  split_ifs with hheld
  · have herase := openBytes_erase hheld hopen
    refine ⟨h.room.less (Nat.le_refl _) ?_, h.numbers⟩
    show taken s.now (stored l.key l.size s.objects) (s.held.erase l) s.loose ≤ taken s.now s.objects s.held s.loose
    unfold taken
    omega
  · have hloose := (List.mem_append.1 hl).resolve_left hheld
    have herase := openBytes_erase hloose hopen
    refine ⟨h.room.less ?_ ?_, h.numbers⟩
    · show openBytes s.now (s.loose.erase l) ≤ openBytes s.now s.loose
      omega
    · show taken s.now (stored l.key l.size s.objects) s.held (s.loose.erase l) ≤
        taken s.now s.objects s.held s.loose
      unfold taken
      omega

theorem Sound.step (hquota : quota < U64) (h : Sound quota s) (hop : s.Orderly op) :
    Sound quota (s.step quota urls op) := by
  cases op with
  | tick later =>
    have hheld := openBytes_tick s.now later s.held
    have hloose := openBytes_tick s.now later s.loose
    refine ⟨h.room.less hloose ?_, h.numbers⟩
    show taken (s.now + later) s.objects s.held s.loose ≤ taken s.now s.objects s.held s.loose
    unfold taken
    omega
  | call request =>
    rw [State.step]
    split_ifs
    · exact ⟨h.room, h.numbers.refuseNew⟩
    · refine ⟨h.room.others (Nat.le_of_eq ?_) (Nat.le_of_eq ?_) fun d hd bytes hphase => ?_, h.numbers.call⟩
      · rw [bytesAt_cons, if_neg (by simp), Nat.zero_add]
      · rw [bytesAt_cons, if_neg (by simp), Nat.zero_add]
      · refine (List.mem_cons.1 hd).resolve_left fun heq => ?_
        rw [heq] at hphase
        cases hphase
  | look c => exact h.look hop
  | list c =>
    rw [State.step]
    split_ifs with hcall
    · rw [Nat.mod_eq_of_lt hop]
      exact ⟨h.room.list hcall.1 hcall.2, h.numbers.further hcall.1 (by simp [hcall.2])⟩
    · exact h
  | insert c bytes => exact h.insert hop
  | put c key size ok =>
    rw [State.step]
    split_ifs with hcall hok
    · obtain ⟨hc, hphase, hrequest⟩ := hcall
      obtain rfl : c.request.size = size := by rw [hrequest]; rfl
      exact ⟨h.room.put hc hphase hop, h.numbers.takeBack hc⟩
    · exact ⟨h.room.leave hcall.1 (by simp [hcall.2.1]), h.numbers.leave⟩
    · exact h
  | count c =>
    rw [State.step]
    split_ifs with hcall
    · exact ⟨h.room.count hcall.1 hcall.2 hquota, h.numbers.leave⟩
    · exact h
  | sign c key size expires =>
    rw [State.step]
    split_ifs with hcall
    · obtain ⟨hc, hphase, hrequest⟩ := hcall
      obtain rfl : c.request.size = size := by rw [hrequest]; rfl
      exact ⟨h.room.sign hc hphase hquota hop rfl, h.numbers.take hc⟩
    · exact h
  | fail c =>
    rw [State.step]
    split_ifs with hcall
    · exact ⟨h.room.leave hcall.1 (by simp [hcall.2]), h.numbers.leave⟩
    · exact h
  | «open» l =>
    rw [State.step]
    split_ifs
    · exact ⟨h.room, h.numbers⟩
    · exact h
  | upload l ok =>
    rw [State.step]
    split_ifs
    · exact h.used hop.1 hop.2
    · exact ⟨h.room, h.numbers⟩
    · exact h
  | delete key removed =>
    refine ⟨h.room.less (Nat.le_refl _) ?_, h.numbers⟩
    have hless : bytesOf (if removed then Assoc.without key s.objects else s.objects) ≤ bytesOf s.objects := by
      split_ifs
      · exact bytesOf_without key s.objects
      · exact Nat.le_refl _
    show taken s.now (if removed then Assoc.without key s.objects else s.objects) s.held s.loose ≤
      taken s.now s.objects s.held s.loose
    unfold taken
    omega
  | drop =>
    rw [State.step]
    split_ifs
    · exact ⟨h.room.drop, h.numbers⟩
    · exact h

theorem Sound.fits (h : Sound quota s) : Fits quota s where
  bytes := by
    have hroom := h.room.room
    unfold taken at hroom
    rw [openBytes_append]
    omega
  refused := h.numbers.apart

end Steps

end JoinedContext.WasmHost.Blob
