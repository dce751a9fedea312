import Mathlib.Data.List.Infix
import Mathlib.Algebra.Order.Group.Nat

/-!
# ZIP archives

The parts of an archive without Zip64: a local header before the data of each member, the directory
with a record for each, and the end record. A field is little-endian; what a record says of a member
is found where its format has it, whatever bytes its name, extra field and comment hold.
-/

namespace JoinedContext.Zip

/-- The little-endian bytes of a number. -/
def le : ℕ → ℕ → List UInt8
  | 0, _ => []
  | w + 1, n => UInt8.ofNat n :: le w (n / 256)

/-- The number of little-endian bytes. -/
def leNat : List UInt8 → ℕ
  | [] => 0
  | b :: bytes => b.toNat + 256 * leNat bytes

theorem leNat_le : ∀ {w n : ℕ}, n < 256 ^ w → leNat (le w n) = n
  | 0, n, h => by
    rw [Nat.pow_zero, Nat.lt_one_iff] at h
    rw [le, leNat, h]
  | w + 1, n, h => by
    have hrest : n / 256 < 256 ^ w := by
      rw [Nat.pow_succ] at h
      omega
    rw [le, leNat, leNat_le hrest, UInt8.toNat_ofNat']
    omega

@[simp] theorem length_le : ∀ w n : ℕ, (le w n).length = w
  | 0, _ => rfl
  | w + 1, n => by rw [le, List.length_cons, length_le w]

/-- What of a list stands between two positions. -/
def slice {α : Type} (l : List α) (low high : ℕ) : List α := (l.take high).drop low

def LOCAL : List UInt8 := [0x50, 0x4B, 0x03, 0x04]

def DIRECTORY : List UInt8 := [0x50, 0x4B, 0x01, 0x02]

def END : List UInt8 := [0x50, 0x4B, 0x05, 0x06]

/-- What the directory says of a member. -/
structure Member where
  versionMade : UInt16
  versionNeeded : UInt16
  flags : UInt16
  method : UInt16
  time : UInt16
  date : UInt16
  crc : UInt32
  csize : UInt32
  size : UInt32
  disk : UInt16
  attributes : UInt16
  external : UInt32
  offset : UInt32
  name : List UInt8
  extra : List UInt8
  comment : List UInt8
  name_short : name.length < 2 ^ 16
  extra_short : extra.length < 2 ^ 16
  comment_short : comment.length < 2 ^ 16

/-- What stands at a member's offset: what its local header says, and its data. -/
structure Local where
  versionNeeded : UInt16
  flags : UInt16
  method : UInt16
  time : UInt16
  date : UInt16
  crc : UInt32
  csize : UInt32
  size : UInt32
  extra : List UInt8
  data : List UInt8
  extra_short : extra.length < 2 ^ 16

/-- A record of the directory after its signature. -/
def Member.body (m : Member) : List UInt8 :=
  le 2 m.versionMade.toNat ++ le 2 m.versionNeeded.toNat ++ le 2 m.flags.toNat ++
    le 2 m.method.toNat ++ le 2 m.time.toNat ++ le 2 m.date.toNat ++ le 4 m.crc.toNat ++
    le 4 m.csize.toNat ++ le 4 m.size.toNat ++ le 2 m.name.length ++ le 2 m.extra.length ++
    le 2 m.comment.length ++ le 2 m.disk.toNat ++ le 2 m.attributes.toNat ++
    le 4 m.external.toNat ++ le 4 m.offset.toNat ++ (m.name ++ (m.extra ++ m.comment))

def Member.record (m : Member) : List UInt8 := DIRECTORY ++ m.body

/-- A local header with its name, its extra field and the data behind it. -/
def Local.bytes (l : Local) (name : List UInt8) : List UInt8 :=
  LOCAL ++ le 2 l.versionNeeded.toNat ++ le 2 l.flags.toNat ++ le 2 l.method.toNat ++
    le 2 l.time.toNat ++ le 2 l.date.toNat ++ le 4 l.crc.toNat ++ le 4 l.csize.toNat ++
    le 4 l.size.toNat ++ le 2 name.length ++ le 2 l.extra.length ++ (name ++ (l.extra ++ l.data))

/-- Whether a header's sizes and check sum come after its data. -/
def described (flags : UInt16) : Bool := flags.toNat / 8 % 2 == 1

/-- A local header is of the member a record is of. -/
structure Describes (m : Member) (l : Local) : Prop where
  method : l.method = m.method
  packed : l.data.length = m.csize.toNat
  sizes : described l.flags = false → l.crc = m.crc ∧ l.csize = m.csize ∧ l.size = m.size

/-- An archive without Zip64: what stands before its directory, its members and its comment. -/
structure Archive where
  front : List UInt8
  members : List (Member × Local)
  comment : List UInt8
  stored : ∀ c ∈ members, Describes c.1 c.2 ∧
    c.2.bytes c.1.name <+: front.drop c.1.offset.toNat
  few : members.length < 2 ^ 16 - 1
  near : front.length < 2 ^ 32 - 1
  small : (members.flatMap fun c => c.1.record).length < 2 ^ 32 - 1
  comment_short : comment.length < 2 ^ 16

def Archive.directory (a : Archive) : List UInt8 := a.members.flatMap fun c => c.1.record

/-- The end record after its signature. -/
def Archive.tail (a : Archive) : List UInt8 :=
  le 2 0 ++ le 2 0 ++ le 2 a.members.length ++ le 2 a.members.length ++ le 4 a.directory.length ++
    le 4 a.front.length ++ le 2 a.comment.length ++ a.comment

def Archive.bytes (a : Archive) : List UInt8 := a.front ++ (a.directory ++ (END ++ a.tail))

section Parts

variable (m : Member)

attribute [local simp] Member.body slice le in
theorem slice_body_flags : slice m.body 4 6 = le 2 m.flags.toNat := by
  simp [Member.body, slice, le]

theorem slice_body_method : slice m.body 6 8 = le 2 m.method.toNat := by
  simp [Member.body, slice, le]

theorem slice_body_csize : slice m.body 16 20 = le 4 m.csize.toNat := by
  simp [Member.body, slice, le]

theorem slice_body_size : slice m.body 20 24 = le 4 m.size.toNat := by
  simp [Member.body, slice, le]

theorem slice_body_nlen : slice m.body 24 26 = le 2 m.name.length := by
  simp [Member.body, slice, le]

theorem slice_body_elen : slice m.body 26 28 = le 2 m.extra.length := by
  simp [Member.body, slice, le]

theorem slice_body_offset : slice m.body 38 42 = le 4 m.offset.toNat := by
  simp [Member.body, slice, le]

theorem drop_body : m.body.drop 42 = m.name ++ (m.extra ++ m.comment) := by
  simp [Member.body, le]

variable (a : Archive)

attribute [local simp] Archive.tail END in
theorem slice_end_count : slice (END ++ a.tail) 10 12 = le 2 a.members.length := by
  simp [Archive.tail, END, slice, le]

theorem slice_end_size : slice (END ++ a.tail) 12 16 = le 4 a.directory.length := by
  simp [Archive.tail, END, slice, le]

variable (l : Local) (name rest : List UInt8)

attribute [local simp] Local.bytes LOCAL in
theorem slice_local_signature : slice (slice (l.bytes name ++ rest) 0 30) 0 4 = LOCAL := by
  simp [Local.bytes, LOCAL, slice, le]

theorem slice_local_nlen : slice (slice (l.bytes name ++ rest) 0 30) 26 28 = le 2 name.length := by
  simp [Local.bytes, LOCAL, slice, le]

theorem slice_local_elen :
    slice (slice (l.bytes name ++ rest) 0 30) 28 30 = le 2 l.extra.length := by
  simp [Local.bytes, LOCAL, slice, le]

theorem drop_local : (l.bytes name ++ rest).drop 30 = name ++ (l.extra ++ (l.data ++ rest)) := by
  simp [Local.bytes, LOCAL, le]

theorem length_local :
    (l.bytes name).length = 30 + name.length + l.extra.length + l.data.length := by
  simp [Local.bytes, LOCAL]
  omega

end Parts

section Alone

variable {m : Member} {l : Local} {a : Archive}

/-- The flags of a record whose sizes and check sum are in it. -/
def settled (flags : UInt16) : ℕ := if described flags then flags.toNat - 8 else flags.toNat

theorem settled_lt (flags : UInt16) : settled flags < 2 ^ 16 := by
  have hlt := flags.toNat_lt
  unfold settled
  split_ifs <;> omega

/-- A member at the start of an archive. -/
def Member.alone (m : Member) : Member :=
  { m with flags := UInt16.ofNat (settled m.flags), offset := 0 }

theorem body_alone (m : Member) : m.alone.body = slice m.body 0 4 ++ (le 2 (settled m.flags) ++
    (slice m.body 6 38 ++ (le 4 0 ++ m.body.drop 42))) := by
  have hflags : (UInt16.ofNat (settled m.flags)).toNat = settled m.flags :=
    Nat.mod_eq_of_lt (settled_lt m.flags)
  simp [Member.alone, Member.body, slice, le, hflags]

theorem length_record (m : Member) :
    m.record.length = 46 + (m.name.length + (m.extra.length + m.comment.length)) := by
  simp [Member.record, Member.body, DIRECTORY]
  omega

/-- The archive of one member of an archive. -/
theorem exists_alone (hmem : (m, l) ∈ a.members) : ∃ b : Archive, b.front = l.bytes m.name ∧
    b.members = [(m.alone, l)] ∧ b.comment = [] := by
  obtain ⟨hdescribes, hstored⟩ := a.stored _ hmem
  have hfront : (l.bytes m.name).length ≤ a.front.length :=
    (hstored.length_le).trans (by simp)
  have hrecord : m.record.length ≤ a.directory.length := by
    have hin : m.record ∈ a.members.map fun c => c.1.record := List.mem_map.2 ⟨(m, l), hmem, rfl⟩
    unfold Archive.directory
    rw [List.flatMap_def]
    exact (List.sublist_flatten_of_mem hin).length_le
  refine ⟨⟨l.bytes m.name, [(m.alone, l)], [], ?_, by simp, ?_, ?_, by simp⟩, rfl, rfl, rfl⟩
  · intro c hc
    obtain rfl := List.mem_singleton.1 hc
    exact ⟨⟨hdescribes.method, hdescribes.packed, hdescribes.sizes⟩, List.prefix_rfl⟩
  · exact Nat.lt_of_le_of_lt hfront a.near
  · have halone : m.alone.record.length = m.record.length := by
      rw [length_record, length_record]
      rfl
    rw [List.flatMap_singleton, halone]
    exact Nat.lt_of_le_of_lt hrecord a.small

end Alone

end JoinedContext.Zip
