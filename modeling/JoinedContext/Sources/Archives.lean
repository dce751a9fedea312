import Mathlib.Algebra.Order.BigOperators.Group.List
import JoinedContext.Core.JsonText
import JoinedContext.Library.Numeral
import JoinedContext.Library.Outcome
import JoinedContext.Library.Pieces
import JoinedContext.Library.Zip

/-!
# The named members of an archive

A pipeline reads the last 64 KiB of an archive, finds its directory there, and fetches each member
it names by a range of its own, which it wraps as an archive with one member. The mappings have no
byte reader: they find the records in the hexadecimal digits of what was read, and reverse and fold
those of a field.
-/

namespace JoinedContext.Archives

open Zip (slice)

abbrev Hex := List Char

section Source

/-- `encode("hex")`. -/
def encodeHex (bytes : List UInt8) : Hex := (Numeral.hex bytes).toList

def DIGITS : List Char := "0123456789abcdef".toList

/-- `map int` of `ZIP_INT`: the pairs of digits in reverse, folded digit by digit. -/
def int (h : Hex) : ℕ :=
  let reversed := ((List.range ((h.length + 1) / 2)).map (2 * ·)).foldl
    (fun tally value => slice h value (value + 2) ++ tally) []
  reversed.foldl (fun tally value => tally * 16 + DIGITS.idxOf value) 0

/-- `"%0wx".format(n)`. -/
def format (width n : ℕ) : Hex :=
  List.replicate (width - (Nat.toDigits 16 n).length) '0' ++ Nat.toDigits 16 n

def le16 (n : ℕ) : Hex := slice (format 4 n) 2 4 ++ slice (format 4 n) 0 2

def le32 (n : ℕ) : Hex :=
  slice (format 8 n) 6 8 ++ (slice (format 8 n) 4 6 ++ (slice (format 8 n) 2 4 ++
    slice (format 8 n) 0 2))

/-- What `ZIP_DIRECTORY` makes of a record: `entry` is its digits without the signature. -/
structure Entry where
  method : ℕ
  csize : ℕ
  size : ℕ
  nlen : ℕ
  elen : ℕ
  offset : ℕ
  entry : Hex
  name : List UInt8
deriving DecidableEq

inductive Refusal where
  | ignoredRange (length : ℕ)
  | noEnd
  | largeDirectory
  | counts (listed declared : ℕ)
  | missing (names : List (List UInt8))
  | oversize (name : List UInt8) (size csize maxBytes : ℕ)
  | method (name : List UInt8) (method : ℕ)
  | zip64 (name : List UInt8)
  | undecodable
  | noHeader (name : List UInt8) (offset : ℕ)
  | size (name : List UInt8) (length size : ℕ)
deriving DecidableEq

def SIG_END : Hex := "504b0506".toList

def SIG_DIRECTORY : Hex := "504b0102".toList

def SIG_LOCAL : Hex := "504b0304".toList

def ZIP_TAIL : ℕ := 65557

def entryOf (e : Hex) : Except Refusal Entry :=
  match Numeral.unhex (slice e 84 (84 + int (slice e 48 52) * 2)) with
  | none => .error .undecodable
  | some name => .ok {
      method := int (slice e 12 16)
      csize := int (slice e 32 40)
      size := int (slice e 40 48)
      nlen := int (slice e 48 52)
      elen := int (slice e 52 56)
      offset := int (slice e 76 84)
      entry := e
      name := name }

def checkEntry (maxBytes : ℕ) (e : Entry) : Except Refusal Entry :=
  if maxBytes < e.size ∨ maxBytes < e.csize then .error (.oversize e.name e.size e.csize maxBytes)
  else if e.method ∉ [0, 8] then .error (.method e.name e.method)
  else if e.offset = 4294967295 then .error (.zip64 e.name)
  else .ok e

/-- The place of the end record in the digits of a tail. -/
def eocdOf (h : Hex) : Int := h.length - ((Pieces.split SIG_END h).getLast?.getD []).length - 8

/-- `entries`: how many the end record declares. -/
def entriesOf (h : Hex) : ℕ :=
  let eocd := (eocdOf h).toNat
  int (slice h (eocd + 20) (eocd + 24))

/-- `cd_size` -/
def cdSizeOf (h : Hex) : ℕ :=
  let eocd := (eocdOf h).toNat
  int (slice h (eocd + 24) (eocd + 32))

/-- `all`, before its records are read. -/
def listed (h : Hex) : List Hex :=
  let eocd := (eocdOf h).toNat
  (Pieces.split SIG_DIRECTORY (slice h (eocd - cdSizeOf h * 2) eocd)).drop 1

/-- The named ones of the entries a directory lists, as many as its end record declares. -/
def select (wanted : List (List UInt8)) (maxBytes entries : ℕ) (all : List Entry) :
    Except Refusal (List Entry) :=
  let found := all.filter fun e => wanted.contains e.name
  let missing := wanted.filter fun w => !(found.map Entry.name).contains w
  if all.length ≠ entries then .error (.counts all.length entries)
  else if missing ≠ [] then .error (.missing missing)
  else found.mapM (checkEntry maxBytes)

/-- `ZIP_DIRECTORY`: the named entries of an archive's tail. -/
def directory (wanted : List (List UInt8)) (maxBytes : ℕ) (content : List UInt8) :
    Except Refusal (List Entry) :=
  let h := encodeHex content
  if ZIP_TAIL < content.length then .error (.ignoredRange content.length)
  else if eocdOf h < 0 ∨ eocdOf h % 2 ≠ 0 then .error .noEnd
  else if eocdOf h < cdSizeOf h * 2 then .error .largeDirectory
  else (listed h).mapM entryOf >>= select wanted maxBytes (entriesOf h)

/-- `ZIP_MEMBER`: the first and the last byte of the range a member is fetched by. -/
def range (z : Entry) : ℕ × ℕ := (z.offset, z.offset + 30 + z.nlen + z.elen + z.csize + 1024)

/-- `ZIP_LOCAL`: the archive of one member of what was fetched for it. -/
def wrap (z : Entry) (content : List UInt8) : Except Refusal (List UInt8) :=
  let head := encodeHex (slice content 0 30)
  let nlen := int (slice head 52 56)
  let start := 30 + nlen + int (slice head 56 60)
  let data := slice content start (start + z.csize)
  let body := slice content 0 (start + z.csize)
  let flags := int (slice z.entry 8 12)
  let flags := if flags / 8 % 2 = 1 then flags - 8 else flags
  let entry := SIG_DIRECTORY ++ (slice z.entry 0 8 ++ (le16 flags ++ (slice z.entry 12 76 ++
    ("00000000".toList ++ z.entry.drop 84))))
  let ending := entry ++ ("504b05060000000001000100".toList ++ (le32 (entry.length / 2) ++
    (le32 body.length ++ "0000".toList)))
  if 30 + z.nlen + z.elen + z.csize + 1025 < content.length then
    .error (.ignoredRange content.length)
  else if slice head 0 8 ≠ SIG_LOCAL ∨ slice content 30 (30 + nlen) ≠ z.name ∨
      data.length ≠ z.csize then
    .error (.noHeader z.name z.offset)
  else match Numeral.unhex ending with
    | none => .error .undecodable
    | some bytes => .ok (body ++ bytes)

/-- `ZIP_CHECK`: what a member was inflated to. -/
def check (z : Entry) (content : List UInt8) : Except Refusal (List UInt8) :=
  if content.length ≠ z.size then .error (.size z.name content.length z.size) else .ok content

end Source

section Digits

theorem encodeHex_eq (bytes : List UInt8) : encodeHex bytes =
    bytes.flatMap fun b => [Numeral.hexChar (b.toNat / 16), Numeral.hexChar (b.toNat % 16)] := by
  unfold encodeHex Numeral.hex
  rw [String.toList_ofList]

theorem encodeHex_append (l m : List UInt8) : encodeHex (l ++ m) = encodeHex l ++ encodeHex m := by
  rw [encodeHex_eq, encodeHex_eq, encodeHex_eq, List.flatMap_append]

@[simp] theorem length_encodeHex (l : List UInt8) : (encodeHex l).length = 2 * l.length := by
  rw [encodeHex_eq]
  induction l with
  | nil => rfl
  | cons b l ih =>
    rw [List.flatMap_cons, List.length_append, ih]
    simp
    omega

theorem take_encodeHex (l : List UInt8) (n : ℕ) :
    (encodeHex l).take (2 * n) = encodeHex (l.take n) := by
  rcases Nat.le_total n l.length with h | h
  · have hsplit := encodeHex_append (l.take n) (l.drop n)
    rw [List.take_append_drop] at hsplit
    rw [hsplit, List.take_left' (by simp [h])]
  · rw [List.take_of_length_le h, List.take_of_length_le (by simp; omega)]

theorem drop_encodeHex (l : List UInt8) (n : ℕ) :
    (encodeHex l).drop (2 * n) = encodeHex (l.drop n) := by
  rcases Nat.le_total n l.length with h | h
  · have hsplit := encodeHex_append (l.take n) (l.drop n)
    rw [List.take_append_drop] at hsplit
    rw [hsplit, List.drop_left' (by simp [h])]
  · rw [List.drop_eq_nil_of_le h, List.drop_eq_nil_of_le (by simp; omega)]
    rfl

theorem slice_encodeHex (l : List UInt8) (low high : ℕ) :
    slice (encodeHex l) (2 * low) (2 * high) = encodeHex (slice l low high) := by
  unfold slice
  rw [take_encodeHex, drop_encodeHex]

/-- The digits of bytes, folded. -/
theorem foldl_encodeHex (l : List UInt8) (n : ℕ) :
    (encodeHex l).foldl (fun tally value => tally * 16 + DIGITS.idxOf value) n =
      l.foldl (fun tally b => tally * 256 + b.toNat) n := by
  have hdigit : ∀ k < 16, DIGITS.idxOf (Numeral.hexChar k) = k := by decide +kernel
  rw [encodeHex_eq]
  induction l generalizing n with
  | nil => rfl
  | cons b l ih =>
    have hb := b.toNat_lt
    rw [List.flatMap_cons, List.foldl_append, ih, List.foldl_cons, List.foldl_cons, List.foldl_cons,
      List.foldl_nil, hdigit _ (by omega), hdigit _ (by omega)]
    congr 1
    omega

theorem foldl_reverse_eq_leNat (l : List UInt8) :
    l.reverse.foldl (fun tally b => tally * 256 + b.toNat) 0 = Zip.leNat l := by
  induction l with
  | nil => rfl
  | cons b l ih =>
    rw [List.reverse_cons, List.foldl_append, ih, List.foldl_cons, List.foldl_nil, Zip.leNat]
    omega

/-- The pairs of digits, put in front of each other. -/
theorem foldl_slice (l : List UInt8) : ∀ n ≤ l.length,
    ((List.range n).map (2 * ·)).foldl
      (fun tally value => slice (encodeHex l) value (value + 2) ++ tally) [] =
        encodeHex (l.take n).reverse
  | 0, _ => rfl
  | n + 1, h => by
    have hn : n < l.length := h
    have hpair : slice (encodeHex l) (2 * n) (2 * n + 2) = encodeHex [l[n]] := by
      rw [show 2 * n + 2 = 2 * (n + 1) from rfl, slice_encodeHex]
      congr 1
      unfold slice
      rw [List.take_succ_eq_append_getElem hn, List.drop_left' (by simp; omega)]
    rw [List.range_succ, List.map_append, List.foldl_append, foldl_slice l n hn.le]
    rw [List.map_singleton, List.foldl_cons, List.foldl_nil, hpair, ← encodeHex_append,
      List.take_succ_eq_append_getElem hn, List.reverse_append]
    rfl

/-- `map int` reads a field as the little-endian number it is. -/
theorem int_encodeHex (l : List UInt8) : int (encodeHex l) = Zip.leNat l := by
  have hcount : ((encodeHex l).length + 1) / 2 = l.length := by
    rw [length_encodeHex]
    omega
  unfold int
  dsimp only
  rw [hcount, foldl_slice l _ (Nat.le_refl _), List.take_length, foldl_encodeHex,
    foldl_reverse_eq_leNat]

theorem int_slice {l : List UInt8} {low high i j w n : ℕ} (h : slice l low high = Zip.le w n)
    (hn : n < 256 ^ w) (hi : i = 2 * low) (hj : j = 2 * high) :
    int (slice (encodeHex l) i j) = n := by
  rw [hi, hj, slice_encodeHex, h, int_encodeHex, Zip.leNat_le hn]

theorem toNat_lt_two (n : UInt16) : n.toNat < 256 ^ 2 := n.toNat_lt

theorem toNat_lt_four (n : UInt32) : n.toNat < 256 ^ 4 := n.toNat_lt

/-- The digits of a number, in a width that holds it. -/
def padded : ℕ → ℕ → Hex
  | 0, _ => []
  | w + 1, n => padded w (n / 16) ++ [Numeral.hexChar (n % 16)]

theorem padded_zero (w : ℕ) : padded w 0 = List.replicate w '0' := by
  induction w with
  | zero => rfl
  | succ w ih =>
    rw [padded, Nat.zero_div, ih, List.replicate_succ']
    rfl

theorem format_eq : ∀ {w n : ℕ}, n < 16 ^ (w + 1) → format (w + 1) n = padded (w + 1) n
  | w, n, h => by
    have hdigit : ∀ k < 16, Nat.digitChar k = Numeral.hexChar k := by decide
    have hlast := hdigit (n % 16) (Nat.mod_lt n (by omega))
    by_cases hn : n < 16
    · have hzero : n / 16 = 0 := Nat.div_eq_of_lt hn
      rw [Nat.mod_eq_of_lt hn] at hlast
      rw [format, padded, Nat.toDigits_of_lt_base hn, hzero, padded_zero, Nat.mod_eq_of_lt hn,
        hlast]
      rfl
    · cases w with
      | zero => omega
      | succ w =>
        have hrest : n / 16 < 16 ^ (w + 1) := by
          rw [Nat.pow_succ] at h
          omega
        have hwidth : w + 1 + 1 - ((Nat.toDigits 16 (n / 16)).length + 1) =
            w + 1 - (Nat.toDigits 16 (n / 16)).length := by omega
        rw [padded, ← format_eq hrest, format, format,
          Nat.toDigits_of_base_le (by omega) (by omega), List.length_append, List.length_singleton,
          hwidth, hlast, List.append_assoc]

theorem le16_eq {n : ℕ} (h : n < 2 ^ 16) : le16 n = encodeHex (Zip.le 2 n) := by
  unfold le16
  rw [format_eq (by omega), encodeHex_eq]
  simp only [padded, slice, Zip.le, List.nil_append, List.cons_append, List.take_succ_cons,
    List.take_zero, List.drop_succ_cons, List.drop_zero, List.flatMap_cons, List.flatMap_nil,
    UInt8.toNat_ofNat']
  simp only [List.cons.injEq, and_true]
  refine ⟨congrArg _ ?_, congrArg _ ?_, congrArg _ ?_, congrArg _ ?_⟩ <;> omega

theorem le32_eq {n : ℕ} (h : n < 2 ^ 32) : le32 n = encodeHex (Zip.le 4 n) := by
  unfold le32
  rw [format_eq (by omega), encodeHex_eq]
  simp only [padded, slice, Zip.le, List.nil_append, List.cons_append, List.take_succ_cons,
    List.take_zero, List.drop_succ_cons, List.drop_zero, List.flatMap_cons, List.flatMap_nil,
    UInt8.toNat_ofNat']
  simp only [List.cons.injEq, and_true]
  refine ⟨congrArg _ ?_, congrArg _ ?_, congrArg _ ?_, congrArg _ ?_, congrArg _ ?_, congrArg _ ?_,
    congrArg _ ?_, congrArg _ ?_⟩ <;> omega

end Digits

section Directory

open Zip (Member Local Archive)

variable {m : Member} {a : Archive}

/-- The entry of a member. -/
def entryFor (m : Member) : Entry where
  method := m.method.toNat
  csize := m.csize.toNat
  size := m.size.toNat
  nlen := m.name.length
  elen := m.extra.length
  offset := m.offset.toNat
  entry := encodeHex m.body
  name := m.name

theorem unhex_encodeHex (l : List UInt8) : Numeral.unhex (encodeHex l) = some l :=
  Numeral.unhex_hex l

theorem slice_body_name : slice m.body 42 (42 + m.name.length) = m.name := by
  have hdrop : slice m.body 42 (42 + m.name.length) = (m.body.drop 42).take m.name.length := by
    unfold slice
    rw [List.drop_take, Nat.add_sub_cancel_left]
  rw [hdrop, Zip.drop_body, List.take_left]

theorem entryOf_body (m : Member) : entryOf (encodeHex m.body) = .ok (entryFor m) := by
  have hmethod : int (slice (encodeHex m.body) 12 16) = m.method.toNat :=
    int_slice (Zip.slice_body_method m) (toNat_lt_two _) rfl rfl
  have hcsize : int (slice (encodeHex m.body) 32 40) = m.csize.toNat :=
    int_slice (Zip.slice_body_csize m) (toNat_lt_four _) rfl rfl
  have hsize : int (slice (encodeHex m.body) 40 48) = m.size.toNat :=
    int_slice (Zip.slice_body_size m) (toNat_lt_four _) rfl rfl
  have hnlen : int (slice (encodeHex m.body) 48 52) = m.name.length :=
    int_slice (Zip.slice_body_nlen m) m.name_short rfl rfl
  have helen : int (slice (encodeHex m.body) 52 56) = m.extra.length :=
    int_slice (Zip.slice_body_elen m) m.extra_short rfl rfl
  have hoffset : int (slice (encodeHex m.body) 76 84) = m.offset.toNat :=
    int_slice (Zip.slice_body_offset m) (toNat_lt_four _) rfl rfl
  have hname : Numeral.unhex (slice (encodeHex m.body) 84 (84 + m.name.length * 2)) =
      some m.name := by
    rw [show 84 + m.name.length * 2 = 2 * (42 + m.name.length) by omega,
      show 84 = 2 * 42 from rfl, slice_encodeHex, slice_body_name, unhex_encodeHex]
  unfold entryOf
  rw [hnlen, hname, hmethod, hcsize, hsize, helen, hoffset]
  rfl

/-- What the tail read fetches. -/
def tailOf (bytes : List UInt8) : List UInt8 := bytes.drop (bytes.length - ZIP_TAIL)

/-- The directory is in what the tail read fetches. -/
def Near (a : Archive) : Prop := a.directory.length + (4 + a.tail.length) ≤ ZIP_TAIL

theorem tailOf_eq (h : Near a) : ∃ front, tailOf a.bytes =
    front ++ (a.directory ++ (Zip.END ++ a.tail)) ∧ (tailOf a.bytes).length ≤ ZIP_TAIL := by
  have hlength : (tailOf a.bytes).length ≤ ZIP_TAIL := by
    unfold tailOf
    rw [List.length_drop]
    omega
  have hshort : a.bytes.length - ZIP_TAIL ≤ a.front.length := by
    unfold Near at h
    unfold Archive.bytes
    simp only [List.length_append, Zip.END, List.length_cons, List.length_nil]
    omega
  refine ⟨a.front.drop (a.bytes.length - ZIP_TAIL), ?_, hlength⟩
  exact List.drop_append_of_le_length hshort

theorem unbordered_end : Scan.Unbordered SIG_END := Pieces.unbordered_of_drop (by decide +kernel)

theorem unbordered_directory : Scan.Unbordered SIG_DIRECTORY :=
  Pieces.unbordered_of_drop (by decide +kernel)

/-- The signatures stand in the digits of an archive's tail only where its records begin. -/
structure Unmistakable (a : Archive) : Prop where
  ending : ¬ SIG_END <:+: encodeHex a.tail
  records : ∀ c ∈ a.members, ¬ SIG_DIRECTORY <:+: encodeHex c.1.body

theorem encodeHex_end : encodeHex Zip.END = SIG_END := by decide +kernel

theorem encodeHex_directory : encodeHex Zip.DIRECTORY = SIG_DIRECTORY := by decide +kernel

theorem eocdOf_eq (h : ¬ SIG_END <:+: encodeHex a.tail) (front : List UInt8) :
    eocdOf (encodeHex (front ++ (a.directory ++ (Zip.END ++ a.tail)))) =
      (2 * (front.length + a.directory.length) : ℕ) := by
  have hlast : (Pieces.split SIG_END
      (encodeHex (front ++ (a.directory ++ (Zip.END ++ a.tail))))).getLast? =
      some (encodeHex a.tail) := by
    rw [← List.append_assoc, encodeHex_append, encodeHex_append Zip.END, encodeHex_end]
    exact Pieces.getLast?_split unbordered_end (by decide) _ h
  unfold eocdOf
  rw [hlast, Option.getD_some, length_encodeHex, length_encodeHex]
  simp only [List.length_append, Zip.END, List.length_cons, List.length_nil]
  omega

/-- The directory cut at the signatures: the pieces of each record. -/
theorem split_directory (a : Archive) :
    (Pieces.split SIG_DIRECTORY (encodeHex a.directory)).drop 1 =
      a.members.flatMap fun c => Pieces.split SIG_DIRECTORY (encodeHex c.1.body) := by
  have hdigits : encodeHex a.directory =
      [] ++ (a.members.map fun c => encodeHex c.1.body).flatMap (SIG_DIRECTORY ++ ·) := by
    unfold Archive.directory
    induction a.members with
    | nil => rfl
    | cons c members ih =>
      rw [List.flatMap_cons, List.map_cons, List.nil_append, List.flatMap_cons, encodeHex_append,
        ih, Member.record, encodeHex_append, encodeHex_directory, List.nil_append]
  rw [hdigits, Pieces.split_flatMap unbordered_directory (by decide), List.flatMap_map]
  rfl

theorem slice_append_right {α : Type} (l m : List α) (low high : ℕ) :
    slice (l ++ m) (l.length + low) (l.length + high) = slice m low high := by
  unfold slice
  rw [List.take_length_add_append, List.drop_length_add_append]

theorem slice_tailOf (front : List UInt8) (low high : ℕ) :
    slice (front ++ (a.directory ++ (Zip.END ++ a.tail)))
      (front.length + a.directory.length + low) (front.length + a.directory.length + high) =
        slice (Zip.END ++ a.tail) low high := by
  rw [← List.append_assoc, ← List.length_append]
  exact slice_append_right _ _ low high

/-- The mapping finds the end record and the directory of an archive in its tail. -/
theorem directory_eq_select (hnear : Near a) (h : ¬ SIG_END <:+: encodeHex a.tail)
    (wanted : List (List UInt8)) (maxBytes : ℕ) : directory wanted maxBytes (tailOf a.bytes) =
      (a.members.flatMap fun c => Pieces.split SIG_DIRECTORY (encodeHex c.1.body)).mapM entryOf >>=
        select wanted maxBytes a.members.length := by
  obtain ⟨front, htail, hlength⟩ := tailOf_eq hnear
  have hcounts := slice_tailOf (a := a) front
  rw [htail] at hlength ⊢
  have heocd := eocdOf_eq h front
  generalize hcontent : front ++ (a.directory ++ (Zip.END ++ a.tail)) = content at *
  generalize hplace : front.length + a.directory.length = place at *
  have hcount : entriesOf (encodeHex content) = a.members.length := by
    unfold entriesOf
    rw [heocd]
    refine int_slice ((hcounts 10 12).trans (Zip.slice_end_count a)) ?_ (by omega) (by omega)
    exact Nat.lt_of_lt_of_le a.few (by omega)
  have hsize : cdSizeOf (encodeHex content) = a.directory.length := by
    unfold cdSizeOf
    rw [heocd]
    refine int_slice ((hcounts 12 16).trans (Zip.slice_end_size a)) ?_ (by omega) (by omega)
    exact Nat.lt_of_lt_of_le a.small (by omega)
  have hlisted : listed (encodeHex content) =
      a.members.flatMap fun c => Pieces.split SIG_DIRECTORY (encodeHex c.1.body) := by
    unfold listed
    dsimp only
    rw [heocd, Int.toNat_natCast, hsize, show 2 * place - a.directory.length * 2 =
      2 * front.length by omega, slice_encodeHex, ← hcontent, ← hplace, slice, ← List.append_assoc,
      List.take_left' (by simp), List.drop_left, split_directory]
  unfold directory
  dsimp only
  rw [heocd, hcount, hsize, hlisted, if_neg (by omega), if_neg (by omega), if_neg (by omega)]

theorem select_members {wanted : List (List UInt8)} {maxBytes : ℕ}
    (hwanted : ∀ w ∈ wanted, ∃ c ∈ a.members, c.1.name = w)
    (hbounds : ∀ c ∈ a.members, c.1.name ∈ wanted → c.1.size.toNat ≤ maxBytes ∧
      c.1.csize.toNat ≤ maxBytes ∧ c.1.method.toNat ∈ [0, 8] ∧ c.1.offset.toNat ≠ 4294967295) :
    select wanted maxBytes a.members.length (a.members.map fun c => entryFor c.1) =
      .ok ((a.members.filter fun c => wanted.contains c.1.name).map fun c => entryFor c.1) := by
  have hfound : (a.members.map fun c => entryFor c.1).filter (fun e => wanted.contains e.name) =
      (a.members.filter fun c => wanted.contains c.1.name).map fun c => entryFor c.1 := by
    rw [List.filter_map]
    rfl
  have hmissing : (wanted.filter fun w => !(((a.members.filter fun c =>
      wanted.contains c.1.name).map fun c => entryFor c.1).map Entry.name).contains w) = [] := by
    rw [List.filter_eq_nil_iff]
    intro w hw
    obtain ⟨c, hc, rfl⟩ := hwanted w hw
    have hmem : c.1.name ∈ ((a.members.filter fun c =>
        wanted.contains c.1.name).map fun c => entryFor c.1).map Entry.name := by
      rw [List.map_map]
      exact List.mem_map.2 ⟨c, List.mem_filter.2 ⟨hc, List.contains_iff_mem.2 hw⟩, rfl⟩
    rw [List.contains_iff_mem.2 hmem]
    decide
  have hchecked : ∀ c ∈ a.members.filter (fun c => wanted.contains c.1.name),
      checkEntry maxBytes (entryFor c.1) = .ok (entryFor c.1) := by
    intro c hc
    obtain ⟨hmem, hname⟩ := List.mem_filter.1 hc
    obtain ⟨hsize, hcsize, hmethod, hoffset⟩ := hbounds c hmem (List.contains_iff_mem.1 hname)
    have hin : ¬ (entryFor c.1).method ∉ [0, 8] := not_not.2 hmethod
    have hplain : (entryFor c.1).offset ≠ 4294967295 := hoffset
    unfold checkEntry
    rw [if_neg (by simp [entryFor, hsize, hcsize]), if_neg hin, if_neg hplain]
  unfold select
  dsimp only
  rw [hfound, hmissing, if_neg (by simp), if_neg (by simp), List.mapM_map]
  exact mapM_eq_map hchecked

/-- What the mapping makes of the tail of an archive: an entry for each named member. -/
theorem directory_tailOf (hnear : Near a) (h : Unmistakable a) {wanted : List (List UInt8)}
    {maxBytes : ℕ} (hwanted : ∀ w ∈ wanted, ∃ c ∈ a.members, c.1.name = w)
    (hbounds : ∀ c ∈ a.members, c.1.name ∈ wanted → c.1.size.toNat ≤ maxBytes ∧
      c.1.csize.toNat ≤ maxBytes ∧ c.1.method.toNat ∈ [0, 8] ∧ c.1.offset.toNat ≠ 4294967295) :
    directory wanted maxBytes (tailOf a.bytes) =
      .ok ((a.members.filter fun c => wanted.contains c.1.name).map fun c => entryFor c.1) := by
  have hpieces : (a.members.flatMap fun c => Pieces.split SIG_DIRECTORY (encodeHex c.1.body)) =
      a.members.map fun c => encodeHex c.1.body := by
    rw [List.flatMap_congr fun c hc => Pieces.split_of_not_infix (h.records c hc)]
    exact List.flatMap_pure_eq_map _ _
  have hall : (a.members.map fun c => encodeHex c.1.body).mapM entryOf =
      .ok (a.members.map fun c => entryFor c.1) := by
    rw [List.mapM_map]
    exact mapM_eq_map fun c _ => entryOf_body c.1
  rw [directory_eq_select hnear h.ending, hpieces, hall]
  exact select_members hwanted hbounds

/-- A record that holds the signature of a record itself makes the mapping refuse the archive. -/
theorem refuses_record (hnear : Near a) (h : ¬ SIG_END <:+: encodeHex a.tail)
    {c : Member × Local} (hmem : c ∈ a.members) (hsignature : SIG_DIRECTORY <:+: encodeHex c.1.body)
    (wanted : List (List UInt8)) (maxBytes : ℕ) :
    ∃ e, directory wanted maxBytes (tailOf a.bytes) = .error e := by
  have hmore : a.members.length <
      (a.members.flatMap fun c => Pieces.split SIG_DIRECTORY (encodeHex c.1.body)).length := by
    rw [List.length_flatMap]
    refine Nat.lt_of_le_of_lt (Nat.le_of_eq (by simp)) (List.sum_lt_sum (fun _ => 1) _ ?_ ?_)
    · exact fun c _ => Pieces.length_split_pos _ _
    · exact ⟨c, hmem, Pieces.two_le_length_split unbordered_directory (by decide) hsignature⟩
  rw [directory_eq_select hnear h]
  cases hall : (a.members.flatMap fun c =>
      Pieces.split SIG_DIRECTORY (encodeHex c.1.body)).mapM entryOf with
  | error e => exact ⟨e, rfl⟩
  | ok all =>
    have hlength : all.length ≠ a.members.length := by
      have heq := length_of_mapM hall
      omega
    exact ⟨_, if_pos hlength⟩

/-- What holds of a tail the mapping makes entries of. -/
structure Accepted (wanted : List (List UInt8)) (maxBytes : ℕ) (content : List UInt8)
    (found : List Entry) : Prop where
  short : content.length ≤ ZIP_TAIL
  ending : 0 ≤ eocdOf (encodeHex content) ∧ eocdOf (encodeHex content) % 2 = 0
  within : cdSizeOf (encodeHex content) * 2 ≤ eocdOf (encodeHex content)
  counted : (listed (encodeHex content)).length = entriesOf (encodeHex content)
  listing : ∀ e ∈ found, ∃ digits ∈ listed (encodeHex content), entryOf digits = .ok e
  named : ∀ w ∈ wanted, ∃ e ∈ found, e.name = w
  checked : ∀ e ∈ found, e.name ∈ wanted ∧ e.size ≤ maxBytes ∧ e.csize ≤ maxBytes ∧
    e.method ∈ [0, 8] ∧ e.offset ≠ 4294967295

theorem checked_of_checkEntry {maxBytes : ℕ} {e e' : Entry} (h : checkEntry maxBytes e = .ok e') :
    e' = e ∧ e.size ≤ maxBytes ∧ e.csize ≤ maxBytes ∧ e.method ∈ [0, 8] ∧
      e.offset ≠ 4294967295 := by
  unfold checkEntry at h
  split_ifs at h with hsize hmethod hoffset
  obtain ⟨hsize, hcsize⟩ := not_or.1 hsize
  exact ⟨(Except.ok.inj h).symm, Nat.not_lt.1 hsize, Nat.not_lt.1 hcsize, hmethod, hoffset⟩

theorem of_select {wanted : List (List UInt8)} {maxBytes entries : ℕ} {all found : List Entry}
    (h : select wanted maxBytes entries all = .ok found) : all.length = entries ∧
      (∀ w ∈ wanted, ∃ e ∈ found, e.name = w) ∧ ∀ e ∈ found, e ∈ all ∧ e.name ∈ wanted ∧
        e.size ≤ maxBytes ∧ e.csize ≤ maxBytes ∧ e.method ∈ [0, 8] ∧ e.offset ≠ 4294967295 := by
  unfold select at h
  dsimp only at h
  split_ifs at h with hcount hmissing
  obtain ⟨hback, hforth⟩ := mem_of_mapM h
  refine ⟨by omega, ?_, ?_⟩
  · intro w hw
    have hnamed := List.filter_eq_nil_iff.1 (not_not.1 hmissing) w hw
    rw [Bool.not_eq_true', Bool.not_eq_false, List.contains_iff_mem, List.mem_map] at hnamed
    obtain ⟨e, he, rfl⟩ := hnamed
    obtain ⟨e', he', hchecked⟩ := hforth e he
    exact ⟨e', he', congrArg Entry.name (checked_of_checkEntry hchecked).1⟩
  · intro e he
    obtain ⟨e', he', hchecked⟩ := hback e he
    obtain ⟨rfl, hchecks⟩ := checked_of_checkEntry hchecked
    obtain ⟨hmem, hname⟩ := List.mem_filter.1 he'
    exact ⟨hmem, List.contains_iff_mem.1 hname, hchecks⟩

theorem accepted_of_directory {wanted : List (List UInt8)} {maxBytes : ℕ} {content : List UInt8}
    {found : List Entry} (h : directory wanted maxBytes content = .ok found) :
    Accepted wanted maxBytes content found := by
  unfold directory at h
  dsimp only at h
  split_ifs at h with hshort hending hwithin
  obtain ⟨all, hall, hselect⟩ := bind_eq_ok.1 h
  obtain ⟨hlength, hnamed, hfound⟩ := of_select hselect
  exact {
    short := Nat.not_lt.1 hshort
    ending := by omega
    within := by omega
    counted := (length_of_mapM hall).symm.trans hlength
    listing := fun e he => (mem_of_mapM hall).1 e (hfound e he).1
    named := hnamed
    checked := fun e he => (hfound e he).2 }

end Directory

section Wrapped

open Zip (Member Local Archive)

variable {m : Member} {l : Local} {a b : Archive} {rest : List UInt8}

/-- The digits of a record that says what the local header's flags no longer need to. -/
theorem encodeHex_alone (m : Member) :
    SIG_DIRECTORY ++ (slice (encodeHex m.body) 0 8 ++ (le16 (Zip.settled m.flags) ++
      (slice (encodeHex m.body) 12 76 ++
        ("00000000".toList ++ (encodeHex m.body).drop 84)))) = encodeHex m.alone.record := by
  have hversions : slice (encodeHex m.body) 0 8 = encodeHex (slice m.body 0 4) :=
    slice_encodeHex m.body 0 4
  have hmiddle : slice (encodeHex m.body) 12 76 = encodeHex (slice m.body 6 38) :=
    slice_encodeHex m.body 6 38
  have hrest : (encodeHex m.body).drop 84 = encodeHex (m.body.drop 42) := drop_encodeHex m.body 42
  have hzero : "00000000".toList = encodeHex (Zip.le 4 0) := by decide +kernel
  rw [hversions, hmiddle, hrest, hzero, le16_eq (Zip.settled_lt m.flags), Member.record,
    Zip.body_alone, encodeHex_append, encodeHex_append, encodeHex_append, encodeHex_append,
    encodeHex_append, encodeHex_directory]

/-- The digits of the end record of an archive of one member. -/
theorem encodeHex_ending (hmembers : b.members = [(m.alone, l)]) (hcomment : b.comment = []) :
    encodeHex m.alone.record ++ ("504b05060000000001000100".toList ++
      (le32 ((encodeHex m.alone.record).length / 2) ++ (le32 b.front.length ++ "0000".toList))) =
        encodeHex (b.directory ++ (Zip.END ++ b.tail)) := by
  have hdirectory : b.directory = m.alone.record := by
    unfold Archive.directory
    rw [hmembers, List.flatMap_singleton]
  have htail : Zip.END ++ b.tail = (Zip.END ++ (Zip.le 2 0 ++ Zip.le 2 0 ++ Zip.le 2 1 ++
      Zip.le 2 1)) ++
        (Zip.le 4 m.alone.record.length ++ (Zip.le 4 b.front.length ++ Zip.le 2 0)) := by
    unfold Archive.tail
    rw [hdirectory, hmembers, hcomment]
    simp [List.append_assoc]
  have hhead : "504b05060000000001000100".toList = encodeHex (Zip.END ++
      (Zip.le 2 0 ++ Zip.le 2 0 ++ Zip.le 2 1 ++ Zip.le 2 1)) := by decide +kernel
  have hzero : "0000".toList = encodeHex (Zip.le 2 0) := by decide +kernel
  have hcount : (encodeHex m.alone.record).length / 2 = m.alone.record.length := by
    rw [length_encodeHex]
    omega
  have hsmall : m.alone.record.length < 2 ^ 32 := by
    have hlt := b.small
    rw [← Archive.directory, hdirectory] at hlt
    omega
  have hnear : b.front.length < 2 ^ 32 := by
    have hlt := b.near
    omega
  rw [hcount, htail, hdirectory, hhead, hzero, le32_eq hsmall, le32_eq hnear]
  simp only [encodeHex_append, List.append_assoc]

theorem flags_eq (m : Member) : (if int (slice (encodeHex m.body) 8 12) / 8 % 2 = 1 then
    int (slice (encodeHex m.body) 8 12) - 8 else int (slice (encodeHex m.body) 8 12)) =
      Zip.settled m.flags := by
  have hflags : int (slice (encodeHex m.body) 8 12) = m.flags.toNat :=
    int_slice (Zip.slice_body_flags m) (toNat_lt_two _) rfl rfl
  rw [hflags]
  unfold Zip.settled Zip.described
  simp only [beq_iff_eq]

theorem slice_zero_append (l rest : List UInt8) : slice (l ++ rest) 0 l.length = l := by
  unfold slice
  rw [List.take_left, List.drop_zero]

theorem slice_of_drop {l before after : List UInt8} {low : ℕ} (h : l.drop low = before ++ after) :
    slice l low (low + before.length) = before := by
  unfold slice
  rw [List.drop_take, Nat.add_sub_cancel_left, h, List.take_left]

/-- What is fetched for a member is wrapped as the archive of it alone. -/
theorem wrap_local (hdescribes : Zip.Describes m l) (hfront : b.front = l.bytes m.name)
    (hmembers : b.members = [(m.alone, l)]) (hcomment : b.comment = [])
    (hlength : (l.bytes m.name ++ rest).length ≤
      30 + m.name.length + m.extra.length + m.csize.toNat + 1025) :
    wrap (entryFor m) (l.bytes m.name ++ rest) = .ok b.bytes := by
  have hdrop := Zip.drop_local l m.name rest
  have hpacked := hdescribes.packed
  generalize hcontent : l.bytes m.name ++ rest = content at *
  have hsignature : slice (encodeHex (slice content 0 30)) 0 8 = SIG_LOCAL := by
    have hslice := slice_encodeHex (slice content 0 30) 0 4
    rw [← hcontent, Zip.slice_local_signature] at hslice
    rw [← hcontent]
    exact hslice
  have hnlen : int (slice (encodeHex (slice content 0 30)) 52 56) = m.name.length := by
    rw [← hcontent]
    exact int_slice (Zip.slice_local_nlen l m.name rest) m.name_short rfl rfl
  have helen : int (slice (encodeHex (slice content 0 30)) 56 60) = l.extra.length := by
    rw [← hcontent]
    exact int_slice (Zip.slice_local_elen l m.name rest) l.extra_short rfl rfl
  have hname : slice content 30 (30 + m.name.length) = m.name := slice_of_drop hdrop
  have hdata : slice content (30 + m.name.length + l.extra.length)
      (30 + m.name.length + l.extra.length + m.csize.toNat) = l.data := by
    rw [← hpacked]
    refine @slice_of_drop content l.data rest _ ?_
    rw [Nat.add_assoc, ← List.drop_drop, hdrop, ← List.append_assoc, ← List.length_append,
      List.drop_left]
  have hbody : slice content 0 (30 + m.name.length + l.extra.length + m.csize.toNat) = b.front := by
    rw [← hpacked, ← Zip.length_local, ← hcontent, hfront]
    exact slice_zero_append _ rest
  unfold wrap
  dsimp only [entryFor]
  rw [hnlen, helen, hdata, hbody, hsignature, hname, flags_eq, encodeHex_alone,
    encodeHex_ending hmembers hcomment, unhex_encodeHex]
  exact (if_neg (Nat.not_lt.2 hlength)).trans (if_neg (by simp [hpacked]))

end Wrapped

section Fetched

open Zip (Member Local Archive)

variable {m : Member} {l : Local} {a : Archive}

/-- What an honest server answers to a range. -/
def fetched (bytes : List UInt8) (r : ℕ × ℕ) : List UInt8 := slice bytes r.1 (r.2 + 1)

theorem local_stored (hmem : (m, l) ∈ a.members) :
    l.bytes m.name <+: a.bytes.drop m.offset.toNat := by
  obtain ⟨-, hstored⟩ := a.stored _ hmem
  unfold Archive.bytes
  rw [List.drop_append]
  exact hstored.trans (List.prefix_append _ _)

theorem offset_lt (hmem : (m, l) ∈ a.members) : m.offset.toNat < 2 ^ 32 - 1 := by
  obtain ⟨-, hstored⟩ := a.stored _ hmem
  have hlength := hstored.length_le
  have hnear := a.near
  rw [Zip.length_local, List.length_drop] at hlength
  dsimp only at hlength
  omega

theorem fetched_eq (hmem : (m, l) ∈ a.members)
    (hextra : l.extra.length ≤ m.extra.length + 1025) :
    ∃ rest, fetched a.bytes (range (entryFor m)) = l.bytes m.name ++ rest ∧
      (l.bytes m.name ++ rest).length ≤
        30 + m.name.length + m.extra.length + m.csize.toNat + 1025 := by
  obtain ⟨hdescribes, -⟩ := a.stored _ hmem
  have hpacked := hdescribes.packed
  obtain ⟨after, hafter⟩ := local_stored hmem
  have hfetched : fetched a.bytes (range (entryFor m)) = (a.bytes.drop m.offset.toNat).take
      (30 + m.name.length + m.extra.length + m.csize.toNat + 1025) := by
    unfold fetched range slice entryFor
    dsimp only
    rw [List.drop_take]
    congr 1
    omega
  have hlength := Zip.length_local l m.name
  dsimp only at hpacked
  rw [hfetched, ← hafter, List.take_append, List.take_of_length_le (by omega)]
  refine ⟨_, rfl, ?_⟩
  rw [List.length_append, List.length_take]
  omega

/-- A member fetched from an archive is wrapped as the archive of it alone. -/
theorem wrap_fetched (hmem : (m, l) ∈ a.members)
    (hextra : l.extra.length ≤ m.extra.length + 1025) :
    ∃ b : Archive, b.members = [(m.alone, l)] ∧ b.comment = [] ∧ b.front = l.bytes m.name ∧
      wrap (entryFor m) (fetched a.bytes (range (entryFor m))) = .ok b.bytes := by
  obtain ⟨b, hfront, hmembers, hcomment⟩ := Zip.exists_alone hmem
  obtain ⟨rest, hrest, hlength⟩ := fetched_eq hmem hextra
  refine ⟨b, hmembers, hcomment, hfront, ?_⟩
  rw [hrest]
  exact wrap_local (a.stored _ hmem).1 hfront hmembers hcomment hlength

end Fetched

end JoinedContext.Archives
