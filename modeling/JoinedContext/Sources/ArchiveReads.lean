import JoinedContext.Sources.Archives
import Mathlib

/-!
# The archive a connection names members of

The directory's mapping is rendered with the members and the bound of the connection. Read from the
tail of an archive whose signatures stand nowhere else, it gives the entry of each named member, and
what is fetched for it is wrapped as an archive of that member alone. Nothing but counts, sizes,
methods and offsets is checked, so a tail that is of no archive may be read too.
-/

namespace JoinedContext.Archives

open Zip (Member Local Archive)

section Source

/-- The characters a member name has. -/
def plain (c : Char) : Bool := c.isAlphanum || "._-/".toList.contains c

/-- The archive of a connection, as `HttpArchive::validate` admits it. -/
structure HttpArchive where
  members : List String
  maxBytes : ℕ
  some_few : 1 ≤ members.length ∧ members.length ≤ 20
  all_plain : ∀ name ∈ members, name ≠ "" ∧ name.utf8ByteSize ≤ 255 ∧ name.toList.all plain = true
  bound : 1 ≤ maxBytes ∧ maxBytes ≤ 268435456

def MEMBERS : List Char := "MEMBERS".toList

def MAX_BYTES : List Char := "MAX_BYTES".toList

def ZIP_DIRECTORY_START : List Char := "let wanted = MEMBERS\nlet max_bytes = MAX_BYTES".toList

/-- The members as `serde_json` writes them. -/
def HttpArchive.json (archive : HttpArchive) : List Char :=
  (Value.arr (archive.members.map Value.str)).toChars

/-- `ZIP_DIRECTORY` with its placeholders replaced, whatever the mapping goes on with. -/
def HttpArchive.rendered (archive : HttpArchive) (mapping : List Char) : List Char :=
  Pieces.replaceOnce MAX_BYTES (toString archive.maxBytes).toList
    (Pieces.replaceOnce MEMBERS archive.json (ZIP_DIRECTORY_START ++ mapping))

/-- The names the mapping compares with, as bytes. -/
def HttpArchive.wanted (archive : HttpArchive) : List (List UInt8) :=
  archive.members.map fun name => name.toUTF8.toList

end Source

section Rendered

variable {archive : HttpArchive}

theorem unbordered_members : Scan.Unbordered MEMBERS :=
  Pieces.unbordered_of_drop (by decide +kernel)

theorem unbordered_maxBytes : Scan.Unbordered MAX_BYTES :=
  Pieces.unbordered_of_drop (by decide +kernel)

theorem plain_toNat {c : Char} (h : plain c = true) : 0x2D ≤ c.toNat ∧ c.toNat ≠ 0x5C := by
  simp only [plain, Char.isAlphanum, Char.isAlpha, Char.isUpper, Char.isLower, Char.isDigit,
    Bool.or_eq_true, Bool.and_eq_true, decide_eq_true_eq, ge_iff_le, UInt32.le_iff_toNat_le] at h
  have hval : c.val.toNat = c.toNat := rfl
  rw [hval] at h
  rcases h with ((h | h) | h) | h
  · simp at h
    omega
  · simp at h
    omega
  · simp at h
    omega
  · simp at h
    rcases h with rfl | rfl | rfl | rfl <;> decide

theorem escape_plain {name : String} (h : name.toList.all plain = true) :
    Value.escape name = name.toList := by
  have hchars : ∀ c ∈ name.toList, Value.escapeChar c = [c] := by
    intro c hc
    obtain ⟨hlow, hback⟩ := plain_toNat (List.all_eq_true.1 h c hc)
    have hne : ∀ d : Char, d.toNat < 0x2D ∨ d.toNat = 0x5C → c ≠ d := by
      rintro d hd rfl
      omega
    unfold Value.escapeChar
    rw [if_neg (hne _ (by decide)), if_neg (hne _ (by decide)), if_neg (by omega),
      if_neg (by omega), if_neg (hne _ (by decide)), if_neg (hne _ (by decide)),
      if_neg (hne _ (by decide)), if_neg (by omega)]
  unfold Value.escape
  rw [List.flatMap_congr hchars, List.flatMap_singleton']

theorem not_infix_itemsToChars : ∀ {names : List String},
    (∀ name ∈ names, name.toList.all plain = true ∧ ¬ MAX_BYTES <:+: name.toList) →
      ¬ MAX_BYTES <:+: Value.itemsToChars (names.map Value.str)
  | [], _ => by
    rw [List.map_nil, Value.itemsToChars]
    decide
  | name :: names, h => by
    obtain ⟨hplain, hname⟩ := h name List.mem_cons_self
    have hnil : ¬ MAX_BYTES <:+: ([] : List Char) := by decide
    have hrest := not_infix_itemsToChars fun other hother => h other (List.mem_cons_of_mem _ hother)
    have hafter : ¬ MAX_BYTES <:+: (if (names.map Value.str).isEmpty then [] else [',']) ++
        Value.itemsToChars (names.map Value.str) := by
      split_ifs
      · exact hrest
      · exact Pieces.not_infix_append_cons (by decide) hnil hrest
    have heq : Value.itemsToChars ((name :: names).map Value.str) =
        [] ++ '"' :: (name.toList ++ '"' ::
          ((if (names.map Value.str).isEmpty then [] else [',']) ++
            Value.itemsToChars (names.map Value.str))) := by
      rw [List.map_cons, Value.itemsToChars, Value.toChars, Value.quote, escape_plain hplain]
      simp
    rw [heq]
    exact Pieces.not_infix_append_cons (by decide) hnil
      (Pieces.not_infix_append_cons (by decide) hname hafter)

/-- No member's name holds the placeholder of the bound, so it is the one replaced. -/
theorem rendered_eq (hnames : ∀ name ∈ archive.members, ¬ MAX_BYTES <:+: name.toList)
    (mapping : List Char) : archive.rendered mapping =
      "let wanted = ".toList ++ (archive.json ++ ("\nlet max_bytes = ".toList ++
        ((toString archive.maxBytes).toList ++ mapping))) := by
  have hitems := not_infix_itemsToChars fun name hname =>
    ⟨(archive.all_plain name hname).2.2, hnames name hname⟩
  have hstart : ZIP_DIRECTORY_START ++ mapping = "let wanted = ".toList ++ (MEMBERS ++
      ("\nlet max_bytes = ".toList ++ (MAX_BYTES ++ mapping))) := by
    rw [show ZIP_DIRECTORY_START = "let wanted = ".toList ++ (MEMBERS ++
      ("\nlet max_bytes = ".toList ++ MAX_BYTES)) by decide +kernel]
    simp only [List.append_assoc]
  have hbefore : "let wanted = ".toList ++ (archive.json ++ ("\nlet max_bytes = ".toList ++
      (MAX_BYTES ++ mapping))) = ("let wanted = ".toList ++ '[' ::
        (Value.itemsToChars (archive.members.map Value.str) ++
          ']' :: "\nlet max_bytes = ".toList)) ++ (MAX_BYTES ++ mapping) := by
    unfold HttpArchive.json
    rw [Value.toChars]
    simp only [List.append_assoc, List.cons_append, List.nil_append]
  have hafter : ¬ MAX_BYTES <:+: "let wanted = ".toList ++ '[' ::
      (Value.itemsToChars (archive.members.map Value.str) ++
        ']' :: "\nlet max_bytes = ".toList) :=
    Pieces.not_infix_append_cons (by decide) (by decide +kernel)
      (Pieces.not_infix_append_cons (by decide) hitems (by decide +kernel))
  unfold HttpArchive.rendered
  rw [hstart, Pieces.replaceOnce_append unbordered_members (by decide) _ (by decide +kernel),
    hbefore, Pieces.replaceOnce_append unbordered_maxBytes (by decide) _ hafter]
  unfold HttpArchive.json
  rw [Value.toChars]
  simp only [List.append_assoc, List.cons_append, List.nil_append]

end Rendered

section Reads

/-- The archive has the members the connection names, stored or deflated and in its bound. -/
structure Serves (archive : HttpArchive) (a : Archive) : Prop where
  present : ∀ w ∈ archive.wanted, ∃ c ∈ a.members, c.1.name = w
  bounded : ∀ c ∈ a.members, c.1.name ∈ archive.wanted → c.1.size.toNat ≤ archive.maxBytes ∧
    c.1.csize.toNat ≤ archive.maxBytes ∧ c.1.method.toNat ∈ [0, 8]

/-- The named members of an archive are read, each with what its own record says. -/
theorem read_members (archive : HttpArchive)
    (hnames : ∀ name ∈ archive.members, ¬ MAX_BYTES <:+: name.toList) :
    (∀ mapping, archive.rendered mapping =
      "let wanted = ".toList ++ (archive.json ++ ("\nlet max_bytes = ".toList ++
        ((toString archive.maxBytes).toList ++ mapping)))) ∧
    (∀ a, Near a → Unmistakable a → Serves archive a →
      directory archive.wanted archive.maxBytes (tailOf a.bytes) =
        .ok ((a.members.filter fun c => archive.wanted.contains c.1.name).map
          fun c => entryFor c.1)) ∧
    (∀ a, Near a → ¬ SIG_END <:+: encodeHex a.tail →
      (∃ c ∈ a.members, SIG_DIRECTORY <:+: encodeHex c.1.body) →
        ∃ e, directory archive.wanted archive.maxBytes (tailOf a.bytes) = .error e) ∧
    (∀ a : Archive, ∀ c ∈ a.members, c.2.extra.length ≤ c.1.extra.length + 1025 →
      ∃ b : Archive, b.members = [(c.1.alone, c.2)] ∧ b.front = c.2.bytes c.1.name ∧
        b.comment = [] ∧
        wrap (entryFor c.1) (fetched a.bytes (range (entryFor c.1))) = .ok b.bytes) ∧
    ∀ content found, directory archive.wanted archive.maxBytes content = .ok found →
      Accepted archive.wanted archive.maxBytes content found := by
  refine ⟨rendered_eq hnames, ?_, ?_, ?_, fun _ _ h => accepted_of_directory h⟩
  · intro a hnear h hserves
    refine directory_tailOf hnear h hserves.present fun c hc hname => ?_
    obtain ⟨hsize, hcsize, hmethod⟩ := hserves.bounded c hc hname
    have hoffset : c.1.offset.toNat < 2 ^ 32 - 1 := offset_lt hc
    exact ⟨hsize, hcsize, hmethod, by omega⟩
  · rintro a hnear hending ⟨c, hc, hsignature⟩
    exact refuses_record hnear hending hc hsignature _ _
  · intro a c hc hextra
    obtain ⟨b, hmembers, hcomment, hfront, hwrap⟩ := wrap_fetched hc hextra
    exact ⟨b, hmembers, hfront, hcomment, hwrap⟩

/-- A connection that reads one member. -/
def notesArchive : HttpArchive where
  members := ["notes.txt"]
  maxBytes := 1024
  some_few := by decide
  all_plain := by decide +kernel
  bound := by decide

def notesMember : Member where
  versionMade := 20
  versionNeeded := 20
  flags := 0
  method := 0
  time := 0
  date := 33
  crc := 0xE8B7BE43
  csize := 1
  size := 1
  disk := 0
  attributes := 0
  external := 0
  offset := 0
  name := "notes.txt".toUTF8.toList
  extra := []
  comment := []
  name_short := by decide +kernel
  extra_short := by decide
  comment_short := by decide

def notesLocal : Local where
  versionNeeded := 20
  flags := 0
  method := 0
  time := 0
  date := 33
  crc := 0xE8B7BE43
  csize := 1
  size := 1
  extra := []
  data := [0x61]
  extra_short := by decide

/-- The archive of a file of one letter. -/
def notes : Archive where
  front := notesLocal.bytes notesMember.name
  members := [(notesMember, notesLocal)]
  comment := []
  stored := by
    intro c hc
    obtain rfl := List.mem_singleton.1 hc
    exact ⟨⟨rfl, rfl, fun _ => ⟨rfl, rfl, rfl⟩⟩, List.prefix_rfl⟩
  few := by decide
  near := by decide +kernel
  small := by decide +kernel
  comment_short := by decide

theorem read_members_notes :
    (∀ name ∈ notesArchive.members, ¬ MAX_BYTES <:+: name.toList) ∧
    directory notesArchive.wanted notesArchive.maxBytes (tailOf notes.bytes) =
      .ok [entryFor notesMember] := by
  have hnames : ∀ name ∈ notesArchive.members, ¬ MAX_BYTES <:+: name.toList := by decide +kernel
  have hrecords : ∀ c ∈ notes.members, ¬ SIG_DIRECTORY <:+: encodeHex c.1.body := by
    intro c hc
    obtain rfl := List.mem_singleton.1 hc
    decide +kernel
  have hpresent : ∀ w ∈ notesArchive.wanted, ∃ c ∈ notes.members, c.1.name = w := by
    intro w hw
    obtain rfl := List.mem_singleton.1 hw
    exact ⟨_, List.mem_cons_self, rfl⟩
  have hbounded : ∀ c ∈ notes.members, c.1.name ∈ notesArchive.wanted →
      c.1.size.toNat ≤ notesArchive.maxBytes ∧ c.1.csize.toNat ≤ notesArchive.maxBytes ∧
        c.1.method.toNat ∈ [0, 8] := by
    intro c hc _
    obtain rfl := List.mem_singleton.1 hc
    decide
  refine ⟨hnames, ((read_members notesArchive hnames).2.1 notes ?_ ?_ ?_).trans ?_⟩
  · unfold Near
    decide +kernel
  · exact ⟨by decide +kernel, hrecords⟩
  · exact ⟨hpresent, hbounded⟩
  · have hfilter : (notes.members.filter fun c => notesArchive.wanted.contains c.1.name) =
        [(notesMember, notesLocal)] :=
      List.filter_eq_self.2 fun c hc => by
        obtain rfl := List.mem_singleton.1 hc
        decide +kernel
    rw [hfilter]
    rfl

/-- The archive cut before a comment of one byte. -/
def cutNotes : List UInt8 := notes.front ++ (notes.directory ++ (Zip.END ++
  (Zip.le 2 0 ++ Zip.le 2 0 ++ Zip.le 2 1 ++ Zip.le 2 1 ++ Zip.le 4 notes.directory.length ++
    Zip.le 4 notes.front.length ++ Zip.le 2 1)))

/-- An end record is read whose comment is missing. -/
theorem cut_archive_read :
    directory notesArchive.wanted notesArchive.maxBytes cutNotes = .ok [entryFor notesMember] ∧
      ∀ a : Archive, tailOf a.bytes ≠ cutNotes := by
  refine ⟨by decide +kernel, fun a htail => ?_⟩
  have hlength : cutNotes.length = 117 := by decide +kernel
  have hbytes : a.bytes = cutNotes := by
    have htaken := congrArg List.length htail
    unfold tailOf at htail htaken
    rw [List.length_drop, hlength] at htaken
    rw [← htail, show a.bytes.length - ZIP_TAIL = 0 by unfold ZIP_TAIL at htaken ⊢; omega,
      List.drop_zero]
  have hend : ∀ k < 118, Zip.END <+: cutNotes.drop k → cutNotes.drop (k + 4 + 16) = [1, 0] := by
    decide +kernel
  have hplace : cutNotes.drop (a.front.length + a.directory.length) = Zip.END ++ a.tail := by
    rw [← hbytes, Archive.bytes, ← List.append_assoc, ← List.length_append, List.drop_left]
  have hwithin : a.front.length + a.directory.length < 118 := by
    rw [← hbytes, Archive.bytes, List.length_append, List.length_append] at hlength
    omega
  have hcomment := hend _ hwithin (hplace ▸ List.prefix_append _ _)
  rw [Nat.add_assoc, ← List.drop_drop, hplace] at hcomment
  have hfield : (Zip.END ++ a.tail).drop (4 + 16) = Zip.le 2 a.comment.length ++ a.comment := by
    simp [Archive.tail, Zip.END, Zip.le]
  rw [hfield] at hcomment
  have hnone : a.comment = [] := by
    have hshort := congrArg List.length hcomment
    rw [List.length_append, Zip.length_le] at hshort
    exact List.eq_nil_of_length_eq_zero (by simpa using hshort)
  rw [hnone] at hcomment
  exact absurd hcomment (by decide)

end Reads

end JoinedContext.Archives
