import JoinedContext.Jcctl.Documents
import JoinedContext.Library.Assoc
import JoinedContext.Library.Utf8
import Mathlib.Tactic.Common

/-!
# The paths of a change listing

A path column of `git diff --name-status` is unquoted the way git quotes it, and held inside the
checkout: what git writes for a file reads back as that file (`changePath_quoted`), and a path that
leaves the checkout is refused (`inside_of_changePath`).
-/

namespace JoinedContext.Gate

open Jcctl (components)

section Source

inductive RolesError where
  | changePath (path : String)
  | io (error : String)
deriving DecidableEq

/-- A component of a path. -/
inductive Component where
  | rootDir
  | curDir
  | parentDir
  | normal (name : String)
deriving DecidableEq

/-- The components of a path: a `.` past the first one and an empty one are none. -/
def pathComponents (path : String) : List Component :=
  let parts := components path
  (if Text.startsWith '/' path then [.rootDir]
    else if parts.head? = some "." then [.curDir] else []) ++
  (parts.filter fun part => part ≠ "" ∧ part ≠ ".").map fun part =>
    if part = ".." then .parentDir else .normal part

/-- The byte a backslash and a letter stand for. -/
def unescape (letter : Nat) : Option Nat :=
  if letter = 0x61 then some 0x07
  else if letter = 0x62 then some 0x08
  else if letter = 0x74 then some 0x09
  else if letter = 0x6E then some 0x0A
  else if letter = 0x76 then some 0x0B
  else if letter = 0x66 then some 0x0C
  else if letter = 0x72 then some 0x0D
  else if letter = 0x22 then some 0x22
  else if letter = 0x5C then some 0x5C
  else none

def octal (digit : Nat) : Prop := 0x30 ≤ digit ∧ digit ≤ 0x37

instance (digit : Nat) : Decidable (octal digit) := inferInstanceAs (Decidable (_ ∧ _))

/-- The bytes between the quotes, without their escapes. -/
def unquote : List Nat → Option (List Nat)
  | [] => some []
  | byte :: rest =>
    if byte = 0x22 then none
    else if byte ≠ 0x5C then (unquote rest).map (byte :: ·)
    else
      match rest with
      | [] => none
      | letter :: rest =>
        match unescape letter with
        | some unescaped => (unquote rest).map (unescaped :: ·)
        | none =>
          if 0x30 ≤ letter ∧ letter ≤ 0x33 then
            match rest with
            | second :: third :: rest =>
              if octal second ∧ octal third then
                (unquote rest).map
                  ((((letter - 0x30) * 8 + (second - 0x30)) * 8 + (third - 0x30)) :: ·)
              else none
            | _ => none
          else none

/-- The name a column is written for. -/
def columnName (column : String) : Option String :=
  match Text.stripPrefix "\"" column with
  | none => some column
  | some quoted =>
    (Text.stripSuffix "\"" quoted).bind fun raw =>
      (unquote (Text.utf8Bytes raw)).bind Text.fromUtf8

def changePath (column : String) : Except RolesError String :=
  match columnName column with
  | none => .error (.changePath column)
  | some path =>
    let plain := (pathComponents path).all fun part => part matches .normal _
    if path = "" ∨ plain = false then .error (.changePath column) else .ok path

end Source

section Git

def octalDigit (n : Nat) : Char := Char.ofNat (0x30 + n)

def octalEscape (byte : Nat) : List Char :=
  ['\\', octalDigit (byte / 64), octalDigit (byte / 8 % 8), octalDigit (byte % 8)]

/-- The characters git writes with a backslash and a letter. -/
def escapes : List (Char × Char) :=
  [('\x07', 'a'), ('\x08', 'b'), ('\t', 't'), ('\n', 'n'), ('\x0b', 'v'), ('\x0c', 'f'),
    ('\r', 'r'), ('"', '"'), ('\\', '\\')]

/-- How git writes a character of a name: a control character, a quote and a backslash escaped,
and with `core.quotePath` every byte that is not ASCII too. -/
def quoteChar (quotePath : Bool) (c : Char) : List Char :=
  match escapes.lookup c with
  | some letter => ['\\', letter]
  | none =>
    if c.toNat < 0x20 ∨ c.toNat = 0x7F then octalEscape c.toNat
    else if 0x80 ≤ c.toNat ∧ quotePath then
      ((String.utf8EncodeChar c).map UInt8.toNat).flatMap octalEscape
    else [c]

/-- A name as git lists it: in quotes where a character of it is escaped. -/
def quoted (quotePath : Bool) (name : String) : String :=
  if name.toList.all fun c => quoteChar quotePath c == [c] then name
  else "\"" ++ String.ofList (name.toList.flatMap (quoteChar quotePath)) ++ "\""

/-- Whether a path names something inside a checkout, as every path git tracks does. -/
structure Inside (path : String) : Prop where
  ne_empty : path ≠ ""
  relative : Text.startsWith '/' path = false
  head : (components path).head? ≠ some "."
  noParent : ".." ∉ components path

end Git

section Unquote

variable {quotePath : Bool} {c : Char} {byte : Nat} {rest : List Nat}

theorem unquote_cons (hquote : byte ≠ 0x22) (hslash : byte ≠ 0x5C) :
    unquote (byte :: rest) = (unquote rest).map (byte :: ·) := by
  rw [unquote.eq_def]
  dsimp only
  rw [if_neg hquote, if_pos hslash]

theorem unquote_letter {letter : Nat} (h : unescape letter = some byte) :
    unquote (0x5C :: letter :: rest) = (unquote rest).map (byte :: ·) := by
  rw [unquote.eq_def]
  dsimp only
  rw [if_neg (by decide), if_neg (by decide), h]

theorem toNat_octalDigit {n : Nat} (hn : n < 8) : (octalDigit n).toNat = 0x30 + n :=
  Text.toNat_ofNat (by omega)

theorem unquote_octal (hbyte : byte < 256) :
    unquote ((octalEscape byte).map Char.toNat ++ rest) = (unquote rest).map (byte :: ·) := by
  have hhigh := toNat_octalDigit (show byte / 64 < 8 by omega)
  have hmiddle := toNat_octalDigit (show byte / 8 % 8 < 8 by omega)
  have hlow := toNat_octalDigit (show byte % 8 < 8 by omega)
  have hnone : unescape (0x30 + byte / 64) = none := by
    unfold unescape
    repeat rw [if_neg (by omega)]
  have hvalue : ((0x30 + byte / 64 - 0x30) * 8 + (0x30 + byte / 8 % 8 - 0x30)) * 8 +
      (0x30 + byte % 8 - 0x30) = byte := by omega
  change unquote (0x5C :: (octalDigit (byte / 64)).toNat :: (octalDigit (byte / 8 % 8)).toNat ::
    (octalDigit (byte % 8)).toNat :: rest) = _
  rw [hhigh, hmiddle, hlow, unquote.eq_def]
  dsimp only
  rw [if_neg (by decide), if_neg (by decide), hnone]
  dsimp only
  rw [if_pos (by omega), if_pos ⟨⟨by omega, by omega⟩, by omega, by omega⟩, hvalue]

theorem unquote_append_high {bytes : List Nat} (h : ∀ b ∈ bytes, 0x80 ≤ b) :
    unquote (bytes ++ rest) = (unquote rest).map (bytes ++ ·) := by
  induction bytes with
  | nil => simp
  | cons b bytes ih =>
    rw [List.forall_mem_cons] at h
    rw [List.cons_append, unquote_cons (by omega) (by omega), ih h.2, Option.map_map]
    rfl

theorem unquote_flatMap_octal {bytes : List Nat} (h : ∀ b ∈ bytes, b < 256) :
    unquote ((bytes.flatMap octalEscape).map Char.toNat ++ rest) =
      (unquote rest).map (bytes ++ ·) := by
  induction bytes with
  | nil => simp
  | cons b bytes ih =>
    rw [List.forall_mem_cons] at h
    rw [List.flatMap_cons, List.map_append, List.append_assoc, unquote_octal h.1, ih h.2,
      Option.map_map]
    rfl

theorem toNat_of_mem_octalEscape (hbyte : byte < 256) (hc : c ∈ octalEscape byte) :
    0x20 ≤ c.toNat ∧ c.toNat < 0x80 := by
  have hhigh := toNat_octalDigit (show byte / 64 < 8 by omega)
  have hmiddle := toNat_octalDigit (show byte / 8 % 8 < 8 by omega)
  have hlow := toNat_octalDigit (show byte % 8 < 8 by omega)
  simp only [octalEscape, List.mem_cons, List.not_mem_nil, or_false] at hc
  rcases hc with rfl | rfl | rfl | rfl
  · decide
  all_goals omega

theorem utf8Bytes_octal {bytes : List Nat} (h : ∀ b ∈ bytes, b < 256) :
    Text.utf8Bytes (String.ofList (bytes.flatMap octalEscape)) =
      (bytes.flatMap octalEscape).map Char.toNat := by
  refine Text.utf8Bytes_ascii fun c hc => ?_
  obtain ⟨b, hb, hc⟩ := List.mem_flatMap.1 hc
  exact (toNat_of_mem_octalEscape (h b hb) hc).2

theorem unescape_of_mem_escapes : ∀ e ∈ escapes,
    unescape e.2.toNat = some e.1.toNat ∧ 0x20 ≤ e.2.toNat ∧ e.2.toNat < 0x80 ∧
      e.1.toNat < 0x80 := by
  decide

theorem unquote_escaped {letter : Char} (hmem : (c, letter) ∈ escapes) :
    unquote (Text.utf8Bytes (String.ofList ['\\', letter]) ++ rest) =
      (unquote rest).map ((String.utf8EncodeChar c).map UInt8.toNat ++ ·) := by
  obtain ⟨hunescape, -, hletter, hc⟩ := unescape_of_mem_escapes _ hmem
  have hascii : ∀ d ∈ ['\\', letter], d.toNat < 0x80 := by
    simp only [List.forall_mem_cons, List.not_mem_nil, false_implies, implies_true, and_true]
    exact ⟨by decide, hletter⟩
  rw [Text.utf8Bytes_ascii hascii, Text.utf8EncodeChar_ascii hc]
  exact unquote_letter hunescape

/-- What a character is written as is read back as its bytes. -/
theorem unquote_quoteChar : unquote (Text.utf8Bytes (String.ofList (quoteChar quotePath c)) ++ rest) =
    (unquote rest).map ((String.utf8EncodeChar c).map UInt8.toNat ++ ·) := by
  have hbytes : ∀ b ∈ (String.utf8EncodeChar c).map UInt8.toNat, b < 256 := by
    intro b hb
    obtain ⟨byte, -, rfl⟩ := List.mem_map.1 hb
    exact byte.toNat_lt
  unfold quoteChar
  rcases hletter : escapes.lookup c with _ | letter
  · dsimp only
    split_ifs with hcontrol hhigh
    · have hascii : c.toNat < 256 := by omega
      have hone := @utf8Bytes_octal [c.toNat] (by simpa using hascii)
      rw [List.flatMap_singleton] at hone
      rw [hone, unquote_octal hascii, Text.utf8EncodeChar_ascii (by omega)]
      rfl
    · rw [utf8Bytes_octal hbytes, unquote_flatMap_octal hbytes]
    · have hraw : Text.utf8Bytes (String.ofList [c]) =
          (String.utf8EncodeChar c).map UInt8.toNat := by
        simp [Text.utf8Bytes]
      rw [hraw]
      by_cases hlow : c.toNat < 0x80
      · rw [Text.utf8EncodeChar_ascii hlow]
        refine unquote_cons (fun h => ?_) fun h => ?_
        · obtain rfl : c = '"' := Char.toNat_inj.1 h
          exact absurd hletter (by decide)
        · obtain rfl : c = '\\' := Char.toNat_inj.1 h
          exact absurd hletter (by decide)
      · refine unquote_append_high fun b hb => ?_
        obtain ⟨byte, hbyte, rfl⟩ := List.mem_map.1 hb
        exact Text.le_of_mem_utf8EncodeChar (by omega) hbyte
  · exact unquote_escaped (Assoc.mem_of_lookup hletter)

theorem unquote_flatMap_quoteChar (cs : List Char) :
    unquote (Text.utf8Bytes (String.ofList (cs.flatMap (quoteChar quotePath)))) =
      some (Text.utf8Bytes (String.ofList cs)) := by
  induction cs with
  | nil => simp [Text.utf8Bytes, unquote]
  | cons c cs ih =>
    rw [List.flatMap_cons, String.ofList_append, Text.utf8Bytes_append, unquote_quoteChar, ih]
    simp [Text.utf8Bytes]

end Unquote

section ChangePath

variable {quotePath : Bool} {path column : String}

theorem all_normal_iff : ((pathComponents path).all fun part => part matches .normal _) = true ↔
    Text.startsWith '/' path = false ∧ (components path).head? ≠ some "." ∧
      ".." ∉ components path := by
  have hparts : (((components path).filter fun part => part ≠ "" ∧ part ≠ ".").map fun part =>
      if part = ".." then Component.parentDir else .normal part).all
        (fun part => part matches .normal _) = true ↔ ".." ∉ components path := by
    rw [List.all_map, List.all_eq_true]
    constructor
    · intro h hmem
      have := h ".." (List.mem_filter.2 ⟨hmem, by simp⟩)
      simp at this
    · intro h part hpart
      have hne : part ≠ ".." := by
        rintro rfl
        exact h (List.mem_filter.1 hpart).1
      simp [hne]
  unfold pathComponents
  rw [List.all_append, Bool.and_eq_true, hparts]
  by_cases hroot : Text.startsWith '/' path = true
  · simp [hroot]
  · by_cases hhead : (components path).head? = some "."
    · simp [hroot, hhead]
    · simp [hroot, hhead]

theorem inside_iff : Inside path ↔ ¬ (path = "" ∨
    ((pathComponents path).all fun part => part matches .normal _) = false) := by
  rw [not_or, Bool.not_eq_false, all_normal_iff]
  exact ⟨fun h => ⟨h.ne_empty, h.relative, h.head, h.noParent⟩,
    fun ⟨hne, hrelative, hhead, hparent⟩ => ⟨hne, hrelative, hhead, hparent⟩⟩

theorem changePath_of_name {name : String} (h : columnName column = some name)
    (hinside : Inside name) : changePath column = .ok name := by
  unfold changePath
  rw [h]
  exact if_neg (inside_iff.1 hinside)

/-- A path that leaves the checkout is refused. -/
theorem inside_of_changePath (h : changePath column = .ok path) : Inside path := by
  unfold changePath at h
  rcases hname : columnName column with _ | name
  · rw [hname] at h
    cases h
  · rw [hname] at h
    dsimp only at h
    split_ifs at h with hout
    obtain rfl := Except.ok.inj h
    exact inside_iff.2 hout

theorem columnName_quoted (name : String) : columnName (quoted quotePath name) = some name := by
  unfold quoted columnName
  split_ifs with hplain
  · rcases hquote : Text.stripPrefix "\"" name with _ | rest
    · rfl
    · have hmem : '"' ∈ name.toList := by
        rw [Text.stripPrefix_eq_some.1 hquote]
        simp
      have hescaped : quoteChar quotePath '"' ≠ ['"'] := by
        rw [quoteChar, show escapes.lookup '"' = some '"' from rfl]
        simp
      exact absurd (beq_iff_eq.1 (List.all_eq_true.1 hplain '"' hmem)) hescaped
  · have hopened : Text.stripPrefix "\"" ("\"" ++
        String.ofList (name.toList.flatMap (quoteChar quotePath)) ++ "\"") =
          some (String.ofList (name.toList.flatMap (quoteChar quotePath)) ++ "\"") :=
      Text.stripPrefix_eq_some.2 (by simp)
    have hclosed : Text.stripSuffix "\""
        (String.ofList (name.toList.flatMap (quoteChar quotePath)) ++ "\"") =
          some (String.ofList (name.toList.flatMap (quoteChar quotePath))) :=
      Text.stripSuffix_eq_some.2 (by simp)
    rw [hopened]
    dsimp only
    rw [hclosed, Option.bind_some, unquote_flatMap_quoteChar, Option.bind_some,
      String.ofList_toList]
    exact Text.fromUtf8_eq_some.2 rfl

/-- The path git lists for a file is read as that file. -/
theorem changePath_quoted (h : Inside path) : changePath (quoted quotePath path) = .ok path :=
  changePath_of_name (columnName_quoted path) h

/-- A quoted name has no control character, so it is a column of one line. -/
theorem toNat_of_mem_quoted {name : String} {c : Char} (hc : c ∈ (quoted quotePath name).toList) :
    0x20 ≤ c.toNat := by
  have hchar {d : Char} (hc : c ∈ quoteChar quotePath d) : 0x20 ≤ c.toNat := by
    unfold quoteChar at hc
    rcases hletter : escapes.lookup d with _ | letter
    · rw [hletter] at hc
      dsimp only at hc
      split_ifs at hc with hcontrol hhigh
      · exact (toNat_of_mem_octalEscape (by omega) hc).1
      · obtain ⟨b, hb, hc⟩ := List.mem_flatMap.1 hc
        obtain ⟨byte, -, rfl⟩ := List.mem_map.1 hb
        exact (toNat_of_mem_octalEscape byte.toNat_lt hc).1
      · obtain rfl := List.mem_singleton.1 hc
        omega
    · rw [hletter] at hc
      simp only [List.mem_cons, List.not_mem_nil, or_false] at hc
      rcases hc with rfl | rfl
      · decide
      · exact (unescape_of_mem_escapes _ (Assoc.mem_of_lookup hletter)).2.1
  unfold quoted at hc
  split_ifs at hc with hplain
  · have hwritten : quoteChar quotePath c = [c] := beq_iff_eq.1 (List.all_eq_true.1 hplain c hc)
    exact hchar (hwritten ▸ List.mem_singleton_self c)
  · simp only [String.toList_append, String.toList_ofList, List.mem_append] at hc
    rcases hc with (hc | hc) | hc
    · obtain rfl : c = '"' := by simpa using hc
      decide
    · obtain ⟨d, -, hc⟩ := List.mem_flatMap.1 hc
      exact hchar hc
    · obtain rfl : c = '"' := by simpa using hc
      decide

end ChangePath

end JoinedContext.Gate
