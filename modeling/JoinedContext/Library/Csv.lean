import Mathlib.Data.List.Forall2

/-!
# Delimited records

Records of fields as RFC 4180 has them, with any delimiter. A record ends with CRLF; a field with a
delimiter, a quote or a line break in it stands in quotes, where a quote is doubled. What is written
so reads back.
-/

namespace JoinedContext.Csv

abbrev Field := List Char

/-- Where in a record a reader is. -/
inductive Place where
  | start
  | plain
  | inside
  | closed
  | ended

/-- The records of a text, read from a place on with what of a field and of a record was read. -/
def read (d : Char) : Place → Field → List Field → List Char → Option (List (List Field))
  | .start, _, [], [] => some []
  | .start, field, record, [] => some [record ++ [field]]
  | .plain, field, record, [] => some [record ++ [field]]
  | .inside, _, _, [] => none
  | .closed, field, record, [] => some [record ++ [field]]
  | .ended, _, _, [] => none
  | .start, field, record, c :: rest =>
    if c = '"' then read d .inside field record rest
    else if c = d then read d .start [] (record ++ [field]) rest
    else if c = '\r' then read d .ended [] (record ++ [field]) rest
    else if c = '\n' then none
    else read d .plain (field ++ [c]) record rest
  | .plain, field, record, c :: rest =>
    if c = '"' then none
    else if c = d then read d .start [] (record ++ [field]) rest
    else if c = '\r' then read d .ended [] (record ++ [field]) rest
    else if c = '\n' then none
    else read d .plain (field ++ [c]) record rest
  | .inside, field, record, c :: rest =>
    if c = '"' then read d .closed field record rest
    else read d .inside (field ++ [c]) record rest
  | .closed, field, record, c :: rest =>
    if c = '"' then read d .inside (field ++ [c]) record rest
    else if c = d then read d .start [] (record ++ [field]) rest
    else if c = '\r' then read d .ended [] (record ++ [field]) rest
    else none
  | .ended, _, record, c :: rest =>
    if c = '\n' then (read d .start [] [] rest).map (record :: ·) else none

def readAll (d : Char) (text : List Char) : Option (List (List Field)) := read d .start [] [] text

/-- A field with its quotes doubled. -/
def escape (field : Field) : List Char :=
  field.flatMap fun c => if c = '"' then ['"', '"'] else [c]

/-- The characters a field out of quotes does not have. -/
def Special (d c : Char) : Prop := c = '"' ∨ c = d ∨ c = '\r' ∨ c = '\n'

/-- The texts a field is written as. -/
inductive Writes (d : Char) (field : Field) : List Char → Prop
  | plain : (∀ c ∈ field, ¬ Special d c) → Writes d field field
  | quoted : Writes d field ('"' :: escape field ++ ['"'])

/-- A record of written fields. -/
def line (d : Char) : List (List Char) → List Char
  | [] => ['\r', '\n']
  | [text] => text ++ ['\r', '\n']
  | text :: rest => text ++ d :: line d rest

/-- A record as it is read: one without fields is one empty field. -/
def asRead : List Field → List Field
  | [] => [[]]
  | record => record

variable {d : Char} {field : Field} {record : List Field} {rest : List Char}

attribute [local simp] read in
theorem read_plain : ∀ {more field : Field}, (∀ c ∈ more, ¬ Special d c) →
    read d .plain field record (more ++ rest) = read d .plain (field ++ more) record rest
  | [], field, _ => by simp
  | c :: more, field, h => by
    have hc := h c List.mem_cons_self
    simp only [Special, not_or] at hc
    rw [List.cons_append, read, if_neg hc.1, if_neg hc.2.1, if_neg hc.2.2.1, if_neg hc.2.2.2,
      read_plain fun b hb => h b (List.mem_cons_of_mem _ hb), List.append_assoc,
      List.singleton_append]

theorem read_escaped : ∀ {more field : Field},
    read d .inside field record (escape more ++ '"' :: rest) =
      read d .closed (field ++ more) record rest
  | [], field => by simp [escape, read]
  | c :: more, field => by
    have hrest := @read_escaped more (field ++ [c])
    unfold escape at hrest ⊢
    rw [List.flatMap_cons]
    by_cases hc : c = '"'
    · subst hc
      simpa [read] using hrest
    · simpa [read, hc] using hrest

/-- A field ends at a delimiter or at the end of the record. -/
theorem read_end {place : Place} {c : Char} (hc : c = d ∨ c = '\r') (hquote : d ≠ '"')
    (hplace : place = .start ∨ place = .plain ∨ place = .closed) :
    read d place field record (c :: rest) = if c = d then read d .start [] (record ++ [field]) rest
      else read d .ended [] (record ++ [field]) rest := by
  have hne : c ≠ '"' := by
    rcases hc with rfl | rfl
    · exact hquote
    · decide
  by_cases hd : c = d
  · rcases hplace with rfl | rfl | rfl <;> rw [read, if_neg hne, if_pos hd, if_pos hd]
  · have hcr := hc.resolve_left hd
    rcases hplace with rfl | rfl | rfl <;>
      rw [read, if_neg hne, if_neg hd, if_pos hcr, if_neg hd]

/-- A written field is read up to what follows it. -/
theorem read_writes {text : List Char} (h : Writes d field text) {c : Char}
    (hc : c = d ∨ c = '\r') (hquote : d ≠ '"') : read d .start [] record (text ++ c :: rest) =
      if c = d then read d .start [] (record ++ [field]) rest
      else read d .ended [] (record ++ [field]) rest := by
  cases h with
  | plain hplain =>
    cases field with
    | nil => rw [List.nil_append, read_end hc hquote (Or.inl rfl)]
    | cons b more =>
      have hb := hplain b List.mem_cons_self
      simp only [Special, not_or] at hb
      rw [List.cons_append, read, if_neg hb.1, if_neg hb.2.1, if_neg hb.2.2.1, if_neg hb.2.2.2,
        read_plain fun a ha => hplain a (List.mem_cons_of_mem _ ha),
        read_end hc hquote (Or.inr (Or.inl rfl))]
      rfl
  | quoted =>
    rw [List.cons_append, List.cons_append, List.append_assoc, List.singleton_append, read,
      if_pos rfl, read_escaped, read_end hc hquote (Or.inr (Or.inr rfl))]
    rfl

theorem read_line (hquote : d ≠ '"') (hreturn : d ≠ '\r') : ∀ {fields : List Field}
    {texts : List (List Char)} {record : List Field}, List.Forall₂ (Writes d) fields texts →
      fields ≠ [] → read d .start [] record (line d texts ++ rest) =
        (readAll d rest).map ((record ++ fields) :: ·)
  | _, _, record, .nil, hne => absurd rfl hne
  | [field], [text], record, .cons h .nil, _ => by
    have hcr : ('\r' : Char) ≠ d := Ne.symm hreturn
    rw [line, List.append_assoc, List.cons_append, List.cons_append, List.nil_append,
      read_writes h (Or.inr rfl) hquote, if_neg hcr, read, if_pos rfl]
    rfl
  | field :: f :: fields, text :: t :: texts, record, .cons h hrest, _ => by
    have htail : read d .start [] (record ++ [field]) (line d (t :: texts) ++ rest) =
        (readAll d rest).map ((record ++ [field] ++ f :: fields) :: ·) :=
      read_line hquote hreturn hrest (by simp)
    rw [line, List.append_assoc, List.cons_append, read_writes h (Or.inl rfl) hquote, if_pos rfl,
      htail, List.append_assoc, List.singleton_append]
    · nofun

/-- Records read back as they were written. -/
theorem readAll_lines (hquote : d ≠ '"') (hreturn : d ≠ '\r') : ∀ {records : List (List Field)}
    {lines : List (List (List Char))}, List.Forall₂ (List.Forall₂ (Writes d)) records lines →
      readAll d (lines.flatMap (line d)) = some (records.map asRead)
  | _, _, .nil => rfl
  | [] :: records, [] :: lines, .cons .nil hrest => by
    have hcr : ('\r' : Char) ≠ d := Ne.symm hreturn
    have hempty : line d [] = [] ++ '\r' :: ['\n'] := rfl
    rw [List.flatMap_cons, hempty, List.append_assoc, List.cons_append, readAll,
      read_writes (.plain (by simp)) (Or.inr rfl) hquote, if_neg hcr, List.singleton_append, read,
      if_pos rfl, ← readAll, readAll_lines hquote hreturn hrest]
    rfl
  | (field :: fields) :: records, texts :: lines, .cons h hrest => by
    rw [List.flatMap_cons, readAll, read_line hquote hreturn h (by simp),
      readAll_lines hquote hreturn hrest]
    rfl

end JoinedContext.Csv
