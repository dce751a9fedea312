import JoinedContext.Library.Text
import Mathlib.Data.String.Basic

/-!
# The documents of a YAML file

How the loader splits a file into documents, and which files of a repository it reads. What a
document parses to is left to the YAML library.
-/

namespace JoinedContext.Jcctl

def stripReturn (line : List Char) : List Char :=
  if line.getLast? = some '\r' then line.dropLast else line

/-- The lines of a text; a carriage return is part of a line ending, not of the last line. -/
def lines (text : String) : List String :=
  let segments := text.toList.splitOnP (· == '\n')
  (segments.dropLast.map fun segment => String.ofList (stripReturn segment)) ++
    match segments.getLast? with
    | some (c :: rest) => [String.ofList (c :: rest)]
    | _ => []

def trimEnd (s : String) : String := String.ofList (s.toList.rdropWhile Text.whitespace)

/-- Whether a document carries nothing but blanks, comments and `...`. -/
def isEmptyDoc (text : String) : Bool :=
  (lines text).all fun line =>
    Text.trim line == "" || Text.startsWith '#' (Text.trim line) || Text.trim line == "..."

/-- A line that starts a document: `---` at column 0. -/
def isDocSeparator (line : String) : Bool :=
  trimEnd line == "---" ||
    (Text.stripPrefix "---" (trimEnd line)).any fun r =>
      Text.startsWith ' ' r || Text.startsWith '\t' r

structure DocChunk where
  documentIndex : Nat
  startLine : Nat
  content : String

def chunkOf (chunks : List DocChunk) (startLine : Nat) (current : List String) : DocChunk :=
  ⟨chunks.length + 1, startLine, Text.join "\n" current⟩

/-- The loop over the lines, with the documents closed so far and the lines of the open one. -/
def splitDocuments : List String → Nat → Nat → List DocChunk → List String → List DocChunk
  | [], _, startLine, chunks, current =>
    if current = [] then chunks else chunks ++ [chunkOf chunks startLine current]
  | line :: rest, i, startLine, chunks, current =>
    if isDocSeparator line then
      -- a leading separator opens the first document rather than closing an empty one
      let closed := if chunks = [] ∧ current.all isEmptyDoc then chunks
        else chunks ++ [chunkOf chunks startLine current]
      splitDocuments rest (i + 1) (i + 1) closed []
    else splitDocuments rest (i + 1) startLine chunks (current ++ [line])

def parseYamlDocuments (text : String) : List DocChunk := splitDocuments (lines text) 0 1 [] []

/-- The documents of a text that say something. -/
def documentsOf (text : String) : List String :=
  ((parseYamlDocuments text).map (·.content)).filter fun content => !isEmptyDoc content

def SETTINGS_FILE : String := "platform-settings.yaml"

def ENCRYPTED_SUFFIXES : List String := [".enc.yaml", ".enc.yml"]

def endsWith (suffix s : String) : Bool := (Text.stripSuffix suffix s).isSome

def isEncryptedFile (fileName : String) : Bool := ENCRYPTED_SUFFIXES.any (endsWith · fileName)

def isNativeYaml (fileName : String) : Bool :=
  endsWith ".linkml.yaml" fileName || fileName == "bento.yaml" || fileName == SETTINGS_FILE ||
    isEncryptedFile fileName

/-- The components of a relative path. -/
def components (path : String) : List String := Text.splitAny ['/'] path

def fileName (path : String) : String := (components path).getLast?.getD ""

/-- Whether the loader reads the file at a path for manifests: no directory of it is hidden, and it
is YAML that is not native to something else. -/
def loaderReads (path : String) : Bool :=
  (components path).dropLast.all (fun part => !Text.startsWith '.' part) &&
    (endsWith ".yaml" (fileName path) || endsWith ".yml" (fileName path)) &&
    !isNativeYaml (fileName path)

/-- An ending with no slash is one of the path just when it is one of the file's name. -/
theorem endsWith_fileName {ending path : String} (hending : '/' ∉ ending.toList) :
    endsWith ending (fileName path) = endsWith ending path := by
  have hname : fileName path = String.ofList (path.toList.rtakeWhile fun c => c ∉ ['/']) := by
    rw [fileName, components, Text.getLast?_splitAny, Option.getD_some]
  have happend (l : List Char) : (l ++ ending.toList).rtakeWhile (fun c => c ∉ ['/']) =
      l.rtakeWhile (fun c => c ∉ ['/']) ++ ending.toList := by
    have hall : ∀ c ∈ ending.toList.reverse, decide (c ∉ ['/']) = true := by
      intro c hc
      rw [decide_eq_true_eq, List.mem_singleton]
      rintro rfl
      exact hending (List.mem_reverse.1 hc)
    rw [List.rtakeWhile, List.reverse_append, List.takeWhile_append_of_pos hall,
      List.reverse_append, List.reverse_reverse, List.rtakeWhile]
  rw [Bool.eq_iff_iff, endsWith, endsWith, Option.isSome_iff_exists, Option.isSome_iff_exists]
  simp only [Text.stripSuffix_eq_some, hname, String.toList_ofList]
  constructor
  · rintro ⟨r, hr⟩
    obtain ⟨before, hbefore⟩ : (path.toList.rtakeWhile fun c => c ∉ ['/']) <:+ path.toList :=
      List.rtakeWhile_suffix _ _
    refine ⟨String.ofList (before ++ r.toList), ?_⟩
    rw [String.toList_ofList, List.append_assoc, ← hr, hbefore]
  · rintro ⟨r, hr⟩
    refine ⟨String.ofList (r.toList.rtakeWhile fun c => c ∉ ['/']), ?_⟩
    rw [String.toList_ofList, hr, happend]

theorem splitOnP_of_not_mem {l : List Char} (h : '\n' ∉ l) : l.splitOnP (· == '\n') = [l] :=
  List.splitOnP_eq_singleton fun c hc => by
    rw [beq_eq_false_iff_ne]
    exact fun heq => h (heq ▸ hc)

theorem stripReturn_of_ne {l : List Char} (h : l.getLast? ≠ some '\r') : stripReturn l = l :=
  if_neg h

/-- A line ending closes a line. -/
theorem lines_append {line rest : String} (hline : '\n' ∉ line.toList)
    (hreturn : line.toList.getLast? ≠ some '\r') :
    lines (line ++ "\n" ++ rest) = line :: lines rest := by
  have hsplit : (line ++ "\n" ++ rest).toList.splitOnP (· == '\n') =
      line.toList :: rest.toList.splitOnP (· == '\n') := by
    rw [String.toList_append, String.toList_append, List.append_assoc,
      show ("\n" : String).toList = ['\n'] by simp, List.singleton_append,
      List.splitOnP_append_cons _ _ (by simp), splitOnP_of_not_mem hline]
    rfl
  obtain ⟨segment, segments, hrest⟩ : ∃ s ss, rest.toList.splitOnP (· == '\n') = s :: ss :=
    List.exists_cons_of_ne_nil (List.splitOnP_ne_nil _ _)
  unfold lines
  rw [hsplit, hrest]
  simp [stripReturn_of_ne hreturn]

theorem lines_single {line : String} (hline : '\n' ∉ line.toList) (hne : line ≠ "") :
    lines line = [line] := by
  unfold lines
  rw [splitOnP_of_not_mem hline]
  rcases hl : line.toList with _ | ⟨c, rest⟩
  · exact absurd (String.toList_eq_nil_iff.1 hl) hne
  · show [] ++ [String.ofList (c :: rest)] = [line]
    rw [← hl, String.ofList_toList]
    rfl

/-- Trimming keeps a first character that is no blank. -/
theorem head_rdropWhile {p : Char → Bool} {c : Char} {l : List Char} (hc : p c = false) :
    ((c :: l).rdropWhile p).head? = some c := by
  rcases hr : (c :: l).rdropWhile p with _ | ⟨d, r⟩
  · have hall := List.rdropWhile_eq_nil_iff.1 hr c List.mem_cons_self
    simp [hc] at hall
  · have hbegins := List.rdropWhile_prefix p (l := c :: l)
    rw [hr, List.cons_prefix_cons] at hbegins
    simp [hbegins.1]

theorem head_trimEnd {line : String} {c : Char} {l : List Char} (h : line.toList = c :: l)
    (hc : Text.whitespace c = false) : (trimEnd line).toList.head? = some c := by
  unfold trimEnd
  rw [String.toList_ofList, h]
  exact head_rdropWhile hc

theorem head_trim {line : String} {c : Char} {l : List Char} (h : line.toList = c :: l)
    (hc : Text.whitespace c = false) : (Text.trim line).toList.head? = some c := by
  unfold Text.trim
  rw [String.toList_ofList, h, List.dropWhile_cons_of_neg (by simp [hc])]
  exact head_rdropWhile hc

theorem not_docSeparator {line : String} {c : Char} {l : List Char} (h : line.toList = c :: l)
    (hc : Text.whitespace c = false) (hdash : c ≠ '-') : isDocSeparator line = false := by
  have hhead := head_trimEnd h hc
  unfold isDocSeparator
  rw [Bool.or_eq_false_iff]
  constructor
  · rw [beq_eq_false_iff_ne]
    intro heq
    rw [heq] at hhead
    exact hdash (by simpa using hhead.symm)
  · rw [Option.any_eq_false]
    intro r hr
    rw [Text.stripPrefix_eq_some.1 hr] at hhead
    exact absurd (by simpa using hhead.symm) hdash

/-- A line that begins with more than blanks and is no comment or `...` says something. -/
theorem not_emptyDoc {text line : String} {c : Char} {l : List Char} (hmem : line ∈ lines text)
    (h : line.toList = c :: l) (hc : Text.whitespace c = false) (hhash : c ≠ '#') (hdot : c ≠ '.') :
    isEmptyDoc text = false := by
  have hhead := head_trim h hc
  unfold isEmptyDoc
  rw [List.all_eq_false]
  refine ⟨line, hmem, ?_⟩
  rw [Bool.not_eq_true, Bool.or_eq_false_iff, Bool.or_eq_false_iff]
  refine ⟨⟨?_, ?_⟩, ?_⟩
  · rw [beq_eq_false_iff_ne]
    intro heq
    rw [heq] at hhead
    simp at hhead
  · unfold Text.startsWith
    rw [hhead]
    simpa using hhash
  · rw [beq_eq_false_iff_ne]
    intro heq
    rw [heq] at hhead
    exact hdot (by simpa using hhead.symm)

/-- A document written on one line, that begins like a mapping does. -/
def OneLine (text : String) : Prop :=
  '\n' ∉ text.toList ∧ '\r' ∉ text.toList ∧ ∃ c l, text.toList = c :: l ∧
    Text.whitespace c = false ∧ c ≠ '-' ∧ c ≠ '#' ∧ c ≠ '.'

theorem OneLine.ne_empty {text : String} (h : OneLine text) : text ≠ "" := by
  obtain ⟨-, -, c, l, hl, -⟩ := h
  rintro rfl
  simp at hl

theorem OneLine.lines_append {text rest : String} (h : OneLine text) :
    lines (text ++ "\n" ++ rest) = text :: lines rest :=
  Jcctl.lines_append h.1 fun hlast => h.2.1 (List.mem_of_getLast? hlast)

theorem OneLine.not_docSeparator {text : String} (h : OneLine text) :
    isDocSeparator text = false := by
  obtain ⟨-, -, c, l, hl, hc, hdash, -⟩ := h
  exact Jcctl.not_docSeparator hl hc hdash

theorem OneLine.not_emptyDoc {text : String} (h : OneLine text) : isEmptyDoc text = false := by
  obtain ⟨hline, -, c, l, hl, hc, -, hhash, hdot⟩ := id h
  refine Jcctl.not_emptyDoc ?_ hl hc hhash hdot
  rw [lines_single hline h.ne_empty]
  exact List.mem_singleton_self text

theorem oneLine_mapping {s : String} (hline : '\n' ∉ s.toList) (hreturn : '\r' ∉ s.toList) :
    OneLine ("\x7b" ++ s) := by
  refine ⟨?_, ?_, '{', s.toList, by simp, by decide, by decide, by decide, by decide⟩
  · simpa using hline
  · simpa using hreturn

theorem isDocSeparator_dashes : isDocSeparator "---" = true := by decide

theorem documentsOf_single {a : String} (ha : OneLine a) : documentsOf a = [a] := by
  unfold documentsOf parseYamlDocuments
  rw [lines_single ha.1 ha.ne_empty]
  simp [splitDocuments, ha.not_docSeparator, chunkOf, Text.join, ha.not_emptyDoc]

/-- Two documents with a separator line between them. -/
theorem documentsOf_pair {a b : String} (ha : OneLine a) (hb : OneLine b) :
    documentsOf (a ++ "\n" ++ ("---" ++ "\n" ++ b)) = [a, b] := by
  unfold documentsOf parseYamlDocuments
  rw [ha.lines_append, lines_append (by simp) (by simp), lines_single hb.1 hb.ne_empty]
  simp [splitDocuments, ha.not_docSeparator, hb.not_docSeparator, isDocSeparator_dashes, chunkOf,
    Text.join, ha.not_emptyDoc, hb.not_emptyDoc]

end JoinedContext.Jcctl
