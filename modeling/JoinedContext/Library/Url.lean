import JoinedContext.Library.Text
import Mathlib.Tactic.SplitIfs

/-!
# What follows the authority of a URL

The path, query and fragment of an `http` URL as the WHATWG parser reads them: tabs and line breaks
are dropped wherever they stand, controls and spaces at the end, the fragment begins at the first `#`
and the query at the first `?` before it, a backslash separates segments as a slash does, and dot
segments are walked. A segment is kept as its characters, before they are percent-encoded.
-/

namespace JoinedContext

abbrev Segment := List Char

structure Url where
  path : List Segment
  query : Option (List Char)
  fragment : Option (List Char)
deriving DecidableEq

namespace Url

/-- A tab or a line break. -/
def dropped (c : Char) : Bool := c ∈ ['\t', '\n', '\r']

/-- A C0 control or the space. -/
def trimmed (c : Char) : Bool := c.toNat ≤ 0x20

def prepare (text : List Char) : List Char := (text.rdropWhile trimmed).filter fun c => !dropped c

/-- What comes before the first such character, and what after it if there is one. -/
def cut (c : Char) (text : List Char) : List Char × Option (List Char) :=
  (text.takeWhile (· != c), (text.dropWhile (· != c)).tail?)

def isSingleDot (s : Segment) : Bool := s ∈ [['.'], ['%', '2', 'e'], ['%', '2', 'E']]

def isDoubleDot (s : Segment) : Bool :=
  s ∈ [['.', '.'], ['.', '%', '2', 'e'], ['.', '%', '2', 'E'], ['%', '2', 'e', '.'],
    ['%', '2', 'E', '.'], ['%', '2', 'e', '%', '2', 'e'], ['%', '2', 'e', '%', '2', 'E'],
    ['%', '2', 'E', '%', '2', 'e'], ['%', '2', 'E', '%', '2', 'E']]

def isDot (s : Segment) : Bool := isSingleDot s || isDoubleDot s

/-- The path of the segments read after those walked already. A dot segment leaves none, and an
empty one where it is the last. -/
def walk : List Segment → List Segment → List Segment
  | walked, [] => walked
  | walked, s :: rest =>
    let held := if isDoubleDot s then walked.dropLast else walked
    walk (if !isDot s then held ++ [s] else if rest.isEmpty then held ++ [[]] else held) rest

def separates (c : Char) : Bool := c ∈ ['/', '\\']

/-- The segments of a path, its first separator apart. -/
def segments (text : List Char) : List Segment :=
  walk [] ((match text with
    | c :: rest => if separates c then rest else c :: rest
    | [] => []).splitOnP separates)

def parse (text : List Char) : Url :=
  let (text, fragment) := cut '#' (prepare text)
  let (path, query) := cut '?' text
  ⟨segments path, query, fragment⟩

/-- Segments as they are written, each after a slash. -/
def write (path : List Segment) : List Char := path.flatMap fun s => '/' :: s

def hexDigit (n : Nat) : Char := Char.ofNat (if n < 10 then 48 + n else 55 + n)

/-- The characters a path is written without. -/
def pathSet (c : Char) : Bool :=
  c.toNat ≤ 0x20 || 0x7F ≤ c.toNat || c ∈ ['"', '#', '<', '>', '?', '^', '`', '{', '}']

/-- A segment as it is written, each byte of a character a path is written without as `%` and two
digits. -/
def percentEncode (s : Segment) : List Char :=
  s.flatMap fun c => if pathSet c then (String.utf8EncodeChar c).flatMap fun b =>
    ['%', hexDigit (b.toNat / 16), hexDigit (b.toNat % 16)] else [c]

/-- The path of a URL as its text has it. -/
def pathText (url : Url) : List Char := write (url.path.map percentEncode)

def hexValue (b : Nat) : Option Nat :=
  if 48 ≤ b ∧ b ≤ 57 then some (b - 48)
  else if 65 ≤ b ∧ b ≤ 70 then some (b - 55)
  else if 97 ≤ b ∧ b ≤ 102 then some (b - 87)
  else none

def percentDecode : List Nat → List Nat
  | [] => []
  | b :: rest =>
    match rest with
    | high :: low :: rest' =>
      if b = 37 ∧ (hexValue high).isSome ∧ (hexValue low).isSome then
        ((hexValue high).getD 0 * 16 + (hexValue low).getD 0) :: percentDecode rest'
      else b :: percentDecode (high :: low :: rest')
    | rest => b :: percentDecode rest

def decodeForm (text : List Char) : String :=
  Text.fromUtf8Lossy (percentDecode (Text.utf8Bytes
    (String.ofList (text.map fun c => if c = '+' then ' ' else c))))

/-- The pairs of a query, as a form is read. -/
def queryPairs (query : List Char) : List (String × String) :=
  ((query.splitOnP (· == '&')).filter fun part => !part.isEmpty).map fun part =>
    let (key, value) := cut '=' part
    (decodeForm key, decodeForm (value.getD []))

/-! ## Texts that are read as they are written -/

/-- A character with a meaning to the parser. -/
def special (c : Char) : Bool := separates c || dropped c || c ∈ ['?', '#']

/-- A segment with no character that means anything to the parser and no dot segment. -/
def Plain (s : Segment) : Prop := (∀ c ∈ s, special c = false) ∧ isDot s = false

/-- A segment is plain by a test of its characters. -/
theorem plain_of_all {s : Segment} (h : (s.all fun c => !special c) = true) (hdot : isDot s = false) :
    Plain s :=
  ⟨fun c hc => by simpa using List.all_eq_true.1 h c hc, hdot⟩

theorem not_separates_of_special {c : Char} (h : special c = false) : separates c = false := by
  simp only [special, Bool.or_eq_false_iff] at h
  exact h.1.1

theorem isDot_eq_false {s : Segment} (hpercent : '%' ∉ s) (hone : s ≠ ['.'])
    (htwo : s ≠ ['.', '.']) : isDot s = false := by
  have hencoded : ∀ t : Segment, '%' ∈ t → s ≠ t := fun t ht heq => hpercent (heq ▸ ht)
  simp [isDot, isSingleDot, isDoubleDot, hone, htwo, hencoded]

theorem cut_append {c : Char} {before after : List Char} (h : c ∉ before) :
    cut c (before ++ c :: after) = (before, some after) := by
  have hall : ∀ d ∈ before, (d != c) = true := fun d hd => bne_iff_ne.2 fun heq => h (heq ▸ hd)
  unfold cut
  rw [List.takeWhile_append_of_pos hall, List.dropWhile_append_of_pos hall]
  simp

theorem cut_of_notMem {c : Char} {text : List Char} (h : c ∉ text) : cut c text = (text, none) := by
  have hall : ∀ d ∈ text, (d != c) = true := fun d hd => bne_iff_ne.2 fun heq => h (heq ▸ hd)
  unfold cut
  rw [List.takeWhile_eq_self_iff.2 hall, List.dropWhile_eq_nil_iff.2 hall]
  rfl

theorem notMem_cut_fst {c : Char} {text : List Char} : c ∉ (cut c text).1 := fun h => by
  have := List.mem_takeWhile_imp h
  simp at this

theorem mem_of_mem_cut {c d : Char} {text : List Char} (h : d ∈ (cut c text).1) : d ∈ text :=
  (List.takeWhile_sublist _).subset h

theorem walk_plain {path : List Segment} (h : ∀ s ∈ path, isDot s = false) (walked : List Segment) :
    walk walked path = walked ++ path := by
  induction path generalizing walked with
  | nil => simp [walk]
  | cons s rest ih =>
    have hs := h s List.mem_cons_self
    have hdouble : isDoubleDot s = false := (Bool.or_eq_false_iff.1 hs).2
    rw [walk, hs, hdouble]
    simp [ih fun t ht => h t (List.mem_cons_of_mem _ ht)]

theorem mem_walk {path walked : List Segment} {s : Segment} (h : s ∈ walk walked path) :
    s ∈ walked ∨ s ∈ path ∨ s = [] := by
  induction path generalizing walked with
  | nil => exact Or.inl h
  | cons t rest ih =>
    rw [walk] at h
    have hheld : ∀ r, r ∈ (if isDoubleDot t then walked.dropLast else walked) → r ∈ walked := by
      intro r hr
      split_ifs at hr
      · exact List.mem_of_mem_dropLast hr
      · exact hr
    rcases ih h with h | h | h
    · split_ifs at h with hdot hempty <;> grind
    · exact Or.inr (Or.inl (List.mem_cons_of_mem _ h))
    · exact Or.inr (Or.inr h)

theorem mem_segments {text : List Char} {s : Segment} {c : Char} (hs : s ∈ segments text)
    (hc : c ∈ s) : c ∈ text ∧ separates c = false := by
  rcases mem_walk hs with h | h | rfl
  · cases h
  · refine ⟨?_, Text.notSep_of_mem_splitOnP _ s h c hc⟩
    have := Text.mem_of_mem_splitOnP _ s h c hc
    cases text with
    | nil => exact this
    | cons d text =>
      simp only [] at this
      split_ifs at this
      · exact List.mem_cons_of_mem _ this
      · exact this
  · cases hc

theorem mem_of_mem_prepare {text : List Char} {c : Char} (h : c ∈ prepare text) :
    c ∈ text ∧ dropped c = false := by
  obtain ⟨hmem, hc⟩ := List.mem_filter.1 h
  exact ⟨(List.rdropWhile_prefix _ _).subset hmem, by simpa using hc⟩

/-- No character the parser reads as its own stands in a segment of what it has read. -/
theorem not_special_of_mem_parse {text : List Char} {s : Segment} {c : Char}
    (hs : s ∈ (parse text).path) (hc : c ∈ s) : special c = false := by
  obtain ⟨hpath, hsep⟩ := mem_segments hs hc
  have hquery : c ≠ '?' := fun heq => notMem_cut_fst (heq ▸ hpath)
  have htext := mem_of_mem_cut hpath
  have hfragment : c ≠ '#' := fun heq => notMem_cut_fst (heq ▸ htext)
  have hdropped := (mem_of_mem_prepare (mem_of_mem_cut htext)).2
  simp [special, hsep, hdropped, hquery, hfragment]

/-! ## A path written out -/

theorem write_append (p q : List Segment) : write (p ++ q) = write p ++ write q :=
  List.flatMap_append

theorem length_write_walk (path walked : List Segment) :
    (write (walk walked path)).length ≤ (write walked).length + (write path).length := by
  induction path generalizing walked with
  | nil => simp [walk, write]
  | cons s rest ih =>
    have hdrop : (write walked.dropLast).length ≤ (write walked).length := by
      obtain ⟨last, hlast⟩ := List.dropLast_prefix walked
      have := congrArg (fun path => (write path).length) hlast
      simp only [write_append, List.length_append] at this
      omega
    have hcons : (write (s :: rest)).length = s.length + 1 + (write rest).length := by
      rw [write, List.flatMap_cons, List.length_append, List.length_cons]
      rfl
    have hadd : ∀ (held : List Segment) (t : Segment),
        (write (held ++ [t])).length = (write held).length + (t.length + 1) := by
      simp [write]
    rw [walk, hcons]
    refine (ih _).trans ?_
    have := hadd (if isDoubleDot s then walked.dropLast else walked) s
    have := hadd (if isDoubleDot s then walked.dropLast else walked) []
    rw [List.length_nil] at this
    split_ifs at * <;> omega

theorem length_write_splitOnP (p : Char → Bool) (l : List Char) :
    (write (l.splitOnP p)).length = l.length + 1 := by
  induction l with
  | nil => simp [write]
  | cons c l ih =>
    rw [List.splitOnP_cons_eq_if_modifyHead]
    obtain ⟨first, rest, hsplit⟩ := List.exists_cons_of_ne_nil (List.splitOnP_ne_nil p l)
    rw [hsplit] at ih ⊢
    split_ifs
    · simp only [write, List.flatMap_cons, List.length_append, List.length_cons,
        List.length_nil] at ih ⊢
      omega
    · simp only [write, List.modifyHead_cons, List.flatMap_cons, List.length_append,
        List.length_cons] at ih ⊢
      omega

/-- A path that begins with a slash is the segments between its separators. -/
theorem write_splitOnP (l : List Char) : write (l.splitOnP (· == '/')) = '/' :: l := by
  induction l with
  | nil => rfl
  | cons c l ih =>
    rw [List.splitOnP_cons_eq_if_modifyHead]
    obtain ⟨first, rest, hsplit⟩ := List.exists_cons_of_ne_nil (List.splitOnP_ne_nil (· == '/') l)
    rw [hsplit] at ih ⊢
    split_ifs with hc
    · rw [beq_iff_eq.1 hc, ← ih]
      rfl
    · simp only [write, List.modifyHead_cons, List.flatMap_cons, List.cons_append,
        List.cons.injEq, true_and] at ih ⊢
      rw [ih]

theorem mem_splitOnP_of_mem {l : List Char} {c : Char} (h : c ∈ l) (hc : c ≠ '/') :
    ∃ s ∈ l.splitOnP (· == '/'), c ∈ s :=
  Text.mem_splitOnP_of_mem (p := (· == '/')) (beq_eq_false_iff_ne.2 hc) h

theorem splitOnP_write {path : List Segment} {s : Segment}
    (h : ∀ t ∈ s :: path, ∀ c ∈ t, separates c = false) :
    (s ++ write path).splitOnP separates = s :: path := by
  induction path generalizing s with
  | nil =>
    rw [write, List.flatMap_nil, List.append_nil]
    exact List.splitOnP_eq_singleton (h s List.mem_cons_self)
  | cons t rest ih =>
    have hs := h s List.mem_cons_self
    have hwrite : write (t :: rest) = '/' :: (t ++ write rest) := rfl
    rw [hwrite, List.splitOnP_append_cons _ _ rfl, List.splitOnP_eq_singleton hs,
      ih fun u hu => h u (List.mem_cons_of_mem _ hu)]
    rfl

theorem segments_write {path : List Segment} (hne : path ≠ []) (h : ∀ s ∈ path, Plain s) :
    segments (write path) = path := by
  obtain ⟨s, rest, rfl⟩ := List.exists_cons_of_ne_nil hne
  have hwrite : write (s :: rest) = '/' :: (s ++ write rest) := rfl
  have hsplit : (s ++ write rest).splitOnP separates = s :: rest := splitOnP_write
    fun t ht c hc => not_separates_of_special ((h t ht).1 c hc)
  unfold segments
  rw [hwrite]
  simp only []
  rw [if_pos (by decide), hsplit, walk_plain fun t ht => (h t ht).2]
  rfl

theorem mem_write {path : List Segment} {c : Char} (h : c ∈ write path) :
    c = '/' ∨ ∃ s ∈ path, c ∈ s := by
  obtain ⟨s, hs, hc⟩ := List.mem_flatMap.1 h
  exact (List.mem_cons.1 hc).imp_right fun hc => ⟨s, hs, hc⟩

theorem not_special_of_mem_write {path : List Segment} (h : ∀ s ∈ path, Plain s) {c : Char}
    (hc : c ∈ write path) : c ∉ ['?', '#'] ∧ dropped c = false := by
  rcases mem_write hc with rfl | ⟨s, hs, hc⟩
  · decide
  · have := (h s hs).1 c hc
    simp only [special, Bool.or_eq_false_iff, decide_eq_false_iff_not] at this
    exact ⟨this.2, this.1.2⟩

/-- The characters of a query a request line can carry. -/
def PlainQuery (q : List Char) : Prop := ∀ c ∈ q, c ≠ '#' ∧ trimmed c = false

def writeQuery (q : Option (List Char)) : List Char := q.elim [] ('?' :: ·)

theorem dropped_of_not_trimmed {c : Char} (h : trimmed c = false) : dropped c = false := by
  unfold dropped
  rw [decide_eq_false_iff_not]
  intro hmem
  simp only [List.mem_cons, List.not_mem_nil, or_false] at hmem
  rcases hmem with rfl | rfl | rfl <;> exact absurd h (by decide)

theorem prepare_eq_self {text : List Char} (hdropped : ∀ c ∈ text, dropped c = false)
    (hend : ∀ c, text.getLast? = some c → trimmed c = false) : prepare text = text := by
  have hlast : text.rdropWhile trimmed = text := by
    rw [List.rdropWhile_eq_self_iff]
    exact fun hne => by simpa using hend _ (List.getLast?_eq_some_getLast hne)
  unfold prepare
  rw [hlast, List.filter_eq_self]
  exact fun c hc => by simp [hdropped c hc]

/-- A plain path and query are read as they are written, but for a path that ends the text with
what is trimmed. -/
theorem parse_write {path : List Segment} {query : Option (List Char)} (hne : path ≠ [])
    (hplain : ∀ s ∈ path, Plain s) (hquery : ∀ q ∈ query, PlainQuery q)
    (hend : query = none → ∀ c, (write path).getLast? = some c → trimmed c = false) :
    parse (write path ++ writeQuery query) = ⟨path, query, none⟩ := by
  have hpath := fun c => not_special_of_mem_write hplain (c := c)
  have hquestion : '?' ∉ write path := fun h => (hpath _ h).1 (by decide)
  have hhash : '#' ∉ write path := fun h => (hpath _ h).1 (by decide)
  unfold parse
  cases query with
  | none =>
    rw [show writeQuery none = [] from rfl, List.append_nil,
      prepare_eq_self (fun c hc => (hpath c hc).2) (hend rfl), cut_of_notMem hhash]
    simp only []
    rw [cut_of_notMem hquestion, segments_write hne hplain]
  | some q =>
    have hq := hquery q rfl
    have hprepare : prepare (write path ++ '?' :: q) = write path ++ '?' :: q := by
      refine prepare_eq_self (fun c hc => ?_) fun c hc => ?_
      · rcases List.mem_append.1 hc with hc | hc
        · exact (hpath c hc).2
        · rcases List.mem_cons.1 hc with rfl | hc
          · decide
          · exact dropped_of_not_trimmed (hq c hc).2
      · rw [List.getLast?_append_cons] at hc
        have hmem := List.mem_of_getLast? hc
        rcases List.mem_cons.1 hmem with rfl | hmem
        · decide
        · exact (hq c hmem).2
    have hnohash : '#' ∉ write path ++ '?' :: q := fun h => by
      rcases List.mem_append.1 h with h | h
      · exact hhash h
      · rcases List.mem_cons.1 h with h | h
        · cases h
        · exact (hq _ h).1 rfl
    rw [show writeQuery (some q) = '?' :: q from rfl, hprepare, cut_of_notMem hnohash]
    simp only []
    rw [cut_append hquestion, segments_write hne hplain]

theorem length_write_segments (l : List Char) :
    (write (segments ('/' :: l))).length ≤ l.length + 1 := by
  have hsplit : segments ('/' :: l) = walk [] (l.splitOnP separates) := by
    unfold segments
    simp only []
    rw [if_pos (by decide)]
  have := length_write_walk (l.splitOnP separates) []
  rw [length_write_splitOnP] at this
  rw [hsplit]
  simpa [write] using this

/-- A path whose last character is trimmed is not read as it is written. -/
theorem parse_path_ne {path : List Segment} {c : Char} (hlast : (write path).getLast? = some c)
    (hc : trimmed c = true) : (parse (write path)).path ≠ path := by
  obtain ⟨w, hw⟩ : ∃ w, write path = '/' :: w := by
    cases path with
    | nil => cases hlast
    | cons s rest => exact ⟨s ++ write rest, rfl⟩
  rw [hw] at hlast
  obtain ⟨l, hl, hlen⟩ : ∃ l, (write path).rdropWhile trimmed = '/' :: l ∧
      l.length < w.length := by
    have hprefix := List.rdropWhile_prefix trimmed (write path)
    rw [hw] at hprefix ⊢
    cases hdrop : ('/' :: w).rdropWhile trimmed with
    | nil =>
      have := List.rdropWhile_eq_nil_iff.1 hdrop '/' List.mem_cons_self
      exact absurd this (by decide)
    | cons d l =>
      rw [hdrop, List.cons_prefix_cons] at hprefix
      obtain ⟨rfl, t, rfl⟩ := hprefix
      refine ⟨l, rfl, ?_⟩
      have ht : t ≠ [] := by
        rintro rfl
        rw [List.append_nil] at hdrop hlast
        have hself := List.rdropWhile_eq_self_iff.1 hdrop (List.cons_ne_nil _ _)
        rw [List.getLast?_eq_some_getLast (List.cons_ne_nil _ _), Option.some.injEq] at hlast
        exact hself (hlast ▸ hc)
      have := List.length_pos_iff.2 ht
      rw [List.length_append]
      omega
  have hparse : (parse (write path)).path = segments ('/' ::
      ((l.filter fun c => !dropped c).takeWhile (· != '#')).takeWhile (· != '?')) := by
    unfold parse prepare
    rw [hl, List.filter_cons_of_pos (by decide)]
    simp [cut]
  intro heq
  have hshort := length_write_segments
    (((l.filter fun c => !dropped c).takeWhile (· != '#')).takeWhile (· != '?'))
  rw [← hparse, heq, hw, List.length_cons] at hshort
  have hfilter := List.length_filter_le (fun c => !dropped c) l
  have hhash := (List.takeWhile_prefix (l := l.filter fun c => !dropped c) (· != '#')).length_le
  have hquestion := (List.takeWhile_prefix
    (l := (l.filter fun c => !dropped c).takeWhile (· != '#')) (· != '?')).length_le
  omega

/-! ## Paths as they are written -/

theorem hexDigit_ne_slash : ∀ n < 16, hexDigit n ≠ '/' := by decide

theorem notMem_percentEncode {s : Segment} (h : '/' ∉ s) : '/' ∉ percentEncode s := by
  intro hmem
  obtain ⟨c, hc, hmem⟩ := List.mem_flatMap.1 hmem
  split_ifs at hmem with hset
  · obtain ⟨b, -, hmem⟩ := List.mem_flatMap.1 hmem
    have hb : b.toNat < 256 := b.toNat_lt
    simp only [List.mem_cons, List.not_mem_nil, or_false] at hmem
    rcases hmem with h | h | h
    · exact absurd h (by decide)
    · exact hexDigit_ne_slash _ (by omega) h.symm
    · exact hexDigit_ne_slash _ (by omega) h.symm
  · exact h (List.mem_singleton.1 hmem ▸ hc)

theorem percentEncode_eq_self : ∀ {s : Segment}, (∀ c ∈ s, pathSet c = false) → percentEncode s = s
  | [], _ => rfl
  | c :: s, h => by
    have hs := percentEncode_eq_self fun d hd => h d (List.mem_cons_of_mem _ hd)
    unfold percentEncode at hs ⊢
    rw [List.flatMap_cons, hs, h c List.mem_cons_self]
    rfl

/-- What is written without a `%` was written as it is. -/
theorem eq_of_percentEncode {s t : Segment} (h : percentEncode s = t) (ht : '%' ∉ t) : s = t := by
  subst h
  refine (percentEncode_eq_self fun c hc => ?_).symm
  by_contra hset
  rw [Bool.not_eq_false] at hset
  refine ht (List.mem_flatMap.2 ⟨c, hc, ?_⟩)
  obtain ⟨b, rest, hb⟩ := List.exists_cons_of_ne_nil (String.utf8EncodeChar_ne_nil (c := c))
  rw [if_pos hset, hb]
  exact List.mem_cons_self

theorem eq_of_append_prefix {s t x y : List Char} (hs : '/' ∉ s) (ht : '/' ∉ t)
    (hy : ∀ c, y.head? = some c → c = '/') (h : s ++ '/' :: x <+: t ++ y) :
    s = t ∧ '/' :: x <+: y := by
  induction s generalizing t with
  | nil =>
    cases t with
    | nil => exact ⟨rfl, h⟩
    | cons d t =>
      rw [List.nil_append, List.cons_append, List.cons_prefix_cons] at h
      exact (ht (h.1 ▸ List.mem_cons_self)).elim
  | cons c s ih =>
    cases t with
    | nil =>
      rw [List.nil_append, List.cons_append] at h
      cases y with
      | nil => simp at h
      | cons d y =>
        rw [List.cons_prefix_cons] at h
        exact (hs (h.1.trans (hy d rfl) ▸ List.mem_cons_self)).elim
    | cons d t =>
      rw [List.cons_append, List.cons_append, List.cons_prefix_cons] at h
      obtain ⟨rfl, hx⟩ := ih (fun hc => hs (List.mem_cons_of_mem _ hc))
        (fun hc => ht (List.mem_cons_of_mem _ hc)) h.2
      exact ⟨by rw [h.1], hx⟩

/-- A path written with a slash at its end begins a written path where its segments do. -/
theorem prefix_of_write_prefix {p q : List Segment} (hp : ∀ s ∈ p, '/' ∉ s) (hq : ∀ s ∈ q, '/' ∉ s)
    (h : write (p ++ [[]]) <+: write q) : p <+: q ∧ p.length < q.length := by
  induction p generalizing q with
  | nil =>
    cases q with
    | nil => simp [write] at h
    | cons t q => exact ⟨List.nil_prefix, Nat.succ_pos _⟩
  | cons s p ih =>
    cases q with
    | nil => simp [write] at h
    | cons t q =>
      obtain ⟨x, hx⟩ : ∃ x, write (p ++ [[]]) = '/' :: x := by
        cases p with
        | nil => exact ⟨[], rfl⟩
        | cons u p => exact ⟨u ++ write (p ++ [[]]), rfl⟩
      have hs : write (s :: p ++ [[]]) = '/' :: (s ++ '/' :: x) := by
        rw [← hx]
        rfl
      have ht : write (t :: q) = '/' :: (t ++ write q) := rfl
      rw [hs, ht, List.cons_prefix_cons] at h
      have hhead : ∀ c, (write q).head? = some c → c = '/' := fun c hc => by
        cases q with
        | nil => cases hc
        | cons u q => exact (Option.some.inj hc).symm
      obtain ⟨rfl, hrest⟩ := eq_of_append_prefix (hp s List.mem_cons_self)
        (hq t List.mem_cons_self) hhead h.2
      obtain ⟨hpre, hlen⟩ := ih (fun u hu => hp u (List.mem_cons_of_mem _ hu))
        (fun u hu => hq u (List.mem_cons_of_mem _ hu)) (hx ▸ hrest)
      exact ⟨List.cons_prefix_cons.2 ⟨rfl, hpre⟩, Nat.succ_lt_succ hlen⟩

/-- Where the text of a URL's path begins as a path without a `%` is written, so do its segments. -/
theorem prefix_of_pathText {p : List Segment} {url : Url}
    (hp : ∀ s ∈ p, '/' ∉ s ∧ '%' ∉ s) (hurl : ∀ s ∈ url.path, '/' ∉ s)
    (h : write (p ++ [[]]) <+: url.pathText) : p <+: url.path ∧ p.length < url.path.length := by
  have hencoded : ∀ s ∈ url.path.map percentEncode, '/' ∉ s := fun s hs => by
    obtain ⟨t, ht, rfl⟩ := List.mem_map.1 hs
    exact notMem_percentEncode (hurl t ht)
  obtain ⟨hpre, hlen⟩ := prefix_of_write_prefix (fun s hs => (hp s hs).1) hencoded h
  rw [List.length_map] at hlen
  refine ⟨?_, hlen⟩
  obtain ⟨t, ht⟩ := hpre
  obtain ⟨q, r, hsplit, hq, -⟩ := List.map_eq_append_iff.1 ht.symm
  have hself : q.map percentEncode = q.map id := List.map_congr_left fun s hs =>
    (eq_of_percentEncode rfl (hp _ (hq ▸ List.mem_map_of_mem hs)).2).symm
  rw [List.map_id] at hself
  exact ⟨r, by rw [hsplit, ← hq, hself]⟩

end Url

end JoinedContext
