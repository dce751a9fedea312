import Mathlib.Data.List.DropRight
import Mathlib.Data.List.Infix
import Mathlib.Data.List.TakeDrop

/-!
# Strings read through their characters

The string operations a program splits and trims its texts with, each on the list of characters,
so that a fact about a text is a fact about a list.
-/

namespace JoinedContext.Text

/-- Unicode's `White_Space`. -/
def whitespace (c : Char) : Bool :=
  (9 ≤ c.toNat && c.toNat ≤ 13) || c.toNat == 0x20 || c.toNat == 0x85 || c.toNat == 0xA0 ||
    c.toNat == 0x1680 || (0x2000 ≤ c.toNat && c.toNat ≤ 0x200A) || c.toNat == 0x2028 ||
    c.toNat == 0x2029 || c.toNat == 0x202F || c.toNat == 0x205F || c.toNat == 0x3000

def trim (s : String) : String :=
  String.ofList ((s.toList.dropWhile whitespace).rdropWhile whitespace)

def splitAny (seps : List Char) (s : String) : List String :=
  (s.toList.splitOnP (· ∈ seps)).map String.ofList

def join (sep : String) : List String → String
  | [] => ""
  | [s] => s
  | s :: rest => s ++ sep ++ join sep rest

def splitOnce (c : Char) (s : String) : Option (String × String) :=
  match s.toList.span (· != c) with
  | (before, _ :: after) => some (String.ofList before, String.ofList after)
  | (_, []) => none

def rsplitOnce (c : Char) (s : String) : Option (String × String) :=
  match s.toList.reverse.span (· != c) with
  | (after, _ :: before) => some (String.ofList before.reverse, String.ofList after.reverse)
  | (_, []) => none

def stripPrefix (p s : String) : Option String :=
  (p.toList.isPrefixOf? s.toList).map String.ofList

def stripSuffix (p s : String) : Option String :=
  (p.toList.isSuffixOf? s.toList).map String.ofList

def startsWith (c : Char) (s : String) : Bool := s.toList.head? == some c

def endsWithAny (cs : List Char) (s : String) : Bool := s.toList.getLast?.any (· ∈ cs)

/-- Whether the text has the other somewhere in it. -/
def contains (part s : String) : Bool := decide (part.toList <:+: s.toList)

/-- The value of the last `name=value` member between the separators, trimmed. -/
def lastMember (seps : List Char) (name s : String) : Option String :=
  (((splitAny seps s).filterMap (splitOnce '=')).reverse.lookup name).map trim

def eqIgnoreAsciiCase (s t : String) : Bool :=
  s.toList.map Char.toLower == t.toList.map Char.toLower

/-- A character of more than one byte that has been begun: the continuation bytes it still needs,
the bounds of the next one, and the code point so far. -/
structure Pending where
  needed : Nat
  low : Nat
  high : Nat
  point : Nat

def replacement : Char := Char.ofNat 0xFFFD

def firstByte (b : Nat) : List Char × Option Pending :=
  if b < 0x80 then ([Char.ofNat b], none)
  else if 0xC2 ≤ b ∧ b ≤ 0xDF then ([], some ⟨1, 0x80, 0xBF, b - 0xC0⟩)
  else if 0xE0 ≤ b ∧ b ≤ 0xEF then
    ([], some ⟨2, if b = 0xE0 then 0xA0 else 0x80, if b = 0xED then 0x9F else 0xBF, b - 0xE0⟩)
  else if 0xF0 ≤ b ∧ b ≤ 0xF4 then
    ([], some ⟨3, if b = 0xF0 then 0x90 else 0x80, if b = 0xF4 then 0x8F else 0xBF, b - 0xF0⟩)
  else ([replacement], none)

/-- The characters of a byte sequence, each maximal part that is none of them replaced. -/
def utf8Lossy : Option Pending → List Nat → List Char
  | none, [] => []
  | some _, [] => [replacement]
  | none, b :: rest => (firstByte b).1 ++ utf8Lossy (firstByte b).2 rest
  | some p, b :: rest =>
    if p.low ≤ b ∧ b ≤ p.high then
      let point := p.point * 64 + (b - 0x80)
      if p.needed = 1 then Char.ofNat point :: utf8Lossy none rest
      else utf8Lossy (some ⟨p.needed - 1, 0x80, 0xBF, point⟩) rest
    else replacement :: ((firstByte b).1 ++ utf8Lossy (firstByte b).2 rest)

def utf8Bytes (s : String) : List Nat :=
  s.toList.flatMap fun c => (String.utf8EncodeChar c).map UInt8.toNat

def fromUtf8Lossy (bytes : List Nat) : String := String.ofList (utf8Lossy none bytes)

theorem join_cons_cons (sep s t : String) (rest : List String) :
    join sep (s :: t :: rest) = s ++ sep ++ join sep (t :: rest) := rfl

theorem mem_of_mem_join {sep : String} {c : Char} : ∀ {parts : List String},
    c ∈ (join sep parts).toList → c ∈ sep.toList ∨ ∃ s ∈ parts, c ∈ s.toList
  | [], h => by simp [join] at h
  | [s], h => .inr ⟨s, List.mem_singleton_self s, h⟩
  | s :: t :: rest, h => by
    rw [join_cons_cons, String.toList_append, String.toList_append, List.mem_append,
      List.mem_append] at h
    rcases h with (h | h) | h
    · exact .inr ⟨s, List.mem_cons_self, h⟩
    · exact .inl h
    · rcases mem_of_mem_join h with h | ⟨u, hu, h⟩
      · exact .inl h
      · exact .inr ⟨u, List.mem_cons_of_mem _ hu, h⟩

theorem stripPrefix_eq_some {p s r : String} :
    stripPrefix p s = some r ↔ s.toList = p.toList ++ r.toList := by
  unfold stripPrefix
  rw [Option.map_eq_some_iff]
  constructor
  · rintro ⟨l, hl, rfl⟩
    rw [List.isPrefixOf?_eq_some_iff_append_eq] at hl
    rw [String.toList_ofList, hl]
  · intro h
    exact ⟨r.toList, List.isPrefixOf?_eq_some_iff_append_eq.2 h.symm, String.ofList_toList⟩

theorem stripSuffix_eq_some {p s r : String} :
    stripSuffix p s = some r ↔ s.toList = r.toList ++ p.toList := by
  unfold stripSuffix
  rw [Option.map_eq_some_iff]
  constructor
  · rintro ⟨l, hl, rfl⟩
    rw [List.isSuffixOf?_eq_some_iff_append_eq] at hl
    rw [String.toList_ofList, hl]
  · intro h
    exact ⟨r.toList, List.isSuffixOf?_eq_some_iff_append_eq.2 h.symm, String.ofList_toList⟩

theorem startsWith_iff {c : Char} {s : String} :
    startsWith c s = true ↔ ∃ r, s.toList = c :: r := by
  unfold startsWith
  rcases s.toList with _ | ⟨d, l⟩ <;> simp

theorem splitOnce_append {c : Char} {before after : List Char} (h : c ∉ before) :
    splitOnce c (String.ofList (before ++ c :: after)) =
      some (String.ofList before, String.ofList after) := by
  have hspan : (before ++ c :: after).span (· != c) = (before, c :: after) := by
    rw [List.span_eq_takeWhile_dropWhile]
    have hall : ∀ d ∈ before, (d != c) = true := fun d hd => by
      simpa using fun heq : d = c => h (heq ▸ hd)
    rw [List.takeWhile_append_of_pos hall, List.dropWhile_append_of_pos hall]
    simp
  unfold splitOnce
  rw [String.toList_ofList, hspan]

theorem splitOnce_append_append {c : Char} {before : String} (h : c ∉ before.toList) (after : String) :
    splitOnce c (before ++ (String.ofList [c] ++ after)) = some (before, after) := by
  have hsplit := @splitOnce_append c before.toList after.toList h
  rw [String.ofList_toList, String.ofList_toList] at hsplit
  have htext : before ++ (String.ofList [c] ++ after) =
      String.ofList (before.toList ++ c :: after.toList) := String.toList_inj.1 (by simp)
  rw [htext, hsplit]

theorem splitOnce_eq_some {c : Char} {s before after : String} (h : splitOnce c s = some (before, after)) :
    s.toList = before.toList ++ c :: after.toList := by
  have hspan := List.span_eq_takeWhile_dropWhile (p := (· != c)) (l := s.toList)
  unfold splitOnce at h
  rw [hspan] at h
  cases hdrop : s.toList.dropWhile (· != c) with
  | nil =>
    rw [hdrop] at h
    cases h
  | cons d rest =>
    rw [hdrop] at h
    obtain ⟨rfl, rfl⟩ := Prod.mk.inj (Option.some.inj h)
    have hd : d = c := by
      have := List.head_dropWhile_not (p := (· != c)) (l := s.toList) (by rw [hdrop]; simp)
      simpa [hdrop] using this
    have happend := List.takeWhile_append_dropWhile (p := (· != c)) (l := s.toList)
    rw [hdrop, hd] at happend
    rw [String.toList_ofList, String.toList_ofList, happend]

theorem splitOnce_eq_none {c : Char} {s : String} (h : c ∉ s.toList) : splitOnce c s = none := by
  refine Option.eq_none_iff_forall_not_mem.2 fun ⟨before, after⟩ hparts => h ?_
  rw [splitOnce_eq_some hparts]
  simp

theorem splitAny_append {seps : List Char} {c : Char} (hc : c ∈ seps) (s t : String) :
    splitAny seps (s ++ String.ofList [c] ++ t) = splitAny seps s ++ splitAny seps t := by
  unfold splitAny
  rw [String.toList_append, String.toList_append, String.toList_ofList, List.append_assoc,
    List.singleton_append, List.splitOnP_append_cons _ _ (by simpa using hc), List.map_append]

theorem splitAny_eq_singleton {seps : List Char} {s : String} (h : ∀ c ∈ s.toList, c ∉ seps) :
    splitAny seps s = [s] := by
  unfold splitAny
  rw [List.splitOnP_eq_singleton fun c hc => decide_eq_false (h c hc), List.map_singleton,
    String.ofList_toList]

theorem splitAny_join_of_mem {seps : List Char} {c : Char} {parts : List String} (hc : c ∈ seps)
    (hne : parts ≠ []) (hplain : ∀ s ∈ parts, ∀ d ∈ s.toList, d ∉ seps) :
    splitAny seps (join (String.ofList [c]) parts) = parts := by
  induction parts with
  | nil => exact (hne rfl).elim
  | cons s rest ih =>
    have hs : splitAny seps s = [s] := splitAny_eq_singleton (hplain s List.mem_cons_self)
    cases rest with
    | nil => exact hs
    | cons t rest =>
      rw [join_cons_cons, splitAny_append hc, hs,
        ih (List.cons_ne_nil t rest) fun u hu => hplain u (List.mem_cons_of_mem _ hu)]
      rfl

theorem splitAny_join {c : Char} {parts : List String} (hne : parts ≠ [])
    (hplain : ∀ s ∈ parts, c ∉ s.toList) :
    splitAny [c] (join (String.ofList [c]) parts) = parts :=
  splitAny_join_of_mem (List.mem_singleton_self c) hne fun s hs _ hd heq =>
    hplain s hs (List.mem_singleton.1 heq ▸ hd)

/-- The parts of a text, joined again, are the text. -/
theorem join_splitAny (c : Char) (s : String) : join (String.ofList [c]) (splitAny [c] s) = s := by
  suffices h : ∀ l : List Char,
      (join (String.ofList [c]) ((l.splitOnP (· ∈ [c])).map String.ofList)).toList = l from
    String.toList_injective (h s.toList)
  intro l
  induction l with
  | nil => rfl
  | cons d l ih =>
    obtain ⟨first, rest, hsplit⟩ := List.exists_cons_of_ne_nil (List.splitOnP_ne_nil (· ∈ [c]) l)
    rw [List.splitOnP_cons_eq_if_modifyHead]
    rw [hsplit] at ih ⊢
    by_cases hd : d = c
    · rw [if_pos (by simpa using hd), List.map_cons, List.map_cons, join_cons_cons,
        String.toList_append, ← List.map_cons, ih, hd]
      simp
    · rw [if_neg (by simpa using hd), List.modifyHead_cons]
      cases rest with
      | nil => simpa [join] using ih
      | cons second rest =>
        simp only [List.map_cons, join_cons_cons, String.toList_append,
          String.toList_ofList] at ih ⊢
        rw [← ih]
        rfl

/-- The members of a text, written one after the other, are read back by their names. -/
theorem lastMember_join {seps : List Char} {c : Char} {members : List (String × String)} (hc : c ∈ seps)
    (hne : members ≠ []) (hname : ∀ m ∈ members, '=' ∉ m.1.toList)
    (hplain : ∀ m ∈ members, ∀ d ∈ (m.1 ++ "=" ++ m.2).toList, d ∉ seps) (name : String) :
    lastMember seps name (join (String.ofList [c]) (members.map fun m => m.1 ++ "=" ++ m.2)) =
      (members.reverse.lookup name).map trim := by
  have hread : (members.map fun m => m.1 ++ "=" ++ m.2).filterMap (splitOnce '=') = members := by
    rw [List.filterMap_map]
    refine (List.filterMap_congr fun m hm => ?_).trans List.filterMap_some
    have htext : m.1 ++ "=" ++ m.2 = String.ofList (m.1.toList ++ '=' :: m.2.toList) := by
      apply String.toList_injective
      simp
    rw [Function.comp_apply, htext, splitOnce_append (hname m hm), String.ofList_toList,
      String.ofList_toList]
  unfold lastMember
  rw [splitAny_join_of_mem hc (by simpa using hne) (List.forall_mem_map.2 hplain), hread]

theorem toNat_of_isAlphanum {c : Char} (h : c.isAlphanum = true) :
    0x20 < c.toNat ∧ c.toNat < 0x7F := by
  change (decide (c.val ≥ 'A'.val ∧ c.val ≤ 'Z'.val) || (decide (c.val ≥ 'a'.val) &&
    decide (c.val ≤ 'z'.val)) || (decide (c.val ≥ '0'.val) && decide (c.val ≤ '9'.val))) = true at h
  simp only [Bool.or_eq_true, Bool.and_eq_true, decide_eq_true_eq, ge_iff_le,
    UInt32.le_iff_toNat_le] at h
  have hval : c.toNat = c.val.toNat := rfl
  simp at h
  omega

theorem graphic_of_mem {c : Char} {l : List Char}
    (hl : l.all (fun c => 0x20 < c.toNat && c.toNat < 0x7F) = true) (hc : c ∈ l) :
    0x20 < c.toNat ∧ c.toNat < 0x7F := by
  simpa using List.all_eq_true.1 hl c hc

theorem whitespace_of_graphic {c : Char} (h : 0x20 < c.toNat ∧ c.toNat < 0x7F) :
    whitespace c = false := by
  simp only [whitespace, Bool.or_eq_false_iff, Bool.and_eq_false_iff, beq_eq_false_iff_ne,
    decide_eq_false_iff_not]
  omega

/-- What is trimmed has nothing more to trim. -/
theorem trim_trim (s : String) : trim (trim s) = trim s := by
  unfold trim
  rw [String.toList_ofList]
  congr 1
  generalize hl : s.toList.dropWhile whitespace = l
  have hhead : ∀ c, l.head? = some c → whitespace c = false := by
    intro c hc
    have hnot := List.head?_dropWhile_not whitespace s.toList
    rwa [hl, hc] at hnot
  have hdrop : (l.rdropWhile whitespace).dropWhile whitespace = l.rdropWhile whitespace := by
    obtain ⟨rest, hrest⟩ := List.rdropWhile_prefix whitespace l
    cases hr : l.rdropWhile whitespace with
    | nil => rfl
    | cons c cs =>
      rw [hr] at hrest
      exact List.dropWhile_cons_of_neg (by simp [hhead c (by rw [← hrest]; rfl)])
  rw [hdrop, List.rdropWhile_idempotent]

theorem trim_eq_self {s : String} (h : ∀ c ∈ s.toList, whitespace c = false) : trim s = s := by
  unfold trim
  rw [List.dropWhile_eq_self_iff.2 fun hlen => by simpa using h _ (List.getElem_mem hlen),
    List.rdropWhile_eq_self_iff.2 fun hne => by simpa using h _ (List.getLast_mem hne),
    String.ofList_toList]

theorem notSep_of_mem_splitOnP {p : Char → Bool} (l : List Char) :
    ∀ part ∈ l.splitOnP p, ∀ c ∈ part, p c = false := by
  induction l with
  | nil => simp
  | cons x l ih =>
    rw [List.splitOnP_cons_eq_if_modifyHead]
    cases hx : p x with
    | true => simpa using ih
    | false =>
      obtain ⟨first, rest, hsplit⟩ := List.exists_cons_of_ne_nil (List.splitOnP_ne_nil p l)
      rw [hsplit] at ih ⊢
      rw [if_neg Bool.false_ne_true, List.modifyHead_cons, List.forall_mem_cons]
      rw [List.forall_mem_cons] at ih
      exact ⟨List.forall_mem_cons.2 ⟨hx, ih.1⟩, ih.2⟩

/-- No part of a split text holds a separator. -/
theorem notMem_of_mem_splitAny {seps : List Char} {s part : String} {c : Char}
    (hpart : part ∈ splitAny seps s) (hc : c ∈ part.toList) : c ∉ seps := by
  obtain ⟨l, hl, rfl⟩ := List.mem_map.1 hpart
  rw [String.toList_ofList] at hc
  simpa using notSep_of_mem_splitOnP _ l hl c hc

theorem splitAny_ne_nil (seps : List Char) (s : String) : splitAny seps s ≠ [] := by
  unfold splitAny
  simp

theorem head?_splitOnP (p : Char → Bool) (l : List Char) :
    (l.splitOnP p).head? = some (l.takeWhile fun c => !p c) := by
  induction l with
  | nil => rfl
  | cons c l ih =>
    rw [List.splitOnP_cons_eq_if_modifyHead]
    cases hc : p c with
    | true => simp [hc]
    | false =>
      obtain ⟨first, rest, hsplit⟩ := List.exists_cons_of_ne_nil (List.splitOnP_ne_nil p l)
      rw [hsplit, List.head?_cons] at ih
      rw [hsplit, if_neg Bool.false_ne_true, List.modifyHead_cons, List.head?_cons,
        Option.some.inj ih, List.takeWhile_cons_of_pos (by simp [hc])]

/-- The first part of a split text is what comes before any separator. -/
theorem head?_splitAny (seps : List Char) (s : String) :
    (splitAny seps s).head? = some (String.ofList (s.toList.takeWhile fun c => c ∉ seps)) := by
  unfold splitAny
  rw [List.head?_map, head?_splitOnP, Option.map_some]
  simp

theorem getLast?_splitOnP (p : Char → Bool) (l : List Char) :
    (l.splitOnP p).getLast? = some (l.rtakeWhile fun c => !p c) := by
  have happend : l.rdropWhile (fun c => !p c) ++ l.rtakeWhile (fun c => !p c) = l :=
    List.rdropWhile_append_rtakeWhile
  have hlast : (l.rtakeWhile fun c => !p c).splitOnP p = [l.rtakeWhile fun c => !p c] :=
    List.splitOnP_eq_singleton fun c hc => by simpa using List.mem_rtakeWhile_imp hc
  rcases List.eq_nil_or_concat' (l.rdropWhile fun c => !p c) with hnil | ⟨before, c, hbefore⟩
  · rw [hnil, List.nil_append] at happend
    conv_lhs => rw [← happend, hlast]
    rfl
  · have hc : p c = true := by
      have := List.rdropWhile_last_not (fun c => !p c) l (by rw [hbefore]; simp)
      simpa [hbefore] using this
    conv_lhs => rw [← happend, hbefore, List.append_assoc, List.singleton_append,
      List.splitOnP_append_cons _ _ hc, hlast]
    simp

/-- The last part of a split text is what comes after any separator. -/
theorem getLast?_splitAny (seps : List Char) (s : String) :
    (splitAny seps s).getLast? = some (String.ofList (s.toList.rtakeWhile fun c => c ∉ seps)) := by
  unfold splitAny
  rw [List.getLast?_map, getLast?_splitOnP, Option.map_some]
  simp

theorem splitOnP_append_stop {p : Char → Bool} {before after : List Char} {c : Char}
    (hbefore : ∀ d ∈ before, p d = false) (hc : p c = true) :
    (before ++ c :: after).splitOnP p = before :: after.splitOnP p := by
  rw [List.splitOnP_append_cons _ _ hc, List.splitOnP_eq_singleton hbefore, List.singleton_append]

theorem delimited_of_mem_splitOnP {p : Char → Bool} {d : List Char} (l : List Char)
    (h : d ∈ l.splitOnP p) :
    ∃ a b, l = a ++ d ++ b ∧ a.getLast?.all p = true ∧ b.head?.all p = true := by
  have happend := List.takeWhile_append_dropWhile (p := fun c => !p c) (l := l)
  have hfirst : ∀ c ∈ l.takeWhile fun c => !p c, p c = false := fun c hc => by
    simpa using List.mem_takeWhile_imp hc
  cases hdrop : l.dropWhile fun c => !p c with
  | nil =>
    rw [hdrop, List.append_nil] at happend
    rw [happend] at hfirst
    rw [List.splitOnP_eq_singleton hfirst, List.mem_singleton] at h
    exact ⟨[], [], by simp [h], rfl, rfl⟩
  | cons c rest =>
    have hc : p c = true := by
      have := List.head_dropWhile_not (p := fun c => !p c) (l := l) (by rw [hdrop]; simp)
      simpa [hdrop] using this
    rw [hdrop] at happend
    generalize l.takeWhile (fun c => !p c) = before at happend hfirst
    have hlen : rest.length < l.length := by
      rw [← happend, List.length_append, List.length_cons]
      omega
    rw [← happend, splitOnP_append_stop hfirst hc, List.mem_cons] at h
    rcases h with rfl | h
    · exact ⟨[], c :: rest, happend.symm, rfl, by simpa using hc⟩
    · obtain ⟨a, b, hrest, ha, hb⟩ := delimited_of_mem_splitOnP rest h
      refine ⟨before ++ c :: a, b, ?_, ?_, hb⟩
      · rw [← happend, hrest]
        simp
      · rcases List.eq_nil_or_concat' a with rfl | ⟨a', x, rfl⟩
        · simpa using hc
        · rwa [← List.cons_append, ← List.append_assoc, List.getLast?_concat] at *
termination_by l.length

/-- The parts of a split text are its stretches without a separator between two of them. -/
theorem mem_splitOnP_iff {p : Char → Bool} {d l : List Char} :
    d ∈ l.splitOnP p ↔ (∀ c ∈ d, p c = false) ∧
      ∃ a b, l = a ++ d ++ b ∧ a.getLast?.all p = true ∧ b.head?.all p = true := by
  constructor
  · exact fun h => ⟨notSep_of_mem_splitOnP l d h, delimited_of_mem_splitOnP l h⟩
  · rintro ⟨hd, a, b, rfl, ha, hb⟩
    have hright : d ∈ (d ++ b).splitOnP p := by
      rcases b with _ | ⟨c, b⟩
      · rw [List.append_nil, List.splitOnP_eq_singleton hd]
        exact List.mem_singleton_self d
      · rw [splitOnP_append_stop hd (by simpa using hb)]
        exact List.mem_cons_self
    rcases List.eq_nil_or_concat' a with rfl | ⟨a', c, rfl⟩
    · exact hright
    · rw [List.append_assoc, List.append_assoc, List.singleton_append,
        List.splitOnP_append_cons _ _ (by simpa using ha)]
      exact List.mem_append_right _ hright

section Ends

variable {p : Char → Bool} {c : Char} {l l' : List Char}

theorem takeWhile_append_stop (hc : p c = false) :
    (l ++ c :: l').takeWhile p = l.takeWhile p := by
  induction l with
  | nil => exact List.takeWhile_cons_of_neg (by simp [hc])
  | cons d l ih =>
    rw [List.cons_append, List.takeWhile_cons, List.takeWhile_cons, ih]

theorem rtakeWhile_append_stop (hc : p c = false) :
    (l ++ c :: l').rtakeWhile p = l'.rtakeWhile p := by
  unfold List.rtakeWhile
  rw [List.reverse_append, List.reverse_cons, List.append_assoc, List.singleton_append,
    takeWhile_append_stop hc]

theorem rtakeWhile_append_of_pos (h : ∀ c ∈ l', p c = true) :
    (l ++ l').rtakeWhile p = l.rtakeWhile p ++ l' := by
  unfold List.rtakeWhile
  rw [List.reverse_append, List.takeWhile_append_of_pos (by simpa using h), List.reverse_append,
    List.reverse_reverse]

end Ends

theorem mem_of_mem_splitOnP {p : Char → Bool} (l : List Char) :
    ∀ part ∈ l.splitOnP p, ∀ c ∈ part, c ∈ l := by
  induction l with
  | nil => simp
  | cons x l ih =>
    rw [List.splitOnP_cons_eq_if_modifyHead]
    cases hx : p x with
    | true =>
      rw [if_pos rfl, List.forall_mem_cons]
      exact ⟨List.forall_mem_nil _, fun part hpart c hc =>
        List.mem_cons_of_mem _ (ih part hpart c hc)⟩
    | false =>
      obtain ⟨first, rest, hsplit⟩ := List.exists_cons_of_ne_nil (List.splitOnP_ne_nil p l)
      rw [hsplit, List.forall_mem_cons] at ih
      rw [hsplit, if_neg Bool.false_ne_true, List.modifyHead_cons, List.forall_mem_cons,
        List.forall_mem_cons]
      exact ⟨⟨List.mem_cons_self, fun c hc => List.mem_cons_of_mem _ (ih.1 c hc)⟩,
        fun part hpart c hc => List.mem_cons_of_mem _ (ih.2 part hpart c hc)⟩

theorem mem_of_mem_splitAny {seps : List Char} {s part : String} {c : Char}
    (hpart : part ∈ splitAny seps s) (hc : c ∈ part.toList) : c ∈ s.toList := by
  obtain ⟨l, hl, rfl⟩ := List.mem_map.1 hpart
  rw [String.toList_ofList] at hc
  exact mem_of_mem_splitOnP _ l hl c hc

theorem mem_splitOnP_of_mem {p : Char → Bool} {c : Char} (hp : p c = false) :
    ∀ {l : List Char}, c ∈ l → ∃ part ∈ l.splitOnP p, c ∈ part
  | [], hc => by cases hc
  | x :: l, hc => by
    rw [List.splitOnP_cons_eq_if_modifyHead]
    obtain ⟨first, rest, hsplit⟩ := List.exists_cons_of_ne_nil (List.splitOnP_ne_nil p l)
    rcases List.mem_cons.1 hc with rfl | hl
    · rw [hp, if_neg Bool.false_ne_true, hsplit, List.modifyHead_cons]
      exact ⟨c :: first, List.mem_cons_self, List.mem_cons_self⟩
    · obtain ⟨part, hpart, hmem⟩ := mem_splitOnP_of_mem hp hl
      split_ifs
      · exact ⟨part, List.mem_cons_of_mem _ hpart, hmem⟩
      · rw [hsplit] at hpart ⊢
        rw [List.modifyHead_cons]
        rcases List.mem_cons.1 hpart with rfl | hpart
        · exact ⟨x :: part, List.mem_cons_self, List.mem_cons_of_mem _ hmem⟩
        · exact ⟨part, List.mem_cons_of_mem _ hpart, hmem⟩

/-- A character that does not separate stands in a part of the split text. -/
theorem mem_splitAny_of_mem {seps : List Char} {s : String} {c : Char} (hc : c ∈ s.toList)
    (hseps : c ∉ seps) : ∃ part ∈ splitAny seps s, c ∈ part.toList := by
  have hstop : decide (c ∈ seps) = false := decide_eq_false hseps
  obtain ⟨part, hpart, hmem⟩ := mem_splitOnP_of_mem (p := fun c => decide (c ∈ seps)) hstop hc
  exact ⟨String.ofList part, List.mem_map_of_mem hpart, by rwa [String.toList_ofList]⟩

/-- A first part begins with a character only where the whole text does. -/
theorem startsWith_of_head? {seps : List Char} {s part : String} {c : Char}
    (hpart : (splitAny seps s).head? = some part) (hs : startsWith c s = false) :
    startsWith c part = false := by
  rw [head?_splitAny, Option.some.injEq] at hpart
  unfold startsWith at hs ⊢
  rw [← hpart, String.toList_ofList]
  cases hcs : s.toList with
  | nil => rfl
  | cons d ds =>
    rw [hcs] at hs
    rw [List.takeWhile_cons]
    split_ifs
    · exact hs
    · rfl

end JoinedContext.Text
