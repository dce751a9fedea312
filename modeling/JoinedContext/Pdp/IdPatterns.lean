import JoinedContext.Library.Outcome
import JoinedContext.Library.Ways
import JoinedContext.Pdp.Selectors

/-!
# What an id pattern matches

A selector's pattern is checked by its text, which must begin with `^` and end with `$`, and
matched as a regex. A pattern that is one escaped id is compared with the id instead, and finds what
its regex finds. Any other pattern finds whole ids exactly where each of its ways is closed at both
ends, which its first and last characters alone do not say.
-/

namespace JoinedContext.IdMatch

open Ways

inductive WordEdge where
  | boundary
  | notBoundary
  | start
  | stop
  | startHalf
  | stopHalf
deriving DecidableEq

/-- The assertions of the `regex` crate: the ends of the text, of a line under `(?m)` and of a line
under `(?mR)`, and the edges of a word of Unicode or of ASCII. -/
inductive Assertion where
  | textStart
  | textEnd
  | lineStart
  | lineEnd
  | crlfStart
  | crlfEnd
  | word (unicode : Bool) (edge : WordEdge)
deriving DecidableEq

def isAsciiWord (c : Char) : Bool := c.isAlphanum || c == '_'

def WordEdge.holds : WordEdge → Bool → Bool → Bool
  | .boundary, prev, next => prev != next
  | .notBoundary, prev, next => prev == next
  | .start, prev, next => !prev && next
  | .stop, prev, next => prev && !next
  | .startHalf, prev, _ => !prev
  | .stopHalf, _, next => !next

/-- Whether an assertion holds between two characters, of which either may be missing. -/
def Assertion.holds (isWord : Char → Bool) : Assertion → Option Char → Option Char → Bool
  | .textStart, prev, _ => prev.isNone
  | .textEnd, _, next => next.isNone
  | .lineStart, prev, _ => prev.isNone || prev == some '\n'
  | .lineEnd, _, next => next.isNone || next == some '\n'
  | .crlfStart, prev, next => prev.isNone || prev == some '\n' ||
      (prev == some '\r' && next != some '\n')
  | .crlfEnd, prev, next => next.isNone || next == some '\r' ||
      (next == some '\n' && prev != some '\r')
  | .word true edge, prev, next => edge.holds (prev.any isWord) (next.any isWord)
  | .word false edge, prev, next => edge.holds (prev.any isAsciiWord) (next.any isAsciiWord)

abbrev Way := List (Atom Char Assertion)

/-- The ways of a pattern of literal characters, escaped punctuation, `^`, `$` and `|`; none where
it holds anything else of the syntax. -/
def alternatives : List Char → Option (List Way)
  | [] => some [[]]
  | '|' :: rest => (alternatives rest).map ([] :: ·)
  | '\\' :: c :: rest => if isMetaCharacter c then push (literal c) (alternatives rest) else none
  | '^' :: rest => push (.look .textStart) (alternatives rest)
  | '$' :: rest => push (.look .textEnd) (alternatives rest)
  | c :: rest => if isMetaCharacter c then none else push (literal c) (alternatives rest)
where
  push (atom : Atom Char Assertion) : Option (List Way) → Option (List Way)
    | some (way :: ways) => some ((atom :: way) :: ways)
    | _ => none

/-- The `regex` crate as it documents itself: a pattern that compiles has a meaning, `is_match` is
whether that is found anywhere in the text, and literals, escapes, `^`, `$` and `|` mean what they
say. No line break is a character of a word. -/
structure Regexes (crates : Crates) where
  isWord : Char → Bool
  parse : String → Option (Pattern Char Assertion)
  newline : isWord '\n' = false
  carriageReturn : isWord '\r' = false
  parse_alternatives : ∀ pattern ways, alternatives pattern.toList = some ways →
    parse pattern = some (ofWays ways)
  regex : ∀ pattern isMatch, crates.regex pattern = some isMatch →
    ∃ r, parse pattern = some r ∧
      ∀ id, isMatch id = true ↔ Finds (Assertion.holds isWord) r id.toList

section Exact

variable {pattern literal : String}

/-- The fast path answers for the escaped literals between anchors and for nothing else. -/
theorem eq_of_exact (h : exact pattern = some literal) :
    pattern = "^" ++ regexEscape literal ++ "$" := by
  unfold exact at h
  simp only [Option.bind_eq_bind, Option.bind_eq_some_iff] at h
  obtain ⟨rest, hprefix, inner, hsuffix, cs, -, hif⟩ := h
  split at hif
  · rename_i hescape
    cases hif
    apply String.toList_injective
    rw [Text.stripPrefix_eq_some.1 hprefix, Text.stripSuffix_eq_some.1 hsuffix, ← hescape]
    simp
  · cases hif

/-- The one way through an escaped literal takes its characters. -/
theorem alternatives_escape : ∀ cs : List Char,
    alternatives ((cs.flatMap fun c => if isMetaCharacter c then ['\\', c] else [c]) ++ ['$']) =
      some [cs.map Ways.literal ++ [.look .textEnd]]
  | [] => rfl
  | c :: cs => by
    rw [List.flatMap_cons, List.append_assoc]
    by_cases h : isMetaCharacter c = true
    · simp [h, alternatives, alternatives.push, alternatives_escape cs]
    · have hne : ∀ d, isMetaCharacter d = true → c ≠ d := fun d hd heq => h (heq ▸ hd)
      rw [if_neg h, List.singleton_append, alternatives.eq_6 _ _ (hne '|' rfl)
        (fun _ _ heq _ => hne '\\' rfl heq) (hne '^' rfl) (hne '$' rfl), if_neg h,
        alternatives_escape cs]
      rfl

theorem alternatives_exact (literal : String) :
    alternatives ("^" ++ regexEscape literal ++ "$").toList =
      some [.look .textStart :: (literal.toList.map Ways.literal ++ [.look .textEnd])] := by
  have htext : ("^" ++ regexEscape literal ++ "$").toList =
      '^' :: ((literal.toList.flatMap fun c => if isMetaCharacter c then ['\\', c] else [c]) ++
        ['$']) := by
    simp [regexEscape]
  rw [htext, alternatives, alternatives_escape]
  rfl

variable {isWord : Char → Bool}

/-- A text holds an anchored literal where it is the literal. -/
theorem finds_anchored {r : Pattern Char Assertion} {text cs : List Char}
    (hways : ∀ way, way ∈ r.matches' ↔
      way = .look .textStart :: (cs.map Ways.literal ++ [.look .textEnd])) :
    Finds (Assertion.holds isWord) r text ↔ text = cs := by
  constructor
  · rintro ⟨way, hway, before, mid, after, rfl, h⟩
    rw [hways] at hway
    subst hway
    obtain ⟨hstart, h⟩ := h
    obtain ⟨mid', rfl, hend, hnil⟩ := matches_literals.1 h
    rw [Matches] at hnil
    subst hnil
    have hbefore : before = [] := by simpa [Assertion.holds] using hstart
    have hafter : after = [] := by simpa [Assertion.holds] using hend
    simp [hbefore, hafter]
  · rintro rfl
    refine ⟨_, (hways _).2 rfl, [], text, [], by simp, rfl, ?_⟩
    exact matches_literals.2 ⟨[], by simp, by simp [Assertion.holds], rfl⟩

end Exact

section Plain

/-- The crate on patterns of literals, anchors and `|`. -/
def plainCrates : Crates :=
  { bareCrates with
    regex := fun pattern => (alternatives pattern.toList).map fun ways id =>
      ways.any fun way => search (Assertion.holds isAsciiWord) way [] id.toList }

def plainRegexes : Regexes plainCrates where
  isWord := isAsciiWord
  parse pattern := (alternatives pattern.toList).map ofWays
  newline := by decide
  carriageReturn := by decide
  parse_alternatives pattern ways h := by rw [h, Option.map_some]
  regex pattern isMatch h := by
    obtain ⟨ways, hways, rfl⟩ := Option.map_eq_some_iff.1 h
    exact ⟨ofWays ways, by rw [hways, Option.map_some], fun id => search_ofWays⟩

end Plain

section Agreement

variable {crates : Crates} (regexes : Regexes crates)

/-- The regex of an exact pattern is found in the literal and in no other text. -/
theorem finds_exact {pattern literal : String} (h : exact pattern = some literal) :
    ∃ r, regexes.parse pattern = some r ∧
      ∀ id, Finds (Assertion.holds regexes.isWord) r id.toList ↔ id = literal := by
  have hways := alternatives_exact literal
  rw [← eq_of_exact h] at hways
  refine ⟨_, regexes.parse_alternatives pattern _ hways, fun id => ?_⟩
  rw [finds_anchored fun way => by rw [mem_ofWays, List.mem_singleton], String.toList_inj]

/-- Where the fast path answers a literal, the regex of the pattern matches that literal and no
other text; and the pattern a urn is escaped to takes the fast path to the urn. -/
theorem exact_agrees :
    (∀ pattern literal, exact pattern = some literal →
      (∃ r, regexes.parse pattern = some r ∧
        ∀ id, Finds (Assertion.holds regexes.isWord) r id.toList ↔ id = literal) ∧
      ∀ isMatch, crates.regex pattern = some isMatch →
        ∀ id, isMatch id = true ↔ id = literal) ∧
    ∀ urn, exact ("^" ++ regexEscape urn ++ "$") = some urn := by
  refine ⟨fun pattern literal h => ?_, exact_regexEscape⟩
  obtain ⟨r, hparse, hfinds⟩ := finds_exact regexes h
  refine ⟨⟨r, hparse, hfinds⟩, fun isMatch hregex id => ?_⟩
  obtain ⟨r', hparse', hmatch⟩ := regexes.regex pattern isMatch hregex
  cases hparse.symm.trans hparse'
  rw [hmatch, hfinds]

theorem exact_agrees_dotted :
    (∀ id, Finds (Assertion.holds isAsciiWord)
      (ofWays [.look .textStart :: ("urn:ngsi-ld:Device:bb.sk".toList.map Ways.literal ++
        [.look .textEnd])]) id.toList ↔ id = "urn:ngsi-ld:Device:bb.sk") ∧
    exact "^urn:ngsi\\-ld:Device:bb\\.sk$" = some "urn:ngsi-ld:Device:bb.sk" := by
  have hexact : exact "^urn:ngsi\\-ld:Device:bb\\.sk$" = some "urn:ngsi-ld:Device:bb.sk" :=
    (exact_agrees plainRegexes).2 "urn:ngsi-ld:Device:bb.sk"
  obtain ⟨⟨r, hparse, hfinds⟩, -⟩ := (exact_agrees plainRegexes).1 _ _ hexact
  cases (plainRegexes.parse_alternatives _ _
    (alternatives_exact "urn:ngsi-ld:Device:bb.sk")).symm.trans hparse
  exact ⟨hfinds, hexact⟩

/-- What a pattern compiles to is found by matching it, on the fast path too. -/
theorem matches_compile {pattern : String} (h : (crates.regex pattern).isSome = true) :
    ∃ r, regexes.parse pattern = some r ∧ ∀ id, (compile crates pattern).matches id = true ↔
      Finds (Assertion.holds regexes.isWord) r id.toList := by
  obtain ⟨isMatch, hregex⟩ := Option.isSome_iff_exists.1 h
  cases hexact : exact pattern with
  | some literal =>
    obtain ⟨r, hparse, hfinds⟩ := finds_exact regexes hexact
    refine ⟨r, hparse, fun id => ?_⟩
    rw [compile, hexact, hfinds, IdMatcher.matches, beq_iff_eq, eq_comm]
  | none =>
    obtain ⟨r, hparse, hmatch⟩ := regexes.regex pattern isMatch hregex
    refine ⟨r, hparse, fun id => ?_⟩
    rw [compile, hexact, hregex]
    exact hmatch id

end Agreement

section Whole

variable {isWord : Char → Bool} {way : Way} {before mid after : List Char}

/-- A way begins at the start of the text only and ends at its end only: it passes `^` and `$`
outside `(?m)`, or it ends in both kinds of line end, behind a carriage return. -/
structure Closed (isWord : Char → Bool) (way : Way) : Prop where
  start : .look .textStart ∈ way
  stop : .look .textEnd ∈ way ∨
    AtLast .lineEnd way ∧ (AtLast .crlfStart way ∨ AtLast .crlfEnd way) ∧
      ∀ before mid after, Matches (Assertion.holds isWord) way before mid after →
        (before ++ mid).getLast? = some '\r'

theorem before_eq_nil_of_closed (h : Closed isWord way)
    (hmatches : Matches (Assertion.holds isWord) way before mid after) : before = [] :=
  before_eq_nil (fun _ _ => rfl) h.start hmatches

theorem after_eq_nil_of_closed (h : Closed isWord way)
    (hmatches : Matches (Assertion.holds isWord) way before mid after) : after = [] := by
  rcases h.stop with hend | ⟨hline, hcrlf, hreturn⟩
  · exact after_eq_nil (fun _ _ => rfl) hend hmatches
  · have hlast := hreturn before mid after hmatches
    have hnext := holds_of_atLast hline hmatches
    cases after with
    | nil => rfl
    | cons c after =>
      have hc : c = '\n' := by simpa [Assertion.holds] using hnext
      subst hc
      rcases hcrlf with hcrlf | hcrlf
      all_goals
        have hholds := holds_of_atLast hcrlf hmatches
        rw [hlast] at hholds
        simp [Assertion.holds] at hholds

/-- A line feed before a text changes no assertion at its start but the start of the text. -/
theorem holds_newline (hword : isWord '\n' = false) {i : Assertion} (h : i ≠ .textStart)
    {next : Option Char} (hholds : i.holds isWord none next = true) :
    i.holds isWord (some '\n') next = true := by
  cases i with
  | textStart => exact absurd rfl h
  | word unicode edge => cases unicode <;> simpa [Assertion.holds, hword, isAsciiWord] using hholds
  | lineStart => simp [Assertion.holds]
  | crlfStart => simp [Assertion.holds]
  | _ => simpa [Assertion.holds] using hholds

/-- Neither does a line feed after a text, at its end, but where the text ends in a carriage
return. -/
theorem holds_then_newline (hword : isWord '\n' = false) {i : Assertion} {prev : Option Char}
    (h : i ≠ .textEnd) (hprev : prev = some '\r' → i ≠ .crlfStart ∧ i ≠ .crlfEnd)
    (hholds : i.holds isWord prev none = true) : i.holds isWord prev (some '\n') = true := by
  cases i with
  | textEnd => exact absurd rfl h
  | crlfStart =>
    have hne : prev ≠ some '\r' := fun heq => (hprev heq).1 rfl
    simpa [Assertion.holds, hne] using hholds
  | crlfEnd =>
    have hne : prev ≠ some '\r' := fun heq => (hprev heq).2 rfl
    simp [Assertion.holds, hne]
  | word unicode edge => cases unicode <;> simpa [Assertion.holds, hword, isAsciiWord] using hholds
  | lineEnd => simp [Assertion.holds]
  | _ => simpa [Assertion.holds] using hholds

theorem holds_then_return (hword : isWord '\r' = false) {i : Assertion} {prev : Option Char}
    (h : i ≠ .textEnd) (hline : i ≠ .lineEnd) (hholds : i.holds isWord prev none = true) :
    i.holds isWord prev (some '\r') = true := by
  cases i with
  | textEnd => exact absurd rfl h
  | lineEnd => exact absurd rfl hline
  | crlfEnd => simp [Assertion.holds]
  | word unicode edge => cases unicode <;> simpa [Assertion.holds, hword, isAsciiWord] using hholds
  | _ => simpa [Assertion.holds] using hholds

/-- A way that can be passed and matches whole texts only is closed: if it were not, a line break on
one side of a text it matches would leave the match. -/
theorem closed_of_wholeOnly (hnewline : isWord '\n' = false) (hreturn : isWord '\r' = false)
    (hwhole : ∀ before mid after, Matches (Assertion.holds isWord) way before mid after →
      before = [] ∧ after = [])
    (hmatches : Matches (Assertion.holds isWord) way before mid after) : Closed isWord way := by
  constructor
  · by_contra hstart
    have hpad : Matches (Assertion.holds isWord) way ('\n' :: before) mid after := by
      refine matches_cons (fun i hi next hholds => ?_) hmatches
      exact holds_newline hnewline (fun heq => hstart (heq ▸ hi)) hholds
    exact List.cons_ne_nil _ _ (hwhole _ _ _ hpad).1
  · by_contra hstop
    rw [not_or] at hstop
    obtain ⟨hend, hcrlf⟩ := hstop
    have hne : ∀ i, AtLast i way → i ≠ .textEnd := fun i hi heq => hend (heq ▸ mem_of_atLast hi)
    have hpad : ∀ c before mid, Matches (Assertion.holds isWord) way before mid [] →
        ¬ ∀ i, AtLast i way → i.holds isWord (before ++ mid).getLast? none = true →
          i.holds isWord (before ++ mid).getLast? (some c) = true := by
      intro c before mid hmid hholds
      exact List.cons_ne_nil _ _ (hwhole _ _ _ (matches_append hholds hmid)).2
    have hafter := (hwhole _ _ _ hmatches).2
    subst hafter
    by_cases hline : AtLast .lineEnd way
    · by_cases hboth : AtLast .crlfStart way ∨ AtLast .crlfEnd way
      · -- Some text it matches does not end in a carriage return.
        refine hcrlf ⟨hline, hboth, fun before mid after h => ?_⟩
        have hafter := (hwhole _ _ _ h).2
        subst hafter
        by_contra hlast
        refine hpad '\n' before mid h fun i hi hholds => ?_
        exact holds_then_newline hnewline (hne i hi) (fun heq => absurd heq hlast) hholds
      · rw [not_or] at hboth
        refine hpad '\n' before mid hmatches fun i hi hholds => ?_
        exact holds_then_newline hnewline (hne i hi)
          (fun _ => ⟨fun heq => hboth.1 (heq ▸ hi), fun heq => hboth.2 (heq ▸ hi)⟩) hholds
    · refine hpad '\r' before mid hmatches fun i hi hholds => ?_
      exact holds_then_return hreturn (hne i hi) (fun heq => hline (heq ▸ hi)) hholds

def Passable (isWord : Char → Bool) (way : Way) : Prop :=
  ∃ before mid after, Matches (Assertion.holds isWord) way before mid after

/-- A pattern matches whole texts only where every way that can be passed is closed. -/
theorem wholeOnly_iff_closed (hnewline : isWord '\n' = false) (hreturn : isWord '\r' = false)
    {r : Pattern Char Assertion} : WholeOnly (Assertion.holds isWord) r ↔
      ∀ way ∈ r.matches', Passable isWord way → Closed isWord way := by
  constructor
  · rintro hwhole way hway ⟨before, mid, after, h⟩
    exact closed_of_wholeOnly hnewline hreturn (hwhole way hway) h
  · intro hclosed way hway before mid after h
    have hway := hclosed way hway ⟨before, mid, after, h⟩
    exact ⟨before_eq_nil_of_closed hway h, after_eq_nil_of_closed hway h⟩

end Whole

section Validated

variable {crates : Crates} (regexes : Regexes crates)

/-- Every match of a pattern in an id its matcher lets through is the whole id. -/
def MatchesWhole (pattern : String) (r : Pattern Char Assertion) : Prop :=
  ∀ id before mid after, (compile crates pattern).matches id = true →
    id.toList = before ++ mid ++ after →
      (∃ way ∈ r.matches', Matches (Assertion.holds regexes.isWord) way before mid after) →
        before = [] ∧ after = []

theorem regex_of_validate {selector : EntitySelector} {pattern : String}
    (hvalid : selector.validate crates = .ok ()) (hpattern : selector.idPattern = some pattern) :
    (crates.regex pattern).isSome = true := by
  unfold EntitySelector.validate at hvalid
  obtain ⟨_, -, hvalid⟩ := bind_eq_ok.1 hvalid
  rw [hpattern] at hvalid
  rw [← Option.not_isNone, Bool.not_eq_true']
  by_contra hnone
  rw [Bool.not_eq_false] at hnone
  simp only [hnone, if_true] at hvalid
  split at hvalid
  · cases hvalid
  · split at hvalid <;> cases hvalid

/-- The pattern of a valid selector matches whole ids only where every way through it is closed. -/
theorem matchesWhole_iff {selector : EntitySelector} {pattern : String}
    (hvalid : selector.validate crates = .ok ()) (hpattern : selector.idPattern = some pattern) :
    ∃ r, regexes.parse pattern = some r ∧ (MatchesWhole regexes pattern r ↔
      ∀ way ∈ r.matches', Passable regexes.isWord way → Closed regexes.isWord way) := by
  obtain ⟨r, hparse, hfinds⟩ := matches_compile regexes (regex_of_validate hvalid hpattern)
  refine ⟨r, hparse, ?_⟩
  rw [← wholeOnly_iff_closed regexes.newline regexes.carriageReturn]
  constructor
  · intro hwhole way hway before mid after h
    refine hwhole (String.ofList (before ++ mid ++ after)) before mid after ?_ (by simp)
      ⟨way, hway, h⟩
    exact (hfinds _).2 ⟨way, hway, before, mid, after, by simp, h⟩
  · rintro hwhole id before mid after - - ⟨way, hway, h⟩
    exact hwhole way hway before mid after h

/-- Each side of `|` is closed by its own anchors. -/
theorem matchesWhole_iff_either : ∃ r, plainRegexes.parse "^a$|^b$" = some r ∧
    MatchesWhole plainRegexes "^a$|^b$" r := by
  have hparse : plainRegexes.parse "^a$|^b$" = some (ofWays
      [[.look .textStart, Ways.literal 'a', .look .textEnd],
        [.look .textStart, Ways.literal 'b', .look .textEnd]]) := rfl
  obtain ⟨r, hr, hiff⟩ := matchesWhole_iff plainRegexes
    (show EntitySelector.validate plainCrates ⟨"Device", none, some "^a$|^b$"⟩ = .ok () by
      decide +kernel) rfl
  refine ⟨r, hr, hiff.2 ?_⟩
  cases hparse.symm.trans hr
  intro way hway _
  rw [mem_ofWays] at hway
  have hanchors : .look .textStart ∈ way ∧ .look .textEnd ∈ way := by
    rcases List.mem_pair.1 hway with rfl | rfl <;> simp
  exact ⟨hanchors.1, Or.inl hanchors.2⟩

/-- With one anchor on each side of `|`, the pattern is found at the end of a longer id. -/
theorem matchesWhole_not_either : ¬ ∀ (selector : EntitySelector) (pattern : String)
    (r : Pattern Char Assertion), selector.validate plainCrates = .ok () →
      selector.idPattern = some pattern → plainRegexes.parse pattern = some r →
        MatchesWhole plainRegexes pattern r := by
  intro h
  have hparse : plainRegexes.parse "^a|b$" = some (ofWays
      [[.look .textStart, Ways.literal 'a'], [Ways.literal 'b', .look .textEnd]]) := rfl
  have hvalid : EntitySelector.validate plainCrates ⟨"Device", none, some "^a|b$"⟩ = .ok () := by
    decide +kernel
  have hwhole := h _ _ _ hvalid rfl hparse
  have hmatches : Matches (Assertion.holds isAsciiWord) [Ways.literal 'b', .look .textEnd] ['c']
      ['b'] [] := ⟨'b', [], rfl, rfl, rfl, rfl⟩
  have hbefore := (hwhole "cb" ['c'] ['b'] [] (by decide +kernel) rfl
    ⟨_, mem_ofWays.2 (by simp), hmatches⟩).1
  exact List.cons_ne_nil _ _ hbefore

end Validated

end JoinedContext.IdMatch
