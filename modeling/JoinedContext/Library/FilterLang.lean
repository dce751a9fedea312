import JoinedContext.Library.Text
import Mathlib.Data.List.Basic

/-!
# Filters written as text

A filter language whose texts are put together by writing them next to each other: `;` conjoins
terms, `|` separates alternatives and binds weaker, and parentheses make a filter one term. The laws
say what the joined text means; a one-pass reader over the characters satisfies them.
-/

namespace JoinedContext

/-- A language of filters over entities of a type, with the texts that stand as one term. -/
structure FilterLang (E : Type) where
  parses : String → Bool
  sat : String → E → Prop
  Term : String → Prop

namespace FilterLang

variable {E : Type}

def group (s : String) : String := "(" ++ s ++ ")"

/-- The alternatives joined with `|`, each the terms of one row joined with `;`. -/
def alternatives (rows : List (List String)) : String :=
  Text.join "|" (rows.map (Text.join ";"))

/-- `;` binds tighter than `|`, and parentheses group. -/
structure Lawful (L : FilterLang E) : Prop where
  parses_of_sat : ∀ {s e}, L.sat s e → L.parses s = true
  term_group : ∀ {s}, L.parses s = true → L.Term (group s)
  sat_group : ∀ {s e}, L.parses s = true → (L.sat (group s) e ↔ L.sat s e)
  parses_rows : ∀ rows, rows ≠ [] → (∀ row ∈ rows, row ≠ [] ∧ ∀ t ∈ row, L.Term t) →
    L.parses (alternatives rows) = true
  sat_rows : ∀ rows e, rows ≠ [] → (∀ row ∈ rows, row ≠ [] ∧ ∀ t ∈ row, L.Term t) →
    (L.sat (alternatives rows) e ↔ ∃ row ∈ rows, ∀ t ∈ row, L.sat t e)

section Rules

variable {L : FilterLang E} (hL : L.Lawful)

include hL

theorem Lawful.parses_term {t : String} (ht : L.Term t) : L.parses t = true :=
  hL.parses_rows [[t]] (by simp) (by simpa using ht)

theorem Lawful.parses_all {ts : List String} (hne : ts ≠ []) (ht : ∀ t ∈ ts, L.Term t) :
    L.parses (Text.join ";" ts) = true :=
  hL.parses_rows [ts] (by simp) (by simpa using ⟨hne, ht⟩)

/-- Terms joined with `;` mean all of them. -/
theorem Lawful.sat_all {ts : List String} {e : E} (hne : ts ≠ []) (ht : ∀ t ∈ ts, L.Term t) :
    L.sat (Text.join ";" ts) e ↔ ∀ t ∈ ts, L.sat t e := by
  have h := hL.sat_rows [ts] e (by simp) (by simpa using ⟨hne, ht⟩)
  simpa [alternatives, Text.join] using h

theorem Lawful.parses_any {ts : List String} (hne : ts ≠ []) (ht : ∀ t ∈ ts, L.Term t) :
    L.parses (Text.join "|" ts) = true := by
  have h := hL.parses_rows (ts.map fun t => [t]) (by simpa using hne)
    (by simpa using ht)
  simpa [alternatives, Function.comp_def, Text.join] using h

/-- Terms joined with `|` mean one of them. -/
theorem Lawful.sat_any {ts : List String} {e : E} (hne : ts ≠ []) (ht : ∀ t ∈ ts, L.Term t) :
    L.sat (Text.join "|" ts) e ↔ ∃ t ∈ ts, L.sat t e := by
  have h := hL.sat_rows (ts.map fun t => [t]) e (by simpa using hne)
    (by simpa using ht)
  simpa [alternatives, Function.comp_def, Text.join] using h

end Rules

/-! ## A reader of such filters -/

section Reader

variable (compare : String → E → Bool)

/-- The term being read: nothing yet, a comparison and whether a string is open in it, or a group
that has been closed. -/
inductive Current (E : Type) where
  | blank
  | comparison (chars : List Char) (quoted : Bool)
  | closed (p : E → Bool)

/-- One open parenthesis: the alternatives read, the terms of the row read, and the term. -/
structure Frame (E : Type) where
  anyOf : E → Bool
  allOf : E → Bool
  current : Current E

def fresh : Frame E := ⟨fun _ => false, fun _ => true, .blank⟩

def Current.value : Current E → Option (E → Bool)
  | .comparison chars false => some (compare (String.ofList chars))
  | .closed p => some p
  | _ => none

def Frame.nextTerm (f : Frame E) : Option (Frame E) :=
  (f.current.value compare).map fun p =>
    { f with allOf := fun e => f.allOf e && p e, current := .blank }

def Frame.nextRow (f : Frame E) : Option (Frame E) :=
  (f.current.value compare).map fun p =>
    ⟨fun e => f.anyOf e || (f.allOf e && p e), fun _ => true, .blank⟩

def Frame.close (f : Frame E) : Option (E → Bool) :=
  (f.current.value compare).map fun p e => f.anyOf e || (f.allOf e && p e)

/-- A character of a comparison. -/
def Current.extend (c : Char) : Current E → Option (Current E)
  | .blank => some (.comparison [c] (c == '"'))
  | .comparison chars quoted => some (.comparison (chars ++ [c]) (quoted != (c == '"')))
  | .closed _ => none

def Current.isQuoted : Current E → Bool
  | .comparison _ quoted => quoted
  | _ => false

def Current.isBlank : Current E → Bool
  | .blank => true
  | _ => false

def readChar (stack : List (Frame E)) (c : Char) : Option (List (Frame E)) :=
  match stack with
  | [] => none
  | f :: rest =>
    if f.current.isQuoted then
      (f.current.extend c).map fun current => { f with current := current } :: rest
    else if c = '(' then
      if f.current.isBlank then some (fresh :: f :: rest) else none
    else if c = ')' then
      match f.close compare, rest with
      | some p, g :: rest =>
        if g.current.isBlank then some ({ g with current := .closed p } :: rest) else none
      | _, _ => none
    else if c = ';' then (f.nextTerm compare).map (· :: rest)
    else if c = '|' then (f.nextRow compare).map (· :: rest)
    else (f.current.extend c).map fun current => { f with current := current } :: rest

def run (stack : List (Frame E)) (cs : List Char) : Option (List (Frame E)) :=
  cs.foldlM (readChar compare) stack

def eval (s : String) : Option (E → Bool) :=
  match run compare [fresh] s.toList with
  | some [f] => f.close compare
  | _ => none

/-- What a text does to any place a term may stand: it fills the place and reads nothing else. -/
def FillsTerm (t : String) : Prop :=
  ∃ current p, current.value compare = some p ∧ ∀ (f : Frame E) rest, f.current = .blank →
    run compare (f :: rest) t.toList = some ({ f with current := current } :: rest)

/-- The language the reader reads. -/
def reader : FilterLang E where
  parses s := (eval compare s).isSome
  sat s e := ∃ p, eval compare s = some p ∧ p e = true
  Term := FillsTerm compare

variable {compare}

theorem reader_sat {s : String} {e : E} :
    (reader compare).sat s e ↔ (eval compare s).any (fun p => p e) = true := by
  rw [Option.any_eq_true]
  exact exists_congr fun p => by rfl

instance (s : String) (e : E) : Decidable ((reader compare).sat s e) :=
  decidable_of_iff _ reader_sat.symm

theorem run_append (stack : List (Frame E)) (cs ds : List Char) :
    run compare stack (cs ++ ds) = (run compare stack cs).bind fun st => run compare st ds :=
  List.foldlM_append ..

/-- What is read above a stack leaves the stack as it was. -/
theorem readChar_append {stack out : List (Frame E)} {c : Char} (below : List (Frame E))
    (h : readChar compare stack c = some out) :
    readChar compare (stack ++ below) c = some (out ++ below) := by
  rcases stack with _ | ⟨f, rest⟩
  · simp [readChar] at h
  · simp only [readChar, List.cons_append] at h ⊢
    split_ifs at h ⊢ with hquoted hopen hblank hclose hterm hrow
    · obtain ⟨current, hcurrent, rfl⟩ := Option.map_eq_some_iff.1 h
      simp [hcurrent]
    · cases h
      rfl
    · rcases hp : f.close compare with _ | p
      · simp [hp] at h
      · rcases rest with _ | ⟨g, rest⟩
        · simp [hp] at h
        · simp only [hp, List.cons_append] at h ⊢
          split_ifs at h ⊢
          cases h
          rfl
    · obtain ⟨g, hg, rfl⟩ := Option.map_eq_some_iff.1 h
      simp [hg]
    · obtain ⟨g, hg, rfl⟩ := Option.map_eq_some_iff.1 h
      simp [hg]
    · obtain ⟨current, hcurrent, rfl⟩ := Option.map_eq_some_iff.1 h
      simp [hcurrent]

theorem run_frame (below : List (Frame E)) :
    ∀ {cs : List Char} {stack out : List (Frame E)}, run compare stack cs = some out →
      run compare (stack ++ below) cs = some (out ++ below)
  | [], stack, out, h => by
    cases h
    rfl
  | c :: cs, stack, out, h => by
    simp only [run, List.foldlM_cons, Option.bind_eq_bind, Option.bind_eq_some_iff] at h ⊢
    obtain ⟨st, hst, hrest⟩ := h
    exact ⟨_, readChar_append below hst, run_frame below hrest⟩

/-- A filter in parentheses fills a term's place with its own meaning. -/
theorem run_group {s : String} {p : E → Bool} (h : eval compare s = some p) {f : Frame E}
    (rest : List (Frame E)) (hblank : f.current = .blank) :
    run compare (f :: rest) (group s).toList = some ({ f with current := .closed p } :: rest) := by
  unfold eval at h
  split at h
  · rename_i g hg
    have hchars : (group s).toList = '(' :: (s.toList ++ [')']) := by simp [group]
    have hopen : readChar compare (f :: rest) '(' = some (fresh :: f :: rest) := by
      simp [readChar, hblank, Current.isQuoted, Current.isBlank]
    have hnotQuoted : g.current.isQuoted = false := by
      rcases hcurrent : g.current with _ | ⟨chars, _ | _⟩ | q <;>
        simp_all [Frame.close, Current.value, Current.isQuoted]
    have hclose : readChar compare (g :: f :: rest) ')' =
        some ({ f with current := .closed p } :: rest) := by
      simp [readChar, hnotQuoted, h, hblank, Current.isBlank]
    have hinner : run compare (fresh :: f :: rest) s.toList = some (g :: f :: rest) :=
      run_frame (f :: rest) hg
    rw [hchars, run, List.foldlM_cons, hopen, Option.bind_eq_bind, Option.bind_some,
      ← run, run_append, hinner]
    simp [run, hclose]
  · cases h

theorem sat_of_fillsTerm {t : String} {current : Current E} {p : E → Bool}
    (hvalue : current.value compare = some p)
    (hfills : run compare [fresh] t.toList = some [{ fresh with current := current }]) (e : E) :
    (reader compare).sat t e ↔ p e = true := by
  have heval : eval compare t = some fun e => false || (true && p e) := by
    unfold eval
    rw [hfills]
    simp [Frame.close, hvalue, fresh]
  constructor
  · rintro ⟨q, hq, hsat⟩
    rw [heval] at hq
    cases hq
    simpa using hsat
  · intro hp
    exact ⟨_, heval, by simpa using hp⟩

theorem notQuoted_of_value {current : Current E} {p : E → Bool}
    (h : current.value compare = some p) : current.isQuoted = false := by
  rcases current with _ | ⟨chars, _ | _⟩ | q <;> simp_all [Current.value, Current.isQuoted]

/-- A row of terms fills the place of the last of them, with the others conjoined before it. -/
theorem run_row : ∀ {ts : List String}, ts ≠ [] → (∀ t ∈ ts, FillsTerm compare t) →
    ∀ (f : Frame E) rest, f.current = .blank → ∃ allOf current p,
      run compare (f :: rest) (Text.join ";" ts).toList =
          some (⟨f.anyOf, allOf, current⟩ :: rest) ∧
        current.value compare = some p ∧
        ∀ e, (allOf e && p e) = true ↔
          f.allOf e = true ∧ ∀ t ∈ ts, (reader compare).sat t e
  | [t], _, ht, f, rest, hblank => by
    obtain ⟨current, p, hvalue, hfills⟩ := ht t (List.mem_singleton.2 rfl)
    refine ⟨f.allOf, current, p, hfills f rest hblank, hvalue, fun e => ?_⟩
    simp [sat_of_fillsTerm hvalue (hfills fresh [] rfl)]
  | t :: u :: ts, _, ht, f, rest, hblank => by
    obtain ⟨current, p, hvalue, hfills⟩ := ht t List.mem_cons_self
    have hsemi : readChar compare ({ f with current := current } :: rest) ';' =
        some (⟨f.anyOf, fun e => f.allOf e && p e, .blank⟩ :: rest) := by
      simp [readChar, notQuoted_of_value hvalue, Frame.nextTerm, hvalue]
    obtain ⟨allOf, last, q, hrun, hlast, hmean⟩ := run_row (List.cons_ne_nil u ts)
      (fun v hv => ht v (List.mem_cons_of_mem t hv))
      ⟨f.anyOf, fun e => f.allOf e && p e, .blank⟩ rest rfl
    refine ⟨allOf, last, q, ?_, hlast, fun e => ?_⟩
    · have hchars : (Text.join ";" (t :: u :: ts)).toList =
          t.toList ++ ';' :: (Text.join ";" (u :: ts)).toList := by
        simp [Text.join_cons_cons]
      rw [hchars, run_append, hfills f rest hblank, Option.bind_some, run, List.foldlM_cons,
        hsemi, Option.bind_eq_bind, Option.bind_some, ← run, hrun]
    · rw [hmean]
      simp only [Bool.and_eq_true, List.forall_mem_cons, and_assoc,
        sat_of_fillsTerm hvalue (hfills fresh [] rfl)]

/-- Rows of terms fill the place of the last row, with the others as alternatives before it. -/
theorem run_rows : ∀ {rows : List (List String)}, rows ≠ [] →
    (∀ row ∈ rows, row ≠ [] ∧ ∀ t ∈ row, FillsTerm compare t) →
    ∀ (f : Frame E), f.allOf = (fun _ => true) → f.current = .blank → ∃ g p,
      run compare [f] (alternatives rows).toList = some [g] ∧ g.close compare = some p ∧
        ∀ e, p e = true ↔
          f.anyOf e = true ∨ ∃ row ∈ rows, ∀ t ∈ row, (reader compare).sat t e
  | [row], _, hrows, f, hall, hblank => by
    obtain ⟨hne, ht⟩ := hrows row (List.mem_singleton.2 rfl)
    obtain ⟨allOf, current, p, hrun, hvalue, hmean⟩ := run_row hne ht f [] hblank
    refine ⟨_, fun e => f.anyOf e || (allOf e && p e), hrun, by simp [Frame.close, hvalue],
      fun e => ?_⟩
    rw [Bool.or_eq_true, hmean, hall]
    simp
  | row :: more :: rows, _, hrows, f, hall, hblank => by
    obtain ⟨hne, ht⟩ := hrows row List.mem_cons_self
    obtain ⟨allOf, current, p, hrun, hvalue, hmean⟩ := run_row hne ht f [] hblank
    have hbar : readChar compare [⟨f.anyOf, allOf, current⟩] '|' =
        some [⟨fun e => f.anyOf e || (allOf e && p e), fun _ => true, .blank⟩] := by
      simp [readChar, notQuoted_of_value hvalue, Frame.nextRow, hvalue]
    obtain ⟨g, q, hrest, hclose, hmeans⟩ := run_rows (List.cons_ne_nil more rows)
      (fun r hr => hrows r (List.mem_cons_of_mem row hr))
      ⟨fun e => f.anyOf e || (allOf e && p e), fun _ => true, .blank⟩ rfl rfl
    refine ⟨g, q, ?_, hclose, fun e => ?_⟩
    · have hchars : (alternatives (row :: more :: rows)).toList =
          (Text.join ";" row).toList ++ '|' :: (alternatives (more :: rows)).toList := by
        simp [alternatives, Text.join_cons_cons]
      rw [hchars, run_append, hrun, Option.bind_some, run, List.foldlM_cons, hbar,
        Option.bind_eq_bind, Option.bind_some, ← run, hrest]
    · rw [hmeans, Bool.or_eq_true, hmean, hall]
      simp [or_assoc]

theorem reader_lawful (compare : String → E → Bool) : (reader compare).Lawful where
  parses_of_sat := by
    rintro s e ⟨p, hp, -⟩
    simp [reader, hp]
  term_group := by
    intro s hs
    obtain ⟨p, hp⟩ := Option.isSome_iff_exists.1 hs
    exact ⟨.closed p, p, rfl, fun f rest hblank => run_group hp rest hblank⟩
  sat_group := by
    intro s e hs
    obtain ⟨p, hp⟩ := Option.isSome_iff_exists.1 hs
    rw [sat_of_fillsTerm (p := p) (by rfl) (run_group hp [] rfl)]
    exact ⟨fun h => ⟨p, hp, h⟩, fun ⟨q, hq, h⟩ => Option.some.inj (hp.symm.trans hq) ▸ h⟩
  parses_rows := by
    intro rows hne hrows
    obtain ⟨g, p, hrun, hclose, -⟩ := run_rows hne hrows fresh rfl rfl
    simp [reader, eval, hrun, hclose]
  sat_rows := by
    intro rows e hne hrows
    obtain ⟨g, p, hrun, hclose, hmean⟩ := run_rows hne hrows fresh rfl rfl
    have heval : eval compare (alternatives rows) = some p := by simp [eval, hrun, hclose]
    have hsat : (reader compare).sat (alternatives rows) e ↔ p e = true :=
      ⟨fun ⟨q, hq, h⟩ => Option.some.inj (heval.symm.trans hq) ▸ h, fun h => ⟨p, heval, h⟩⟩
    rw [hsat, hmean]
    simp [fresh]

theorem run_plain {f : Frame E} (rest : List (Frame E)) :
    ∀ {cs : List Char} (chars : List Char), (∀ c ∈ cs, c ∉ ['(', ')', ';', '|', '"']) →
      run compare ({ f with current := .comparison chars false } :: rest) cs =
        some ({ f with current := .comparison (chars ++ cs) false } :: rest)
  | [], chars, _ => by simp [run]
  | c :: cs, chars, h => by
    have hc := h c List.mem_cons_self
    simp only [List.mem_cons, List.not_mem_nil, or_false, not_or] at hc
    have hread : readChar compare ({ f with current := .comparison chars false } :: rest) c =
        some ({ f with current := .comparison (chars ++ [c]) false } :: rest) := by
      simp [readChar, Current.isQuoted, Current.extend, hc]
    rw [run, List.foldlM_cons, hread, Option.bind_eq_bind, Option.bind_some, ← run,
      run_plain rest (chars ++ [c]) fun d hd => h d (List.mem_cons_of_mem c hd),
      List.append_assoc, List.singleton_append]

theorem run_string {f : Frame E} (rest : List (Frame E)) :
    ∀ {cs : List Char} (chars : List Char), '"' ∉ cs →
      run compare ({ f with current := .comparison chars true } :: rest) cs =
        some ({ f with current := .comparison (chars ++ cs) true } :: rest)
  | [], chars, _ => by simp [run]
  | c :: cs, chars, h => by
    rw [List.mem_cons, not_or] at h
    have hc : (c == '"') = false := beq_eq_false_iff_ne.2 (Ne.symm h.1)
    have hread : readChar compare ({ f with current := .comparison chars true } :: rest) c =
        some ({ f with current := .comparison (chars ++ [c]) true } :: rest) := by
      simp [readChar, Current.isQuoted, Current.extend, hc]
    rw [run, List.foldlM_cons, hread, Option.bind_eq_bind, Option.bind_some, ← run,
      run_string rest (chars ++ [c]) h.2, List.append_assoc, List.singleton_append]

theorem run_quoted {c : Char} {head body : List Char}
    (hhead : ∀ d ∈ c :: head, d ∉ ['(', ')', ';', '|', '"']) (hbody : '"' ∉ body)
    {f : Frame E} (rest : List (Frame E)) (hblank : f.current = .blank) :
    run compare (f :: rest) (c :: (head ++ '"' :: (body ++ ['"']))) =
      some ({ f with current := .comparison (c :: (head ++ '"' :: (body ++ ['"']))) false } ::
        rest) := by
  have hc := hhead c List.mem_cons_self
  simp only [List.mem_cons, List.not_mem_nil, or_false, not_or] at hc
  have hfirst : readChar compare (f :: rest) c =
      some ({ f with current := .comparison [c] false } :: rest) := by
    simp [readChar, hblank, Current.isQuoted, Current.extend, hc]
  have hopen : ∀ chars, readChar compare ({ f with current := .comparison chars false } :: rest)
      '"' = some ({ f with current := .comparison (chars ++ ['"']) true } :: rest) := fun chars => by
    simp [readChar, Current.isQuoted, Current.extend]
  have hclose : ∀ chars, readChar compare ({ f with current := .comparison chars true } :: rest)
      '"' = some ({ f with current := .comparison (chars ++ ['"']) false } :: rest) := fun chars => by
    simp [readChar, Current.isQuoted, Current.extend]
  rw [run, List.foldlM_cons, hfirst, Option.bind_eq_bind, Option.bind_some,
    ← run, run_append, run_plain rest [c] fun d hd => hhead d (List.mem_cons_of_mem c hd),
    Option.bind_some, run, List.foldlM_cons, hopen, Option.bind_eq_bind, Option.bind_some, ← run,
    run_append, run_string rest _ hbody, Option.bind_some]
  simp [run, hclose]

/-- A comparison of plain characters that ends in one quoted string is a term, whatever the string
holds. -/
theorem fillsTerm_quoted (c : Char) (head body : List Char)
    (hhead : ∀ d ∈ c :: head, d ∉ ['(', ')', ';', '|', '"']) (hbody : '"' ∉ body) :
    FillsTerm compare (String.ofList (c :: (head ++ '"' :: (body ++ ['"'])))) :=
  ⟨.comparison (c :: (head ++ '"' :: (body ++ ['"']))) false, _, rfl, fun f rest hblank => by
    rw [String.toList_ofList, run_quoted hhead hbody rest hblank]⟩

theorem sat_quoted {c : Char} {head body : List Char}
    (hhead : ∀ d ∈ c :: head, d ∉ ['(', ')', ';', '|', '"']) (hbody : '"' ∉ body) (e : E) :
    (reader compare).sat (String.ofList (c :: (head ++ '"' :: (body ++ ['"'])))) e ↔
      compare (String.ofList (c :: (head ++ '"' :: (body ++ ['"'])))) e = true :=
  sat_of_fillsTerm rfl (by rw [String.toList_ofList, run_quoted hhead hbody [] rfl]) e

theorem run_comparison {c : Char} {cs : List Char}
    (h : ∀ d ∈ c :: cs, d ∉ ['(', ')', ';', '|', '"']) {f : Frame E} (rest : List (Frame E))
    (hblank : f.current = .blank) :
    run compare (f :: rest) (c :: cs) =
      some ({ f with current := .comparison (c :: cs) false } :: rest) := by
  have hc := h c List.mem_cons_self
  simp only [List.mem_cons, List.not_mem_nil, or_false, not_or] at hc
  have hfirst : readChar compare (f :: rest) c =
      some ({ f with current := .comparison [c] false } :: rest) := by
    simp [readChar, hblank, Current.isQuoted, Current.extend, hc]
  rw [run, List.foldlM_cons, hfirst, Option.bind_eq_bind, Option.bind_some, ← run,
    run_plain rest [c] fun d hd => h d (List.mem_cons_of_mem c hd)]
  rfl

/-- A comparison of plain characters is a term. -/
theorem fillsTerm_plain (c : Char) (cs : List Char)
    (h : ∀ d ∈ c :: cs, d ∉ ['(', ')', ';', '|', '"']) :
    FillsTerm compare (String.ofList (c :: cs)) := by
  refine ⟨.comparison (c :: cs) false, _, rfl, fun f rest hblank => ?_⟩
  rw [String.toList_ofList]
  exact run_comparison h rest hblank

theorem sat_plain (c : Char) (cs : List Char) (h : ∀ d ∈ c :: cs, d ∉ ['(', ')', ';', '|', '"'])
    (e : E) : (reader compare).sat (String.ofList (c :: cs)) e ↔
      compare (String.ofList (c :: cs)) e = true := by
  have hvalue : (Current.comparison (c :: cs) false).value compare =
      some (compare (String.ofList (c :: cs))) := rfl
  refine sat_of_fillsTerm hvalue ?_ e
  rw [String.toList_ofList]
  exact run_comparison h [] rfl

end Reader

end FilterLang

end JoinedContext
