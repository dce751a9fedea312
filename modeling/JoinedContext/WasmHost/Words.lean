import JoinedContext.Library.Csv
import JoinedContext.Library.Outcome
import JoinedContext.Library.Scan
import JoinedContext.Library.Text
import Mathlib.Data.List.TakeDrop

/-!
# The words of an App's statement

The scanner that reads a statement a second time behind PostgreSQL's own parser, and the tokens of a
statement: it answers the words of exactly the texts that are tokens one behind the other, and
nothing that stands in a string, in a dollar quote or in a comment has a part in its verdict.
-/

namespace JoinedContext.WasmHost.Sql

/-- The kind of statement an App sent. -/
inductive Kind where
  | read
  | write
deriving DecidableEq

/-- `char::is_alphanumeric` and `str::to_lowercase`. -/
structure Unicode where
  isAlphanumeric : Char → Bool
  toLowercase : String → String
  ascii : ∀ c : Char, c.toNat < 128 → isAlphanumeric c = c.isAlphanum

section Source

def FIRST : List String := ["select", "with", "insert", "update", "delete", "values"]

def REFUSED : List String :=
  ["set_config", "pg_notify", "pg_read_file", "pg_read_binary_file", "pg_ls_dir", "pg_stat_file",
    "pg_reload_conf", "pg_terminate_backend", "pg_cancel_backend", "query_to_xml",
    "query_to_xmlschema", "query_to_xml_and_xmlschema", "cursor_to_xml", "cursor_to_xmlschema",
    "dblink", "ts_stat", "ts_rewrite"]

/-- Function names an App's statement may not name, anywhere, quoted or not. -/
def refusedWord (word : String) : Bool :=
  REFUSED.contains word || (Text.stripPrefix "pg_advisory" word).isSome ||
    (Text.stripPrefix "pg_try_advisory" word).isSome || (Text.stripPrefix "lo_" word).isSome ||
    (Text.stripPrefix "dblink_" word).isSome

/-- What follows the quote that ends a string. -/
def closeString (escapes : Bool) : List Char → Option (List Char)
  | [] => none
  | [c] => if c = '\'' then some [] else none
  | c :: d :: rest =>
    if c = '\\' ∧ escapes = true then closeString escapes rest
    else if c = '\'' then if d = '\'' then closeString escapes rest else some (d :: rest)
    else closeString escapes (d :: rest)

/-- A quoted name, and what follows the quote that ends it. -/
def closeName : List Char → Option (List Char × List Char)
  | [] => none
  | [c] => if c = '"' then some ([], []) else none
  | c :: d :: rest =>
    if c = '"' then
      if d = '"' then (closeName rest).map fun p => ('"' :: p.1, p.2) else some ([], d :: rest)
    else (closeName (d :: rest)).map fun p => (c :: p.1, p.2)

/-- What follows the end of a comment that is open `depth` times. -/
def closeComment : ℕ → List Char → Option (List Char)
  | depth, c :: d :: rest =>
    if c = '/' ∧ d = '*' then closeComment (depth + 1) rest
    else if c = '*' ∧ d = '/' then
      if depth = 1 then some rest else closeComment (depth - 1) rest
    else closeComment depth (d :: rest)
  | _, _ => none

def dollarTag (name : List Char) : List Char := '$' :: (name ++ ['$'])

variable (u : Unicode)

def wordChar (c : Char) : Bool := u.isAlphanumeric c || c == '_'

/-- Whether the string that begins behind these characters, the last first, has escapes. -/
def opensEscape : List Char → Bool
  | [] => false
  | [c] => c == 'e' || c == 'E'
  | c :: d :: _ => (c == 'e' || c == 'E') && !wordChar u d

def unicodeEscape : List Char → Bool
  | c :: d :: q :: _ => (c == 'u' || c == 'U') && d == '&' && (q == '"' || q == '\'')
  | _ => false

/-- One turn of the scanner's loop, behind the characters read so far, the last first: the words it
finds, whether it reads a `;`, and the characters it leaves. -/
def scanOne (before : List Char) (c : Char) (rest : List Char) :
    Except String (List String × Bool × List Char) :=
  if c = '\'' then
    match closeString (opensEscape u before) rest with
    | none => .error "a string literal is not closed"
    | some left => .ok ([], false, left)
  else if c = '"' then
    match closeName rest with
    | none => .error "a quoted name is not closed"
    | some (name, left) => .ok ([String.ofList name], false, left)
  else if c = '-' ∧ rest.head? = some '-' then .ok ([], false, rest.dropWhile (· ≠ '\n'))
  else if c = '/' ∧ rest.head? = some '*' then
    match closeComment 0 (c :: rest) with
    | none => .error "a comment is not closed"
    | some left => .ok ([], false, left)
  else if c = '$' ∧ ¬ rest.head?.any Char.isDigit then
    match rest.dropWhile (wordChar u) with
    | [] => .error "a `$` that opens no quoted string"
    | d :: behind =>
      if d = '$' then
        match Scan.after? (dollarTag (rest.takeWhile (wordChar u))) behind with
        | none => .error "a dollar-quoted string is not closed"
        | some left => .ok ([], false, left)
      else .error "a `$` that opens no quoted string"
  else if c = ';' then .ok ([], true, rest)
  else if unicodeEscape (c :: rest) then
    .error "unicode-escaped names and strings are not taken"
  else if wordChar u c then
    .ok ([u.toLowercase (String.ofList (c :: rest.takeWhile (wordChar u)))], false,
      rest.dropWhile (wordChar u))
  else .ok ([], false, rest)

/-- The characters read so far when some of them are left, the last first. -/
def readTo (before text left : List Char) : List Char :=
  (text.take (text.length - left.length)).reverse ++ before

def wordsFrom : ℕ → List Char → List Char → Except String (List String × Bool)
  | n + 1, before, c :: rest =>
    match scanOne u before c rest with
    | .error why => .error why
    | .ok (out, semicolon, left) =>
      match wordsFrom n (readTo before (c :: rest) left) left with
      | .error why => .error why
      | .ok (more, later) => .ok (out ++ more, semicolon || later)
  | _, _, _ => .ok ([], false)

/-- The words of a statement outside its string literals, quoted identifiers and comments, and
whether it holds a `;` outside them. -/
def words (statement : String) : Except String (List String × Bool) :=
  wordsFrom u statement.length [] statement.toList

/-- Whether a `;` that ends the statement is the only one it holds. -/
def trailing (statement : String) : Bool :=
  ((Text.stripSuffix ";" (String.ofList (statement.toList.rdropWhile Text.whitespace))).map
    fun s => !s.toList.contains ';').getD false

/-- The verdict on the words of a statement. -/
def judged : List String → Except String Kind
  | [] => .error "the statement is empty"
  | first :: rest =>
    if !FIRST.contains first then
      .error ("`" ++ first ++ "` statements are not run for an application: only select, insert, " ++
        "update, delete and values")
    else
      match (first :: rest).find? refusedWord with
      | some word => .error ("`" ++ word ++ "` is not available to an application")
      | none =>
        if first = "select" ∧ (first :: rest).contains "into" then
          .error "`select … into` creates a table, which an application does not"
        else if first = "select" ∨ first = "values" then .ok .read
        else if first = "with" ∧
            ¬ (first :: rest).any (["insert", "update", "delete"].contains ·) then .ok .read
        else .ok .write

/-- The word scanner's verdict, the second check behind the parser's. -/
def scanned (statement : String) : Except String Kind :=
  match words u statement with
  | .error why => .error why
  | .ok (found, semicolon) =>
    if semicolon ∧ ¬ trailing statement then .error "one statement per call" else judged found

end Source

section Spec

/-- What may stand between the quotes of a string. -/
inductive Body (escapes : Bool) : List Char → Prop
  | nil : Body escapes []
  | plain {c : Char} {rest : List Char} : c ≠ '\'' → (escapes = true → c ≠ '\\') →
      Body escapes rest → Body escapes (c :: rest)
  | doubled {rest : List Char} : Body escapes rest → Body escapes ('\'' :: '\'' :: rest)
  | escaped {c : Char} {rest : List Char} : escapes = true → Body escapes rest →
      Body escapes ('\\' :: c :: rest)

/-- What stands behind the `/*` of a comment, to the `*/` that ends it; comments nest. -/
inductive Comment : List Char → Prop
  | close : Comment ['*', '/']
  | plain {c : Char} {rest : List Char} : ¬ (c = '/' ∧ rest.head? = some '*') →
      ¬ (c = '*' ∧ rest.head? = some '/') → Comment rest → Comment (c :: rest)
  | nested {inner rest : List Char} : Comment inner → Comment rest →
      Comment ('/' :: '*' :: (inner ++ rest))

inductive Token where
  | word (text : List Char)
  | string (body : List Char)
  | name (text : List Char)
  | line (text : List Char)
  | comment (body : List Char)
  | dollar (tag body : List Char)
  | semicolon
  | other (c : Char)

namespace Token

/-- A token as it is written. -/
def text : Token → List Char
  | word text => text
  | string body => '\'' :: (body ++ ['\''])
  | name text => '"' :: (Csv.escape text ++ ['"'])
  | line text => '-' :: '-' :: text
  | comment body => '/' :: '*' :: body
  | dollar tag body => dollarTag tag ++ (body ++ dollarTag tag)
  | semicolon => [';']
  | other c => [c]

variable (u : Unicode)

def words : Token → List String
  | word text => [u.toLowercase (String.ofList text)]
  | name text => [String.ofList text]
  | _ => []

def isSemicolon : Token → Bool
  | semicolon => true
  | _ => false

/-- Whether a token may stand between what is before it, the last character first, and what is
behind it. -/
def Fits (before behind : List Char) : Token → Prop
  | word text => text ≠ [] ∧ (∀ c ∈ text, wordChar u c = true) ∧
      (∀ c ∈ behind.head?, wordChar u c = false) ∧ unicodeEscape (text ++ behind) = false
  | string body => Body (opensEscape u before) body ∧ behind.head? ≠ some '\''
  | name _ => behind.head? ≠ some '"'
  | line text => '\n' ∉ text ∧ ∀ c ∈ behind.head?, c = '\n'
  | comment body => Comment body
  | dollar tag body => (∀ c ∈ tag, wordChar u c = true) ∧ (∀ c ∈ tag.head?, c.isDigit = false) ∧
      Scan.First (dollarTag tag) body
  | semicolon => True
  | other c => wordChar u c = false ∧ c ≠ '\'' ∧ c ≠ '"' ∧ c ≠ ';' ∧
      (c = '-' → behind.head? ≠ some '-') ∧ (c = '/' → behind.head? ≠ some '*') ∧
      (c = '$' → behind.head?.any Char.isDigit = true)

/-- Two tokens that differ only in what stands in a string, a dollar quote or a comment. -/
def Alike : Token → Token → Prop
  | string _, string _ => True
  | line _, line _ => True
  | comment _, comment _ => True
  | dollar _ _, dollar _ _ => True
  | t, t' => t = t'

end Token

/-- A text that is tokens one behind the other. -/
inductive Lexed (u : Unicode) : List Char → List Char → List Token → Prop
  | nil {before : List Char} : Lexed u before [] []
  | cons {before rest : List Char} {t : Token} {ts : List Token} : t.Fits u before rest →
      Lexed u (t.text.reverse ++ before) rest ts → Lexed u before (t.text ++ rest) (t :: ts)

end Spec

section Ends

variable {escapes : Bool} {l left : List Char}

theorem closeString_body {body : List Char} (h : Body escapes body)
    (hleft : left.head? ≠ some '\'') : closeString escapes (body ++ '\'' :: left) = some left := by
  induction h with
  | nil =>
    cases left with
    | nil => simp [closeString]
    | cons d left =>
      have hd : d ≠ '\'' := by simpa using hleft
      simp [closeString, hd]
  | @plain c rest hquote hescape _ ih =>
    have hnot : ¬ (c = '\\' ∧ escapes = true) := fun h => hescape h.2 h.1
    obtain ⟨d, more, hmore⟩ : ∃ d more, rest ++ '\'' :: left = d :: more :=
      List.exists_cons_of_ne_nil (by simp)
    rw [List.cons_append, hmore, closeString, if_neg hnot, if_neg hquote, ← hmore, ih]
  | doubled _ ih => simpa [closeString] using ih
  | escaped hescapes _ ih => simpa [closeString, hescapes] using ih

theorem closeString_eq_some : ∀ {l : List Char}, closeString escapes l = some left →
    ∃ body, Body escapes body ∧ left.head? ≠ some '\'' ∧ l = body ++ '\'' :: left
  | [], h => by simp [closeString] at h
  | [c], h => by
    unfold closeString at h
    split_ifs at h with hc
    obtain rfl := Option.some.inj h
    exact ⟨[], .nil, by simp, by rw [hc, List.nil_append]⟩
  | c :: d :: rest, h => by
    unfold closeString at h
    split_ifs at h with hescape hc hd
    · obtain ⟨body, hbody, hleft, rfl⟩ := closeString_eq_some h
      exact ⟨c :: d :: body, hescape.1 ▸ .escaped hescape.2 hbody, hleft, rfl⟩
    · obtain ⟨body, hbody, hleft, rfl⟩ := closeString_eq_some h
      exact ⟨c :: d :: body, hc ▸ hd ▸ .doubled hbody, hleft, rfl⟩
    · obtain rfl := Option.some.inj h
      exact ⟨[], .nil, by simpa using hd, by rw [hc, List.nil_append]⟩
    · obtain ⟨body, hbody, hleft, hrest⟩ := closeString_eq_some h
      exact ⟨c :: body, .plain hc (fun hescapes heq => hescape ⟨heq, hescapes⟩) hbody, hleft,
        by rw [hrest, List.cons_append]⟩

theorem closeName_escape : ∀ (name : List Char), left.head? ≠ some '"' →
    closeName (Csv.escape name ++ '"' :: left) = some (name, left)
  | [], hleft => by
    cases left with
    | nil => simp [closeName, Csv.escape]
    | cons d left =>
      have hd : d ≠ '"' := by simpa using hleft
      simp [closeName, Csv.escape, hd]
  | c :: name, hleft => by
    have hname := closeName_escape name hleft
    unfold Csv.escape at hname ⊢
    rw [List.flatMap_cons]
    by_cases hc : c = '"'
    · simp [closeName, hc, hname]
    · obtain ⟨d, more, hmore⟩ : ∃ d more, (name.flatMap fun c => if c = '"' then ['"', '"']
          else [c]) ++ '"' :: left = d :: more := List.exists_cons_of_ne_nil (by simp)
      rw [hmore] at hname
      rw [if_neg hc, List.singleton_append, List.cons_append, hmore, closeName, if_neg hc, hname]
      rfl

theorem closeName_eq_some : ∀ {l name left : List Char}, closeName l = some (name, left) →
    left.head? ≠ some '"' ∧ l = Csv.escape name ++ '"' :: left
  | [], _, _, h => by simp [closeName] at h
  | [c], name, left, h => by
    unfold closeName at h
    split_ifs at h with hc
    obtain ⟨rfl, rfl⟩ := Prod.mk.inj (Option.some.inj h)
    exact ⟨by simp, by rw [hc]; rfl⟩
  | c :: d :: rest, name, left, h => by
    unfold closeName at h
    split_ifs at h with hc hd
    · obtain ⟨⟨more, behind⟩, hmore, heq⟩ := Option.map_eq_some_iff.1 h
      obtain ⟨rfl, rfl⟩ := Prod.mk.inj heq
      obtain ⟨hleft, rfl⟩ := closeName_eq_some hmore
      exact ⟨hleft, by rw [hc, hd]; rfl⟩
    · obtain ⟨rfl, rfl⟩ := Prod.mk.inj (Option.some.inj h)
      exact ⟨by simpa using hd, by rw [hc]; rfl⟩
    · obtain ⟨⟨more, behind⟩, hmore, heq⟩ := Option.map_eq_some_iff.1 h
      obtain ⟨rfl, rfl⟩ := Prod.mk.inj heq
      obtain ⟨hleft, hrest⟩ := closeName_eq_some hmore
      refine ⟨hleft, ?_⟩
      unfold Csv.escape at hrest ⊢
      rw [hrest, List.flatMap_cons, if_neg hc]
      rfl

/-- A comment ends one of those that are open. -/
theorem closeComment_comment {body : List Char} (h : Comment body) (depth : ℕ) (left : List Char) :
    closeComment (depth + 1) (body ++ left) =
      if depth = 0 then some left else closeComment depth left := by
  induction h generalizing depth left with
  | close => simp [closeComment]
  | @plain c rest hopens hcloses hrest ih =>
    obtain ⟨d, more, rfl⟩ : ∃ d more, rest = d :: more :=
      List.exists_cons_of_ne_nil (by rintro rfl; cases hrest)
    simp only [List.head?_cons, Option.some.injEq] at hopens hcloses
    rw [List.cons_append, List.cons_append, closeComment, if_neg hopens, if_neg hcloses,
      ← List.cons_append, ih]
  | nested _ _ ihinner ihrest =>
    rw [List.cons_append, List.cons_append, closeComment, if_pos ⟨rfl, rfl⟩, List.append_assoc,
      ihinner, if_neg (Nat.succ_ne_zero depth), ihrest]

theorem exists_comment_of_closeComment : ∀ (n depth : ℕ) {l : List Char}, l.length ≤ n →
    closeComment (depth + 1) l = some left → ∃ body rest, Comment body ∧ l = body ++ rest ∧
      (if depth = 0 then some rest else closeComment depth rest) = some left
  | _, _, [], _, h => by simp [closeComment] at h
  | _, _, [_], _, h => by simp [closeComment] at h
  | n + 1, depth, c :: d :: rest, hn, h => by
    simp only [List.length_cons] at hn
    rw [closeComment] at h
    split_ifs at h with hopens hcloses hone
    · obtain ⟨inner, behind, hinner, rfl, hbehind⟩ :=
        exists_comment_of_closeComment n (depth + 1) (by omega) h
      rw [if_neg (Nat.succ_ne_zero depth)] at hbehind
      rw [List.length_append] at hn
      obtain ⟨body, last, hbody, rfl, hlast⟩ :=
        exists_comment_of_closeComment n depth (by omega) hbehind
      refine ⟨'/' :: '*' :: (inner ++ body), last, .nested hinner hbody, ?_, hlast⟩
      rw [hopens.1, hopens.2, List.cons_append, List.cons_append, List.append_assoc]
    · refine ⟨['*', '/'], rest, .close, by rw [hcloses.1, hcloses.2]; rfl, ?_⟩
      rw [if_pos (by omega)]
      exact h
    · refine ⟨['*', '/'], rest, .close, by rw [hcloses.1, hcloses.2]; rfl, ?_⟩
      rw [if_neg (by omega)]
      exact h
    · obtain ⟨body, last, hbody, hrest, hlast⟩ :=
        exists_comment_of_closeComment n depth (by rw [List.length_cons]; omega) h
      have hhead : body.head? = some d := by
        cases body with
        | nil => cases hbody
        | cons e body => rw [List.head?_cons, (List.cons.inj hrest).1]
      exact ⟨c :: body, last, .plain (by rwa [hhead, Option.some.injEq])
        (by rwa [hhead, Option.some.injEq]) hbody, by rw [hrest, List.cons_append], hlast⟩

theorem closeComment_eq_some : closeComment 0 ('/' :: '*' :: l) = some left ↔
    ∃ body, Comment body ∧ l = body ++ left := by
  rw [closeComment, if_pos ⟨rfl, rfl⟩]
  constructor
  · intro h
    obtain ⟨body, rest, hbody, rfl, hrest⟩ := exists_comment_of_closeComment _ 0 le_rfl h
    exact ⟨body, hbody, by rw [Option.some.inj hrest]⟩
  · rintro ⟨body, hbody, rfl⟩
    exact closeComment_comment hbody 0 left

end Ends

section Turns

variable {u : Unicode} {before rest left text : List Char} {c : Char} {t : Token}

theorem wordChar_ascii (h : c.toNat < 128) : wordChar u c = (c.isAlphanum || c == '_') := by
  rw [wordChar, u.ascii c h]

theorem ne_of_wordChar {d : Char} (hc : wordChar u c = true) (hd : d.toNat < 128)
    (hplain : (d.isAlphanum || d == '_') = false) : c ≠ d := by
  rintro rfl
  rw [wordChar_ascii hd, hplain] at hc
  cases hc

/-- An escape that names characters by their numbers begins with a letter. -/
theorem unicodeEscape_of_not_word (h : wordChar u c = false) : unicodeEscape (c :: left) = false := by
  by_contra hescape
  rw [Bool.not_eq_false] at hescape
  have hletter : c = 'u' ∨ c = 'U' := by
    unfold unicodeEscape at hescape
    split at hescape <;> simp_all
  have hword : wordChar u c = true := by
    rcases hletter with rfl | rfl <;>
    · rw [wordChar_ascii (by decide)]
      decide
  rw [hword] at h
  cases h

/-- A run of characters that is as long as can be. -/
theorem span_append {p : Char → Bool} (hall : ∀ c ∈ text, p c = true)
    (hstop : ∀ c ∈ left.head?, p c = false) :
    (text ++ left).takeWhile p = text ∧ (text ++ left).dropWhile p = left := by
  rw [List.takeWhile_append_of_pos hall, List.dropWhile_append_of_pos hall]
  cases left with
  | nil => simp
  | cons d left => simp [hstop d rfl]

theorem exists_span (p : Char → Bool) (l : List Char) : ∃ text left, l = text ++ left ∧
    l.takeWhile p = text ∧ l.dropWhile p = left ∧ (∀ c ∈ text, p c = true) ∧
      ∀ c ∈ left.head?, p c = false := by
  refine ⟨_, _, (List.takeWhile_append_dropWhile (p := p)).symm, rfl, rfl,
    fun c hc => List.mem_takeWhile_imp hc, fun c hc => ?_⟩
  have hnot := List.head?_dropWhile_not p l
  rw [Option.mem_def] at hc
  rw [hc] at hnot
  simpa using hnot

theorem Token.Fits.text_ne_nil (h : t.Fits u before left) : t.text ≠ [] := by
  cases t <;> simp_all [Token.text, Token.Fits, dollarTag]

/-- What a turn reads is a token. -/
theorem exists_token {out : List String} {semicolon : Bool}
    (h : scanOne u before c rest = .ok (out, semicolon, left)) :
    ∃ t : Token, c :: rest = t.text ++ left ∧ t.Fits u before left ∧ out = t.words u ∧
      semicolon = t.isSemicolon := by
  unfold scanOne at h
  split_ifs at h with hquote hname hline hcomment hdollar hsemicolon hunicode hword
  · split at h
    · cases h
    · next behind hclose =>
      cases h
      obtain ⟨body, hbody, hbehind, rfl⟩ := closeString_eq_some hclose
      exact ⟨.string body, by simp [Token.text, hquote], ⟨hbody, hbehind⟩, rfl, rfl⟩
  · split at h
    · cases h
    · next name behind hclose =>
      cases h
      obtain ⟨hbehind, rfl⟩ := closeName_eq_some hclose
      exact ⟨.name name, by simp [Token.text, hname], hbehind, rfl, rfl⟩
  · cases h
    obtain ⟨rest, rfl⟩ : ∃ more, rest = '-' :: more := by
      cases rest <;> simp_all
    obtain ⟨text, behind, hrest, -, hdrop, hall, hstop⟩ := exists_span (· ≠ '\n') rest
    refine ⟨.line text, ?_, ⟨fun hmem => ?_, fun c hc => ?_⟩, rfl, rfl⟩
    · rw [List.dropWhile_cons_of_pos (by decide), hdrop, hline.1, hrest]
      rfl
    · simpa using hall _ hmem
    · rw [List.dropWhile_cons_of_pos (by decide), hdrop] at hc
      simpa using hstop c hc
  · split at h
    · cases h
    · next behind hclose =>
      cases h
      obtain ⟨rest, rfl⟩ : ∃ more, rest = '*' :: more := by
        cases rest <;> simp_all
      rw [hcomment.1] at hclose
      obtain ⟨body, hbody, rfl⟩ := closeComment_eq_some.1 hclose
      exact ⟨.comment body, by rw [hcomment.1]; rfl, hbody, rfl, rfl⟩
  · obtain ⟨tag, more, rfl, htake, hdrop, hall, -⟩ := exists_span (wordChar u) rest
    rw [htake, hdrop] at h
    split at h
    · cases h
    · next d behind =>
      split_ifs at h with hd
      split at h
      · cases h
      · next found hfound =>
        cases h
        obtain ⟨body, rfl, hearly⟩ := Scan.after?_eq_some.1 hfound
        refine ⟨.dollar tag body, ?_, ⟨hall, fun e he => ?_, hearly⟩, rfl, rfl⟩
        · simp [Token.text, dollarTag, hdollar.1, hd]
        · rw [Option.mem_def] at he
          simpa [he] using hdollar.2
  · cases h
    exact ⟨.semicolon, by rw [hsemicolon]; rfl, trivial, rfl, rfl⟩
  · cases h
    obtain ⟨text, behind, hrest, htake, hdrop, hall, hstop⟩ := exists_span (wordChar u) rest
    refine ⟨.word (c :: text), ?_, ⟨by simp, ?_, ?_, ?_⟩, ?_, rfl⟩
    · rw [hdrop, hrest]
      rfl
    · exact List.forall_mem_cons.2 ⟨hword, hall⟩
    · rwa [hdrop]
    · rw [hdrop, List.cons_append, ← hrest]
      exact Bool.not_eq_true _ ▸ hunicode
    · rw [htake]
      rfl
  · cases h
    refine ⟨.other c, rfl, ⟨Bool.not_eq_true _ ▸ hword, hquote, hname, hsemicolon,
      fun hc hhead => hline ⟨hc, hhead⟩, fun hc hhead => hcomment ⟨hc, hhead⟩, fun hc => ?_⟩, rfl,
      rfl⟩
    by_contra hdigit
    exact hdollar ⟨hc, hdigit⟩

/-- A token that stands where it may is read by a turn. -/
theorem scanOne_token (h : t.Fits u before left) (htext : t.text = c :: text) :
    scanOne u before c (text ++ left) = .ok (t.words u, t.isSemicolon, left) := by
  cases t with
  | word word =>
    obtain ⟨-, hall, hstop, hunicode⟩ := h
    obtain rfl : word = c :: text := htext
    obtain ⟨hc, hmore⟩ := List.forall_mem_cons.1 hall
    obtain ⟨htake, hdrop⟩ := span_append hmore hstop
    have hne : ∀ d : Char, d.toNat < 128 → (d.isAlphanum || d == '_') = false → c ≠ d :=
      fun _ => ne_of_wordChar hc
    unfold scanOne
    rw [if_neg (hne _ (by decide) (by decide)), if_neg (hne _ (by decide) (by decide)),
      if_neg fun h => hne _ (by decide) (by decide) h.1,
      if_neg fun h => hne _ (by decide) (by decide) h.1,
      if_neg fun h => hne _ (by decide) (by decide) h.1, if_neg (hne _ (by decide) (by decide)),
      ← List.cons_append, hunicode, if_neg Bool.false_ne_true, if_pos hc, htake, hdrop]
    rfl
  | string body =>
    obtain ⟨rfl, rfl⟩ := List.cons.inj htext
    unfold scanOne
    rw [if_pos rfl, List.append_assoc, List.singleton_append, closeString_body h.1 h.2]
    rfl
  | name name =>
    obtain ⟨rfl, rfl⟩ := List.cons.inj htext
    unfold scanOne
    rw [if_neg (by decide), if_pos rfl, List.append_assoc, List.singleton_append,
      closeName_escape name h]
    rfl
  | line line =>
    obtain ⟨rfl, rfl⟩ := List.cons.inj htext
    have hdrop : (line ++ left).dropWhile (· ≠ '\n') = left := (span_append
      (fun c hc => by simpa using fun heq : c = '\n' => h.1 (heq ▸ hc))
      (fun c hc => by simpa using h.2 c hc)).2
    unfold scanOne
    rw [if_neg (by decide), if_neg (by decide), if_pos ⟨rfl, rfl⟩, List.cons_append,
      List.dropWhile_cons_of_pos (by decide), hdrop]
    rfl
  | comment body =>
    obtain ⟨rfl, rfl⟩ := List.cons.inj htext
    unfold scanOne
    rw [if_neg (by decide), if_neg (by decide), if_neg (by simp), if_pos ⟨rfl, rfl⟩,
      List.cons_append, closeComment_eq_some.2 ⟨body, h, rfl⟩]
    rfl
  | dollar tag body =>
    obtain ⟨hall, hdigit, hearly⟩ := h
    obtain ⟨rfl, htail⟩ := List.cons.inj htext
    have hstop : ∀ d ∈ ('$' :: (body ++ dollarTag tag) ++ left).head?, wordChar u d = false := by
      intro d hd
      obtain rfl : '$' = d := by simpa using hd
      rw [wordChar_ascii (by decide)]
      decide
    have hsplit : text ++ left = tag ++ ('$' :: (body ++ dollarTag tag) ++ left) := by
      rw [← htail]
      simp
    obtain ⟨htake, hdrop⟩ := span_append hall hstop
    have hnext : ¬ (tag ++ ('$' :: (body ++ dollarTag tag) ++ left)).head?.any Char.isDigit := by
      cases tag with
      | nil => simp
      | cons d tag => simpa using hdigit d rfl
    have hfound : Scan.after? (dollarTag tag) (body ++ dollarTag tag ++ left) = some left :=
      Scan.after?_eq_some.2 ⟨body, List.append_assoc _ _ _, hearly⟩
    unfold scanOne
    rw [if_neg (by decide), if_neg (by decide), if_neg (by simp), if_neg (by simp), hsplit,
      if_pos ⟨rfl, hnext⟩, htake, hdrop, List.cons_append]
    simp only [if_pos, hfound]
    rfl
  | semicolon =>
    obtain ⟨rfl, rfl⟩ := List.cons.inj htext
    unfold scanOne
    rw [if_neg (by decide), if_neg (by decide), if_neg (by simp), if_neg (by simp),
      if_neg (by simp), if_pos rfl]
    rfl
  | other d =>
    obtain ⟨rfl, rfl⟩ := List.cons.inj htext
    obtain ⟨hword, hquote, hname, hsemicolon, hline, hcomment, hdollar⟩ := h
    unfold scanOne
    rw [List.nil_append, if_neg hquote, if_neg hname, if_neg fun h => hline h.1 h.2,
      if_neg fun h => hcomment h.1 h.2, if_neg fun h => h.2 (hdollar h.1), if_neg hsemicolon,
      unicodeEscape_of_not_word hword, if_neg Bool.false_ne_true, hword, if_neg Bool.false_ne_true]
    rfl

end Turns

section Statements

variable {u : Unicode} {before text : List Char} {ts ts' : List Token} {t t' : Token}
  {found : List String} {semicolon : Bool} {s s' : String}

theorem readTo_append (read left : List Char) :
    readTo before (read ++ left) left = read.reverse ++ before := by
  simp [readTo]

theorem wordsFrom_of_lexed (h : Lexed u before text ts) : ∀ {n : ℕ}, text.length ≤ n →
    wordsFrom u n before text =
      .ok (ts.flatMap (Token.words u), ts.any Token.isSemicolon) := by
  induction h with
  | nil =>
    rintro (_ | n) - <;> rfl
  | @cons before rest t ts hfits _ ih =>
    intro n hn
    obtain ⟨c, text, htext⟩ := List.exists_cons_of_ne_nil hfits.text_ne_nil
    rw [htext, List.cons_append, List.length_cons, List.length_append] at hn
    obtain ⟨n, rfl⟩ : ∃ m, n = m + 1 := ⟨n - 1, by omega⟩
    have hread : readTo before (c :: (text ++ rest)) rest = t.text.reverse ++ before := by
      rw [← List.cons_append, ← htext, readTo_append]
    rw [htext, List.cons_append, wordsFrom, scanOne_token hfits htext]
    simp only [hread, ih (n := n) (by omega)]
    rfl

theorem lexed_of_wordsFrom : ∀ {n : ℕ} {before text : List Char} {found : List String}
    {semicolon : Bool}, text.length ≤ n → wordsFrom u n before text = .ok (found, semicolon) →
      ∃ ts, Lexed u before text ts ∧ found = ts.flatMap (Token.words u) ∧
        semicolon = ts.any Token.isSemicolon
  | n, before, [], found, semicolon, _, h => by
    rcases n with _ | n <;>
    · unfold wordsFrom at h
      cases h
      exact ⟨[], .nil, rfl, rfl⟩
  | 0, _, _ :: _, _, _, hn, _ => by simp at hn
  | n + 1, before, c :: rest, found, semicolon, hn, h => by
    unfold wordsFrom at h
    split at h
    · cases h
    · next out one left hone =>
      obtain ⟨t, htext, hfits, rfl, rfl⟩ := exists_token hone
      have hpos := List.length_pos_iff.2 hfits.text_ne_nil
      have hlen := congrArg List.length htext
      rw [List.length_append] at hlen
      split at h
      · cases h
      · next more later hmore =>
        cases h
        rw [htext, readTo_append] at hmore
        obtain ⟨ts, hts, rfl, rfl⟩ := lexed_of_wordsFrom (by omega) hmore
        exact ⟨t :: ts, htext ▸ .cons hfits hts, rfl, rfl⟩

theorem words_of_lexed (h : Lexed u [] s.toList ts) :
    words u s = .ok (ts.flatMap (Token.words u), ts.any Token.isSemicolon) :=
  wordsFrom_of_lexed h le_rfl

/-- The scanner answers exactly the texts that are tokens one behind the other, with the words of
their words and quoted names, and with whether a `;` is one of them. -/
theorem words_eq_ok : words u s = .ok (found, semicolon) ↔ ∃ ts, Lexed u [] s.toList ts ∧
    found = ts.flatMap (Token.words u) ∧ semicolon = ts.any Token.isSemicolon := by
  constructor
  · exact lexed_of_wordsFrom le_rfl
  · rintro ⟨ts, hts, rfl, rfl⟩
    exact words_of_lexed hts

theorem Token.Alike.same (h : t.Alike t') :
    t.words u = t'.words u ∧ t.isSemicolon = t'.isSemicolon := by
  cases t <;> cases t' <;> simp_all [Token.Alike, Token.words, Token.isSemicolon]

theorem same_of_alike (h : List.Forall₂ Token.Alike ts ts') :
    ts.flatMap (Token.words u) = ts'.flatMap (Token.words u) ∧
      ts.any Token.isSemicolon = ts'.any Token.isSemicolon := by
  induction h with
  | nil => exact ⟨rfl, rfl⟩
  | cons h _ ih =>
    obtain ⟨hwords, hsemicolon⟩ := h.same (u := u)
    simp only [List.flatMap_cons, List.any_cons, hwords, hsemicolon, ih, and_self]

/-- Two statements that differ only in what stands in strings, dollar quotes and comments have one
verdict, unless a `;` of theirs has to be the only one. -/
theorem scanned_alike (hs : Lexed u [] s.toList ts) (hs' : Lexed u [] s'.toList ts')
    (halike : List.Forall₂ Token.Alike ts ts')
    (hone : ts.any Token.isSemicolon = true → trailing s = trailing s') :
    scanned u s = scanned u s' := by
  obtain ⟨hfound, hsemicolon⟩ := same_of_alike (u := u) halike
  unfold scanned
  rw [words_of_lexed hs, words_of_lexed hs', hfound, hsemicolon]
  cases hany : ts'.any Token.isSemicolon with
  | false => simp
  | true => simp only [true_and, hone (hsemicolon.trans hany)]

/-- ASCII alone. -/
def asciiUnicode : Unicode := ⟨Char.isAlphanum, fun s => s.map Char.toLower, fun _ _ => rfl⟩

theorem body_of_plain : ∀ {body : List Char}, (∀ c ∈ body, c ≠ '\'') → Body false body
  | [], _ => .nil
  | _ :: _, h => .plain (List.forall_mem_cons.1 h).1 nofun (body_of_plain (List.forall_mem_cons.1 h).2)

theorem lexed_select (body : List Char) (h : Body false body) : Lexed asciiUnicode []
    (['s', 'e', 'l', 'e', 'c', 't'] ++ ([' '] ++ ('\'' :: (body ++ ['\'']) ++ [])))
    [.word ['s', 'e', 'l', 'e', 'c', 't'], .other ' ', .string body] := by
  refine .cons (t := .word ['s', 'e', 'l', 'e', 'c', 't']) ⟨by decide, by simp [wordChar, asciiUnicode], ?_, rfl⟩
    (.cons (t := .other ' ') ⟨by decide, by decide, by decide, by decide, nofun, nofun, nofun⟩
      (.cons (t := .string body) ⟨h, by decide⟩ .nil))
  intro c hc
  obtain rfl : ' ' = c := by simpa using hc
  decide

/-- A refused name in a string is a text like any other. -/
theorem scanned_string : scanned asciiUnicode "select 'lo_import'" =
    scanned asciiUnicode "select 'a'" :=
  scanned_alike (lexed_select "lo_import".toList (body_of_plain (by simp)))
    (lexed_select ['a'] (body_of_plain (by simp)))
    (.cons rfl (.cons rfl (.cons trivial .nil))) (by decide)

end Statements

end JoinedContext.WasmHost.Sql
