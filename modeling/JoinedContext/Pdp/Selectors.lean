import JoinedContext.Core.Policy

/-!
# Id selectors and scopes

How a grant's id patterns match an id, and how its scope paths are read: folded into an anchored
regex term of `q` for the broker, or compared with an entity's own scope.
-/

namespace JoinedContext

namespace IdMatch

inductive IdMatcher where
  | exact (literal : String)
  | pattern (isMatch : String → Bool)
  | nothing

def unescape : List Char → Option (List Char)
  | [] => some []
  | ['\\'] => none
  | '\\' :: d :: rest => (unescape rest).map (d :: ·)
  | c :: rest => (unescape rest).map (c :: ·)

/-- The literal an anchored pattern names when it is nothing but an escaped string. -/
def exact (pattern : String) : Option String := do
  let inner ← Text.stripSuffix "$" (← Text.stripPrefix "^" pattern)
  let literal := String.ofList (← unescape inner.toList)
  if regexEscape literal = inner then some literal else none

def compile (crates : Crates) (pattern : String) : IdMatcher :=
  match exact pattern with
  | some literal => .exact literal
  | none =>
    match crates.regex pattern with
    | some isMatch => .pattern isMatch
    | none => .nothing

def IdMatcher.matches : IdMatcher → String → Bool
  | .exact literal, id => literal == id
  | .pattern isMatch, id => isMatch id
  | .nothing, _ => false

def permits (crates : Crates) (patterns : Finset String) (id : String) : Bool :=
  decide (patterns = ∅ ∨ ∃ p ∈ patterns, (compile crates p).matches id = true)

theorem permits_iff {crates : Crates} {patterns : Finset String} {id : String} :
    permits crates patterns id = true ↔
      patterns = ∅ ∨ ∃ p ∈ patterns, (compile crates p).matches id = true := by
  simp [permits]

@[simp] theorem permits_empty (crates : Crates) (id : String) : permits crates ∅ id = true := by
  simp [permits]

theorem unescape_escape : ∀ cs : List Char,
    unescape (cs.flatMap fun c => if isMetaCharacter c then ['\\', c] else [c]) = some cs
  | [] => rfl
  | c :: cs => by
    by_cases h : isMetaCharacter c = true
    · simp [h, unescape, unescape_escape cs]
    · have hc : c ≠ '\\' := fun heq => h (heq ▸ by decide)
      simp only [List.flatMap_cons, h, Bool.false_eq_true, if_false, List.singleton_append]
      rw [unescape.eq_4 _ _ (fun hcs _ => hc hcs) (fun _ _ hcs _ => hc hcs), unescape_escape cs]
      rfl

/-- The pattern an exact `id` selector is written as names that id and no other. -/
theorem exact_regexEscape (id : String) : exact ("^" ++ regexEscape id ++ "$") = some id := by
  have hbegins : Text.stripPrefix "^" ("^" ++ regexEscape id ++ "$") =
      some (regexEscape id ++ "$") := by
    rw [Text.stripPrefix_eq_some]
    simp
  have hsuffix : Text.stripSuffix "$" (regexEscape id ++ "$") = some (regexEscape id) := by
    rw [Text.stripSuffix_eq_some]
    simp
  have hinner : unescape (regexEscape id).toList = some id.toList := by
    rw [regexEscape, String.toList_ofList]
    exact unescape_escape id.toList
  simp [exact, hbegins, hsuffix, hinner]

end IdMatch

namespace ScopeFolding

def dropSubtree : List Char → List Char
  | '#' :: '/' :: rest => dropSubtree rest
  | cs => cs

/-- A scope path without the subtree wildcard and the slashes it ends in. -/
def trimPath (path : String) : String :=
  String.ofList ((dropSubtree path.toList.reverse).dropWhile (· == '/')).reverse

def grantedScopes (scopeQ : String) : List String :=
  ((Text.splitAny ['(', ')', ';', '|', ','] scopeQ).map Text.trim).filter (Text.startsWith '/')

def paths (scopeQ : String) : List String :=
  ((grantedScopes scopeQ).map trimPath).filter (· != "")

def term (path : String) : String := "scope~=\"^" ++ regexEscape path ++ "(/.*)?$\""

def fold (scopeQ : String) : Option String :=
  match (paths scopeQ).map term with
  | [] => none
  | [one] => some one
  | terms => some ("(" ++ Text.join "|" terms ++ ")")

/-- A term of `q` is a comparison that ends in one quoted string. -/
theorem term_eq_ofList (path : String) : term path = String.ofList ('s' :: ("cope~=".toList ++
    '"' :: (('^' :: ((regexEscape path).toList ++ "(/.*)?$".toList)) ++ ['"']))) := by
  apply String.toList_injective
  simp [term]

/-- Whether a granted scope path covers a scope, as a path prefix rather than a string prefix. -/
def covers (granted scope : String) : Bool :=
  scope == trimPath granted ||
    (Text.stripPrefix (trimPath granted) scope).any (Text.startsWith '/')

theorem covers_iff {granted scope : String} :
    covers granted scope = true ↔ scope = trimPath granted ∨
      ∃ rest, scope.toList = (trimPath granted).toList ++ '/' :: rest := by
  unfold covers
  rw [Bool.or_eq_true, beq_iff_eq]
  refine or_congr Iff.rfl ?_
  rw [Option.any_eq_true_iff_get]
  constructor
  · rintro ⟨hsome, hstart⟩
    obtain ⟨rest, hrest⟩ := Text.startsWith_iff.1 hstart
    exact ⟨rest, by rw [Text.stripPrefix_eq_some.1 (Option.some_get hsome).symm, hrest]⟩
  · rintro ⟨rest, hrest⟩
    have hstrip : Text.stripPrefix (trimPath granted) scope =
        some (String.ofList ('/' :: rest)) := by
      rw [Text.stripPrefix_eq_some, hrest, String.toList_ofList]
    simp [hstrip, Text.startsWith]

theorem covers_trimPath (granted : String) : covers granted (trimPath granted) = true :=
  covers_iff.2 (Or.inl rfl)

/-- What lies under a scope a path covers lies under the path. -/
theorem covers_trans {wider granted scope : String}
    (hwider : covers wider (trimPath granted) = true) (h : covers granted scope = true) :
    covers wider scope = true := by
  rw [covers_iff] at h hwider ⊢
  rcases h with rfl | ⟨rest, hrest⟩
  · exact hwider
  · right
    rcases hwider with heq | ⟨more, hmore⟩
    · exact ⟨rest, by rw [hrest, heq]⟩
    · exact ⟨more ++ '/' :: rest, by rw [hrest, hmore]; simp⟩

theorem grantedScopes_append (s t : String) :
    grantedScopes (s ++ "|" ++ t) = grantedScopes s ++ grantedScopes t := by
  have hsplit : Text.splitAny ['(', ')', ';', '|', ','] (s ++ String.ofList ['|'] ++ t) =
      Text.splitAny ['(', ')', ';', '|', ','] s ++ Text.splitAny ['(', ')', ';', '|', ','] t :=
    Text.splitAny_append (by decide) s t
  unfold grantedScopes
  rw [← List.filter_append, ← List.map_append, ← hsplit]

end ScopeFolding

end JoinedContext
