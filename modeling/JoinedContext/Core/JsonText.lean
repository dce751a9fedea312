import JoinedContext.Core.Json
import JoinedContext.Library.Text

/-!
# The text of a JSON value

The compact text `serde_json` writes, with the texts of a value: its strings, and the keys of its
objects. Each of them stands in the text of the value between quotes, changed in no character that
needs no escape.
-/

namespace JoinedContext.Value

def hexDigit (n : Nat) : Char := Char.ofNat (if n < 10 then 48 + n else 87 + n)

def escapeChar (c : Char) : List Char :=
  if c = '"' then ['\\', '"']
  else if c = '\\' then ['\\', '\\']
  else if c.toNat = 0x08 then ['\\', 'b']
  else if c.toNat = 0x0C then ['\\', 'f']
  else if c = '\n' then ['\\', 'n']
  else if c = '\r' then ['\\', 'r']
  else if c = '\t' then ['\\', 't']
  else if c.toNat < 0x20 then
    ['\\', 'u', '0', '0', hexDigit (c.toNat / 16), hexDigit (c.toNat % 16)]
  else [c]

def escape (s : String) : List Char := s.toList.flatMap escapeChar

def quote (s : String) : List Char := '"' :: escape s ++ ['"']

mutual

def toChars : Value → List Char
  | .null => "null".toList
  | .bool b => (toString b).toList
  | .num mantissa exponent =>
    (toString mantissa).toList ++ if exponent = 0 then [] else 'e' :: (toString exponent).toList
  | .str s => quote s
  | .arr items => '[' :: itemsToChars items ++ [']']
  | .obj members => '{' :: membersToChars members ++ ['}']

def itemsToChars : List Value → List Char
  | [] => []
  | v :: rest => toChars v ++ (if rest.isEmpty then [] else [',']) ++ itemsToChars rest

def membersToChars : List (String × Value) → List Char
  | [] => []
  | (key, v) :: rest =>
    quote key ++ ':' :: toChars v ++ (if rest.isEmpty then [] else [',']) ++ membersToChars rest

end

def toText (v : Value) : String := String.ofList v.toChars

mutual

/-- The strings of a value, the keys of its objects included. -/
def texts : Value → List String
  | .str s => [s]
  | .arr items => itemsTexts items
  | .obj members => membersTexts members
  | _ => []

def itemsTexts : List Value → List String
  | [] => []
  | v :: rest => texts v ++ itemsTexts rest

def membersTexts : List (String × Value) → List String
  | [] => []
  | (key, v) :: rest => key :: texts v ++ membersTexts rest

end

theorem hexDigit_isAlphanum : ∀ {n : Nat}, n < 16 → (hexDigit n).isAlphanum = true := by decide

theorem escapeChar_eq_or (c : Char) : escapeChar c = [c] ∨ '\\' ∈ escapeChar c := by
  unfold escapeChar
  split_ifs <;> simp

/-- An escape is written in letters and digits. -/
theorem mem_escapeChar {c d : Char} (h : d ∈ escapeChar c) :
    d = c ∨ d = '\\' ∨ d = '"' ∨ d.isAlphanum = true := by
  rcases escapeChar_eq_or c with heq | hescaped
  · rw [heq, List.mem_singleton] at h
    exact .inl h
  unfold escapeChar at h
  split_ifs at h with h₁ h₂ h₃ h₄ h₅ h₆ h₇ h₈
  all_goals simp only [List.mem_cons, List.not_mem_nil, or_false] at h
  · exact .inr (h.imp_right .inl)
  · exact .inr (.inl (or_self_iff.1 h))
  · rcases h with rfl | rfl <;> simp
  · rcases h with rfl | rfl <;> simp
  · rcases h with rfl | rfl <;> simp
  · rcases h with rfl | rfl <;> simp
  · rcases h with rfl | rfl <;> simp
  · rcases h with rfl | rfl | rfl | rfl | rfl | rfl
    · simp
    · simp
    · simp
    · simp
    · exact .inr (.inr (.inr (hexDigit_isAlphanum (by omega))))
    · exact .inr (.inr (.inr (hexDigit_isAlphanum (by omega))))
  · exact .inl h

/-- What is written with no escape is what was read. -/
theorem flatMap_escapeChar_eq {cs : List Char} (h : '\\' ∉ cs.flatMap escapeChar) :
    cs.flatMap escapeChar = cs := by
  have hplain : ∀ c ∈ cs, escapeChar c = [c] := fun c hc =>
    (escapeChar_eq_or c).resolve_right fun hmem => h (List.mem_flatMap.2 ⟨c, hc, hmem⟩)
  rw [List.flatMap_congr hplain, List.flatMap_singleton']

mutual

/-- A text of a value stands in the text of the value, between quotes. -/
theorem quote_infix_toChars {s : String} : ∀ {v : Value}, s ∈ v.texts → quote s <:+: v.toChars
  | .str t, h => by
    simp only [texts, List.mem_singleton] at h
    rw [h, toChars]
  | .arr items, h => by
    simp only [texts] at h
    rw [toChars]
    exact (quote_infix_itemsToChars h).trans (List.infix_append' ['['] _ [']'])
  | .obj members, h => by
    simp only [texts] at h
    rw [toChars]
    exact (quote_infix_membersToChars h).trans (List.infix_append' ['{'] _ ['}'])
  | .null, h => by simp [texts] at h
  | .bool _, h => by simp [texts] at h
  | .num _ _, h => by simp [texts] at h

theorem quote_infix_itemsToChars {s : String} : ∀ {items : List Value},
    s ∈ itemsTexts items → quote s <:+: itemsToChars items
  | [], h => by simp [itemsTexts] at h
  | v :: rest, h => by
    rw [itemsTexts, List.mem_append] at h
    rw [itemsToChars, List.append_assoc]
    rcases h with h | h
    · exact (quote_infix_toChars h).trans (List.prefix_append _ _).isInfix
    · refine (quote_infix_itemsToChars h).trans ?_
      rw [← List.append_assoc]
      exact (List.suffix_append _ _).isInfix

theorem quote_infix_membersToChars {s : String} : ∀ {members : List (String × Value)},
    s ∈ membersTexts members → quote s <:+: membersToChars members
  | [], h => by simp [membersTexts] at h
  | (key, v) :: rest, h => by
    rw [membersTexts, List.cons_append, List.mem_cons, List.mem_append] at h
    rw [membersToChars]
    rcases h with rfl | h | h
    · rw [List.append_assoc, List.append_assoc]
      exact (List.prefix_append _ _).isInfix
    · exact (quote_infix_toChars h).trans ⟨quote key ++ [':'],
        (if rest.isEmpty then [] else [',']) ++ membersToChars rest, by simp⟩
    · exact (quote_infix_membersToChars h).trans (List.suffix_append _ _).isInfix

end

end JoinedContext.Value
