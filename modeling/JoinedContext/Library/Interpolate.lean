import JoinedContext.Library.Text

/-!
# Texts with variables in them

A text in which `${NAME}` and `${NAME:default}` stand for the value of a variable. A text without
them is itself in every environment; one with them can be made to hold any text at all.
-/

namespace JoinedContext.Interpolate

inductive Piece where
  | lit (c : Char)
  | var (name default : List Char)

def nameChar (c : Char) : Bool := c.isAlphanum || c == '_' || c == '.'

/-- The variable a text begins with, as its name, its default and the rest of the text. -/
def readVariable (text : List Char) : Option (List Char × List Char × List Char) := do
  let text ← ['$', '{'].isPrefixOf? text
  let name := text.takeWhile nameChar
  if name = [] then none
  else match text.dropWhile nameChar with
    | '}' :: rest => some (name, [], rest)
    | ':' :: rest =>
      match rest.dropWhile (· != '}') with
      | _ :: after => some (name, rest.takeWhile (· != '}'), after)
      | [] => none
    | _ => none

def piecesFrom : Nat → List Char → List Piece
  | 0, _ => []
  | _ + 1, [] => []
  | fuel + 1, c :: rest =>
    match readVariable (c :: rest) with
    | some (name, default, after) => .var name default :: piecesFrom fuel after
    | none => .lit c :: piecesFrom fuel rest

def pieces (text : String) : List Piece := piecesFrom text.toList.length text.toList

def Piece.isLit : Piece → Bool
  | .lit _ => true
  | .var _ _ => false

/-- A variable that is not set stands for its default. -/
def Piece.value (env : String → Option String) : Piece → List Char
  | .lit c => [c]
  | .var name default => ((env (String.ofList name)).map String.toList).getD default

def expand (env : String → Option String) (text : String) : String :=
  String.ofList ((pieces text).flatMap (Piece.value env))

/-- Whether a text has no variable in it. -/
def literal (text : String) : Bool := (pieces text).all Piece.isLit

variable {env : String → Option String}

theorem flatMap_value_of_literal : ∀ {n : Nat} {text : List Char}, text.length ≤ n →
    (piecesFrom n text).all Piece.isLit = true →
      (piecesFrom n text).flatMap (Piece.value env) = text
  | 0, text, hn, _ => by
    rw [List.length_eq_zero_iff.1 (Nat.le_zero.1 hn)]
    rfl
  | n + 1, [], _, _ => rfl
  | n + 1, c :: rest, hn, hlit => by
    unfold piecesFrom at hlit ⊢
    cases hvar : readVariable (c :: rest) with
    | some found =>
      rw [hvar] at hlit
      cases hlit
    | none =>
      simp only [hvar, List.all_cons, Bool.and_eq_true] at hlit ⊢
      rw [List.flatMap_cons, flatMap_value_of_literal (by simpa using hn) hlit.2]
      rfl

theorem expand_of_literal {text : String} (h : literal text = true) : expand env text = text := by
  unfold expand
  rw [pieces, flatMap_value_of_literal le_rfl h, String.ofList_toList]

theorem readVariable_of_ne {c : Char} (h : c ≠ '$') (rest : List Char) :
    readVariable (c :: rest) = none := by
  simp [readVariable, List.isPrefixOf?, Ne.symm h]

theorem piecesFrom_append : ∀ {before : List Char} {n : Nat} {rest : List Char}, '$' ∉ before →
    piecesFrom (before.length + n) (before ++ rest) = before.map Piece.lit ++ piecesFrom n rest
  | [], n, rest, _ => by simp
  | c :: before, n, rest, h => by
    rw [List.mem_cons, not_or] at h
    have ih := @piecesFrom_append before n rest h.2
    rw [List.length_cons, Nat.add_right_comm, List.cons_append, piecesFrom,
      readVariable_of_ne (Ne.symm h.1), ih]
    rfl

/-- A text before which no variable begins. -/
theorem literal_append {before : String} (h : '$' ∉ before.toList) (rest : String) :
    literal (before ++ rest) = literal rest := by
  have hlit : (before.toList.map Piece.lit).all Piece.isLit = true := by
    simp [Piece.isLit]
  unfold literal pieces
  rw [String.toList_append, List.length_append, piecesFrom_append h, List.all_append, hlit,
    Bool.true_and]

theorem literal_of_notMem {text : String} (h : '$' ∉ text.toList) : literal text = true := by
  have hempty := literal_append h ""
  rw [String.append_empty] at hempty
  exact hempty

/-- What begins with a sign that begins no variable. -/
theorem literal_cons {c : Char} {rest : List Char} (hnone : readVariable (c :: rest) = none)
    (h : '$' ∉ rest) : literal (String.ofList (c :: rest)) = true := by
  have hrest := @literal_of_notMem (String.ofList rest) (by rwa [String.toList_ofList])
  unfold literal pieces at *
  rw [String.toList_ofList] at *
  rw [List.length_cons, piecesFrom, hnone]
  exact hrest

/-- A text with a variable holds whatever its variables are set to. -/
theorem exists_expand_eq {text : String} (h : literal text = false) (value : String) :
    ∃ before after, expand (fun _ => some value) text = before ++ value ++ after := by
  obtain ⟨piece, hmem, hvar⟩ := List.all_eq_false.1 h
  obtain ⟨before, after, hsplit⟩ := List.append_of_mem hmem
  refine ⟨String.ofList (before.flatMap (Piece.value fun _ => some value)),
    String.ofList (after.flatMap (Piece.value fun _ => some value)), ?_⟩
  cases piece with
  | lit c => exact (hvar rfl).elim
  | var name default =>
    unfold expand
    rw [hsplit, List.flatMap_append, List.flatMap_cons, String.ofList_append, String.ofList_append,
      String.append_assoc]
    congr 2
    exact String.ofList_toList

example : expand (fun _ => none) "/data/$\x7bA:x\x7d/$\x7bB\x7d" = "/data/x/" := by
  decide +kernel

end JoinedContext.Interpolate
