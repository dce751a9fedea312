import JoinedContext.Jcctl.Manifest
import JoinedContext.Library.Text

/-!
# Literal credentials

The members that hold a credential rather than a reference to one, and what is left of a spec
without them.
-/

namespace JoinedContext.Jcctl

/-- Members that hold a credential, matched whole and case-insensitively. -/
def CREDENTIAL_MEMBERS : List String :=
  ["password", "passwd", "passphrase", "token", "secret", "clientsecret", "apikey", "privatekey",
    "credential", "credentials", "dsn", "connectionstring", "accesskey", "secretkey"]

def toAsciiLowercase (s : String) : String := String.ofList (s.toList.map Char.toLower)

/-- Whether a member is a literal credential: a scalar under such a name. -/
def isLiteral (name : String) (value : Value) : Bool :=
  (match value with
    | .str _ => true
    | .num _ _ => true
    | .bool _ => true
    | _ => false) && CREDENTIAL_MEMBERS.contains (toAsciiLowercase name)

mutual

/-- A spec without its literal credentials. -/
def redact : Value → Value
  | .obj members => .obj (redactMembers members)
  | .arr items => .arr (redactItems items)
  | v => v

def redactMembers : List (String × Value) → List (String × Value)
  | [] => []
  | (name, value) :: rest =>
    if isLiteral name value then redactMembers rest else (name, redact value) :: redactMembers rest

def redactItems : List Value → List Value
  | [] => []
  | value :: rest => redact value :: redactItems rest

end

mutual

/-- The names of the literal credentials of a spec: those of an object, then those inside what is
left of it. -/
def literalCredentials : Value → List String
  | .obj members =>
    (members.filter fun c => isLiteral c.1 c.2).map Prod.fst ++ literalMembers members
  | .arr items => literalItems items
  | _ => []

def literalMembers : List (String × Value) → List String
  | [] => []
  | (name, value) :: rest =>
    (if isLiteral name value then [] else literalCredentials value) ++ literalMembers rest

def literalItems : List Value → List String
  | [] => []
  | value :: rest => literalCredentials value ++ literalItems rest

end

theorem isLiteral_redact {name : String} {value : Value} :
    isLiteral name (redact value) = isLiteral name value := by
  cases value <;> simp [redact, isLiteral]

theorem filter_redactMembers (members : List (String × Value)) :
    (redactMembers members).filter (fun c => isLiteral c.1 c.2) = [] := by
  induction members with
  | nil => rfl
  | cons c rest ih =>
    rw [redactMembers]
    split_ifs with h
    · exact ih
    · rw [List.filter_cons_of_neg (by simpa [isLiteral_redact] using h), ih]

mutual

/-- What is left of a spec carries no literal credential. -/
theorem literalCredentials_redact : ∀ value : Value, literalCredentials (redact value) = []
  | .obj members => by
    rw [redact, literalCredentials, filter_redactMembers, literalMembers_redact members]
    rfl
  | .arr items => by
    rw [redact, literalCredentials, literalItems_redact items]
  | .null => by simp [redact, literalCredentials]
  | .bool b => by simp [redact, literalCredentials]
  | .num m e => by simp [redact, literalCredentials]
  | .str s => by simp [redact, literalCredentials]

theorem literalMembers_redact : ∀ members : List (String × Value),
    literalMembers (redactMembers members) = []
  | [] => by simp [redactMembers, literalMembers]
  | (name, value) :: rest => by
    rw [redactMembers]
    split_ifs with h
    · exact literalMembers_redact rest
    · rw [literalMembers, literalCredentials_redact value, literalMembers_redact rest]
      simp

theorem literalItems_redact : ∀ items : List Value, literalItems (redactItems items) = []
  | [] => by simp [redactItems, literalItems]
  | value :: rest => by
    rw [redactItems, literalItems, literalCredentials_redact value, literalItems_redact rest]
    rfl

end

theorem sublist_keys_redactMembers : ∀ members : List (String × Value),
    ((redactMembers members).map Prod.fst).Sublist (members.map Prod.fst)
  | [] => List.Sublist.slnil
  | (name, value) :: rest => by
    rw [redactMembers]
    split_ifs
    · exact (sublist_keys_redactMembers rest).cons _
    · exact (sublist_keys_redactMembers rest).cons_cons _

mutual

theorem wellFormed_redact : ∀ value : Value, value.wellFormed = true →
    (redact value).wellFormed = true
  | .obj members, h => by
    simp only [redact, Value.wellFormed, Bool.and_eq_true, decide_eq_true_eq] at h ⊢
    exact ⟨h.1.sublist (sublist_keys_redactMembers members), wellFormed_redactMembers members h.2⟩
  | .arr items, h => by
    simp only [redact, Value.wellFormed] at h ⊢
    exact wellFormed_redactItems items h
  | .null, _ => by simp [redact, Value.wellFormed]
  | .bool b, _ => by simp [redact, Value.wellFormed]
  | .num m e, _ => by simp [redact, Value.wellFormed]
  | .str s, _ => by simp [redact, Value.wellFormed]

theorem wellFormed_redactMembers : ∀ members : List (String × Value),
    Value.wellFormedMembers members = true → Value.wellFormedMembers (redactMembers members) = true
  | [], _ => by simp [redactMembers, Value.wellFormedMembers]
  | (name, value) :: rest, h => by
    simp only [Value.wellFormedMembers, Bool.and_eq_true] at h
    rw [redactMembers]
    split_ifs
    · exact wellFormed_redactMembers rest h.2
    · simp only [Value.wellFormedMembers, Bool.and_eq_true]
      exact ⟨wellFormed_redact value h.1, wellFormed_redactMembers rest h.2⟩

theorem wellFormed_redactItems : ∀ items : List Value,
    Value.wellFormedItems items = true → Value.wellFormedItems (redactItems items) = true
  | [], _ => by simp [redactItems, Value.wellFormedItems]
  | value :: rest, h => by
    simp only [redactItems, Value.wellFormedItems, Bool.and_eq_true] at h ⊢
    exact ⟨wellFormed_redact value h.1, wellFormed_redactItems rest h.2⟩

end

end JoinedContext.Jcctl
