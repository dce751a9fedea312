import JoinedContext.Core.Json
import Mathlib.Algebra.Order.Field.Rat
import Mathlib.Algebra.Order.Ring.Abs

/-!
# What the platform takes from other crates

The functions of third-party crates the modelled code calls, as parameters: the broker's query
parser, the regular expressions, the RFC 3339 reader and writer, and the arithmetic of `f64`.
-/

namespace JoinedContext

/-- The `f64` operations the geometry uses. No law is assumed of them. -/
class Float64 (F : Type) extends Add F, Sub F, Mul F, Div F, Neg F where
  ofDecimal : Int → Int → F
  lt : F → F → Bool
  le : F → F → Bool
  min : F → F → F
  max : F → F → F
  abs : F → F

/-- The rationals compute what `f64` does wherever `f64` does not round. -/
instance : Float64 ℚ where
  ofDecimal m e := m * (10 : ℚ) ^ e
  lt a b := decide (a < b)
  le a b := decide (a ≤ b)
  min := Min.min
  max := Max.max
  abs a := |a|

/-- `antares_ql`'s `parse_q(_).is_ok()`, the `attribute_paths` of what it parses, `has_linked_paths`, `scope::check_scope_q(_).is_ok()` and
`geo::GeoQuery::from_params`; `regex::Regex::new` with its `is_match`; `chrono`'s
`DateTime::parse_from_rfc3339` and `to_rfc3339_opts(SecondsFormat::Secs, true)`, on nanoseconds of
UTC; and `serde_json::from_str`. -/
structure Crates where
  parseQ : String → Bool
  attributePaths : String → List String
  hasLinkedPaths : String → Bool
  checkScopeQ : String → Bool
  geoQueryFromParams : (String → Option String) → Bool
  regex : String → Option (String → Bool)
  parseFromRfc3339 : String → Option Int
  toRfc3339 : Int → String
  parseJson : String → Option Value

/-- Crates that read nothing. -/
def bareCrates : Crates where
  parseQ _ := false
  attributePaths _ := []
  hasLinkedPaths _ := false
  checkScopeQ _ := false
  geoQueryFromParams _ := false
  regex _ := none
  parseFromRfc3339 _ := none
  toRfc3339 _ := ""
  parseJson _ := none

def isMetaCharacter (c : Char) : Bool :=
  c ∈ ['\\', '.', '+', '*', '?', '(', ')', '|', '[', ']', '\x7b', '\x7d', '^', '$', '#', '&', '-',
    '~']

def regexEscape (s : String) : String :=
  String.ofList (s.toList.flatMap fun c => if isMetaCharacter c then ['\\', c] else [c])

end JoinedContext
