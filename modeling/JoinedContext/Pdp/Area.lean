import JoinedContext.Pdp.Admission

/-!
# The areas a read is answered from

What passes the forwarded area and the areas the gateway filters against, compared with the areas
the caller asked for and was granted. A caller's area that is read as lying inside the one granted
area is forwarded alone, so that the answer is right exactly where it does lie inside.
-/

namespace JoinedContext

section Area

variable {E F : Type} [Float64 F] {B : Broker E} {crates : Crates}

/-- Whether an entity is in the caller's area and in one of those granted; where none is granted,
nothing narrows space. -/
def Broker.inAreas (B : Broker E) (caller : Option String) (grants : List String) (e : E) : Prop :=
  (∀ asked, caller = some asked → B.within asked e) ∧ (grants = [] ∨ ∃ area ∈ grants, B.within area e)

/-- Whether the caller's area, where it alone is forwarded, lies in the granted one. -/
def AreaNested (B : Broker E) (crates : Crates) (F : Type) [Float64 F] (caller : Option String)
    (grants : List String) : Prop :=
  ∀ asked granted, caller = some asked → grants = [granted] →
    Geo.askedWithin F crates asked granted = true → ∀ e, B.within asked e → B.within granted e

/-- An entity of both areas is never excluded. -/
theorem admitsArea_of_inAreas {caller : Option String} {grants : List String} {e : E}
    (h : B.inAreas caller grants e) :
    B.admitsArea (Geo.intersect F crates caller grants).geoQ
      (Geo.intersect F crates caller grants).caller
      (Geo.intersect F crates caller grants).grants e := by
  obtain ⟨hcaller, hgranted⟩ := h
  rcases grants with _ | ⟨granted, _ | ⟨second, rest⟩⟩
  · exact ⟨hcaller, by simp [Geo.intersect], Or.inl rfl⟩
  · have hin : B.within granted e := by simpa using hgranted
    rcases caller with _ | asked
    · simpa [Geo.intersect, Broker.admitsArea] using hin
    · have hasked := hcaller asked rfl
      simp only [Geo.intersect, Broker.admitsArea]
      split_ifs
      · simpa using hasked
      · simp [hin, hasked]
  · exact ⟨hcaller, by simp [Geo.intersect], hgranted⟩

theorem inAreas_of_admitsArea {caller : Option String} {grants : List String} {e : E}
    (hnested : AreaNested B crates F caller grants)
    (h : B.admitsArea (Geo.intersect F crates caller grants).geoQ
      (Geo.intersect F crates caller grants).caller
      (Geo.intersect F crates caller grants).grants e) : B.inAreas caller grants e := by
  rcases grants with _ | ⟨granted, _ | ⟨second, rest⟩⟩
  · exact ⟨h.1, Or.inl rfl⟩
  · rcases caller with _ | asked
    · have hin : B.within granted e := h.1 granted rfl
      simpa [Broker.inAreas] using hin
    · have hinside := hnested asked granted rfl rfl
      simp only [Geo.intersect, Broker.admitsArea] at h
      split_ifs at h with hasked
      · have hin : B.within asked e := h.1 asked rfl
        simpa [Broker.inAreas] using ⟨hin, hinside hasked e hin⟩
      · have hin : B.within granted e := h.1 granted rfl
        have hown : B.within asked e := h.2.1 asked rfl
        simpa [Broker.inAreas] using ⟨hown, hin⟩
  · exact ⟨h.1, h.2.2⟩

/-- What passes is what both areas hold exactly when a caller's area that is forwarded alone lies in
the one granted. -/
theorem areas_sound_iff (B : Broker E) (crates : Crates) (F : Type) [Float64 F]
    (caller : Option String) (grants : List String) :
    (∀ e, B.admitsArea (Geo.intersect F crates caller grants).geoQ
        (Geo.intersect F crates caller grants).caller
        (Geo.intersect F crates caller grants).grants e ↔ B.inAreas caller grants e) ↔
      AreaNested B crates F caller grants := by
  constructor
  · rintro h asked granted rfl rfl hinside e hasked
    have hpasses : B.admitsArea (Geo.intersect F crates (some asked) [granted]).geoQ
        (Geo.intersect F crates (some asked) [granted]).caller
        (Geo.intersect F crates (some asked) [granted]).grants e := by
      simpa [Geo.intersect, Broker.admitsArea, hinside] using hasked
    obtain ⟨-, hgranted⟩ := (h e).1 hpasses
    simpa using hgranted
  · exact fun hnested e => ⟨inAreas_of_admitsArea hnested, admitsArea_of_inAreas⟩

end Area

section Arrowhead

/-! ## An arrowhead and its hull -/

def ring (points : List (Int × Int)) : Value :=
  .arr [.arr (points.map fun p => .arr [.num p.1 0, .num p.2 0])]

def areaCrates : Crates :=
  { storedCrates with
    parseJson := fun text =>
      if text = "[[[0,0],[4,0],[2,4],[0,0]]]" then some (ring [(0, 0), (4, 0), (2, 4), (0, 0)])
      else if text = "[[[0,0],[2,1],[4,0],[2,4],[0,0]]]" then
        some (ring [(0, 0), (2, 1), (4, 0), (2, 4), (0, 0)])
      else none }

/-- A broker of points, which reads an area as the gateway does. -/
def pointBroker : Broker (Geo.Point ℚ) where
  filters := FilterLang.reader fun _ _ => true
  hasType _ _ := True
  id _ := ""
  carries _ _ := True
  inScope _ _ := True
  within area p := (Geo.grantedPolygon areaCrates area).any (·.contains p) = true
  during _ _ := True

def hull : String := "georel=within;geometry=Polygon;coordinates=[[[0,0],[4,0],[2,4],[0,0]]]"

def arrowhead : String :=
  "georel=within;geometry=Polygon;coordinates=[[[0,0],[2,1],[4,0],[2,4],[0,0]]]"

/-- The hull of a granted arrowhead is forwarded alone, and the notch is answered from. -/
theorem notch_answered :
    pointBroker.admitsArea (Geo.intersect ℚ areaCrates (some hull) [arrowhead]).geoQ
        (Geo.intersect ℚ areaCrates (some hull) [arrowhead]).caller
        (Geo.intersect ℚ areaCrates (some hull) [arrowhead]).grants (2, 1 / 2) ∧
      ¬ pointBroker.inAreas (some hull) [arrowhead] (2, 1 / 2) := by
  have hinside : Geo.askedWithin ℚ areaCrates hull arrowhead = true := by decide +kernel
  have hin : pointBroker.within hull (2, 1 / 2) := by
    show (Geo.grantedPolygon areaCrates hull).any (fun p => p.contains ((2, 1 / 2) : ℚ × ℚ)) = true
    decide +kernel
  have hout : ¬ pointBroker.within arrowhead (2, 1 / 2) := by
    show ¬ (Geo.grantedPolygon areaCrates arrowhead).any
      (fun p => p.contains ((2, 1 / 2) : ℚ × ℚ)) = true
    decide +kernel
  refine ⟨?_, fun h => hout (by simpa using h.2)⟩
  simpa [Geo.intersect, Broker.admitsArea, hinside] using hin

end Arrowhead

end JoinedContext
