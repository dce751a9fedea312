import JoinedContext.Core.Urn
import Mathlib.Tactic.Common

/-!
# Minted URNs

A URN is minted of parts that each follow a rule of their own. It is read back where its id part is
within the limit that holds for every id.
-/

namespace JoinedContext

open Names

namespace Urn

section Source

inductive MintError where
  | invalidEntityType (segment reason : String)
  | invalidOrgDomain (segment reason : String)
  | invalidSpace (segment reason : String)
  | invalidLocalId (segment reason : String)
deriving DecidableEq

structure Refusal where
  urn : String
  reason : MintError
deriving DecidableEq

/-- `Urn::new`. -/
def mint (entityType orgDomain space localId : String) : Except Refusal Urn :=
  let urn := "urn:ngsi-ld:" ++ entityType ++ ":" ++ orgDomain ++ ":" ++ space ++ ":" ++ localId
  match validateEntityType entityType with
  | .error e => .error ⟨urn, .invalidEntityType entityType e.reason⟩
  | .ok () =>
    match validateOrgDomain orgDomain with
    | .error e => .error ⟨urn, .invalidOrgDomain orgDomain e.reason⟩
    | .ok () =>
      match validateSpaceName space with
      | .error e => .error ⟨urn, .invalidSpace space e.reason⟩
      | .ok () =>
        match validateLocalId localId with
        | .error e => .error ⟨urn, .invalidLocalId localId e.reason⟩
        | .ok () => .ok ⟨entityType, orgDomain ++ ":" ++ space ++ ":" ++ localId,
            some ⟨orgDomain, space, localId⟩⟩

end Source

/-- The four parts follow their rules. -/
structure Accepted (entityType orgDomain space localId : String) : Prop where
  entityType : validateEntityType entityType = .ok ()
  orgDomain : validateOrgDomain orgDomain = .ok ()
  space : validateSpaceName space = .ok ()
  localId : validateLocalId localId = .ok ()

variable {entityType orgDomain space localId : String} {u v : Urn} {s : String} {l : List Char}
  {c : Char}

theorem mint_eq_ok : mint entityType orgDomain space localId = .ok u ↔
    Accepted entityType orgDomain space localId ∧
      u = ⟨entityType, orgDomain ++ ":" ++ space ++ ":" ++ localId,
        some ⟨orgDomain, space, localId⟩⟩ := by
  unfold mint
  constructor
  · intro h
    split at h
    · cases h
    · rename_i hentity
      split at h
      · cases h
      · rename_i hdomain
        split at h
        · cases h
        · rename_i hspace
          split at h
          · cases h
          · rename_i hlocal
            cases h
            exact ⟨⟨hentity, hdomain, hspace, hlocal⟩, rfl⟩
  · rintro ⟨haccepted, rfl⟩
    rw [haccepted.entityType, haccepted.orgDomain, haccepted.space, haccepted.localId]

/-! ## The characters of the parts -/

/-- A character of a local id; those of the other parts are such ones as well. -/
def unreserved (c : Char) : Bool := c.isAlphanum || c ∈ ['.', '_', '~', '-']

theorem pchar_of_unreserved (h : unreserved c = true) : pchar c = true := by
  unfold unreserved at h
  unfold pchar
  rw [Bool.or_eq_true, decide_eq_true_eq] at h ⊢
  refine h.imp_right fun hmem => ?_
  simp only [List.mem_cons, List.not_mem_nil, or_false] at hmem
  rcases hmem with rfl | rfl | rfl | rfl <;> decide

theorem ne_colon_of_unreserved (h : unreserved c = true) : c ≠ ':' := by
  rintro rfl
  revert h
  decide

theorem unreserved_of_lowerOrDigit (h : lowerOrDigit c = true) : unreserved c = true := by
  unfold lowerOrDigit at h
  unfold unreserved Char.isAlphanum Char.isAlpha
  rw [Bool.or_eq_true] at h
  rcases h with h | h
  · rw [h]
    simp
  · rw [h]
    simp

theorem unreserved_of_dash (h : (lowerOrDigit c || c == '-') = true) : unreserved c = true := by
  rw [Bool.or_eq_true, beq_iff_eq] at h
  rcases h with h | rfl
  · exact unreserved_of_lowerOrDigit h
  · decide

theorem unreserved_of_validateSpaceName (h : validateSpaceName space = .ok ()) :
    ∀ c ∈ space.toList, unreserved c = true := by
  unfold validateSpaceName at h
  split_ifs at h with hbad
  simp only [Bool.or_eq_true, Bool.not_eq_true', not_or, Bool.not_eq_false] at hbad
  obtain ⟨-, hre⟩ := hbad
  cases hspace : space.toList with
  | nil => simp
  | cons c rest =>
    rw [hspace, spaceNameRe, Bool.and_eq_true, Bool.and_eq_true, List.all_eq_true] at hre
    exact List.forall_mem_cons.2 ⟨unreserved_of_lowerOrDigit hre.1.1,
      fun d hd => unreserved_of_dash (hre.2 d hd)⟩

theorem unreserved_of_dnsLabelRe : ∀ {l : List Char}, dnsLabelRe l = true →
    ∀ c ∈ l, unreserved c = true
  | [], h => by cases h
  | [c], h => by
    simpa using unreserved_of_lowerOrDigit h
  | c :: d :: rest, h => by
    simp only [dnsLabelRe, Bool.and_eq_true, List.all_eq_true] at h
    obtain ⟨⟨⟨hfirst, -⟩, hmid⟩, hlast⟩ := h
    refine List.forall_mem_cons.2 ⟨unreserved_of_lowerOrDigit hfirst, fun e he => ?_⟩
    rw [← List.dropLast_concat_getLast (List.cons_ne_nil d rest), List.mem_append,
      List.mem_singleton] at he
    rcases he with he | rfl
    · exact unreserved_of_dash (hmid e he)
    · rw [List.getLast?_eq_some_getLast (List.cons_ne_nil d rest)] at hlast
      exact unreserved_of_lowerOrDigit hlast

theorem unreserved_of_validateOrgDomain (h : validateOrgDomain orgDomain = .ok ()) :
    ∀ c ∈ orgDomain.toList, unreserved c = true := by
  intro c hc
  unfold validateOrgDomain at h
  dsimp only at h
  split_ifs at h with hbad hfew hlabels
  by_cases hdot : c = '.'
  · rw [hdot]
    decide
  · obtain ⟨label, hlabel, hmem⟩ :=
      @Text.mem_splitAny_of_mem ['.'] orgDomain c hc (by simpa using hdot)
    simp only [List.any_eq_true, not_exists, not_and] at hlabels
    have hre := hlabels label hlabel
    simp only [Bool.or_eq_true, Bool.not_eq_true', not_or, Bool.not_eq_false] at hre
    exact unreserved_of_dnsLabelRe hre.2 c hmem

theorem unreserved_of_validateLocalId (h : validateLocalId localId = .ok ()) :
    ∀ c ∈ localId.toList, unreserved c = true := by
  unfold validateLocalId at h
  split_ifs at h with hbad
  simp only [Bool.or_eq_true, Bool.not_eq_true', not_or, Bool.not_eq_false] at hbad
  obtain ⟨-, hre⟩ := hbad
  rw [localIdRe, Bool.and_eq_true, List.all_eq_true] at hre
  exact hre.2

theorem idTail_of_pchar (h : ∀ c ∈ l, pchar c = true) : idTail l = true := by
  induction l using idTail.induct with
  | case1 => rfl
  | case2 a b rest ih =>
    exact absurd (h '%' List.mem_cons_self) (by decide)
  | case3 c rest hplain ih =>
    rw [List.forall_mem_cons] at h
    rw [idTail.eq_3 _ _ hplain, h.1, ih h.2]
    rfl

theorem idRe_of_pchar (h : ∀ c ∈ l, pchar c = true) (hne : l ≠ []) : idRe l = true := by
  unfold idRe
  split
  · exact (hne rfl).elim
  · exact absurd (h '%' List.mem_cons_self) (by decide)
  · rw [List.forall_mem_cons] at h
    rw [h.1, idTail_of_pchar h.2]
    rfl

/-! ## Reading a minted URN -/

/-- The parts of a minted id are found again. -/
theorem prefixedParts_minted (h : Accepted entityType orgDomain space localId) :
    prefixedParts (orgDomain ++ ":" ++ space ++ ":" ++ localId) =
      some ⟨orgDomain, space, localId⟩ := by
  have hjoin : orgDomain ++ ":" ++ space ++ ":" ++ localId =
      Text.join (String.ofList [':']) [orgDomain, space, localId] := by
    simp [Text.join, String.append_assoc]
  have hsplit : Text.splitAny [':'] (orgDomain ++ ":" ++ space ++ ":" ++ localId) =
      [orgDomain, space, localId] := by
    rw [hjoin]
    refine Text.splitAny_join (List.cons_ne_nil _ _) fun part hpart hcolon => ?_
    simp only [List.mem_cons, List.not_mem_nil, or_false] at hpart
    rcases hpart with rfl | rfl | rfl
    · exact ne_colon_of_unreserved (unreserved_of_validateOrgDomain h.orgDomain _ hcolon) rfl
    · exact ne_colon_of_unreserved (unreserved_of_validateSpaceName h.space _ hcolon) rfl
    · exact ne_colon_of_unreserved (unreserved_of_validateLocalId h.localId _ hcolon) rfl
  rw [prefixedParts, hsplit]
  exact if_pos ⟨h.orgDomain, h.space, h.localId⟩

theorem idRe_minted (h : Accepted entityType orgDomain space localId) :
    idRe (orgDomain ++ ":" ++ space ++ ":" ++ localId).toList = true := by
  refine idRe_of_pchar (fun c hc => ?_) (by simp)
  simp only [String.toList_append, List.mem_append] at hc
  have hcolon : c ∈ ":".toList → pchar c = true := fun hc => by
    rw [List.mem_singleton.1 hc]
    decide
  rcases hc with (((hc | hc) | hc) | hc) | hc
  · exact pchar_of_unreserved (unreserved_of_validateOrgDomain h.orgDomain c hc)
  · exact hcolon hc
  · exact pchar_of_unreserved (unreserved_of_validateSpaceName h.space c hc)
  · exact hcolon hc
  · exact pchar_of_unreserved (unreserved_of_validateLocalId h.localId c hc)

/-- A minted URN is read back where its id part is not too long. -/
theorem parse_minted (h : Accepted entityType orgDomain space localId) :
    parse (toString ⟨entityType, orgDomain ++ ":" ++ space ++ ":" ++ localId,
        some ⟨orgDomain, space, localId⟩⟩) =
      .ok ⟨entityType, orgDomain ++ ":" ++ space ++ ":" ++ localId,
        some ⟨orgDomain, space, localId⟩⟩ ↔
      orgDomain.length + space.length + localId.length + 2 ≤ maxIdChars := by
  have hlength : (orgDomain ++ ":" ++ space ++ ":" ++ localId).length =
      orgDomain.length + space.length + localId.length + 2 := by
    simp only [String.length_append]
    have hcolon : ":".length = 1 := rfl
    omega
  rw [← hlength]
  constructor
  · intro hparse
    exact (parse_eq_ok hparse).2.2.1
  · intro hfits
    have hne : orgDomain ++ ":" ++ space ++ ":" ++ localId ≠ "" := fun hempty => by
      rw [hempty] at hlength
      have hzero : "".length = 0 := rfl
      omega
    exact parse_toString_of_valid h.entityType hne hfits (idRe_minted h)
      (prefixedParts_minted h).symm

/-- A URN that was minted or read. -/
def Made (u : Urn) : Prop :=
  (∃ entityType orgDomain space localId, mint entityType orgDomain space localId = .ok u) ∨
    ∃ s, parse s = .ok u

theorem Made.parts (h : Made u) :
    ':' ∉ u.entityType.toList ∧ u.prefixed = prefixedParts u.id := by
  have hcolon : ∀ {t : String}, validateEntityType t = .ok () → ':' ∉ t.toList :=
    fun hvalid hmem => by simpa using alphanum_of_validateEntityType hvalid ':' hmem
  rcases h with ⟨entityType, orgDomain, space, localId, h⟩ | ⟨s, h⟩
  · obtain ⟨haccepted, rfl⟩ := mint_eq_ok.1 h
    exact ⟨hcolon haccepted.entityType, (prefixedParts_minted haccepted).symm⟩
  · obtain ⟨hvalid, -, -, -, hparts⟩ := parse_eq_ok h
    exact ⟨hcolon hvalid, hparts⟩

/-- Two URNs that were made do not share a text. -/
theorem toString_injective (hu : Made u) (hv : Made v) (h : u.toString = v.toString) : u = v := by
  obtain ⟨hcolon, hparts⟩ := hu.parts
  obtain ⟨hcolon', hparts'⟩ := hv.parts
  have hchars : u.entityType.toList ++ ':' :: u.id.toList =
      v.entityType.toList ++ ':' :: v.id.toList := by
    have hlist := congrArg String.toList h
    simpa [toString] using hlist
  have hsplit := @Text.splitOnce_append ':' u.entityType.toList u.id.toList hcolon
  rw [hchars, Text.splitOnce_append hcolon'] at hsplit
  simp only [String.ofList_toList, Option.some.injEq, Prod.mk.injEq] at hsplit
  obtain ⟨htype, hid⟩ := hsplit
  cases u
  cases v
  simp_all

/-- A minted URN's text is read as the same URN. -/
def MintsBack (entityType orgDomain space localId : String) : Prop :=
  ∀ u, mint entityType orgDomain space localId = .ok u → parse u.toString = .ok u

/-- A minted URN is read back exactly where its id part is within the limit of an id; a URN that
was read is always read again, and no two URNs that were made share a text. -/
theorem roundTrips (entityType orgDomain space localId : String) :
    (MintsBack entityType orgDomain space localId ↔
      (Accepted entityType orgDomain space localId →
        orgDomain.length + space.length + localId.length + 2 ≤ maxIdChars)) ∧
    (∀ s u, parse s = .ok u → ∃ v, parse u.toString = .ok v ∧ v = u ∧
      v.orgDomain = u.orgDomain ∧ v.space = u.space ∧ v.entityType = u.entityType ∧
        v.localId = u.localId) ∧
    ∀ u v, Made u → Made v → u.toString = v.toString → u = v := by
  refine ⟨⟨fun h haccepted => ?_, fun h u hu => ?_⟩,
    fun s u h => ⟨u, parse_toString h, rfl, rfl, rfl, rfl, rfl⟩, fun u v => toString_injective⟩
  · exact (parse_minted haccepted).1 (h _ (mint_eq_ok.2 ⟨haccepted, rfl⟩))
  · obtain ⟨haccepted, rfl⟩ := mint_eq_ok.1 hu
    exact (parse_minted haccepted).2 (h haccepted)

def longDomain : String :=
  String.ofList (List.replicate 63 'a' ++ '.' :: List.replicate 63 'a')

def longLocalId : String := String.ofList (List.replicate 128 'a')

/-- A domain of two labels and a local id at their limits make an id past its own. -/
theorem long_parts_refused : ¬MintsBack "Sensor" longDomain "air" longLocalId := by
  have haccepted : Accepted "Sensor" longDomain "air" longLocalId :=
    ⟨by decide, by decide +kernel, by decide, by decide +kernel⟩
  intro h
  have hfits := (parse_minted haccepted).1 (h _ (mint_eq_ok.2 ⟨haccepted, rfl⟩))
  revert hfits
  decide +kernel

end Urn

end JoinedContext
