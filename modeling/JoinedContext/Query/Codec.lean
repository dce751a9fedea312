import JoinedContext.Library.Url
import JoinedContext.Library.Utf8
import JoinedContext.Query

/-!
# The query string, written and read back

What the gateway writes is read as it was written, a value and a whole list of parameters. A text
of somebody else's is read as a form is, with one exception: the two digits of an escape go through
an integer parser that takes a sign, so `%+f` is read as a control character.
-/

namespace JoinedContext.Query

/-- The unreserved set of RFC 3986. -/
def unreserved (b : Nat) : Bool :=
  (0x41 ≤ b && b ≤ 0x5A) || (0x61 ≤ b && b ≤ 0x7A) || (0x30 ≤ b && b ≤ 0x39) || b == 0x2D ||
    b == 0x5F || b == 0x2E || b == 0x7E

def encodeByte (b : Nat) : List Char :=
  if unreserved b then [Char.ofNat b] else ['%', Url.hexDigit (b / 16), Url.hexDigit (b % 16)]

def encode (raw : String) : String := String.ofList ((Text.utf8Bytes raw).flatMap encodeByte)

def render (params : List (String × String)) : String :=
  Text.join "&" (params.map fun pair => encode pair.1 ++ "=" ++ encode pair.2)

/-- Bytes with an escape that has a sign in the place of its first digit. -/
def SignedEscape (bytes : List Nat) : Prop :=
  ∃ digit, (hexDigit digit).isSome ∧ [0x25, 0x2B, digit] <:+: bytes

/-! ## A value -/

theorem decodeBytes_cons {b : Nat} (hb : b ≠ 0x25) (rest : List Nat) :
    decodeBytes (b :: rest) = plusAsSpace b :: decodeBytes rest := by
  match rest with
  | [] => rfl
  | [_] => rfl
  | _ :: _ :: _ => rw [decodeBytes, if_neg hb]

theorem toNat_hexDigit {n : Nat} (hn : n < 16) :
    (Url.hexDigit n).toNat = if n < 10 then 48 + n else 55 + n := by
  revert n
  decide

theorem hexDigit_hexDigit {n : Nat} (hn : n < 16) : hexDigit (Url.hexDigit n).toNat = some n := by
  revert n
  decide

theorem hexPair_of_ne {a b : Nat} (ha : a ≠ 0x2B) :
    hexPair a b = do return (← hexDigit a) * 16 + (← hexDigit b) := if_neg ha

theorem lt_of_unreserved {b : Nat} (hb : unreserved b = true) : b < 0x80 := by
  simp only [unreserved, Bool.or_eq_true, Bool.and_eq_true, decide_eq_true_eq, beq_iff_eq] at hb
  omega

theorem decodeBytes_encodeByte {b : Nat} (hb : b < 256) (rest : List Nat) :
    decodeBytes ((encodeByte b).map Char.toNat ++ rest) = b :: decodeBytes rest := by
  unfold encodeByte
  split_ifs with hplain
  · have hne : b ≠ 0x25 ∧ b ≠ 0x2B := by
      constructor <;> rintro rfl <;> exact absurd hplain (by decide)
    simp only [List.map_cons, List.map_nil, List.singleton_append,
      Text.toNat_ofNat (lt_of_unreserved hplain)]
    rw [decodeBytes_cons hne.1, plusAsSpace, if_neg hne.2]
  · have hhigh : b / 16 < 16 := by omega
    have hlow : b % 16 < 16 := by omega
    have hsign : (Url.hexDigit (b / 16)).toNat ≠ 0x2B := by
      rw [toNat_hexDigit hhigh]
      split_ifs <;> omega
    have hvalue : hexPair (Url.hexDigit (b / 16)).toNat (Url.hexDigit (b % 16)).toNat = some b := by
      rw [hexPair_of_ne hsign, hexDigit_hexDigit hhigh, hexDigit_hexDigit hlow]
      change some (b / 16 * 16 + b % 16) = some b
      rw [Nat.div_add_mod']
    change decodeBytes (0x25 :: (Url.hexDigit (b / 16)).toNat :: (Url.hexDigit (b % 16)).toNat ::
      rest) = _
    rw [decodeBytes, if_pos rfl, hvalue]

theorem decodeBytes_encode {bytes : List Nat} (hbytes : ∀ b ∈ bytes, b < 256) :
    decodeBytes ((bytes.flatMap encodeByte).map Char.toNat) = bytes := by
  induction bytes with
  | nil => rfl
  | cons b bytes ih =>
    rw [List.forall_mem_cons] at hbytes
    rw [List.flatMap_cons, List.map_append, decodeBytes_encodeByte hbytes.1, ih hbytes.2]

theorem plain_hexDigit {n : Nat} (hn : n < 16) :
    (Url.hexDigit n).toNat < 0x80 ∧ Url.hexDigit n ≠ '&' ∧ Url.hexDigit n ≠ '=' := by
  revert n
  decide

/-- The characters a value is written with. -/
theorem plain_of_mem_encodeByte {b : Nat} (hb : b < 256) {c : Char} (hc : c ∈ encodeByte b) :
    c.toNat < 0x80 ∧ c ≠ '&' ∧ c ≠ '=' := by
  unfold encodeByte at hc
  split_ifs at hc with hplain
  · obtain rfl := List.mem_singleton.1 hc
    have htoNat := Text.toNat_ofNat (lt_of_unreserved hplain)
    refine ⟨by rw [htoNat]; exact lt_of_unreserved hplain, fun heq => ?_, fun heq => ?_⟩
    · rw [← htoNat, heq] at hplain
      exact absurd hplain (by decide)
    · rw [← htoNat, heq] at hplain
      exact absurd hplain (by decide)
  · simp only [List.mem_cons, List.not_mem_nil, or_false] at hc
    rcases hc with rfl | rfl | rfl
    · decide
    · exact plain_hexDigit (by omega)
    · exact plain_hexDigit (by omega)

theorem plain_of_mem_encode {raw : String} {c : Char} (hc : c ∈ (encode raw).toList) :
    c.toNat < 0x80 ∧ c ≠ '&' ∧ c ≠ '=' := by
  rw [encode, String.toList_ofList] at hc
  obtain ⟨b, hb, hc⟩ := List.mem_flatMap.1 hc
  exact plain_of_mem_encodeByte (Text.lt_of_mem_utf8Bytes hb) hc

theorem decode_encode (raw : String) : decode (encode raw) = raw := by
  have hascii : ∀ c ∈ (Text.utf8Bytes raw).flatMap encodeByte, c.toNat < 0x80 := fun c hc => by
    have hmem : c ∈ (encode raw).toList := by rwa [encode, String.toList_ofList]
    exact (plain_of_mem_encode hmem).1
  rw [decode, encode, Text.utf8Bytes_ascii hascii, decodeBytes_encode fun b => Text.lt_of_mem_utf8Bytes,
    Text.fromUtf8Lossy_utf8Bytes]

/-! ## A list of parameters -/

theorem splitOnce_equals {name : String} (hname : '=' ∉ name.toList) (value : String) :
    Text.splitOnce '=' (name ++ "=" ++ value) = some (name, value) := by
  rw [String.append_assoc]
  exact Text.splitOnce_append_append hname value

theorem parse_render (params : List (String × String)) : parse (render params) = params := by
  unfold parse render
  let pair := fun pair : String × String => encode pair.1 ++ "=" ++ encode pair.2
  change (((Text.splitAny ['&'] (Text.join "&" (params.map pair))).filter (· ≠ "")).map _) = _
  by_cases hnil : params = []
  · subst hnil
    rfl
  have hplain : ∀ s ∈ params.map pair, '&' ∉ s.toList := by
    rintro s hs hmem
    obtain ⟨p, -, rfl⟩ := List.mem_map.1 hs
    simp only [pair, String.toList_append, List.mem_append] at hmem
    rcases hmem with (hmem | hmem) | hmem
    · exact (plain_of_mem_encode hmem).2.1 rfl
    · exact absurd hmem (by decide)
    · exact (plain_of_mem_encode hmem).2.1 rfl
  have hne : ∀ s ∈ params.map pair, decide (s ≠ "") = true := by
    rintro s hs
    obtain ⟨p, -, rfl⟩ := List.mem_map.1 hs
    simp [pair]
  rw [show Text.splitAny ['&'] (Text.join "&" (params.map pair)) = params.map pair from
    Text.splitAny_join (by simpa using hnil) hplain, List.filter_eq_self.2 hne, List.map_map]
  conv_rhs => rw [← List.map_id params]
  refine List.map_congr_left fun p _ => ?_
  simp only [Function.comp_apply, pair, splitOnce_equals fun h => (plain_of_mem_encode h).2.2 rfl,
    decode_encode, id_eq]

/-! ## A text of somebody else's -/

theorem hexDigit_eq_hexValue (b : Nat) : hexDigit b = Url.hexValue b := rfl

theorem plusAsSpace_of_ne {b : Nat} (hb : b ≠ 0x2B) : plusAsSpace b = b := if_neg hb

theorem plusAsSpace_bytes (s : String) :
    Text.utf8Bytes (String.ofList (s.toList.map fun c => if c = '+' then ' ' else c)) =
      (Text.utf8Bytes s).map plusAsSpace := by
  unfold Text.utf8Bytes
  rw [String.toList_ofList, List.flatMap_map, List.map_flatMap]
  refine List.flatMap_congr fun c _ => ?_
  by_cases hplus : c = '+'
  · subst hplus
    rfl
  rw [if_neg hplus]
  have hplain : ∀ b ∈ (String.utf8EncodeChar c).map UInt8.toNat, b ≠ 0x2B := by
    rintro b hb rfl
    by_cases hascii : c.toNat < 0x80
    · rw [Text.utf8EncodeChar_ascii hascii, List.mem_singleton] at hb
      exact hplus (Char.toNat_inj.1 hb.symm)
    · obtain ⟨byte, hbyte, hvalue⟩ := List.mem_map.1 hb
      have hle := Text.le_of_mem_utf8EncodeChar (by omega) hbyte
      omega
  have hsame : ((String.utf8EncodeChar c).map UInt8.toNat).map plusAsSpace =
      ((String.utf8EncodeChar c).map UInt8.toNat).map id :=
    List.map_congr_left fun b hb => plusAsSpace_of_ne (hplain b hb)
  rw [hsame, List.map_id]

/-- One step of the form decoder at a `%` and two bytes more. -/
theorem percentDecode_percent (a b : Nat) (more : List Nat) :
    Url.percentDecode (0x25 :: a :: b :: more) =
      match (do return (← hexDigit a) * 16 + (← hexDigit b) : Option Nat) with
      | some escaped => escaped :: Url.percentDecode more
      | none => 0x25 :: Url.percentDecode (a :: b :: more) := by
  rw [Url.percentDecode, hexDigit_eq_hexValue, hexDigit_eq_hexValue]
  cases ha : Url.hexValue a with
  | none => simp
  | some x =>
    cases hb : Url.hexValue b with
    | none => simp
    | some y => simp

theorem percentDecode_cons {b : Nat} (hb : b ≠ 0x25) (rest : List Nat) :
    Url.percentDecode (b :: rest) = b :: Url.percentDecode rest := by
  match rest with
  | [] => rfl
  | [_] => rfl
  | _ :: _ :: _ => rw [Url.percentDecode, if_neg fun h => hb h.1]

theorem hexDigit_plusAsSpace (b : Nat) : hexDigit (plusAsSpace b) = hexDigit b := by
  by_cases hb : b = 0x2B
  · subst hb
    rfl
  · rw [plusAsSpace_of_ne hb]

/-- Without a sign before a digit, the pair is read as two digits or not at all. -/
theorem hexPair_eq {a b : Nat} (h : a ≠ 0x2B ∨ hexDigit b = none) :
    hexPair a b = do return (← hexDigit a) * 16 + (← hexDigit b) := by
  by_cases ha : a = 0x2B
  · have hb : hexDigit b = none := h.resolve_left (not_not_intro ha)
    rw [hexPair, if_pos ha, hb, ha]
    rfl
  · exact hexPair_of_ne ha

theorem hexDigit_lt {b n : Nat} (h : hexDigit b = some n) : n < 16 := by
  unfold hexDigit at h
  split_ifs at h <;> cases h <;> omega

theorem digits_of_hexPair {a b n : Nat} (h : hexPair a b = some n) (ha : a ≠ 0x2B) :
    a ≠ 0x25 ∧ b ≠ 0x25 := by
  rw [hexPair_of_ne ha] at h
  constructor
  · rintro rfl
    exact absurd h (by simp [hexDigit])
  · rintro rfl
    rcases hexDigit a with _ | x <;> exact absurd h (by simp [hexDigit])

theorem signedEscape_cons {b : Nat} {rest : List Nat} :
    SignedEscape (b :: rest) ↔
      (b = 0x25 ∧ ∃ digit more, rest = 0x2B :: digit :: more ∧ (hexDigit digit).isSome) ∨
        SignedEscape rest := by
  simp only [SignedEscape, List.infix_cons_iff, and_or_left, exists_or]
  refine or_congr ⟨?_, ?_⟩ Iff.rfl
  · rintro ⟨digit, hdigit, more, hmore⟩
    obtain ⟨rfl, rfl⟩ := List.cons.inj hmore
    exact ⟨rfl, digit, more, rfl, hdigit⟩
  · rintro ⟨rfl, digit, more, rfl, hdigit⟩
    exact ⟨digit, hdigit, more, rfl⟩

theorem signedEscape_cons_of_ne {b : Nat} {rest : List Nat} (hb : b ≠ 0x25) :
    SignedEscape (b :: rest) ↔ SignedEscape rest := by
  simp [signedEscape_cons, hb]

/-- A signed escape at the head, or the pair after a `%` is read by both decoders alike. -/
theorem signedEscape_percent {a b : Nat} {more : List Nat} :
    SignedEscape (0x25 :: a :: b :: more) ↔
      (a = 0x2B ∧ (hexDigit b).isSome) ∨ SignedEscape (a :: b :: more) := by
  rw [signedEscape_cons]
  refine or_congr ⟨?_, ?_⟩ Iff.rfl
  · rintro ⟨-, digit, rest, heq, hdigit⟩
    injection heq with ha hrest
    injection hrest with hb _
    exact ⟨ha, hb ▸ hdigit⟩
  · rintro ⟨rfl, hdigit⟩
    exact ⟨rfl, b, more, rfl, hdigit⟩

theorem percentDecode_plusAsSpace {a b : Nat} (h : ¬(a = 0x2B ∧ (hexDigit b).isSome))
    (more : List Nat) :
    Url.percentDecode ((0x25 :: a :: b :: more).map plusAsSpace) =
      match hexPair a b with
      | some escaped => escaped :: Url.percentDecode (more.map plusAsSpace)
      | none => 0x25 :: Url.percentDecode ((a :: b :: more).map plusAsSpace) := by
  have hpair : hexPair a b = do return (← hexDigit a) * 16 + (← hexDigit b) := hexPair_eq (by
    rw [← Option.not_isSome_iff_eq_none]
    tauto)
  rw [hpair]
  change Url.percentDecode (0x25 :: plusAsSpace a :: plusAsSpace b :: more.map plusAsSpace) = _
  rw [percentDecode_percent, hexDigit_plusAsSpace, hexDigit_plusAsSpace]
  rfl

/-- The two decoders agree on bytes without a signed escape. -/
theorem decodeBytes_eq (bytes : List Nat) (hplain : ¬SignedEscape bytes) :
    decodeBytes bytes = Url.percentDecode (bytes.map plusAsSpace) := by
  induction bytes using decodeBytes.induct with
  | case1 a b more escaped hpair ih =>
    rw [signedEscape_percent, not_or] at hplain
    have ha : a ≠ 0x2B := by
      rintro rfl
      rw [hexPair, if_pos rfl] at hpair
      exact hplain.1 ⟨rfl, by rw [hpair]; rfl⟩
    have hdigits := digits_of_hexPair hpair ha
    rw [signedEscape_cons_of_ne hdigits.1, signedEscape_cons_of_ne hdigits.2] at hplain
    rw [decodeBytes, if_pos rfl, percentDecode_plusAsSpace hplain.1, hpair, ih hplain.2]
  | case2 a b more hpair ih =>
    rw [signedEscape_percent, not_or] at hplain
    rw [decodeBytes, if_pos rfl, percentDecode_plusAsSpace hplain.1, hpair, ih hplain.2]
  | case3 byte a b more hbyte ih =>
    rw [signedEscape_cons_of_ne hbyte] at hplain
    have hspace : plusAsSpace byte ≠ 0x25 := by
      unfold plusAsSpace
      split_ifs <;> omega
    rw [decodeBytes, if_neg hbyte, List.map_cons, percentDecode_cons hspace, ih hplain]
  | case4 bytes hshort =>
    match bytes with
    | [] => rfl
    | [_] => rfl
    | [_, _] => rfl
    | byte :: a :: b :: more => exact (hshort byte a b more rfl).elim

/-- At the first signed escape one decoder writes a control character, the other the `%`. -/
theorem decodeBytes_of_signedEscape (bytes : List Nat) (hsigned : SignedEscape bytes) :
    ∃ before b after after', b < 0x10 ∧ decodeBytes bytes = before ++ b :: after ∧
      Url.percentDecode (bytes.map plusAsSpace) = before ++ 0x25 :: after' := by
  induction bytes using decodeBytes.induct with
  | case1 a b more escaped hpair ih =>
    rw [decodeBytes, if_pos rfl, hpair]
    rw [signedEscape_percent] at hsigned
    by_cases hhead : a = 0x2B ∧ (hexDigit b).isSome
    · obtain ⟨rfl, -⟩ := hhead
      rw [hexPair, if_pos rfl] at hpair
      refine ⟨[], escaped, decodeBytes more, ?_, hexDigit_lt hpair, rfl, ?_⟩
      · exact Url.percentDecode (0x20 :: plusAsSpace b :: more.map plusAsSpace)
      · change Url.percentDecode (0x25 :: 0x20 :: plusAsSpace b :: more.map plusAsSpace) = _
        rw [percentDecode_percent]
        rfl
    · have ha : a ≠ 0x2B := by
        rintro rfl
        rw [hexPair, if_pos rfl] at hpair
        exact hhead ⟨rfl, by rw [hpair]; rfl⟩
      have hdigits := digits_of_hexPair hpair ha
      rw [signedEscape_cons_of_ne hdigits.1, signedEscape_cons_of_ne hdigits.2] at hsigned
      obtain ⟨before, c, after, after', hc, hcode, hform⟩ := ih (hsigned.resolve_left hhead)
      rw [percentDecode_plusAsSpace hhead, hpair, hcode, hform]
      exact ⟨escaped :: before, c, after, after', hc, rfl, rfl⟩
  | case2 a b more hpair ih =>
    rw [decodeBytes, if_pos rfl, hpair]
    rw [signedEscape_percent] at hsigned
    have hhead : ¬(a = 0x2B ∧ (hexDigit b).isSome) := by
      rintro ⟨rfl, hdigit⟩
      rw [hexPair, if_pos rfl] at hpair
      rw [hpair] at hdigit
      cases hdigit
    obtain ⟨before, c, after, after', hc, hcode, hform⟩ := ih (hsigned.resolve_left hhead)
    rw [percentDecode_plusAsSpace hhead, hpair, hcode, hform]
    exact ⟨0x25 :: before, c, after, after', hc, rfl, rfl⟩
  | case3 byte a b more hbyte ih =>
    rw [signedEscape_cons_of_ne hbyte] at hsigned
    have hspace : plusAsSpace byte ≠ 0x25 := by
      unfold plusAsSpace
      split_ifs <;> omega
    obtain ⟨before, c, after, after', hc, hcode, hform⟩ := ih hsigned
    rw [decodeBytes, if_neg hbyte, List.map_cons, percentDecode_cons hspace, hcode, hform]
    exact ⟨plusAsSpace byte :: before, c, after, after', hc, rfl, rfl⟩
  | case4 bytes hshort =>
    obtain ⟨digit, -, hinfix⟩ := hsigned
    have hlength := hinfix.length_le
    match bytes with
    | [] | [_] | [_, _] => simp at hlength
    | byte :: a :: b :: more => exact (hshort byte a b more rfl).elim

/-- A text is read as a form is where no escape of it is signed. -/
theorem decode_eq_decodeForm (raw : String) :
    decode raw = Url.decodeForm raw.toList ↔ ¬SignedEscape (Text.utf8Bytes raw) := by
  have hform : Url.decodeForm raw.toList =
      Text.fromUtf8Lossy (Url.percentDecode ((Text.utf8Bytes raw).map plusAsSpace)) := by
    rw [Url.decodeForm, plusAsSpace_bytes]
  rw [hform, decode]
  refine ⟨fun heq hsigned => ?_, fun hplain => by rw [decodeBytes_eq _ hplain]⟩
  obtain ⟨before, b, after, after', hb, hcode, hform⟩ := decodeBytes_of_signedEscape _ hsigned
  have hlossy := String.ofList_injective heq
  rw [hcode, hform, Text.utf8Lossy_append_ascii (by omega) _ _ none nofun,
    Text.utf8Lossy_append_ascii (by omega) _ _ none nofun] at hlossy
  have hchar := (List.cons.inj (List.append_cancel_left hlossy)).1
  have htoNat := congrArg Char.toNat hchar
  rw [Text.toNat_ofNat (by omega), Text.toNat_ofNat (by omega)] at htoNat
  omega

/-- What is written is read back, a value and a whole list, and a text of somebody else's is read
as a form is where no escape of it is signed. -/
theorem codec_exact (raw : String) (params : List (String × String)) :
    decode (encode raw) = raw ∧ parse (render params) = params ∧
      (decode raw = Url.decodeForm raw.toList ↔ ¬SignedEscape (Text.utf8Bytes raw)) :=
  ⟨decode_encode raw, parse_render params, decode_eq_decodeForm raw⟩

theorem not_codec_exact :
    ¬((∀ raw, decode (encode raw) = raw) ∧ (∀ params, parse (render params) = params) ∧
      ∀ raw, decode raw = Url.decodeForm raw.toList) :=
  fun h => absurd (h.2.2 "%+f") (by decide)

end JoinedContext.Query
