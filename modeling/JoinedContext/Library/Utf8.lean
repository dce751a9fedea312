import JoinedContext.Library.Text

/-!
# UTF-8, written and read back

What a text's bytes are read as: the text itself (`fromUtf8Lossy_utf8Bytes`). An ASCII byte is a
character of its own in any sequence of bytes, so a sequence is read in two parts around it
(`utf8Lossy_append_ascii`).
-/

namespace JoinedContext.Text

theorem toNat_valid (c : Char) :
    c.val.toNat < 0xD800 ∨ 0xDFFF < c.val.toNat ∧ c.val.toNat < 0x110000 := by
  have hvalid := c.valid
  simpa [UInt32.isValidChar, Nat.isValidChar] using hvalid

theorem toNat_ofNat {b : Nat} (hb : b < 0x80) : (Char.ofNat b).toNat = b := by
  unfold Char.ofNat
  rw [dif_pos (Or.inl (by omega))]
  rfl

/-- The bytes of one character are read as that character. -/
theorem utf8Lossy_encodeChar (c : Char) (rest : List Nat) :
    utf8Lossy none ((String.utf8EncodeChar c).map UInt8.toNat ++ rest) =
      c :: utf8Lossy none rest := by
  have hvalid := toNat_valid c
  have hc : Char.ofNat c.val.toNat = c := Char.ofNat_toNat c
  unfold String.utf8EncodeChar
  generalize c.val.toNat = v at hvalid hc ⊢
  dsimp only
  split_ifs with h1 h2 h3
  · have hv : (UInt8.ofNat v).toNat = v := by simp; omega
    simp only [List.map_cons, List.map_nil, List.singleton_append, utf8Lossy, hv, firstByte]
    rw [if_pos (by omega), List.singleton_append, hc]
  · have ha : (UInt8.ofNat (v / 64 % 0x20 + 0xc0)).toNat = v / 64 + 0xC0 := by simp; omega
    have hb : (UInt8.ofNat (v % 0x40 + 0x80)).toNat = v % 64 + 0x80 := by simp; omega
    simp only [List.map_cons, List.map_nil, List.cons_append, List.nil_append, utf8Lossy, ha, hb,
      firstByte]
    rw [if_neg (by omega), if_pos (by omega)]
    simp only [List.nil_append, utf8Lossy]
    rw [if_pos (by omega), if_pos trivial]
    rw [show (v / 64 + 0xC0 - 0xC0) * 64 + (v % 64 + 0x80 - 0x80) = v by omega, hc]
  · have ha : (UInt8.ofNat (v / 4096 % 0x10 + 0xe0)).toNat = v / 4096 + 0xE0 := by simp; omega
    have hb : (UInt8.ofNat (v / 64 % 0x40 + 0x80)).toNat = v / 64 % 64 + 0x80 := by simp; omega
    have hd : (UInt8.ofNat (v % 0x40 + 0x80)).toNat = v % 64 + 0x80 := by simp; omega
    simp only [List.map_cons, List.map_nil, List.cons_append, List.nil_append, utf8Lossy, ha, hb,
      hd, firstByte]
    rw [if_neg (by omega), if_neg (by omega), if_pos (by omega)]
    simp only [List.nil_append, utf8Lossy]
    rw [if_pos (by split_ifs <;> omega), if_neg (by omega)]
    rw [if_pos (by omega), if_pos trivial]
    rw [show ((v / 4096 + 0xE0 - 0xE0) * 64 + (v / 64 % 64 + 0x80 - 0x80)) * 64 +
      (v % 64 + 0x80 - 0x80) = v by omega, hc]
  · have ha : (UInt8.ofNat (v / 262144 % 0x08 + 0xf0)).toNat = v / 262144 + 0xF0 := by simp; omega
    have hb : (UInt8.ofNat (v / 4096 % 0x40 + 0x80)).toNat = v / 4096 % 64 + 0x80 := by simp; omega
    have hd : (UInt8.ofNat (v / 64 % 0x40 + 0x80)).toNat = v / 64 % 64 + 0x80 := by simp; omega
    have he : (UInt8.ofNat (v % 0x40 + 0x80)).toNat = v % 64 + 0x80 := by simp; omega
    simp only [List.map_cons, List.map_nil, List.cons_append, List.nil_append, utf8Lossy, ha, hb,
      hd, he, firstByte]
    rw [if_neg (by omega), if_neg (by omega), if_neg (by omega), if_pos (by omega)]
    simp only [List.nil_append, utf8Lossy]
    rw [if_pos (by split_ifs <;> omega), if_neg (by omega)]
    rw [if_pos (by omega), if_neg (by omega)]
    rw [if_pos (by omega), if_pos trivial]
    rw [show (((v / 262144 + 0xF0 - 0xF0) * 64 + (v / 4096 % 64 + 0x80 - 0x80)) * 64 +
      (v / 64 % 64 + 0x80 - 0x80)) * 64 + (v % 64 + 0x80 - 0x80) = v by omega, hc]

theorem utf8Lossy_utf8Bytes (cs : List Char) (rest : List Nat) :
    utf8Lossy none (utf8Bytes (String.ofList cs) ++ rest) = cs ++ utf8Lossy none rest := by
  unfold utf8Bytes
  rw [String.toList_ofList]
  induction cs with
  | nil => rfl
  | cons c cs ih =>
    rw [List.flatMap_cons, List.append_assoc, utf8Lossy_encodeChar, ih, List.cons_append]

theorem fromUtf8Lossy_utf8Bytes (s : String) : fromUtf8Lossy (utf8Bytes s) = s := by
  have h := utf8Lossy_utf8Bytes s.toList []
  rw [String.ofList_toList, List.append_nil] at h
  rw [fromUtf8Lossy, h, utf8Lossy, List.append_nil, String.ofList_toList]

/-- The text a byte sequence is, if it is one. -/
def fromUtf8 (bytes : List Nat) : Option String :=
  if utf8Bytes (fromUtf8Lossy bytes) = bytes then some (fromUtf8Lossy bytes) else none

theorem fromUtf8_eq_some {bytes : List Nat} {s : String} :
    fromUtf8 bytes = some s ↔ utf8Bytes s = bytes := by
  unfold fromUtf8
  constructor
  · intro h
    split_ifs at h with hbytes
    rw [← Option.some.inj h, hbytes]
  · rintro rfl
    rw [fromUtf8Lossy_utf8Bytes, if_pos rfl]

theorem firstByte_low {b : Nat} {p : Pending} (h : (firstByte b).2 = some p) : 0x80 ≤ p.low := by
  unfold firstByte at h
  split_ifs at h <;> cases h <;> dsimp only <;> omega

/-- An ASCII byte is a character of its own, whatever comes before it and after it. -/
theorem utf8Lossy_append_ascii {b : Nat} (hb : b < 0x80) (rest : List Nat) :
    ∀ (bytes : List Nat) (p : Option Pending), (∀ q, p = some q → 0x80 ≤ q.low) →
      utf8Lossy p (bytes ++ b :: rest) = utf8Lossy p bytes ++ Char.ofNat b :: utf8Lossy none rest
  | [], none, _ => by simp [utf8Lossy, firstByte, hb]
  | [], some q, hq => by
    have hlow := hq q rfl
    have hout : ¬(q.low ≤ b ∧ b ≤ q.high) := by omega
    simp [utf8Lossy, firstByte, hb, hout]
  | a :: bytes, none, _ => by
    have ih := utf8Lossy_append_ascii hb rest bytes (firstByte a).2 fun q => firstByte_low
    rw [List.cons_append, utf8Lossy, utf8Lossy, ih, List.append_assoc]
  | a :: bytes, some q, hq => by
    have ih := utf8Lossy_append_ascii hb rest bytes
    rw [List.cons_append, utf8Lossy, utf8Lossy]
    dsimp only
    split_ifs with hin hone
    · rw [ih none nofun, List.cons_append]
    · exact ih _ fun p heq => by cases heq; exact le_refl _
    · rw [ih _ fun p => firstByte_low, List.cons_append, List.append_assoc]

theorem utf8EncodeChar_ascii {c : Char} (hc : c.toNat < 0x80) :
    (String.utf8EncodeChar c).map UInt8.toNat = [c.toNat] := by
  unfold String.utf8EncodeChar
  dsimp only
  rw [if_pos (by change c.toNat ≤ 0x7F; omega)]
  change [(UInt8.ofNat c.toNat).toNat] = _
  simp
  omega

theorem utf8Bytes_append (s t : String) : utf8Bytes (s ++ t) = utf8Bytes s ++ utf8Bytes t := by
  unfold utf8Bytes
  rw [String.toList_append, List.flatMap_append]

theorem utf8Bytes_ascii {cs : List Char} (hcs : ∀ c ∈ cs, c.toNat < 0x80) :
    utf8Bytes (String.ofList cs) = cs.map Char.toNat := by
  unfold utf8Bytes
  rw [String.toList_ofList]
  induction cs with
  | nil => rfl
  | cons c cs ih =>
    rw [List.forall_mem_cons] at hcs
    rw [List.flatMap_cons, utf8EncodeChar_ascii hcs.1, ih hcs.2, List.map_cons,
      List.singleton_append]

theorem lt_of_mem_utf8Bytes {s : String} {b : Nat} (hb : b ∈ utf8Bytes s) : b < 256 := by
  unfold utf8Bytes at hb
  obtain ⟨c, -, hc⟩ := List.mem_flatMap.1 hb
  obtain ⟨byte, -, rfl⟩ := List.mem_map.1 hc
  exact byte.toNat_lt

/-- Every byte of a character that is not ASCII is past ASCII. -/
theorem le_of_mem_utf8EncodeChar {c : Char} (hc : 0x80 ≤ c.toNat) {b : UInt8}
    (hb : b ∈ String.utf8EncodeChar c) : 0x80 ≤ b.toNat := by
  have hvalid := toNat_valid c
  change 0x80 ≤ c.val.toNat at hc
  unfold String.utf8EncodeChar at hb
  generalize c.val.toNat = v at hvalid hc hb
  dsimp only at hb
  split_ifs at hb with h1 h2 h3
  · omega
  · simp only [List.mem_cons, List.not_mem_nil, or_false] at hb
    rcases hb with rfl | rfl <;> simp <;> omega
  · simp only [List.mem_cons, List.not_mem_nil, or_false] at hb
    rcases hb with rfl | rfl | rfl <;> simp <;> omega
  · simp only [List.mem_cons, List.not_mem_nil, or_false] at hb
    rcases hb with rfl | rfl | rfl | rfl <;> simp <;> omega

end JoinedContext.Text
