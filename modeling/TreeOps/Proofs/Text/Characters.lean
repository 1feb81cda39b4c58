import TreeOps.Proofs.Text.Utf8

/-!
# Characters in bytes

The bytes of a text can be taken apart in one way only. A byte that begins a character is found
between two characters, so whatever ends where a character begins ends between two characters.
Among the bytes of a text, an ASCII byte is a character of its own, and lowering the case of ASCII
letters is the same in the text and in its bytes.
-/

namespace TreeOps.Utf8

variable {l : List Char} {c : Char}

/-- The bytes of a list of characters. -/
def bytesOf (l : List Char) : Bytes := l.flatMap String.utf8EncodeChar

theorem encode_eq (s : String) : encode s = bytesOf s.toList := rfl

@[simp] theorem bytesOf_nil : bytesOf [] = [] := rfl

theorem bytesOf_cons (c : Char) (l : List Char) :
    bytesOf (c :: l) = String.utf8EncodeChar c ++ bytesOf l := rfl

theorem bytesOf_append (l l' : List Char) : bytesOf (l ++ l') = bytesOf l ++ bytesOf l' :=
  List.flatMap_append

theorem bytesOf_singleton (c : Char) : bytesOf [c] = String.utf8EncodeChar c :=
  List.append_nil _

theorem length_bytesOf_cons (c : Char) (l : List Char) :
    (bytesOf (c :: l)).length = c.utf8Size + (bytesOf l).length := by
  rw [bytesOf_cons, List.length_append, String.length_utf8EncodeChar]

theorem length_le_length_bytesOf (l : List Char) : l.length ≤ (bytesOf l).length := by
  induction l with
  | nil => exact Nat.le_refl 0
  | cons c l ih =>
    have hpos := c.utf8Size_pos
    rw [length_bytesOf_cons, List.length_cons]
    omega

theorem bytesOf_eq_nil_iff : bytesOf l = [] ↔ l = [] := by
  constructor
  · intro h
    have hle := length_le_length_bytesOf l
    rw [h] at hle
    exact List.length_eq_zero_iff.mp (Nat.le_zero.mp hle)
  · rintro rfl
    rfl

theorem decodeAfter_bytesOf (l : List Char) : decodeAfter none (bytesOf l) = l.map .char := by
  have h := decode_encode (String.ofList l)
  rwa [encode, decode, String.toList_ofList] at h

theorem bytesOf_injective {l l' : List Char} (h : bytesOf l = bytesOf l') : l = l' := by
  have hdecoded := congrArg (decodeAfter none) h
  rw [decodeAfter_bytesOf, decodeAfter_bytesOf] at hdecoded
  exact (List.map_inj_right fun _ _ => Piece.char.inj).mp hdecoded

/-- Bytes that begin with those of a character are the bytes of a text that begins with it. -/
theorem eq_cons_of_bytesOf {rest : Bytes} (h : bytesOf l = String.utf8EncodeChar c ++ rest) :
    ∃ l', l = c :: l' ∧ rest = bytesOf l' := by
  have hdecoded := congrArg (decodeAfter none) h
  rw [decodeAfter_bytesOf, decodeAfter_encodeChar] at hdecoded
  obtain ⟨d, l', rfl, hd, -⟩ := List.map_eq_cons_iff.mp hdecoded
  obtain rfl := Piece.char.inj hd
  exact ⟨l', rfl, (List.append_cancel_left h).symm⟩

/-- What ends where a character begins, or at the end, ends between two characters. -/
theorem exists_split_of_bytesOf {before rest : Bytes} (h : bytesOf l = before ++ rest)
    (hrest : ∀ b ∈ rest.head?, b.IsUTF8FirstByte) :
    ∃ l₁ l₂, l = l₁ ++ l₂ ∧ before = bytesOf l₁ ∧ rest = bytesOf l₂ := by
  induction l generalizing before with
  | nil =>
    obtain ⟨rfl, rfl⟩ := List.append_eq_nil_iff.mp h.symm
    exact ⟨[], [], rfl, rfl, rfl⟩
  | cons c l ih =>
    rw [bytesOf_cons] at h
    rcases List.append_eq_append_iff.mp h with ⟨before', rfl, hl⟩ | ⟨tail, hc, rfl⟩
    · obtain ⟨l₁, l₂, rfl, rfl, rfl⟩ := ih hl
      exact ⟨c :: l₁, l₂, rfl, rfl, rfl⟩
    · cases tail with
      | nil =>
        rw [List.append_nil] at hc
        exact ⟨[c], l, rfl, by rw [bytesOf_singleton, hc], rfl⟩
      | cons b tail =>
        -- a character that goes on does not go on with a byte that begins one
        have hfirst := hrest b rfl
        have hlt : before.length < (String.utf8EncodeChar c).length := by simp [hc]
        have hb : (String.utf8EncodeChar c)[before.length] = b := by simp [hc]
        rw [← hb, UInt8.isUTF8FirstByte_getElem_utf8EncodeChar] at hfirst
        obtain rfl := List.length_eq_zero_iff.mp hfirst
        exact ⟨[], c :: l, rfl, rfl, by rw [bytesOf_cons, hc]; rfl⟩

/-! ### ASCII -/

theorem bytesOf_ascii (h : ∀ c ∈ l, c.toNat < 0x80) :
    bytesOf l = l.map fun c => UInt8.ofNat c.toNat := by
  induction l with
  | nil => rfl
  | cons c l ih =>
    obtain ⟨hc, hl⟩ := List.forall_mem_cons.mp h
    rw [bytesOf_cons, encodeChar_ascii hc, ih hl]
    rfl

/-- A single byte is a character of ASCII. -/
theorem exists_of_length_bytesOf (h : (bytesOf l).length = 1) :
    ∃ c, l = [c] ∧ c.toNat < 0x80 := by
  cases l with
  | nil => cases h
  | cons c l =>
    have hpos := c.utf8Size_pos
    rw [length_bytesOf_cons] at h
    have hrest : (bytesOf l).length = 0 := by omega
    have hone : c.utf8Size = 1 := by omega
    rw [Char.utf8Size_eq_one_iff, UInt32.le_iff_toNat_le] at hone
    obtain rfl := bytesOf_eq_nil_iff.mp (List.length_eq_zero_iff.mp hrest)
    exact ⟨c, rfl, Nat.lt_succ_of_le hone⟩

theorem eq_cons_of_bytesOf_ascii (hc : c.toNat < 0x80) {rest : Bytes}
    (h : bytesOf l = UInt8.ofNat c.toNat :: rest) : ∃ l', l = c :: l' ∧ rest = bytesOf l' :=
  eq_cons_of_bytesOf (by rw [h, encodeChar_ascii hc]; rfl)

/-- Among the bytes of a text, an ASCII byte stands for its character. -/
theorem mem_bytesOf_ascii (h : c.toNat < 0x80) : UInt8.ofNat c.toNat ∈ bytesOf l ↔ c ∈ l := by
  constructor
  · intro hmem
    obtain ⟨d, hd, hbyte⟩ := List.mem_flatMap.mp hmem
    have hb := toNat_ofNat_ascii h
    have hnat := toNat_of_mem_encodeChar hbyte (hb.symm ▸ h)
    obtain rfl : c = d := Char.toNat_inj.mp (hb.symm.trans hnat)
    exact hd
  · intro hc
    exact List.mem_flatMap.mpr ⟨c, hc, by rw [encodeChar_ascii h]; exact List.mem_singleton_self _⟩

theorem separator_mem_bytesOf : separator ∈ bytesOf l ↔ '/' ∈ l :=
  mem_bytesOf_ascii (c := '/') (by decide)

theorem toNat_toAsciiLower (b : UInt8) :
    b.toAsciiLower.toNat = if 0x41 ≤ b.toNat ∧ b.toNat ≤ 0x5A then b.toNat + 0x20 else b.toNat := by
  have h : ∀ n < 256, (UInt8.ofNat n).toAsciiLower.toNat =
      if 0x41 ≤ n ∧ n ≤ 0x5A then n + 0x20 else n := by decide +kernel
  have hb := h b.toNat (UInt8.toNat_lt_size b)
  rwa [UInt8.ofNat_toNat] at hb

theorem toNat_toLower (c : Char) :
    c.toLower.toNat = if 0x41 ≤ c.toNat ∧ c.toNat ≤ 0x5A then c.toNat + 0x20 else c.toNat := by
  have hupper : c.val ≥ 'A'.val ∧ c.val ≤ 'Z'.val ↔ 0x41 ≤ c.toNat ∧ c.toNat ≤ 0x5A := .rfl
  unfold Char.toLower
  split
  · next h =>
    rw [if_pos (hupper.mp h)]
    change (c.val + 0x20).toNat = c.val.toNat + 0x20
    have hle : c.val.toNat ≤ 0x5A := h.2
    have hlt : c.val.toNat + 0x20 < 2 ^ 32 := by omega
    exact (UInt32.toNat_add ..).trans (Nat.mod_eq_of_lt hlt)
  · next h => rw [if_neg (mt hupper.mpr h)]

/-- What is no letter of ASCII is like itself only. -/
theorem eq_of_toLower_eq {c d : Char} (h : c.toLower = d.toLower)
    (hupper : ¬(0x41 ≤ c.toNat ∧ c.toNat ≤ 0x5A)) (hlower : ¬(0x61 ≤ c.toNat ∧ c.toNat ≤ 0x7A)) :
    d = c := by
  have hnat := congrArg Char.toNat h
  rw [toNat_toLower, toNat_toLower, if_neg hupper] at hnat
  refine Char.toNat_inj.mp ?_
  split at hnat <;> omega

/-- Lowering the bytes of a character lowers the character. -/
theorem map_toAsciiLower_encodeChar (c : Char) :
    (String.utf8EncodeChar c).map UInt8.toAsciiLower = String.utf8EncodeChar c.toLower := by
  have hlower := toNat_toLower c
  by_cases h : c.toNat < 0x80
  · have hlt : c.toLower.toNat < 0x80 := by
      rw [hlower]
      split <;> omega
    rw [encodeChar_ascii h, encodeChar_ascii hlt, List.map_singleton]
    congr 1
    rw [← UInt8.toNat_inj, toNat_toAsciiLower, toNat_ofNat_ascii h, toNat_ofNat_ascii hlt, hlower]
  · rw [if_neg (by omega)] at hlower
    rw [Char.toNat_inj.mp hlower]
    refine (List.map_congr_left fun b hb => ?_).trans (List.map_id _)
    have hle := le_of_mem_encodeChar h hb
    rw [← UInt8.toNat_inj, toNat_toAsciiLower, if_neg (by omega), id]

theorem map_toAsciiLower_bytesOf (l : List Char) :
    (bytesOf l).map UInt8.toAsciiLower = bytesOf (l.map Char.toLower) := by
  simp only [bytesOf, List.map_flatMap, List.flatMap_map, map_toAsciiLower_encodeChar]

end TreeOps.Utf8
