import TreeOps.Text.Utf8
import TreeOps.Proofs.Path.Components

/-!
# UTF-8 and names

Decoding what encodes a text gives the text back, so a name that is valid UTF-8 survives being shown
and written again. Of any other name the shown form is different, but it still is a name: bytes that
mean something in paths are shown exactly where they stand.
-/

namespace TreeOps.Utf8

/-- A byte string that encodes some text. -/
def IsText (b : Bytes) : Prop := ∃ s, encode s = b

/-! ### Reading one character -/

theorem toNat_ofNat_ascii {v : Nat} (h : v < 0x80) : (UInt8.ofNat v).toNat = v :=
  UInt8.toNat_ofNat_of_lt' (by simp only [UInt8.size]; omega)

theorem first_ascii {v : Nat} (h : v < 0x80) :
    first (UInt8.ofNat v) = ([.char (Char.ofNat v)], none) := by
  have hv : (UInt8.ofNat v).toNat = v := toNat_ofNat_ascii h
  have hlt : UInt8.ofNat v < 0x80 := by rw [UInt8.lt_iff_toNat_lt, hv]; exact h
  rw [first, if_pos hlt, hv]

theorem first_of_two : ∀ k < 32, 2 ≤ k →
    first (UInt8.ofNat (k + 0xC0)) =
      ([], some ⟨[UInt8.ofNat (k + 0xC0)], k, 1, 0x80, 0xBF⟩) := by
  decide

theorem first_of_three : ∀ k < 16,
    first (UInt8.ofNat (k + 0xE0)) =
      ([], some ⟨[UInt8.ofNat (k + 0xE0)], k, 2, if k = 0 then 0xA0 else 0x80,
        if k = 13 then 0x9F else 0xBF⟩) := by
  decide

theorem first_of_four : ∀ k < 5,
    first (UInt8.ofNat (k + 0xF0)) =
      ([], some ⟨[UInt8.ofNat (k + 0xF0)], k, 3, if k = 0 then 0x90 else 0x80,
        if k = 4 then 0x8F else 0xBF⟩) := by
  decide

section Continue

variable {read : Bytes} {value missing m : Nat} {low high : UInt8} (hm : m < 64)
  (hlow : low.toNat ≤ m + 0x80) (hhigh : m + 0x80 ≤ high.toNat)

include hm hlow hhigh

theorem advance_of_mem : advance (some ⟨read, value, missing, low, high⟩) (UInt8.ofNat (m + 0x80)) =
    if missing ≤ 1 then ([.char (Char.ofNat (value * 64 + m))], none)
    else ([], some ⟨read ++ [UInt8.ofNat (m + 0x80)], value * 64 + m, missing - 1, 0x80, 0xBF⟩) :=
  by
  have hv : (UInt8.ofNat (m + 0x80)).toNat = m + 0x80 :=
    UInt8.toNat_ofNat_of_lt' (by simp only [UInt8.size]; omega)
  have hin : low ≤ UInt8.ofNat (m + 0x80) ∧ UInt8.ofNat (m + 0x80) ≤ high := by
    rw [UInt8.le_iff_toNat_le, UInt8.le_iff_toNat_le, hv]
    exact ⟨hlow, hhigh⟩
  rw [advance, if_pos hin, hv, Nat.add_sub_cancel]

theorem decodeAfter_last (h : missing ≤ 1) (rest : Bytes) :
    decodeAfter (some ⟨read, value, missing, low, high⟩) (UInt8.ofNat (m + 0x80) :: rest) =
      .char (Char.ofNat (value * 64 + m)) :: decodeAfter none rest := by
  rw [decodeAfter, advance_of_mem hm hlow hhigh, if_pos h]
  rfl

theorem decodeAfter_more (h : ¬missing ≤ 1) (rest : Bytes) :
    decodeAfter (some ⟨read, value, missing, low, high⟩) (UInt8.ofNat (m + 0x80) :: rest) =
      decodeAfter (some ⟨read ++ [UInt8.ofNat (m + 0x80)], value * 64 + m, missing - 1,
        0x80, 0xBF⟩) rest := by
  rw [decodeAfter, advance_of_mem hm hlow hhigh, if_neg h]
  rfl

end Continue

theorem decodeAfter_none_cons {b : UInt8} {pieces : List Piece} {next : Option Pending}
    (h : first b = (pieces, next)) (rest : Bytes) :
    decodeAfter none (b :: rest) = pieces ++ decodeAfter next rest := by
  rw [decodeAfter]
  change (first b).1 ++ decodeAfter (first b).2 rest = _
  rw [h]

theorem toNat_valid (c : Char) : c.toNat < 0xD800 ∨ 0xDFFF < c.toNat ∧ c.toNat < 0x110000 := c.valid

/-! ### Bytes of ASCII characters -/

section Ascii

variable {c : Char}

theorem encodeChar_ascii (h : c.toNat < 0x80) :
    String.utf8EncodeChar c = [UInt8.ofNat c.toNat] := by
  have hle : c.val.toNat ≤ 0x7f := Nat.le_of_lt_succ h
  rw [String.utf8EncodeChar]
  exact if_pos hle

theorem le_of_mem_encodeChar (h : ¬c.toNat < 0x80) {b : UInt8}
    (hb : b ∈ String.utf8EncodeChar c) : 0x80 ≤ b.toNat := by
  have hvalid := toNat_valid c
  unfold String.utf8EncodeChar at hb
  generalize hv : c.val.toNat = v at hb
  replace hv : c.toNat = v := hv
  rw [hv] at h hvalid
  simp only at hb
  split at hb
  · omega
  · split at hb
    · simp at hb
      rcases hb with rfl | rfl <;> simp <;> omega
    · split at hb
      · simp at hb
        rcases hb with rfl | rfl | rfl <;> simp <;> omega
      · simp at hb
        rcases hb with rfl | rfl | rfl | rfl <;> simp <;> omega

/-- A byte of ASCII is a byte of its own character only. -/
theorem toNat_of_mem_encodeChar {b : UInt8} (hb : b ∈ String.utf8EncodeChar c)
    (h : b.toNat < 0x80) : b.toNat = c.toNat := by
  by_cases hascii : c.toNat < 0x80
  · rw [encodeChar_ascii hascii, List.mem_singleton] at hb
    rw [hb, toNat_ofNat_ascii hascii]
  · exact absurd (le_of_mem_encodeChar hascii hb) (Nat.not_le_of_lt h)

end Ascii

/-! ### Reading a text -/

/-- The bytes of a character are read as that character. -/
theorem decodeAfter_encodeChar (c : Char) (rest : Bytes) :
    decodeAfter none (String.utf8EncodeChar c ++ rest) = .char c :: decodeAfter none rest := by
  have hvalid := toNat_valid c
  have hc : Char.ofNat c.toNat = c := Char.ofNat_toNat c
  unfold String.utf8EncodeChar
  generalize hv : c.val.toNat = v
  replace hv : c.toNat = v := hv
  rw [hv] at hvalid hc
  simp only
  split
  · have hlt : v < 0x80 := by omega
    rw [List.cons_append, decodeAfter_none_cons (first_ascii hlt), hc]
    rfl
  · split
    · have hvalue : v / 64 % 32 * 64 + v % 64 = v := by omega
      simp only [List.cons_append, List.nil_append]
      rw [decodeAfter_none_cons (first_of_two (v / 64 % 32) (by omega) (by omega)), List.nil_append,
        decodeAfter_last (m := v % 64) (by omega) (by simp) (by simp; omega) (by omega),
        hvalue, hc]
    · split
      · have hvalue : (v / 4096 % 16 * 64 + v / 64 % 64) * 64 + v % 64 = v := by omega
        simp only [List.cons_append, List.nil_append]
        rw [decodeAfter_none_cons (first_of_three (v / 4096 % 16) (by omega)), List.nil_append,
          decodeAfter_more (m := v / 64 % 64) (by omega) (by split <;> simp; omega)
            (by split <;> simp <;> omega) (by omega),
          decodeAfter_last (m := v % 64) (by omega) (by simp) (by simp; omega) (by omega),
          hvalue, hc]
      · have hvalue :
            ((v / 262144 % 8 * 64 + v / 4096 % 64) * 64 + v / 64 % 64) * 64 + v % 64 = v := by
          omega
        simp only [List.cons_append, List.nil_append]
        rw [decodeAfter_none_cons (first_of_four (v / 262144 % 8) (by omega)), List.nil_append,
          decodeAfter_more (m := v / 4096 % 64) (by omega) (by split <;> simp; omega)
            (by split <;> simp <;> omega) (by omega),
          decodeAfter_more (m := v / 64 % 64) (by omega) (by simp) (by simp; omega) (by omega),
          decodeAfter_last (m := v % 64) (by omega) (by simp) (by simp; omega) (by omega),
          hvalue, hc]

/-- A text is read back from its bytes. -/
theorem decode_encode (s : String) : decode (encode s) = s.toList.map .char := by
  unfold decode encode
  induction s.toList with
  | nil => rfl
  | cons c l ih => rw [List.flatMap_cons, decodeAfter_encodeChar, ih, List.map_cons]

theorem lossy_encode (s : String) : lossy (encode s) = s := by
  rw [lossy, decode_encode, List.map_map]
  simp [Function.comp_def, Piece.shown]

/-- A valid name survives being shown. -/
theorem encode_lossy {b : Bytes} (h : IsText b) : encode (lossy b) = b := by
  obtain ⟨s, rfl⟩ := h
  rw [lossy_encode]

theorem isText_iff {b : Bytes} : IsText b ↔ encode (lossy b) = b :=
  ⟨encode_lossy, fun h => ⟨lossy b, h⟩⟩

instance (b : Bytes) : Decidable (IsText b) := decidable_of_iff _ isText_iff.symm

/-! ### What decoding cuts a byte string into -/

/-- A character of several bytes will not turn out to be one that a single byte encodes. -/
def Pending.Wide (p : Pending) : Prop :=
  p.read ≠ [] ∧ (2 ≤ p.value ∨ 2 ≤ p.missing ∧ (1 ≤ p.value ∨ 0x90 ≤ p.low.toNat))

/-- What bytes are shown as, if they are shown as one ASCII character, is what they are. -/
def Shows (bytes : Bytes) (piece : Piece) : Prop :=
  bytes ≠ [] ∧ (0 < piece.shown.toNat → piece.shown.toNat < 0x80 →
    bytes = [UInt8.ofNat piece.shown.toNat])

theorem Pending.wide_of_ofFirst {b : UInt8} {p : Pending} (h : Pending.ofFirst? b = some p) :
    p.Wide ∧ p.read = [b] := by
  have hread (value missing : Nat) (low high : UInt8) :
      (2 ≤ value ∨ 2 ≤ missing ∧ (1 ≤ value ∨ 0x90 ≤ low.toNat)) →
        Pending.Wide ⟨[b], value, missing, low, high⟩ := fun hw => ⟨by simp, hw⟩
  unfold Pending.ofFirst? at h
  simp only [UInt8.lt_iff_toNat_lt, ← UInt8.toNat_inj] at h
  split at h
  · cases h
  · repeat' split at h
    all_goals cases h
    all_goals refine ⟨hread _ _ _ _ ?_, rfl⟩
    all_goals simp at *
    all_goals omega

theorem shows_broken {bytes : Bytes} (h : bytes ≠ []) : Shows bytes (.broken bytes) := by
  refine ⟨h, fun _ hlt => ?_⟩
  change (Char.ofNat 0xFFFD).toNat < 0x80 at hlt
  exact absurd hlt (by decide)

theorem toNat_charOfNat (v : Nat) : (Char.ofNat v).toNat = if v.isValidChar then v else 0 := by
  by_cases h : v.isValidChar
  · rw [Char.ofNat, dif_pos h, if_pos h]
    rfl
  · rw [Char.ofNat, dif_neg h, if_neg h]
    rfl

theorem shows_wide {bytes : Bytes} {value : Nat} (h : bytes ≠ []) (hv : 0x80 ≤ value) :
    Shows bytes (.char (Char.ofNat value)) := by
  refine ⟨h, fun hpos hlt => ?_⟩
  change 0 < (Char.ofNat value).toNat at hpos
  change (Char.ofNat value).toNat < 0x80 at hlt
  rw [toNat_charOfNat] at hpos hlt
  split at hlt
  · exact absurd hlt (by omega)
  · next hv' => simp [hv'] at hpos

theorem shows_ascii {b : UInt8} (h : b < 0x80) : Shows [b] (.char (Char.ofNat b.toNat)) := by
  have hlt : b.toNat < 0x80 := UInt8.lt_iff_toNat_lt.mp h
  have hvalid : b.toNat.isValidChar := .inl (by omega)
  refine ⟨by simp, fun _ _ => ?_⟩
  change [b] = [UInt8.ofNat (Char.ofNat b.toNat).toNat]
  rw [toNat_charOfNat, if_pos hvalid, UInt8.ofNat_toNat]

/-- The bytes of a character that has begun. -/
def begun : Option Pending → Bytes
  | none => []
  | some p => p.read

/-- Bytes are cut into pieces of which ASCII characters stand for themselves, up to the bytes of a
character that has begun. -/
def Cuts (bytes : Bytes) (pieces : List Piece) (next : Option Pending) : Prop :=
  (∀ p ∈ next, p.Wide) ∧ ∃ parts : List (Bytes × Piece), parts.map Prod.snd = pieces ∧
    parts.flatMap Prod.fst ++ begun next = bytes ∧ ∀ part ∈ parts, Shows part.1 part.2

theorem cuts_begun (next : Option Pending) (h : ∀ p ∈ next, p.Wide) : Cuts (begun next) [] next :=
  ⟨h, [], rfl, rfl, by simp⟩

theorem cuts_one {bytes : Bytes} {piece : Piece} (h : Shows bytes piece) :
    Cuts bytes [piece] none :=
  ⟨by simp, [(bytes, piece)], rfl, by simp [begun], by simpa using h⟩

theorem cuts_append {a b : Bytes} {pieces pieces' : List Piece} {next : Option Pending}
    (h : Cuts a pieces none) (h' : Cuts b pieces' next) :
    Cuts (a ++ b) (pieces ++ pieces') next := by
  obtain ⟨-, parts, rfl, rfl, hshows⟩ := h
  obtain ⟨hwide, parts', rfl, rfl, hshows'⟩ := h'
  refine ⟨hwide, parts ++ parts', by simp, by simp [begun], fun part hm => ?_⟩
  rcases List.mem_append.mp hm with hm | hm
  · exact hshows part hm
  · exact hshows' part hm

theorem cuts_first (b : UInt8) : Cuts [b] (first b).1 (first b).2 := by
  unfold first
  split
  · next h => exact cuts_one (shows_ascii h)
  · split
    · next p hp =>
      obtain ⟨hwide, hread⟩ := Pending.wide_of_ofFirst hp
      rw [← hread]
      exact cuts_begun (some p) (by simpa using hwide)
    · exact cuts_one (shows_broken (by simp))

theorem cuts_advance {pending : Option Pending} (h : ∀ p ∈ pending, p.Wide) (b : UInt8) :
    Cuts (begun pending ++ [b]) (advance pending b).1 (advance pending b).2 := by
  cases pending with
  | none => exact cuts_first b
  | some p =>
    obtain ⟨hread, hvalue⟩ := h p rfl
    rw [advance]
    split
    · next hb =>
      have hlow := UInt8.le_iff_toNat_le.mp hb.1
      dsimp only
      split
      · exact cuts_one (shows_wide (by simp) (by omega))
      · refine cuts_begun (some _) fun q hq => ?_
        obtain rfl := Option.mem_some.mp hq
        exact ⟨by simp, .inl (by simp only; omega)⟩
    · exact cuts_append (cuts_one (shows_broken hread)) (cuts_first b)

theorem cuts_decodeAfter {pending : Option Pending} (h : ∀ p ∈ pending, p.Wide) (b : Bytes) :
    Cuts (begun pending ++ b) (decodeAfter pending b) none := by
  induction b generalizing pending with
  | nil =>
    cases pending with
    | none => exact cuts_begun none h
    | some p => simpa [decodeAfter, begun] using cuts_one (shows_broken (h p rfl).1)
  | cons x b ih =>
    obtain ⟨hwide, parts, hpieces, hbytes, hshows⟩ := cuts_advance h x
    have hrest := ih hwide
    rw [decodeAfter]
    change Cuts _ ((advance pending x).1 ++ decodeAfter (advance pending x).2 b) none
    rw [← hpieces, ← List.singleton_append, ← List.append_assoc, ← hbytes, List.append_assoc]
    refine cuts_append ⟨by simp, parts, rfl, ?_, hshows⟩ hrest
    exact List.append_nil _

theorem cuts_decode (b : Bytes) : Cuts b (decode b) none := cuts_decodeAfter (by simp) b

/-! ### Names -/

theorem exists_parts (b : Bytes) : ∃ parts : List (Bytes × Piece),
    (lossy b).toList = parts.map (fun part => part.2.shown) ∧ parts.flatMap Prod.fst = b ∧
      ∀ part ∈ parts, Shows part.1 part.2 := by
  obtain ⟨-, parts, hpieces, hbytes, hshows⟩ := cuts_decode b
  refine ⟨parts, ?_, ?_, hshows⟩
  · rw [lossy, String.toList_ofList, ← hpieces, List.map_map]
    rfl
  · simpa [begun] using hbytes

/-- What is shown as a text of ASCII characters is that text. -/
theorem eq_of_lossy_ascii {b : Bytes} {s : String} (h : lossy b = s)
    (hs : ∀ c ∈ s.toList, 0 < c.toNat ∧ c.toNat < 0x80) :
    b = s.toList.map fun c => UInt8.ofNat c.toNat := by
  obtain ⟨parts, hparts, rfl, hshows⟩ := exists_parts b
  rw [h] at hparts
  rw [hparts, List.map_map, List.map_eq_flatMap]
  rw [List.flatMap_def, List.flatMap_def]
  congr 1
  refine List.map_congr_left fun part hm => ?_
  have hc := hs part.2.shown (hparts ▸ List.mem_map_of_mem hm)
  exact (hshows part hm).2 hc.1 hc.2

/-- What a name is shown as is a name. -/
theorem isName_encode_lossy {b : Bytes} (h : IsName b) : IsName (encode (lossy b)) := by
  have text_of_encode {s : String} (hs : encode (lossy b) = encode s) : lossy b = s := by
    rw [← lossy_encode (lossy b), hs, lossy_encode]
  constructor
  · intro hnil
    have hempty : lossy b = "" := text_of_encode hnil
    exact h.nonempty (eq_of_lossy_ascii hempty (by simp))
  · intro hdot
    have hone : lossy b = "." := text_of_encode (hdot.trans rfl)
    exact h.ne_dot (eq_of_lossy_ascii hone (by simp))
  · intro hdots
    have htwo : lossy b = ".." := text_of_encode (hdots.trans rfl)
    exact h.ne_dotDot (eq_of_lossy_ascii htwo (by simp))
  · intro hmem
    obtain ⟨c, hc, hsep⟩ := List.mem_flatMap.mp hmem
    have hslash : 0x2f = c.toNat := toNat_of_mem_encodeChar hsep (by decide)
    obtain ⟨parts, hparts, hbytes, hshows⟩ := exists_parts b
    rw [hparts] at hc
    obtain ⟨part, hm, rfl⟩ := List.mem_map.mp hc
    have hone := (hshows part hm).2 (by omega) (by omega)
    refine h.whole (hbytes ▸ List.mem_flatMap.mpr ⟨part, hm, ?_⟩)
    rw [hone, ← hslash]
    decide

theorem isText_encode (s : String) : IsText (encode s) := ⟨s, rfl⟩

end TreeOps.Utf8
