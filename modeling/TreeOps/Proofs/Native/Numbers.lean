import TreeOps.Native.HostError

/-!
# Numbers of native codes

Each named code has a number of its own and is read back from it. A number of the host that stands
for none of them is kept as it is, among the numbers of the named codes: it is read back unless one
of them has it. The numbers with which that happens are `NativeCode.clashing`, and two different
codes are reported under one number exactly if one is such a number and the other its namesake.
-/

namespace TreeOps

namespace NativeCode

variable {number a b : Int32}

/-- The numbers of the host that are kept as they are although a named code has them. -/
def clashing : List Int32 := [3, 5, 32, 80, 145, 183, 267, 1235, 4390]

/-- The numbers of the host that stand for a named code. -/
def translated : List Int32 := [1, 2, 13, 16, 17, 18, 20, 21, 26, 30, 39, 125]

theorem ofRaw_raw_of_named : ∀ code ∈ named, ofRaw code.raw = code := by decide

theorem other_notMem_named : other number ∉ named := by simp [named]

theorem raw_other_injective (h : (other a).raw = (other b).raw) : a = b := by
  have hback := congrArg UInt32.toInt32 h
  rwa [raw, raw, Int32.toInt32_toUInt32, Int32.toInt32_toUInt32] at hback

/-- A number that is kept is read back exactly if no named code has it. -/
theorem ofRaw_toUInt32_eq_other_iff :
    ofRaw number.toUInt32 = other number ↔ ∀ code ∈ named, code.raw ≠ number.toUInt32 := by
  unfold ofRaw
  cases hfound : named.find? fun code => code.raw == number.toUInt32 with
  | none =>
    rw [Option.getD_none, Int32.toInt32_toUInt32]
    simpa using hfound
  | some code =>
    have hmem := List.mem_of_find?_eq_some hfound
    have hraw := List.find?_some hfound
    rw [Option.getD_some]
    constructor
    · rintro rfl
      exact absurd hmem other_notMem_named
    · intro hfree
      exact absurd (beq_iff_eq.mp hraw) (hfree code hmem)

theorem ofErrorNumber_mem_named (h : number ∈ translated) : ofErrorNumber number ∈ named := by
  have hall : translated.all fun number => ofErrorNumber number ∈ named := by decide
  exact decide_eq_true_iff.mp (List.all_eq_true.mp hall number h)

theorem ofErrorNumber_of_kept (h : number ∉ translated) : ofErrorNumber number = other number := by
  simp only [translated, List.mem_cons, List.not_mem_nil, or_false, not_or] at h
  simp [ofErrorNumber, h]

theorem exists_named_iff :
    (∃ code ∈ named, code.raw = number.toUInt32) ↔
      number ∈ named.map fun code => code.raw.toInt32 := by
  rw [List.mem_map]
  refine exists_congr fun code => and_congr_right fun _ => ⟨fun h => ?_, ?_⟩
  · rw [h, Int32.toInt32_toUInt32]
  · rintro rfl
    rw [UInt32.toUInt32_toInt32]

/-- A number clashes if it stands for no named code and a named code has it. -/
theorem mem_clashing_iff :
    number ∈ clashing ↔ number ∉ translated ∧ ∃ code ∈ named, code.raw = number.toUInt32 := by
  have hfilter : clashing =
      (named.map fun code => code.raw.toInt32).filter fun number => number ∉ translated := by
    decide
  rw [exists_named_iff, hfilter, List.mem_filter, decide_eq_true_iff, and_comm]

/-- The code of an error number is read back exactly if the number does not clash. -/
theorem ofRaw_raw_ofErrorNumber_iff :
    ofRaw (ofErrorNumber number).raw = ofErrorNumber number ↔ number ∉ clashing := by
  by_cases h : number ∈ translated
  · have hnot : number ∉ clashing := fun hclash => (mem_clashing_iff.mp hclash).1 h
    simp only [hnot, ofRaw_raw_of_named _ (ofErrorNumber_mem_named h), not_false_eq_true]
  · rw [ofErrorNumber_of_kept h, mem_clashing_iff]
    refine ofRaw_toUInt32_eq_other_iff.trans ?_
    simp [h]

theorem ofErrorNumber_of_clashing (h : number ∈ clashing) : ofErrorNumber number = other number :=
  ofErrorNumber_of_kept (mem_clashing_iff.mp h).1

/-- The number `a` is kept as it is, while `b` stands for the named code with that number. -/
def Shadows (a b : Int32) : Prop := a ∈ clashing ∧ ofErrorNumber b = ofRaw a.toUInt32

instance : Decidable (Shadows a b) := inferInstanceAs (Decidable (_ ∧ _))

theorem Shadows.raw_eq (h : Shadows a b) :
    ofErrorNumber a ≠ ofErrorNumber b ∧ (ofErrorNumber a).raw = (ofErrorNumber b).raw := by
  obtain ⟨hclash, hnamed⟩ := h
  obtain ⟨-, code, hmem, hraw⟩ := mem_clashing_iff.mp hclash
  have hcode : ofErrorNumber b = code := by rw [hnamed, ← hraw, ofRaw_raw_of_named code hmem]
  rw [ofErrorNumber_of_clashing hclash, hcode]
  refine ⟨?_, hraw.symm⟩
  rintro rfl
  exact other_notMem_named hmem

/-- Two codes have one number exactly if one of them is kept and shadows the other. -/
theorem raw_eq_iff :
    ofErrorNumber a ≠ ofErrorNumber b ∧ (ofErrorNumber a).raw = (ofErrorNumber b).raw ↔
      Shadows a b ∨ Shadows b a := by
  constructor
  · rintro ⟨hne, hraw⟩
    by_cases ha : a ∈ clashing
    · by_cases hb : b ∈ clashing
      · -- Two numbers that are kept differ as they are.
        rw [ofErrorNumber_of_clashing ha, ofErrorNumber_of_clashing hb] at hne hraw
        exact absurd (congrArg other (raw_other_injective hraw)) hne
      · refine .inl ⟨ha, ?_⟩
        rw [← ofRaw_raw_ofErrorNumber_iff.mpr hb, ← hraw, ofErrorNumber_of_clashing ha]
        rfl
    · by_cases hb : b ∈ clashing
      · refine .inr ⟨hb, ?_⟩
        rw [← ofRaw_raw_ofErrorNumber_iff.mpr ha, hraw, ofErrorNumber_of_clashing hb]
        rfl
      · refine absurd ?_ hne
        rw [← ofRaw_raw_ofErrorNumber_iff.mpr ha, hraw, ofRaw_raw_ofErrorNumber_iff.mpr hb]
  · rintro (h | h)
    · exact h.raw_eq
    · exact ⟨h.raw_eq.1.symm, h.raw_eq.2.symm⟩

end NativeCode

/-- The number under which an error of the host is reported tells its code exactly if the host's
number does not clash with a named code; and two errors with different codes are reported under one
number exactly if one is kept with a number that the code of the other has by name. -/
theorem HostError.raw_tells_code_iff (a : Int32) :
    (NativeCode.ofRaw (system a).native.code.raw = (system a).native.code ↔
      a ∉ NativeCode.clashing) ∧
    ∀ b, (system a).native.code ≠ (system b).native.code ∧
        (system a).native.code.raw = (system b).native.code.raw ↔
      NativeCode.Shadows a b ∨ NativeCode.Shadows b a :=
  ⟨NativeCode.ofRaw_raw_ofErrorNumber_iff, fun _ => NativeCode.raw_eq_iff⟩

/-- An input or output error, number 5, is reported as what access denied, number 13, is. -/
theorem HostError.raw_hides_io_error :
    let failed := (system 5).native.code
    let denied := (system 13).native.code
    NativeCode.ofRaw failed.raw ≠ failed ∧ failed ≠ denied ∧ failed.raw = denied.raw := by
  decide

end TreeOps
