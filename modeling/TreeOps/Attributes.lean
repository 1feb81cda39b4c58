import TreeOps.Text.Quoted

/-!
# File attributes

Attributes are a set of flags packed into 32 bits. Bits without a name are kept as they are.

Specification: §3, the attributes of `DirectoryEntryInfo`.
-/

namespace TreeOps

/-- A set of attribute flags. -/
structure Attributes where
  bits : UInt32
deriving DecidableEq, Repr, Inhabited

namespace Attributes

/-- No flag at all. -/
def empty : Attributes := ⟨0⟩

def readOnly : Attributes := ⟨0x0001⟩
def hidden : Attributes := ⟨0x0002⟩
def directory : Attributes := ⟨0x0010⟩
def normal : Attributes := ⟨0x0080⟩
def reparsePoint : Attributes := ⟨0x0400⟩

/-- The named flags, in ascending order. -/
def names : List (Attributes × String) :=
  [(readOnly, "read-only"), (hidden, "hidden"), (⟨0x0004⟩, "system"), (directory, "directory"),
    (⟨0x0020⟩, "archive"), (⟨0x0040⟩, "device"), (normal, "normal"), (⟨0x0100⟩, "temporary"),
    (⟨0x0200⟩, "sparse"), (reparsePoint, "reparse-point"), (⟨0x0800⟩, "compressed"),
    (⟨0x1000⟩, "offline"), (⟨0x2000⟩, "not-content-indexed"), (⟨0x4000⟩, "encrypted")]

/-- Whether every flag of `b` is set in `a`. -/
def contains (a b : Attributes) : Bool := a.bits &&& b.bits == b.bits

/-- The flags of both sets. -/
def union (a b : Attributes) : Attributes := ⟨a.bits ||| b.bits⟩

/-- The flags of `a` that are not in `b`. -/
def without (a b : Attributes) : Attributes := ⟨a.bits &&& ~~~b.bits⟩

/-- Whether no bit is set, named or not. -/
def isEmpty (a : Attributes) : Bool := a.bits == 0

/-- Whether the read-only flag is set. -/
def isReadOnly (a : Attributes) : Bool := a.contains readOnly

/-- The flags by which a listing tells what an entry is. -/
def kindFlags : Attributes := directory.union reparsePoint

/-- The flags that do not tell what an entry is. -/
def neutral (a : Attributes) : Attributes := (a.without directory).without reparsePoint

/-- Whether no flag tells what the entry is. -/
def isNeutral (a : Attributes) : Bool := a.bits &&& kindFlags.bits == 0

theorem isNeutral_neutral (a : Attributes) : a.neutral.isNeutral = true := by
  simp only [isNeutral, neutral, without, UInt32.and_assoc, beq_iff_eq]
  rw [show ~~~directory.bits &&& (~~~reparsePoint.bits &&& kindFlags.bits) = 0 from rfl]
  exact UInt32.and_zero

/-- The flags of a union within a mask. -/
theorem union_and (a b : Attributes) (mask : UInt32) :
    (a.union b).bits &&& mask = (a.bits &&& mask) ||| (b.bits &&& mask) :=
  UInt32.toBitVec_inj.1 BitVec.and_or_distrib_right

theorem isNeutral_union_readOnly {a : Attributes} (h : a.isNeutral = true) :
    (a.union readOnly).isNeutral = true := by
  simp only [isNeutral, beq_iff_eq] at h ⊢
  rw [union_and, h]
  rfl

theorem isReadOnly_neutral_without (a : Attributes) :
    (a.without readOnly).neutral.isReadOnly = false := by
  simp only [isReadOnly, contains, neutral, without, UInt32.and_assoc]
  rw [show ~~~readOnly.bits &&& (~~~directory.bits &&& (~~~reparsePoint.bits &&& readOnly.bits)) = 0
    from rfl, UInt32.and_zero]
  rfl

/-- Neutral attributes hold no flag of a kind. -/
theorem and_eq_zero_of_isNeutral (a : Attributes) (mask : UInt32) (h : a.isNeutral = true)
    (hm : kindFlags.bits &&& mask = mask) : a.bits &&& mask = 0 := by
  simp only [isNeutral, beq_iff_eq] at h
  rw [← hm, ← UInt32.and_assoc, h, UInt32.zero_and]

/-- The names of the flags that are set, or `none`. -/
def text (a : Attributes) : String :=
  match names.filter fun (flag, _) => a.contains flag with
  | [] => "none"
  | present => "|".intercalate (present.map Prod.snd)

/-- The bits in hexadecimal beside the names. -/
def describe (a : Attributes) : String :=
  "FileAttributes(0x" ++ Text.hexPadded 4 a.bits.toNat ++ ": " ++ a.text ++ ")"

end Attributes

end TreeOps
