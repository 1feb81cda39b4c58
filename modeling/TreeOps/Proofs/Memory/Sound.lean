import TreeOps.Proofs.Memory.Closed

/-!
# Calls that keep a tree sound

A tree is sound if it is well-formed and all names in it are valid UTF-8, which is to say that it is
closed above under this condition on the names. So what keeps a tree closed keeps it sound.
-/

namespace TreeOps

/-- Names in valid UTF-8 lead from the root to a place. -/
def Rooted (place : Place) : Prop :=
  ∃ way, place = .root :: way ∧ ∀ c ∈ way, ∃ b, c = .name b ∧ Utf8.IsText b

namespace Rooted

variable {place : Place}

theorem child {b : Bytes} (h : Rooted place) (hb : Utf8.IsText b) : Rooted (place ++ [.name b]) :=
  ByNames.child h hb

theorem above {above : Place} (h : Rooted place) (habove : above <+: place)
    (hne : above ≠ []) : Rooted above :=
  ByNames.above h habove hne

end Rooted

namespace Tree

/-- Names in valid UTF-8 lead from the root to every node, and what is above a node is a directory.
-/
structure Sound (t : Tree) : Prop where
  rooted : ∀ place n, t.lookup place = some n → Rooted place
  closed : ∀ base b n, t.lookup (base ++ [.name b]) = some n → t.IsDirectoryAt base

theorem sound_iff_closed {t : Tree} : t.Sound ↔ t.Closed Utf8.IsText :=
  ⟨fun h => ⟨h.rooted, h.closed⟩, fun h => ⟨h.byNames, h.closed⟩⟩

theorem Sound.wellFormed {t : Tree} (h : t.Sound) : t.WellFormed :=
  (sound_iff_closed.mp h).wellFormed

theorem Sound.isTextual {t : Tree} (h : t.Sound) : t.IsTextual := by
  intro e he c hc
  obtain ⟨way, hway, hnames⟩ := h.rooted _ _ (PathMap.lookup_of_mem he)
  rw [hway] at hc
  rcases List.mem_cons.mp hc with rfl | hc
  · decide
  · obtain ⟨b, rfl, hb⟩ := hnames c hc
    exact hb

theorem sound_iff {t : Tree} : t.Sound ↔ t.WellFormed ∧ t.IsTextual := by
  refine ⟨fun h => ⟨h.wellFormed, h.isTextual⟩, ?_⟩
  rintro ⟨hwf, htext⟩
  refine ⟨fun place n hn => ?_, (closed_iff.mpr hwf).closed⟩
  obtain ⟨way, rfl, hnames⟩ := hwf.normal_of_lookup hn
  obtain ⟨key, hkey, hcomponents⟩ := PathMap.lookup_eq_some_iff.mp hn
  refine ⟨way, rfl, fun c hc => ?_⟩
  obtain ⟨b, rfl⟩ := hnames c hc
  exact ⟨b, rfl, htext _ hkey (.name b) (by simp [hcomponents, hc])⟩

/-- Nothing is in what is no directory. -/
theorem Sound.eq_none_in {t : Tree} {place : Place} (h : t.Sound) (hdir : ¬t.IsDirectoryAt place)
    (b : Bytes) : t.lookup (place ++ [.name b]) = none :=
  (sound_iff_closed.mp h).eq_none_in hdir b

end Tree

/-! ### Calls -/

/-- What a call needs for a tree to stay sound. -/
def Call.IsSafe (t : Tree) : Call → Prop
  | .createDirectory path => Rooted path.components
  | .copy _ path flags => Rooted path.components ∧
      (flags.overwrite = true → ∀ b, t.lookup (path.components ++ [.name b]) = none)
  | .move source destination _ => Rooted destination.components ∧
      Apart source.components destination.components
  | _ => True

theorem Call.IsSafe.isSafeFor {t : Tree} {c : Call} (h : c.IsSafe t) :
    c.IsSafeFor Utf8.IsText t := by
  cases c with
  | move source destination replace => exact ⟨h.1, fun hbelow => h.2.1 hbelow.1⟩
  | _ => exact h

/-- A safe call keeps a tree sound. -/
theorem Tree.Sound.perform {t : Tree} {c : Call} (h : t.Sound) (hc : c.IsSafe t) :
    (t.perform c).2.Sound :=
  sound_iff_closed.mpr ((sound_iff_closed.mp h).perform hc.isSafeFor)

end TreeOps
