import TreeOps.Create
import TreeOps.Proofs.Memory.Shape
import TreeOps.Proofs.Memory.Touches

/-!
# What creating a directory does

Creating a directory touches nothing but the path and what is above it. Without failures, it makes a
directory of each missing place down to the path when the nearest existing one is a directory, and
otherwise it changes nothing.
-/

namespace TreeOps.Memory

variable {tx : Option Transaction} {path : Path}

/-! ### Frame -/

theorem touches_createOne : Touches (path.components = ·) (createOne tx path) := by
  refine touches_bind touches_attempt fun result _ => ?_
  cases result with
  | ok _ => exact touches_note
  | error e =>
    dsimp only
    split
    · refine touches_bind (touches_perform.mono fun _ => False.elim) fun existing _ => ?_
      split
      · exact touches_pure trivial
      · exact touches_fail
    · exact touches_fail

theorem touches_missingDirectories {places : Place → Prop} (l missing : List Path) :
    Touches places (missingDirectories tx l missing) fun result =>
      ∀ p ∈ result, p ∈ l ∨ p ∈ missing := by
  induction l generalizing missing with
  | nil => exact touches_pure fun p hp => .inr hp
  | cons q l ih =>
    refine touches_bind (touches_attempt.mono fun _ => False.elim) fun result _ => ?_
    cases result with
    | ok e =>
      dsimp only
      split
      · exact touches_pure fun p hp => .inr hp
      · exact touches_fail
    | error e =>
      dsimp only
      split
      · refine fun s => (ih (q :: missing) s).mono_ok fun result s' h => ⟨h.1, fun p hp => ?_⟩
        rcases h.2 p hp with hl | hm
        · exact .inl (List.mem_cons_of_mem q hl)
        · rcases List.mem_cons.mp hm with rfl | hm
          · exact .inl (by simp)
          · exact .inr hm
      · exact touches_fail

/-- Creating a directory touches nothing but its place and the places above it. -/
theorem touches_createResolved : Touches (· <+: path.components) (createResolved tx path) := by
  refine touches_bind (touches_missingDirectories _ _) fun missing hmissing => ?_
  refine touches_forM fun p hp => touches_createOne.mono fun place he => ?_
  rw [← he]
  exact (Path.climbs_namedAncestors path).above ((hmissing p hp).resolve_right (by simp))

end TreeOps.Memory

/-! ### Effect -/

/-- A new directory on a volume. -/
def TreeOps.Node.directoryOn (volume : Nat) : Node := { Node.directory with volume := volume }

namespace TreeOps.Tree

/-- The nearest node at or above a path. -/
def nearest (t : Tree) (path : Path) : Option Node := path.namedAncestors.findSome? t.find?

/-- From a place on, nothing is on the way through some components. -/
def Lacks (t : Tree) (base missing : Place) : Prop :=
  ∀ way, way ≠ [] → way <+: missing → t.lookup (base ++ way) = none

theorem exists_nearest {t : Tree} {path : Path} {above : Place} {n : Node} (hne : above ≠ [])
    (hpre : above <+: path.components) (hn : t.lookup above = some n) :
    ∃ m, t.nearest path = some m := by
  obtain ⟨p, hp, rfl⟩ := (Path.climbs_namedAncestors path).exists_mem hne hpre
  rw [← Option.isSome_iff_exists, nearest, List.findSome?_isSome_iff]
  refine ⟨p, hp, ?_⟩
  rw [PathMap.find?_eq_lookup, hn]
  rfl

theorem exists_lacks_of_climbs {t : Tree} {place : Place} {l : List Path} {n : Node}
    (hl : Path.Climbs place l) (hn : l.findSome? t.find? = some n) :
    ∃ base missing, place = base ++ missing ∧ base ≠ [] ∧ t.lookup base = some n ∧
      t.Lacks base missing := by
  induction l generalizing place with
  | nil => cases hn
  | cons q l ih =>
    obtain ⟨hne, rfl, hrest⟩ := hl
    rw [List.findSome?_cons] at hn
    cases hq : t.find? q with
    | some m =>
      simp only [hq, Option.some.injEq] at hn
      refine ⟨q.components, [], by simp, hne, hn ▸ hq, ?_⟩
      exact fun way hway hpre => absurd (List.prefix_nil.mp hpre) hway
    | none =>
      simp only [hq] at hn
      obtain ⟨base, missing, hplace, hbase, hlookup, hlacks⟩ := ih hrest hn
      refine ⟨base, missing ++ [q.components.getLast hne], ?_, hbase, hlookup, ?_⟩
      · rw [← List.append_assoc, ← hplace, List.dropLast_concat_getLast]
      · intro way hway hpre
        rcases List.prefix_concat_iff.mp hpre with rfl | hpre
        · rw [← List.append_assoc, ← hplace, List.dropLast_concat_getLast]
          exact hq
        · exact hlacks way hway hpre

theorem lacks_singleton {t : Tree} {base : Place} {c : Component}
    (h : t.lookup (base ++ [c]) = none) : t.Lacks base [c] := by
  intro way hway hpre
  rcases List.prefix_concat_iff.mp (List.nil_append [c] ▸ hpre) with rfl | hnil
  · exact h
  · exact absurd (List.prefix_nil.mp hnil) hway

/-- A place is as it was, or it lies between one place and a target and there is a new directory on
a volume. -/
def MadeOn (t t' : Tree) (volume : Nat) (base target place : Place) : Prop :=
  t'.lookup place =
    if base <+: place ∧ place ≠ base ∧ place <+: target then some (.directoryOn volume)
    else t.lookup place

/-- A place is as it was, or it lies between one place and a target and a directory was made there.
-/
def MadeDown (t t' : Tree) (base target place : Place) : Prop :=
  if base <+: place ∧ place ≠ base ∧ place <+: target then t'.IsDirectoryAt place
  else t'.lookup place = t.lookup place

/-- Nothing lies between a place and itself. -/
theorem madeOn_self (t : Tree) (volume : Nat) (base place : Place) :
    t.MadeOn t volume base base place := by
  rw [MadeOn, if_neg]
  rintro ⟨hbase, hne, htarget⟩
  exact hne (htarget.eq_of_length_le hbase.length_le)

theorem MadeOn.lookup_eq {t t' : Tree} {volume : Nat} {base target place : Place}
    (h : t.MadeOn t' volume base target place) (hnot : ¬place <+: target) :
    t'.lookup place = t.lookup place := by
  rwa [MadeOn, if_neg fun hp => hnot hp.2.2] at h

theorem MadeOn.madeDown {t t' : Tree} {volume : Nat} {base target place : Place}
    (h : t.MadeOn t' volume base target place) : t.MadeDown t' base target place := by
  unfold MadeOn at h
  unfold MadeDown
  split
  · next hbetween =>
    rw [if_pos hbetween] at h
    exact ⟨_, h, rfl⟩
  · next hbetween => rwa [if_neg hbetween] at h

theorem MadeDown.lookup_eq {t t' : Tree} {base target place : Place}
    (h : t.MadeDown t' base target place) (hnot : ¬place <+: target) :
    t'.lookup place = t.lookup place := by
  rwa [MadeDown, if_neg fun hp => hnot hp.2.2] at h

theorem MadeDown.of_eq {t t' t'' : Tree} {base target place : Place}
    (h : t.MadeDown t' base target place) (heq : t''.lookup place = t'.lookup place) :
    t.MadeDown t'' base target place := by
  rw [MadeDown, IsDirectoryAt, heq]
  exact h

/-- A place is as it was, or it was missing on the way to a target and a directory was made there.
-/
def SameOrMade (t t' : Tree) (target place : Place) : Prop :=
  if place ≠ [] ∧ place <+: target ∧ t.lookup place = none then t'.IsDirectoryAt place
  else t'.lookup place = t.lookup place

/-- The places that are missing on the way to a target are those between the nearest node and the
target. -/
theorem WellFormed.missing_iff {t t₁ : Tree} {target base missing place : Place}
    (hwf : t.WellFormed) (hdir : t.IsDirectoryAt base)
    (hagree : Tree.AgreeOutside (target <+: ·) t t₁)
    (htarget : target = base ++ missing) (hlacks : t₁.Lacks base missing)
    (hnot : ¬target <+: place) :
    base <+: place ∧ place ≠ base ∧ place <+: target ↔
      place ≠ [] ∧ place <+: target ∧ t.lookup place = none := by
  obtain ⟨d, hd, -⟩ := hdir
  constructor
  · rintro ⟨⟨way, rfl⟩, hne, hpre⟩
    have hway : way ≠ [] := by simpa using hne
    refine ⟨by simp [hway], hpre, ?_⟩
    rw [htarget, List.prefix_append_right_inj] at hpre
    rw [← hagree _ hnot, hlacks way hway hpre]
  · rintro ⟨hne, hpre, hnone⟩
    have hbase : base <+: target := htarget ▸ List.prefix_append _ _
    rcases List.prefix_or_prefix_of_prefix hpre hbase with ⟨way, rfl⟩ | hbelow
    · obtain ⟨x, hx⟩ := hwf.exists_above hd hne
      rw [hnone] at hx
      cases hx
    · refine ⟨hbelow, ?_, hpre⟩
      rintro rfl
      rw [hnone] at hd
      cases hd

theorem MadeDown.sameOrMade {t t₁ t' : Tree} {target base missing place : Place}
    (h : t₁.MadeDown t' base target place) (hwf : t.WellFormed) (hdir : t.IsDirectoryAt base)
    (hagree : Tree.AgreeOutside (target <+: ·) t t₁) (htarget : target = base ++ missing)
    (hlacks : t₁.Lacks base missing) (hnot : ¬target <+: place) : t.SameOrMade t' target place := by
  simp only [MadeDown, hwf.missing_iff hdir hagree htarget hlacks hnot, hagree place hnot] at h
  exact h

end TreeOps.Tree

namespace TreeOps.Memory

open Operation (Ensures)

variable {tx : Option Transaction} {canceling : Prop} {s : Scene}

/-- The paths of a list lead from one place down to another, step by step. -/
def Descends : Place → List Path → Place → Prop
  | base, [], target => base = target
  | base, p :: ps, target =>
    ∃ c, c ≠ .root ∧ p.components = base ++ [c] ∧ Descends (base ++ [c]) ps target

theorem Descends.below {base target : Place} {ps : List Path} (h : Descends base ps target) :
    base <+: target := by
  induction ps generalizing base with
  | nil => exact h ▸ List.prefix_refl _
  | cons p ps ih =>
    obtain ⟨c, -, -, hrest⟩ := h
    exact (List.prefix_append _ _).trans (ih hrest)

/-- The search upwards ends at the nearest node. -/
theorem ensures_missingDirectories {place base missing target : Place} {l : List Path}
    (found : List Path) {n : Node} (hl : Path.Climbs place l) (hfound : Descends place found target)
    (hplace : place = base ++ missing) (hbase : base ≠ []) (hn : s.nodes.lookup base = some n)
    (hlacks : s.nodes.Lacks base missing) :
    Ensures (Replies False canceling) (missingDirectories tx l found) s
      (fun result s' => s' = s ∧ n.isDirectoryLike = true ∧ Descends base result target ∧
        ∀ p ∈ result, p ∈ l ∨ p ∈ found)
      (fun halt s' => s' = s ∧ n.isDirectoryLike = false ∧
        ∃ q ∈ l, q.components = base ∧ halt = .failed (.notADirectory q)) := by
  induction l generalizing place missing found with
  | nil =>
    have hnil : place = [] := hl
    simp [hnil, hbase] at hplace
  | cons q l ih =>
    obtain ⟨-, hq, hrest⟩ := hl
    rw [missingDirectories, Operation.ensures_bind]
    by_cases hmissing : missing = []
    · rw [hmissing, List.append_nil] at hplace
      have hentry : s.nodes.entry q = .ok ((n.child q).entryAt q) :=
        Tree.entry_eq_ok.mpr ⟨n, by rw [hq, hplace, hn], rfl⟩
      refine ensures_attempt_ok (Prod.ext hentry rfl) ?_
      simp only [(n.describes_entryAt q).isDirectory]
      split
      · next hlike => exact ⟨rfl, hlike, hplace ▸ hfound, fun p hp => .inr hp⟩
      · next hlike =>
        exact ⟨rfl, by simpa using hlike, q, List.mem_cons_self, hq.trans hplace, rfl⟩
    · have hnone : s.nodes.lookup q.components = none := by
        rw [hq, hplace]
        exact hlacks missing hmissing (List.prefix_refl _)
      refine ensures_attempt_error (Tree.entry_eq_error.mpr ⟨hnone, rfl⟩) ?_
      have hdrop : place.dropLast = base ++ missing.dropLast := by
        rw [hplace, List.dropLast_append_of_ne_nil hmissing]
      have hlast : place = place.dropLast ++ [missing.getLast hmissing] := by
        rw [hdrop, List.append_assoc, List.dropLast_concat_getLast, hplace]
      have hne : place.dropLast ≠ [] := by simp [hdrop, hbase]
      have hdescends : Descends place.dropLast (q :: found) target :=
        ⟨missing.getLast hmissing, Path.ne_root_of_components (hq.trans hlast) hne, hq.trans hlast,
          hlast ▸ hfound⟩
      refine (ih (q :: found) hrest hdescends hdrop fun way hway hp => ?_).mono ?_ ?_
      · exact hlacks way hway (hp.trans (List.dropLast_prefix missing))
      · rintro result s' ⟨hs, hlike, hresult, hmem⟩
        refine ⟨hs, hlike, hresult, fun p hp => ?_⟩
        rcases hmem p hp with hp | hp
        · exact .inl (List.mem_cons_of_mem q hp)
        · rcases List.mem_cons.mp hp with rfl | hp
          · exact .inl List.mem_cons_self
          · exact .inr hp
      · rintro halt s' ⟨hs, hlike, p, hp, hbelow⟩
        exact ⟨hs, hlike, p, List.mem_cons_of_mem q hp, hbelow⟩

/-- A directory is placed on the volume of the one that it lies in. -/
theorem place_directory {t : Tree} {p : Path} {base : Place} {c : Component} {d : Node}
    (hp : p.components = base ++ [c]) (hc : c ≠ .root) (hd : t.lookup base = some d) :
    t.place p .directory = t.insert p (.directoryOn d.volume) := by
  simp only [Tree.place, Tree.volumeAbove, Tree.parent_bind_find? hp hc, hd]
  rfl

/-- One directory is made in an existing one. -/
theorem ensures_createOne {p : Path} {base : Place} {c : Component} {d : Node}
    (hp : p.components = base ++ [c]) (hc : c ≠ .root) (hd : s.nodes.lookup base = some d)
    (hk : d.kind = .directory) (hnone : s.nodes.lookup (base ++ [c]) = none) :
    Ensures (Replies False canceling) (createOne tx p) s
      (fun _ s' => s' = { s with nodes := s.nodes.insert p (.directoryOn d.volume) })
      (fun _ _ => False) := by
  have hmade : s.nodes.withDirectory p = .ok (s.nodes.insert p (.directoryOn d.volume)) :=
    Tree.withDirectory_eq_ok.mpr
      ⟨hp ▸ hnone, ⟨d, Tree.parentDirectory_eq_ok hp hc hd hk⟩, place_directory hp hc hd⟩
  rw [createOne, Operation.ensures_bind]
  exact ensures_attempt_ok (Tree.update_eq hmade) (ensures_note.mpr rfl)

/-- A directory that is there is left as it is. -/
theorem ensures_createOne_there {p : Path} {n : Node} (hn : s.nodes.lookup p.components = some n)
    (hk : n.kind = .directory) :
    Ensures (Replies False canceling) (createOne tx p) s (fun _ s' => s' = s)
      (fun _ _ => False) := by
  have htaken : s.nodes.withDirectory p = .error (.alreadyExists : NativeCode) := by
    unfold Tree.withDirectory
    rw [PathMap.contains_eq, hn]
    rfl
  have hentry := Tree.entry_eq_ok.mpr ⟨n, hn, rfl⟩
  rw [createOne, Operation.ensures_bind]
  refine ensures_attempt_error (congrArg (fun r => (s.nodes.update r).1) htaken) ?_
  have hcode : NativeCode.alreadyExists.isAlreadyExists = true := rfl
  dsimp only
  rw [if_pos hcode, Operation.ensures_bind]
  refine ensures_perform_ok (Prod.ext hentry rfl) ?_
  rw [(n.describes_entryAt p).isDirectory, Node.isDirectoryLike_of_directory hk, if_pos rfl]
  exact Operation.ensures_pure.mpr rfl

/-- Between two places there is the first step and what is behind it. -/
theorem between_iff {base place target : Place} {c : Component} (htarget : base ++ [c] <+: target)
    (hplace : place ≠ base ++ [c]) :
    base <+: place ∧ place ≠ base ∧ place <+: target ↔
      base ++ [c] <+: place ∧ place ≠ base ++ [c] ∧ place <+: target := by
  constructor
  · rintro ⟨hbase, hne, hp⟩
    refine ⟨List.prefix_of_prefix_length_le htarget hp ?_, hplace, hp⟩
    rw [List.length_append, List.length_singleton]
    exact Nat.lt_of_le_of_ne hbase.length_le fun he => hne (hbase.eq_of_length he).symm
  · rintro ⟨hbelow, -, hp⟩
    refine ⟨(List.prefix_append _ _).trans hbelow, ?_, hp⟩
    rintro rfl
    exact concat_not_prefix_self hbelow

/-- Directories are made from a place on if the first is made and then those from there on. -/
theorem madeOn_of_insert {t t' : Tree} {p : Path} {volume : Nat} {base target place : Place}
    {c : Component} (hp : p.components = base ++ [c]) (hbelow : base ++ [c] <+: target)
    (h : Tree.MadeOn (t.insert p (.directoryOn volume)) t' volume (base ++ [c]) target place) :
    t.MadeOn t' volume base target place := by
  rw [Tree.MadeOn, PathMap.lookup_insert, hp] at h
  unfold Tree.MadeOn
  by_cases hplace : place = base ++ [c]
  · rw [if_neg (by simp [hplace]), if_pos hplace.symm] at h
    rw [if_pos ⟨hplace ▸ List.prefix_append _ _, by simp [hplace], hplace ▸ hbelow⟩]
    exact h
  · rw [if_neg (Ne.symm hplace)] at h
    simp only [between_iff hbelow hplace]
    exact h

/-- The directories are made on the volume of the one that they are made in. -/
theorem ensures_createAll {base target : Place} {ps : List Path} (hps : Descends base ps target)
    {d : Node} (hd : s.nodes.lookup base = some d) (hk : d.kind = .directory)
    (hnone : ∀ place, base <+: place → place ≠ base → place <+: target →
      s.nodes.lookup place = none) :
    Ensures (Replies False canceling) (ps.forM (createOne tx)) s
      (fun _ s' => s'.records = s.records ∧
        ∀ place, s.nodes.MadeOn s'.nodes d.volume base target place)
      (fun _ _ => False) := by
  induction ps generalizing base s d with
  | nil =>
    obtain rfl : base = target := hps
    exact Operation.ensures_pure.mpr ⟨rfl, Tree.madeOn_self s.nodes d.volume base⟩
  | cons p ps ih =>
    obtain ⟨c, hc, hp, hrest⟩ := hps
    have hchild : s.nodes.lookup (base ++ [c]) = none :=
      hnone _ (List.prefix_append _ _) (by simp) hrest.below
    rw [Operation.ensures_forM_cons]
    refine (ensures_createOne hp hc hd hk hchild).mono_ok ?_
    rintro _ _ rfl
    have hlookup (place : Place) := PathMap.lookup_insert s.nodes p (.directoryOn d.volume) place
    refine (ih hrest ((hlookup _).trans (if_pos hp)) rfl ?_).mono_ok ?_
    · intro place hbelow hne htarget
      rw [hlookup, if_neg (by rw [hp]; exact Ne.symm hne)]
      refine hnone place ((List.prefix_append _ _).trans hbelow) ?_ htarget
      rintro rfl
      exact concat_not_prefix_self hbelow
    · rintro _ s' ⟨hrecords, hplaces⟩
      exact ⟨hrecords, fun place => madeOn_of_insert hp hrest.below (hplaces place)⟩

section Resolved

variable {path : Path} {base missing : Place} (hplace : path.components = base ++ missing)
  (hbase : base ≠ [])

include hplace hbase

/-- Below a directory, every missing place down to the path becomes a directory on its volume. -/
theorem ensures_createResolved_on {d : Node} (hd : s.nodes.lookup base = some d)
    (hk : d.kind = .directory) (hlacks : s.nodes.Lacks base missing) :
    Ensures (Replies False canceling) (createResolved tx path) s
      (fun _ s' => s'.records = s.records ∧
        ∀ place, s.nodes.MadeOn s'.nodes d.volume base path.components place)
      (fun _ _ => False) := by
  rw [createResolved, Operation.ensures_bind]
  refine (ensures_missingDirectories [] (Path.climbs_namedAncestors path) rfl hplace hbase hd
    hlacks).mono ?_ ?_
  · rintro result s' ⟨rfl, -, hresult, -⟩
    refine ensures_createAll hresult hd hk fun place hbelow hne htarget => ?_
    obtain ⟨way, rfl⟩ := hbelow
    rw [hplace, List.prefix_append_right_inj] at htarget
    exact hlacks way (by simpa using hne) htarget
  · rintro halt s' ⟨-, hlike, -⟩
    rw [Node.isDirectoryLike_of_directory hk] at hlike
    cases hlike

theorem ensures_createResolved (hdir : s.nodes.IsDirectoryAt base)
    (hlacks : s.nodes.Lacks base missing) :
    Ensures (Replies False canceling) (createResolved tx path) s
      (fun _ s' => s'.records = s.records ∧
        ∀ place, s.nodes.MadeDown s'.nodes base path.components place)
      (fun _ _ => False) := by
  obtain ⟨d, hd, hk⟩ := hdir
  refine (ensures_createResolved_on hplace hbase hd hk hlacks).mono_ok ?_
  exact fun _ s' h => ⟨h.1, fun place => (h.2 place).madeDown⟩

/-- What is a directory, or a link to one, is left as it is. -/
theorem ensures_createResolved_there {n : Node} (hn : s.nodes.lookup base = some n)
    (hlike : n.isDirectoryLike = true) (hmissing : missing = []) :
    Ensures (Replies False canceling) (createResolved tx path) s (fun _ s' => s' = s)
      (fun _ _ => False) := by
  have hlacks : s.nodes.Lacks base missing := fun way hway hpre =>
    absurd (List.prefix_nil.mp (hmissing ▸ hpre)) hway
  rw [createResolved, Operation.ensures_bind]
  refine (ensures_missingDirectories [] (Path.climbs_namedAncestors path) rfl hplace hbase hn
    hlacks).mono ?_ fun _ _ h => absurd (h.2.1.symm.trans hlike) Bool.false_ne_true
  rintro result s' ⟨rfl, -, hresult, -⟩
  cases result with
  | nil => exact Operation.ensures_pure.mpr rfl
  | cons p ps =>
    obtain ⟨c, -, -, hrest⟩ := hresult
    have hbelow := hrest.below
    rw [hplace, hmissing, List.append_nil] at hbelow
    exact absurd hbelow concat_not_prefix_self

/-- Below anything that is no directory and no link to one, that is said of it. -/
theorem ensures_createResolved_of_file {n : Node} (hn : s.nodes.lookup base = some n)
    (hlike : n.isDirectoryLike = false) (hlacks : s.nodes.Lacks base missing) :
    Ensures (Replies False canceling) (createResolved tx path) s (fun _ _ => False)
      (fun halt s' => s' = s ∧
        ∃ a ∈ path.namedAncestors, a.components = base ∧ halt = .failed (.notADirectory a)) := by
  rw [createResolved, Operation.ensures_bind]
  refine (ensures_missingDirectories [] (Path.climbs_namedAncestors path) rfl hplace hbase hn
    hlacks).mono ?_ fun _ _ h => ⟨h.1, h.2.2⟩
  rintro result s' ⟨-, hdirectory, -⟩
  exact absurd (hlike.symm.trans hdirectory) Bool.false_ne_true

/-- Below a link to a directory, the first directory to be made is reported missing. -/
theorem ensures_createResolved_of_link {n : Node} (hn : s.nodes.lookup base = some n)
    (hk : n.kind = .link true) {c : Component} {way : Place} (hmissing : missing = c :: way)
    (hlacks : s.nodes.Lacks base missing) :
    Ensures (Replies False canceling) (createResolved tx path) s (fun _ _ => False)
      (fun halt s' => s' = s ∧ ∃ child ∈ path.namedAncestors,
        child.components = base ++ [c] ∧ halt = .failed (.notFound child)) := by
  have hlike : n.isDirectoryLike = true := by rw [Node.isDirectoryLike, hk]
  rw [createResolved, Operation.ensures_bind]
  refine (ensures_missingDirectories [] (Path.climbs_namedAncestors path) rfl hplace hbase hn
    hlacks).mono ?_ fun _ _ h => absurd (h.2.1.symm.trans hlike) Bool.false_ne_true
  rintro result s' ⟨rfl, -, hresult, hmem⟩
  cases result with
  | nil =>
    have htarget : base = path.components := hresult
    rw [hplace, hmissing] at htarget
    exact absurd (List.self_eq_append_right.mp htarget) (List.cons_ne_nil c way)
  | cons p ps =>
    obtain ⟨c', -, hp, hrest⟩ := hresult
    have hbelow := hrest.below
    rw [hplace, List.prefix_append_right_inj] at hbelow
    obtain rfl : c' = c := by
      rw [hmissing] at hbelow
      exact (List.cons_prefix_cons.mp hbelow).1
    have hnone : s'.nodes.lookup p.components = none := by
      rw [hp]
      exact hlacks [c'] (by simp) hbelow
    have hnamed : p ∈ path.namedAncestors :=
      (hmem p List.mem_cons_self).resolve_right List.not_mem_nil
    rw [Operation.ensures_forM_cons, createOne, Operation.ensures_bind, ensures_attempt]
    refine ⟨fun value hv => ?_, fun e he => ?_⟩
    · obtain ⟨-, ⟨d, hd⟩, -⟩ := Tree.withDirectory_eq_ok.mp (Tree.update_ok hv)
      obtain ⟨hkd, base', c'', -, hcomponents, hlookup⟩ := Tree.exists_of_parentDirectory_eq_ok hd
      obtain ⟨rfl, -⟩ := List.append_inj' (hcomponents.symm.trans hp) rfl
      rw [hn] at hlookup
      obtain rfl := Option.some.inj hlookup
      cases hk.symm.trans hkd
    · obtain ⟨code, osCode⟩ := e
      have hcode := Tree.withDirectory_error hnone (Tree.update_error (he.resolve_left id))
      obtain rfl : code = .pathNotFound := hcode
      exact ⟨rfl, p, hnamed, hp, rfl⟩

/-- Below anything but a directory, nothing can be made and nothing changes. -/
theorem ensures_createResolved_of_not_directory {n : Node} (hn : s.nodes.lookup base = some n)
    (hk : n.kind ≠ .directory) (hmissing : missing ≠ []) (hlacks : s.nodes.Lacks base missing) :
    Ensures (Replies False canceling) (createResolved tx path) s (fun _ _ => False)
      (fun halt s' => s' = s ∧
        (n.isDirectoryLike = true → ∃ p, halt = .failed (.notFound p))) := by
  by_cases hlike : n.isDirectoryLike = true
  · obtain ⟨c, way, rfl⟩ := List.exists_cons_of_ne_nil hmissing
    have hlink := (Node.isDirectoryLike_iff.mp hlike).resolve_left hk
    refine (ensures_createResolved_of_link hplace hbase hn hlink rfl hlacks).mono
      (fun _ _ => id) ?_
    rintro halt s' ⟨hs, child, -, -, hhalt⟩
    exact ⟨hs, fun _ => ⟨child, hhalt⟩⟩
  · refine (ensures_createResolved_of_file hplace hbase hn (by simpa using hlike) hlacks).mono
      (fun _ _ => id) ?_
    rintro halt s' ⟨hs, -⟩
    exact ⟨hs, fun h => absurd h hlike⟩

end Resolved

end TreeOps.Memory
