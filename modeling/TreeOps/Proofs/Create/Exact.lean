import TreeOps.Proofs.Create
import TreeOps.Proofs.Memory.Scripted

/-!
# Creating a directory, exactly

What creating a directory comes to is told by the nearest path that exists. Without failures, below
a directory everything that is missing is made; anything else in the way is named by the error, and
nothing changes. With failures the search may go too far up or end too early, but a directory is
made in an existing one only, so from the top on some of the missing directories are made.
-/

namespace TreeOps

namespace Tree

/-- The way to a target is there up to a place, and nothing of it is there behind that place. -/
structure BreaksOff (t : Tree) (base missing : Place) (n : Node) : Prop where
  found : t.lookup base = some n
  lacks : t.Lacks base missing
  above : ∀ place, place ≠ [] → place <+: base → t.lookup place ≠ none

/-- Some of the missing directories were made, from the top on. -/
def MadePart (t t' : Tree) (volume : Nat) (base missing : Place) : Prop :=
  ∃ made, made <+: missing ∧ ∀ place, t.MadeOn t' volume base (base ++ made) place

variable {t t' : Tree} {base missing : Place} {n : Node}

theorem madePart_self (t : Tree) (volume : Nat) (base missing : Place) :
    t.MadePart t volume base missing := by
  refine ⟨[], List.nil_prefix, fun place => ?_⟩
  rw [List.append_nil]
  exact madeOn_self t volume base place

/-- On the way to the target, something can be made directly behind the place only. -/
theorem BreaksOff.next (h : t.BreaksOff base missing n) {above : Place} {c : Component} {d : Node}
    (htarget : above ++ [c] <+: base ++ missing) (hd : t.lookup above = some d)
    (hnone : t.lookup (above ++ [c]) = none) : above = base ∧ ∃ way, missing = c :: way := by
  have hbase : base <+: above := by
    rcases List.prefix_or_prefix_of_prefix htarget (List.prefix_append base missing) with hle | hle
    · exact absurd hnone (h.above _ (by simp) hle)
    · rcases List.prefix_concat_iff.mp hle with rfl | hle
      · rw [h.found] at hnone
        cases hnone
      · exact hle
  obtain ⟨way, rfl⟩ := hbase
  rw [List.append_assoc, List.prefix_append_right_inj] at htarget
  have hway : way = [] := by
    by_cases hway : way = []
    · exact hway
    · rw [h.lacks way hway ((List.prefix_append _ _).trans htarget)] at hd
      cases hd
  subst hway
  obtain ⟨rest, rfl⟩ := htarget
  exact ⟨List.append_nil base, rest, rfl⟩

/-- When the next directory has been made, the way breaks off behind it. -/
theorem BreaksOff.insert {c : Component} {way : Place} (h : t.BreaksOff base (c :: way) n)
    {p : Path} (hp : p.components = base ++ [c]) (d : Node) :
    BreaksOff (t.insert p d) (base ++ [c]) way d where
  found := by rw [PathMap.lookup_insert, if_pos hp]
  lacks way' hway hpre := by
    rw [PathMap.lookup_insert, if_neg (by simpa [hp] using hway), List.append_assoc]
    exact h.lacks (c :: way') (List.cons_ne_nil c way') (List.cons_prefix_cons.mpr ⟨rfl, hpre⟩)
  above place hne hpre := by
    rw [PathMap.lookup_insert]
    split
    · exact Option.some_ne_none d
    · next hother =>
      rcases List.prefix_concat_iff.mp hpre with rfl | hpre
      · exact absurd hp hother
      · exact h.above place hne hpre

/-- Behind the next directory further ones are made. -/
theorem MadePart.of_insert {volume : Nat} {c : Component} {way : Place} {p : Path}
    (hp : p.components = base ++ [c])
    (h : MadePart (t.insert p (.directoryOn volume)) t' volume (base ++ [c]) way) :
    t.MadePart t' volume base (c :: way) := by
  obtain ⟨made, hmade, hplaces⟩ := h
  refine ⟨c :: made, List.cons_prefix_cons.mpr ⟨rfl, hmade⟩, fun place => ?_⟩
  have htarget : base ++ c :: made = base ++ [c] ++ made := by simp
  rw [htarget]
  exact Memory.madeOn_of_insert hp (List.prefix_append _ _) (hplaces place)

end Tree

namespace Memory

open Operation (Ensures)

variable {tx : Option Transaction} {path : Path} {canceling : Prop} {s : Scene}

/-! ### With failures -/

/-- A directory is made in an existing one where nothing was. -/
def Makes (t : Tree) (p : Path) (t' : Tree) : Prop :=
  ∃ above c d, p.components = above ++ [c] ∧ t.lookup above = some d ∧
    t.lookup p.components = none ∧ t' = t.insert p (.directoryOn d.volume)

/-- A directory is made or is there already, or nothing has changed. -/
theorem ensures_createOne_failing {p : Path} :
    Ensures (Replies True canceling) (createOne tx p) s
      (fun _ s' => s' = s ∨ Makes s.nodes p s'.nodes) (fun _ s' => s' = s) := by
  rw [createOne, Operation.ensures_bind, ensures_attempt]
  refine ⟨fun value hv => ?_, fun e _ => ?_⟩
  · have hmade := Tree.update_ok hv
    obtain ⟨hnone, ⟨d, hd⟩, hplaced⟩ := Tree.withDirectory_eq_ok.mp hmade
    obtain ⟨-, above, c, hc, hcomponents, hlookup⟩ := Tree.exists_of_parentDirectory_eq_ok hd
    refine ensures_note.mpr (.inr ⟨above, c, d, hcomponents, hlookup, hnone, ?_⟩)
    rw [← place_directory hcomponents hc hlookup, hplaced]
    rfl
  · dsimp only
    split
    · rw [Operation.ensures_bind, ensures_perform]
      refine ⟨fun existing _ => ?_, fun _ _ => rfl⟩
      split
      · exact Operation.ensures_pure.mpr (.inl rfl)
      · exact Operation.ensures_fail.mpr rfl
    · exact Operation.ensures_fail.mpr rfl

theorem ensures_missingDirectories_failing (l found : List Path) :
    Ensures (Replies True canceling) (missingDirectories tx l found) s
      (fun result s' => s' = s ∧ ∀ p ∈ result, p ∈ l ∨ p ∈ found) (fun _ s' => s' = s) := by
  induction l generalizing found with
  | nil => exact Operation.ensures_pure.mpr ⟨rfl, fun p hp => .inr hp⟩
  | cons q l ih =>
    rw [missingDirectories, Operation.ensures_bind, ensures_attempt]
    refine ⟨fun e _ => ?_, fun e _ => ?_⟩
    · dsimp only
      split
      · exact Operation.ensures_pure.mpr ⟨rfl, fun p hp => .inr hp⟩
      · exact Operation.ensures_fail.mpr rfl
    · dsimp only
      split
      · refine (ih (q :: found)).mono_ok ?_
        rintro result s' ⟨hs, hmem⟩
        refine ⟨hs, fun p hp => ?_⟩
        rcases hmem p hp with hp | hp
        · exact .inl (List.mem_cons_of_mem q hp)
        · rcases List.mem_cons.mp hp with rfl | hp
          · exact .inl List.mem_cons_self
          · exact .inr hp
      · exact Operation.ensures_fail.mpr rfl

/-- Whatever paths on the way to a target are to be made, from the top on some of them are. -/
theorem ensures_createAll_failing {ps : List Path} {base missing : Place} {n : Node}
    (hps : ∀ p ∈ ps, p.components <+: base ++ missing) (h : s.nodes.BreaksOff base missing n) :
    Ensures (Replies True canceling) (ps.forM (createOne tx)) s
      (fun _ s' => s.nodes.MadePart s'.nodes n.volume base missing)
      (fun _ s' => s.nodes.MadePart s'.nodes n.volume base missing) := by
  induction ps generalizing s base missing n with
  | nil => exact Operation.ensures_pure.mpr (Tree.madePart_self ..)
  | cons p ps ih =>
    obtain ⟨hp, hrest⟩ := List.forall_mem_cons.mp hps
    rw [Operation.ensures_forM_cons]
    refine ensures_createOne_failing.mono ?_ ?_
    · rintro _ s' (rfl | ⟨above, c, d, hcomponents, hd, hnone, hmade⟩)
      · exact ih hrest h
      · rw [hcomponents] at hp hnone
        obtain ⟨rfl, way, rfl⟩ := h.next hp hd hnone
        obtain rfl : d = n := Option.some.inj (hd.symm.trans h.found)
        have hbreaks := h.insert hcomponents (.directoryOn d.volume)
        rw [← hmade] at hbreaks
        have hlater (s'' : Scene)
            (hpart : s'.nodes.MadePart s''.nodes d.volume (above ++ [c]) way) :
            s.nodes.MadePart s''.nodes d.volume above (c :: way) := by
          rw [hmade] at hpart
          exact .of_insert hcomponents hpart
        exact (ih (by simpa using hrest) hbreaks).mono (fun _ => hlater) fun _ => hlater
    · rintro _ s' rfl
      exact Tree.madePart_self ..

/-- Whatever fails, some of the missing directories are made, from the top on. -/
theorem ensures_createResolved_failing {base missing : Place} {n : Node}
    (hplace : path.components = base ++ missing) (h : s.nodes.BreaksOff base missing n) :
    Ensures (Replies True canceling) (createResolved tx path) s
      (fun _ s' => s.nodes.MadePart s'.nodes n.volume base missing)
      (fun _ s' => s.nodes.MadePart s'.nodes n.volume base missing) := by
  rw [createResolved, Operation.ensures_bind]
  refine (ensures_missingDirectories_failing path.namedAncestors []).mono ?_ ?_
  · rintro result s' ⟨rfl, hmem⟩
    refine ensures_createAll_failing (fun p hp => ?_) h
    rw [← hplace]
    exact (Path.climbs_namedAncestors path).above ((hmem p hp).resolve_right List.not_mem_nil)
  · rintro _ s' rfl
    exact Tree.madePart_self ..

/-! ### A directory that is there -/

theorem call_query {m : Memory} (hcalm : m.failures = []) (path : Path) :
    m.call (.query path) =
      (m.nodes.entry path, { m with calls := (.query, path) :: m.calls }) := by
  obtain ⟨nodes, failures, calls⟩ := m
  obtain rfl : failures = [] := hcalm
  rfl

theorem exists_namedAncestors (hpath : path.components ≠ []) :
    ∃ above, path.namedAncestors = path :: above := by
  have hbytes : path.bytes ≠ [] := by
    intro hnil
    obtain rfl : path = ⟨[]⟩ := by cases path; simp_all
    exact hpath Path.components_mk_nil
  rw [Path.namedAncestors, Path.ancestors, Path.firstAncestors, List.filter_cons,
    if_pos (by simpa using hbytes)]
  exact ⟨_, rfl⟩

/-- Where a directory is already, or a link to one, only that is asked. -/
theorem runs_createDirectory_there {m : Memory} (hcalm : m.failures = []) (listener : Listener)
    {n : Node} (hpath : path.components ≠ []) (hn : m.nodes.lookup path.components = some n)
    (hlike : n.isDirectoryLike = true) :
    let run := m.runs listener (createDirectory tx path)
    run.result = .ok () ∧ run.memory = { m with calls := (.query, path) :: m.calls } := by
  intro run
  have hensures : Ensures Performs (createResolved tx path) m
      (fun _ m' => m' = { m with calls := (.query, path) :: m.calls }) (fun _ _ => False) := by
    obtain ⟨above, hnamed⟩ := exists_namedAncestors hpath
    have hentry := Tree.entry_eq_ok.mpr ⟨n, hn, rfl⟩
    rw [createResolved, hnamed, Operation.ensures_bind, missingDirectories, Operation.ensures_bind,
      performs_attempt, call_query hcalm, hentry]
    dsimp only
    rw [(n.describes_entryAt path).isDirectory, hlike, if_pos rfl]
    exact Operation.ensures_pure.mpr (Operation.ensures_pure.mpr rfl)
  have hends := ends_runs_performed listener hensures
  rw [← runs_resolve m listener path (createResolved tx)] at hends
  obtain ⟨_, hresult, hmemory⟩ := hends.exists_ok
  exact ⟨hresult, hmemory⟩

/-! ### Runs -/

section Runs

variable {m : Memory} {base missing : Place} {n : Node} (listener : Listener)
  (hcalm : m.failures = []) (hplace : path.components = base ++ missing)
  (hfound : m.nodes.lookup base = some n) (hlacks : m.nodes.Lacks base missing) (hbase : base ≠ [])

include hcalm hplace hfound hlacks hbase

/-- Below a directory all missing directories are made. -/
theorem runs_create_on (hopen : n.kind = .directory ∨ n.kind = .link true ∧ missing = []) :
    let run := m.runs listener (createDirectory tx path)
    run.result = .ok () ∧
      ∀ place, m.nodes.MadeOn run.memory.nodes n.volume base path.components place := by
  intro run
  have hensures : Ensures (Replies False True) (createResolved tx path) ⟨m.nodes, []⟩
      (fun _ s' => ∀ place, m.nodes.MadeOn s'.nodes n.volume base path.components place)
      (fun _ _ => False) := by
    rcases hopen with hk | ⟨hk, hmissing⟩
    · exact (ensures_createResolved_on hplace hbase hfound hk hlacks).mono_ok fun _ _ h => h.2
    · have hlike := Node.isDirectoryLike_iff.mpr (.inr hk)
      refine (ensures_createResolved_there hplace hbase hfound hlike hmissing).mono_ok ?_
      rintro _ s' rfl place
      rw [hplace, hmissing, List.append_nil]
      exact Tree.madeOn_self m.nodes n.volume base place
  have hends := ends_runs listener (.inr hcalm) (fun _ _ => trivial) hensures
  rw [← runs_resolve m listener path (createResolved tx)] at hends
  obtain ⟨_, hresult, hmade⟩ := hends.exists_ok
  exact ⟨hresult, hmade⟩

/-- When a directory has been created, or a link to one was there, creating it again asks once. -/
theorem runs_create_again (hopen : n.kind = .directory ∨ n.kind = .link true ∧ missing = [])
    (tx' : Option Transaction) (listener' : Listener) :
    let run := m.runs listener (createDirectory tx path)
    let again := run.memory.runs listener' (createDirectory tx' path)
    again.result = .ok () ∧
      again.memory = { run.memory with calls := (.query, path) :: run.memory.calls } := by
  intro run
  obtain ⟨-, hplaces⟩ : run.result = .ok () ∧
      ∀ place, m.nodes.MadeOn run.memory.nodes n.volume base path.components place :=
    runs_create_on listener hcalm hplace hfound hlacks hbase hopen
  have hmade := hplaces path.components
  have hpath : path.components ≠ [] := by simp [hplace, hbase]
  rw [Tree.MadeOn] at hmade
  split at hmade
  · exact runs_createDirectory_there (failures_runs hcalm listener _) listener' hpath hmade rfl
  · next hnot =>
    have hself : path.components = base := by
      by_cases hself : path.components = base
      · exact hself
      · exact absurd ⟨hplace ▸ List.prefix_append _ _, hself, List.prefix_refl _⟩ hnot
    rw [hself, hfound, ← hself] at hmade
    have hlike := Node.isDirectoryLike_iff.mpr (hopen.imp_right And.left)
    exact runs_createDirectory_there (failures_runs hcalm listener _) listener' hpath hmade hlike

/-- Anything that is no directory and no link to one is named by the error. -/
theorem runs_create_of_file (hk : n.kind = .file ∨ n.kind = .link false) :
    let run := m.runs listener (createDirectory tx path)
    run.memory.nodes = m.nodes ∧ ∃ a ∈ path.namedAncestors,
      a.components = base ∧ run.result = .error (.failed (.notADirectory a)) := by
  have hlike : n.isDirectoryLike = false := by
    rcases hk with hk | hk <;> simp [Node.isDirectoryLike, hk]
  have hensures : Ensures (Replies False True) (createResolved tx path) ⟨m.nodes, []⟩ _ _ :=
    ensures_createResolved_of_file hplace hbase hfound hlike hlacks
  have hends := ends_runs listener (.inr hcalm) (fun _ _ => trivial) hensures
  rw [← runs_resolve m listener path (createResolved tx)] at hends
  obtain ⟨halt, hresult, hscene, a, ha, hcomponents, rfl⟩ := hends.exists_error
  exact ⟨congrArg Scene.nodes hscene, a, ha, hcomponents, hresult⟩

/-- Below a link to a directory, the child on the way is reported missing. -/
theorem runs_create_of_link {c : Component} {way : Place} (hk : n.kind = .link true)
    (hmissing : missing = c :: way) :
    let run := m.runs listener (createDirectory tx path)
    run.memory.nodes = m.nodes ∧ ∃ child ∈ path.namedAncestors,
      child.components = base ++ [c] ∧ run.result = .error (.failed (.notFound child)) := by
  have hensures : Ensures (Replies False True) (createResolved tx path) ⟨m.nodes, []⟩ _ _ :=
    ensures_createResolved_of_link hplace hbase hfound hk hmissing hlacks
  have hends := ends_runs listener (.inr hcalm) (fun _ _ => trivial) hensures
  rw [← runs_resolve m listener path (createResolved tx)] at hends
  obtain ⟨halt, hresult, hscene, child, hchild, hcomponents, rfl⟩ := hends.exists_error
  exact ⟨congrArg Scene.nodes hscene, child, hchild, hcomponents, hresult⟩

end Runs

/-- What creating a directory comes to. The nearest path that exists is at a place, and what leads
from there to the path is missing. -/
structure Creates (m : Memory) (path : Path) (run : Run Unit)
    (base missing : Place) (n : Node) : Prop where
  place : path.components = base ++ missing
  found : m.nodes.lookup base = some n
  lacks : m.nodes.Lacks base missing
  /-- Without failures, below a directory all that is missing is made, on its volume, and creating
  the path again asks for it once and does nothing. -/
  made : m.failures = [] → n.kind = .directory ∨ n.kind = .link true ∧ missing = [] →
    run.result = .ok () ∧
      (∀ place, m.nodes.MadeOn run.memory.nodes n.volume base path.components place) ∧
      ∀ tx' listener', let again := run.memory.runs listener' (createDirectory tx' path)
        again.result = .ok () ∧
          again.memory = { run.memory with calls := (.query, path) :: run.memory.calls }
  /-- A file or a link to one is named by the error. -/
  file : m.failures = [] → n.kind = .file ∨ n.kind = .link false →
    run.memory.nodes = m.nodes ∧ ∃ a ∈ path.namedAncestors,
      a.components = base ∧ run.result = .error (.failed (.notADirectory a))
  /-- Below a link to a directory, the child on the way is reported missing. -/
  link : ∀ c way, m.failures = [] → n.kind = .link true → missing = c :: way →
    run.memory.nodes = m.nodes ∧ ∃ child ∈ path.namedAncestors,
      child.components = base ++ [c] ∧ run.result = .error (.failed (.notFound child))
  /-- Whatever fails, some of what is missing is made, from the top on, and nothing else changes. -/
  part : m.nodes.MadePart run.memory.nodes n.volume base missing

/-- Creating a directory is told by the nearest path that exists, whatever fails. -/
theorem create_makes_missing (m : Memory) (listener : Listener) (tx : Option Transaction)
    (path : Path) (hwf : m.nodes.WellFormed) (hroot : m.nodes.IsDirectoryAt [.root])
    (hnormal : path.isNormal = true) :
    ∃ base missing n,
      m.Creates path (m.runs listener (createDirectory tx path)) base missing n := by
  obtain ⟨way, hway, -⟩ := Path.isNormal_iff.mp hnormal
  obtain ⟨root, hrootFound, -⟩ := hroot
  have habove : [Component.root] <+: path.components := ⟨way, hway.symm⟩
  obtain ⟨n, hn⟩ := Tree.exists_nearest (List.cons_ne_nil _ _) habove hrootFound
  obtain ⟨base, missing, hplace, hbase, hfound, hlacks⟩ :=
    Tree.exists_lacks_of_climbs (Path.climbs_namedAncestors path) hn
  have hbreaks : m.nodes.BreaksOff base missing n := by
    refine ⟨hfound, hlacks, ?_⟩
    rintro place hne ⟨rest, rfl⟩
    obtain ⟨d, hd⟩ := hwf.exists_above hfound hne
    rw [hd]
    exact Option.some_ne_none d
  refine ⟨base, missing, n, hplace, hfound, hlacks, fun hcalm hopen => ?_, fun hcalm => ?_,
    fun c way hcalm => ?_, ?_⟩
  · obtain ⟨hresult, hmade⟩ := runs_create_on listener hcalm hplace hfound hlacks hbase hopen
    exact ⟨hresult, hmade, runs_create_again listener hcalm hplace hfound hlacks hbase hopen⟩
  · exact runs_create_of_file listener hcalm hplace hfound hlacks hbase
  · exact runs_create_of_link listener hcalm hplace hfound hlacks hbase
  · have hensures : Ensures (Replies True True) (createResolved tx path) ⟨m.nodes, []⟩ _ _ :=
      ensures_createResolved_failing hplace hbreaks
    have hends := ends_runs listener (.inl trivial) (fun _ _ => trivial) hensures
    rw [← runs_resolve m listener path (createResolved tx)] at hends
    exact hends.elim

/-- Below a directory that is on a volume of its own, the second of two directories cannot be made.
-/
theorem create_makes_missing_denied :
    let m := ((new.addFile "/d/f" 1).setVolume "/d" 1).addFailure
      ⟨.createDirectory, "/d/x/y", .accessDenied, some 1⟩
    let run := m.runs {} (createDirectory none "/d/x/y")
    ∃ base missing n, m.Creates "/d/x/y" run base missing n :=
  create_makes_missing (((new.addFile "/d/f" 1).setVolume "/d" 1).addFailure
    ⟨.createDirectory, "/d/x/y", .accessDenied, some 1⟩) {} none "/d/x/y" (by decide)
    ⟨.directory, rfl, rfl⟩ (by decide)

end Memory

end TreeOps
