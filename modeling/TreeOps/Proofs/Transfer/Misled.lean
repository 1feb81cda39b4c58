import TreeOps.Proofs.Memory.Scripted
import TreeOps.Proofs.Transfer.Course
import TreeOps.Proofs.Transfer.Whole

/-!
# Renames that fail

A move that may replace its destination removes it once a rename has failed with a code that tells
of something in the way, and renames again. Where only renames are scripted to fail, the nodes bear
out such a code unless it was scripted; the second rename then succeeds. A code that was scripted
can mislead: if the second rename fails as well, or if the directory of the destination is on
another volume than the source, the destination is gone and the source is still where it was.
-/

namespace TreeOps

namespace Request

variable {tx : Option Transaction} {root : Place} {r : Request}

theorem Looks.avoids_move (h : r.Looks tx) : r.Avoids .move := by
  cases r with
  | call tx' c =>
    cases c with
    | move => exact h.elim
    | _ => simp [Avoids, Call.primitive]
  | resolve | consult | report | pause | note => trivial

theorem Removes.avoids_move (h : r.Removes tx root) : r.Avoids .move := by
  cases r with
  | call tx' c =>
    cases c with
    | move => exact h.elim
    | _ => simp [Avoids, Call.primitive]
  | resolve | consult | report | pause | note => trivial

end Request

namespace Memory

open Transfer Operation

variable {source destination : Path} {levels : Nat} {opts : TransferOptions} {m : MoveOptions}

/-! ### What is known of a move onto something -/

/-- What a move onto something finds: a well-formed tree, and two nodes at places apart. -/
structure Contested (t : Tree) (source destination : Path) (levels : Nat) (n old : Node) :
    Prop where
  wellFormed : t.WellFormed
  levels : t.levels ≤ levels
  moved : t.lookup source.components = some n
  taken : t.lookup destination.components = some old
  apart : Apart source.components destination.components

namespace Contested

variable {t : Tree} {n old : Node} (h : Contested t source destination levels n old)
include h

theorem exists_parent : ∃ base c, base ≠ [] ∧ c ≠ .root ∧
    destination.components = base ++ [c] := by
  obtain ⟨way, hway⟩ := h.wellFormed.normal_of_lookup h.taken
  exact h.wellFormed.exists_parent h.moved (Path.isNormal_iff.mpr ⟨way, hway⟩) h.apart

theorem regular_destination : Regular (t.branch destination.components) levels := by
  obtain ⟨base, c, -, -, hplace⟩ := h.exists_parent
  exact h.wellFormed.regular h.levels (by simp [hplace])

theorem parentDirectory : ∃ parent, t.parentDirectory destination = .ok parent := by
  obtain ⟨base, c, hbase, hc, hplace⟩ := h.exists_parent
  obtain ⟨d, hd, hk⟩ := h.wellFormed.directory_above (hplace ▸ h.taken) hbase
  exact ⟨d, Tree.parentDirectory_eq_ok hplace hc hd hk⟩

end Contested

/-- The first rename of a move fails with a code that tells of something in the way, and the next
one fails although nothing is. -/
structure Misleads (t : Tree) (failures : List Failure) (source destination : Path) : Prop where
  apart : overlap? source destination = none
  directory : ∃ n, t.lookup source.components = some n ∧ n.isDirectoryLike = true
  occupied : ∃ code, (strike .move source failures).1 = some code ∧ isOccupied code = true
  again : (strike .move source (strike .move source failures).2).1.isSome = true ∨
    ∃ n parent, t.lookup source.components = some n ∧
      t.parentDirectory destination = .ok parent ∧ parent.volume ≠ n.volume

/-- What a move that fails has done: it has removed the destination where it was misled, and nothing
otherwise. -/
structure Aftermath (t : Tree) (failures : List Failure) (source destination : Path) (t' : Tree) :
    Prop where
  kept : ¬Misleads t failures source destination → t' = t
  lost : Misleads t failures source destination → t.Without t' destination.components

/-! ### One rename -/

theorem performs_record {mem : Memory} {t : Tally} {kind : ProgressKind} {bytes : UInt64}
    {ok : Tally × ProgressAction → Memory → Prop} {err : Halt → Memory → Prop}
    (h : ∀ t' action, ok (t', action) mem) :
    Ensures Performs (record t kind source destination bytes) mem ok err := by
  unfold record
  rw [Operation.ensures_bind]
  exact performs_report.mpr fun action => h _ action

/-- A rename that may not be made up for by copying succeeds, finds something in the way, or ends
the move. -/
theorem performs_tryRename {mem mem' : Memory} {result : Except NativeError Unit} {mayRemove : Bool}
    {t : Tally} {ok : Rename → Memory → Prop} {err : Halt → Memory → Prop}
    (hcall : mem.call (.move source destination m.replaceExisting) = (result, mem'))
    (hcopy : m.copyAllowed = false) (hrenamed : ∀ t', ok (.renamed t') mem')
    (hoccupied : ∀ e, result = .error e → mayRemove = true → isOccupied e.code = true →
      ok .occupied mem')
    (hfailed : ∀ e halt, result = .error e → (mayRemove && isOccupied e.code) = false →
      err halt mem') :
    Ensures Performs (tryRename m opts source destination mayRemove t) mem ok err := by
  unfold tryRename
  rw [Operation.ensures_bind, performs_attempt, hcall]
  cases result with
  | ok value =>
    dsimp only
    rw [Operation.ensures_bind]
    apply performs_record
    intro t' action
    simp only [Operation.ensures_bind, performs_note, Operation.ensures_pure]
    exact hrenamed t'
  | error e =>
    have hends (halt : Halt) (h : (mayRemove && isOccupied e.code) = false) := hfailed e halt rfl h
    dsimp only
    split
    · next hdevice =>
      rw [if_neg (by simp [hcopy])]
      exact Operation.ensures_fail.mpr (hends _ (by rw [hdevice]; exact Bool.and_false _))
    · split
      · next hway =>
        rw [Bool.and_eq_true] at hway
        exact Operation.ensures_pure.mpr (hoccupied e rfl hway.1 hway.2)
      · next hfree =>
        split
        · exact Operation.ensures_fail.mpr (hends _ (by simpa using hfree))
        · exact Operation.ensures_fail.mpr (hends _ (by simpa using hfree))

/-! ### The rename and its repetition -/

section Rename

variable {mem mem₁ mem₂ mem₃ : Memory} {n old : Node} {info : Entry} {t : Tally}
  {e e' : NativeError}
  (h : Contested mem.nodes source destination levels n old)
include h

/-- Where something seems to be in the way of the first rename, that was scripted, or the nodes bear
it out and no failure is left. -/
theorem Contested.occupied
    (hcall : mem.call (.move source destination m.replaceExisting) = (.error e, mem₁))
    (hcode : isOccupied e.code = true) :
    (strike .move source mem.failures).1 = some e.code ∨
      (strike .move source mem.failures).1 = none ∧ ∃ parent,
        mem.nodes.parentDirectory destination = .ok parent ∧ parent.volume = n.volume := by
  obtain ⟨hresult, -, -⟩ := mem.call_eq (.move source destination m.replaceExisting)
  simp only [Call.primitive, Call.path, hcall] at hresult
  cases hstrike : (strike .move source mem.failures).1 with
  | some code =>
    rw [hstrike] at hresult
    rw [Except.error.inj hresult]
    exact .inl rfl
  | none =>
    rw [hstrike] at hresult
    obtain ⟨hfile, hpath, hdevice⟩ := ne_of_isOccupied hcode
    obtain ⟨n', parent, hn', hparent, hvolume⟩ :=
      Tree.exists_of_withMoved_error (Tree.update_error hresult.symm) hfile hpath hdevice
    obtain rfl := Option.some.inj (h.moved.symm.trans hn')
    exact .inr ⟨rfl, parent, hparent, hvolume⟩

/-- A second rename, for which the destination has been removed, fails only if the first one has
misled. -/
theorem Contested.misleads (hoverlap : overlap? source destination = none)
    (hlike : n.isDirectoryLike = true)
    (hcall : mem.call (.move source destination m.replaceExisting) = (.error e, mem₁))
    (hcode : isOccupied e.code = true) (hfailures : mem₂.failures = mem₁.failures)
    (hwithout : mem.nodes.Without mem₂.nodes destination.components)
    (hcall' : mem₂.call (.move source destination m.replaceExisting) = (.error e', mem₃)) :
    Misleads mem.nodes mem.failures source destination := by
  obtain ⟨parent, hparent⟩ := h.parentDirectory
  obtain ⟨-, -, hleft⟩ := mem.call_eq (.move source destination m.replaceExisting)
  simp only [Call.primitive, Call.path, hcall] at hleft
  -- Unless a failure strikes, whether the second rename succeeds depends on the volumes alone.
  have hagain : (strike .move source (strike .move source mem.failures).2).1.isSome = true ∨
      parent.volume ≠ n.volume := by
    obtain ⟨hresult, -, -⟩ := mem₂.call_eq (.move source destination m.replaceExisting)
    simp only [Call.primitive, Call.path, hcall', hfailures, hleft] at hresult
    cases hstrike : (strike .move source (strike .move source mem.failures).2).1 with
    | some code => exact .inl rfl
    | none =>
      rw [hstrike] at hresult
      have hfailed := Tree.update_error hresult.symm
      rw [hwithout.withMoved_eq h.apart h.moved hparent] at hfailed
      refine .inr fun hvolume => ?_
      rw [if_pos hvolume] at hfailed
      cases hfailed
  rcases h.occupied hcall hcode with hscripted | ⟨hnone, parent', hparent', hvolume⟩
  · exact ⟨hoverlap, ⟨n, h.moved, hlike⟩, ⟨_, hscripted, hcode⟩,
      hagain.imp_right fun hvolume => ⟨n, parent, h.moved, hparent, hvolume⟩⟩
  · obtain rfl := Except.ok.inj (hparent.symm.trans hparent')
    rw [strike_eq_of_none hnone, hnone] at hagain
    exact absurd hvolume (hagain.resolve_left (by simp))

theorem performs_renameTree (hoverlap : overlap? source destination = none)
    (hlike : n.isDirectoryLike = true) (hcopy : m.copyAllowed = false)
    (hinfo : info.Describes old) (hmoves : ∀ f ∈ mem.failures, f.primitive = .move) :
    Ensures Performs (renameTree levels m opts source destination (some info) t) mem
      (fun r _ => ∃ t', r = .done t')
      (fun _ mem' => Aftermath mem.nodes mem.failures source destination mem'.nodes) := by
  obtain ⟨hresult, -, hleft⟩ := mem.call_eq (.move source destination m.replaceExisting)
  generalize hcall : mem.call (.move source destination m.replaceExisting) = first at hresult hleft
  obtain ⟨result, mem₁⟩ := first
  simp only [Call.primitive, Call.path] at hresult hleft
  unfold renameTree
  rw [Operation.ensures_bind]
  apply performs_tryRename hcall hcopy
  · exact fun t' => Operation.ensures_pure.mpr ⟨t', rfl⟩
  · rintro e rfl - hcode
    have hnodes := nodes_of_call_error hcall
    have hmoves₁ : ∀ f ∈ mem₁.failures, f.primitive = .move :=
      hleft ▸ forall_strike hmoves fun _ _ hmove => hmove
    have hreplaced : Leaves True (replaceDestination levels opts destination info.isDirectory)
        ⟨mem₁.nodes, []⟩ (mem₁.nodes.Without · destination.components) :=
      leaves_replaceDestination (hnodes ▸ h.regular_destination) (hnodes ▸ h.taken) hinfo
    dsimp only
    rw [Operation.ensures_bind]
    apply (performs_avoiding hmoves₁
      (asks_replaceDestination.mono fun _ => Request.Removes.avoids_move) hreplaced).mono
    · rintro _ mem₂ ⟨hfailures, s, hs, -, hwithout⟩
      rw [hs] at hwithout
      replace hwithout : mem.nodes.Without mem₂.nodes destination.components := hnodes ▸ hwithout
      generalize hcall' : mem₂.call (.move source destination m.replaceExisting) = second
      obtain ⟨result', mem₃⟩ := second
      rw [Operation.ensures_bind]
      apply performs_tryRename hcall' hcopy
      · exact fun t' => Operation.ensures_pure.mpr ⟨t', rfl⟩
      · exact fun _ _ hno => nomatch hno
      · rintro e' _ rfl -
        have hmisleads := h.misleads hoverlap hlike hcall hcode hfailures hwithout hcall'
        exact ⟨fun hno => absurd hmisleads hno, fun _ => nodes_of_call_error hcall' ▸ hwithout⟩
    · rintro _ _ ⟨_, _, _, hno⟩
      exact hno.elim
  · rintro e _ rfl hfree
    refine ⟨fun _ => nodes_of_call_error hcall, fun hmisleads => ?_⟩
    obtain ⟨code, hstrike, hcode⟩ := hmisleads.occupied
    rw [hstrike] at hresult
    obtain rfl := Except.error.inj hresult
    cases hcode.symm.trans hfree

end Rename

/-! ### Whole moves -/

/-- A move onto something on the volume of its source finds out both. -/
theorem ensures_surveyMove_taken {s : Scene} {n old : Node} {canceling : Prop}
    (hn : s.nodes.lookup source.components = some n)
    (hold : s.nodes.lookup destination.components = some old) (hvolume : n.volume = old.volume)
    (hne : destination.components ≠ []) :
    Ensures (Replies False canceling) (surveyMove opts source destination) s
      (fun survey s' => s'.nodes = s.nodes ∧ survey.1 = true ∧
        ∃ info, survey.2 = some info ∧ info.Describes old)
      (fun _ _ => False) := by
  have hquery : s.nodes.perform (.query destination) =
      (.ok ((old.child destination).entryAt destination), s.nodes) :=
    Prod.ext (Tree.entry_eq_ok.mpr ⟨old, hold, rfl⟩) rfl
  have hanswer : s.nodes.perform (.sameVolume source destination) = (.ok true, s.nodes) := by
    refine Prod.ext ((Tree.onOneVolume_eq_ok hn hold).trans ?_) rfl
    rw [hvolume, beq_self_eq_true]
  obtain ⟨above, habove⟩ : ∃ above, destination.namedAncestors = destination :: above := by
    have hbytes : destination.bytes ≠ [] := by
      intro hnil
      obtain rfl : destination = ⟨[]⟩ := by cases destination; simp_all
      exact hne rfl
    unfold Path.namedAncestors Path.ancestors Path.firstAncestors
    rw [List.filter_cons, if_pos (by simpa using hbytes)]
    exact ⟨_, rfl⟩
  unfold surveyMove
  rw [habove, firstExisting, Operation.ensures_bind, Operation.ensures_bind]
  refine ensures_attempt_ok hquery (Operation.ensures_pure.mpr ?_)
  dsimp only
  rw [Operation.ensures_bind]
  refine ensures_perform_ok hanswer ?_
  rw [Operation.ensures_bind, queryDestination, Operation.ensures_bind]
  refine ensures_attempt_ok hquery ?_
  exact ⟨rfl, rfl, _, rfl, old.describes_entryAt destination⟩

theorem performs_moveTree {mem : Memory} {n old : Node} {t : Tally}
    (h : Contested mem.nodes source destination levels n old)
    (hoverlap : overlap? source destination = none) (hlike : n.isDirectoryLike = true)
    (hmoves : ∀ f ∈ mem.failures, f.primitive = .move) (hreplace : m.replaceExisting = true)
    (hcopy : m.copyAllowed = false) (hvolume : n.volume = old.volume) :
    Ensures Performs (moveTree levels m opts source destination t) mem (fun _ _ => True)
      (fun _ mem' => Aftermath mem.nodes mem.failures source destination mem'.nodes) := by
  have hne : destination.components ≠ [] := by
    obtain ⟨base, c, -, -, hplace⟩ := h.exists_parent
    simp [hplace]
  have hsurvey : Ensures (Replies False True) (surveyMove opts source destination) ⟨mem.nodes, []⟩
      (fun survey s => s.nodes = mem.nodes ∧ survey.1 = true ∧
        ∃ info, survey.2 = some info ∧ info.Describes old) (fun _ _ => False) :=
    ensures_surveyMove_taken h.moved h.taken hvolume hne
  rw [moveTree_eq, Operation.ensures_bind]
  apply (performs_avoiding hmoves (looks_surveyMove.mono fun _ => Request.Looks.avoids_move)
    hsurvey).mono
  · rintro ⟨onOneVolume, existing⟩ mem₁ ⟨hfailures, s, hs, hnodes, rfl, info, rfl, hinfo⟩
    replace hnodes : mem₁.nodes = mem.nodes := hs.symm.trans hnodes
    rw [← hfailures] at hmoves ⊢
    rw [← hnodes] at h ⊢
    unfold moveSurveyed
    rw [if_neg (by simp [hreplace]), if_pos rfl, Operation.ensures_bind]
    apply (performs_renameTree h hoverlap hlike hcopy hinfo hmoves).mono_ok
    rintro _ _ ⟨t', rfl⟩
    trivial
  · rintro _ _ ⟨_, _, _, hno⟩
    exact hno.elim

/-- A move onto something that fails has removed that just if it was misled. -/
theorem performs_copyOrMove {mem : Memory} (hwf : mem.nodes.WellFormed)
    (hlevels : mem.nodes.levels ≤ levels) (hmoves : ∀ f ∈ mem.failures, f.primitive = .move)
    (hmode : opts.mode = .ok (.move m)) (hreplace : m.replaceExisting = true)
    (hcopy : m.copyAllowed = false)
    (htaken : (mem.nodes.lookup destination.components).isSome = true)
    (hvolume : ∀ n old, mem.nodes.lookup source.components = some n →
      mem.nodes.lookup destination.components = some old → n.volume = old.volume) :
    Ensures Performs (copyOrMove levels opts source destination) mem (fun _ _ => True)
      (fun _ mem' => Aftermath mem.nodes mem.failures source destination mem'.nodes) := by
  have hrefused (hno : ¬Misleads mem.nodes mem.failures source destination) :
      Aftermath mem.nodes mem.failures source destination mem.nodes :=
    ⟨fun _ => rfl, fun hmisleads => absurd hmisleads hno⟩
  have hplan : Ensures (Replies False True) (makePlan opts source destination) ⟨mem.nodes, []⟩
      (fun plan s => s.nodes = mem.nodes ∧ plan = ⟨.move m, source, destination⟩ ∧
        overlap? source destination = none ∧
        ∃ n, mem.nodes.lookup source.components = some n ∧ n.isDirectoryLike = true)
      (fun _ s => Aftermath mem.nodes mem.failures source destination s.nodes) := by
    apply ensures_makePlan
    · intro e he
      cases hmode.symm.trans he
    · intro e hoverlap
      refine hrefused fun hmisleads => ?_
      cases hoverlap.symm.trans hmisleads.apart
    · intro e he
      refine hrefused fun hmisleads => ?_
      obtain ⟨n, hn, -⟩ := hmisleads.directory
      cases hn.symm.trans (Tree.entry_eq_error.mp (he.resolve_left id)).1
    · intro n hn hfile
      refine hrefused fun hmisleads => ?_
      obtain ⟨n', hn', hlike⟩ := hmisleads.directory
      obtain rfl := Option.some.inj (hn.symm.trans hn')
      cases hlike.symm.trans hfile
    · intro mode n hmode' hoverlap hn hlike
      obtain rfl := Except.ok.inj (hmode.symm.trans hmode')
      exact ⟨rfl, rfl, hoverlap, n, hn, hlike⟩
  rw [copyOrMove_eq, Operation.ensures_bind]
  apply (performs_avoiding hmoves (looks_makePlan.mono fun _ => Request.Looks.avoids_move)
    hplan).mono
  · rintro _ mem₁ ⟨hfailures, s, hs, hnodes, rfl, hoverlap, n, hn, hlike⟩
    replace hnodes : mem₁.nodes = mem.nodes := hs.symm.trans hnodes
    obtain ⟨old, hold⟩ := Option.isSome_iff_exists.mp htaken
    have h : Contested mem.nodes source destination levels n old :=
      ⟨hwf, hlevels, hn, hold, Path.apart (overlap_eq_none_iff.mp hoverlap)⟩
    unfold transferTree
    simp only [Operation.ensures_bind, performs_note]
    rw [← hnodes] at h ⊢
    rw [← hfailures] at hmoves ⊢
    exact (performs_moveTree h hoverlap hlike hmoves hreplace hcopy
      (hvolume n old hn hold)).mono_ok fun _ _ _ => trivial
  · rintro _ _ ⟨_, s, hs, haftermath⟩
    exact hs ▸ haftermath

/-- A move that fails leaves its source as it was, and what is at its destination too unless it was
misled. -/
theorem Aftermath.kept_iff {t t' : Tree} {failures : List Failure} {old : Node}
    (h : Aftermath t failures source destination t')
    (hold : t.lookup destination.components = some old) :
    (∀ way, t'.lookup (source.components ++ way) = t.lookup (source.components ++ way)) ∧
      ((∀ way, t'.lookup (destination.components ++ way) =
        t.lookup (destination.components ++ way)) ↔ ¬Misleads t failures source destination) := by
  by_cases hmisleads : Misleads t failures source destination
  · have hwithout := h.lost hmisleads
    have happart := Path.apart (overlap_eq_none_iff.mp hmisleads.apart)
    refine ⟨fun way => hwithout.agreeOutside _ (happart.below way).2, ?_⟩
    refine iff_of_false (fun hkept => ?_) (absurd hmisleads)
    have hself := hkept []
    rw [hwithout.gone [], List.append_nil, hold] at hself
    cases hself
  · obtain rfl := h.kept hmisleads
    exact ⟨fun _ => rfl, iff_of_true (fun _ => rfl) hmisleads⟩

/-- A move onto something on the volume of its source, which may replace that but not copy, and for
which only renames are scripted to fail, leaves its source as it was if it fails. It leaves what is
at and below its destination as it was too, unless the first rename was scripted to fail with a code
that tells of something in the way and the second one fails as well. -/
theorem failed_move_keeps_iff (m : Memory) (listener : Listener) (levels : Nat)
    (opts : TransferOptions) (move : MoveOptions) (source destination : Path)
    (hwf : m.nodes.WellFormed) (hmoves : ∀ f ∈ m.failures, f.primitive = .move)
    (hlevels : m.nodes.levels ≤ levels) (hmode : opts.mode = .ok (.move move))
    (hreplace : move.replaceExisting = true) (hcopy : move.copyAllowed = false)
    (htaken : (m.nodes.lookup destination.components).isSome = true)
    (hvolume : ∀ n old, m.nodes.lookup source.components = some n →
      m.nodes.lookup destination.components = some old → n.volume = old.volume) :
    let run := m.runs listener (copyOrMove levels opts source destination)
    ∀ halt, run.result = .error halt →
      (∀ way, run.memory.nodes.lookup (source.components ++ way) =
        m.nodes.lookup (source.components ++ way)) ∧
      ((∀ way, run.memory.nodes.lookup (destination.components ++ way) =
          m.nodes.lookup (destination.components ++ way)) ↔
        ¬Misleads m.nodes m.failures source destination) := by
  intro run halt hresult
  have hends := ends_runs_performed listener
    (performs_copyOrMove hwf hlevels hmoves hmode hreplace hcopy htaken hvolume)
  rw [hresult] at hends
  obtain ⟨old, hold⟩ := Option.isSome_iff_exists.mp htaken
  exact Aftermath.kept_iff hends hold

/-- A rename that is scripted to cross volumes does not mislead. -/
theorem failed_move_keeps_iff_crossing :
    let m := ((new.addFile "/s/f" 3).addFile "/d/old" 5).addFailure
      ⟨.move, "/s", .notSameDevice, none⟩
    let opts : TransferOptions := { move := some { replaceExisting := true } }
    let run := m.runs {} (copyOrMove m.levels opts "/s" "/d")
    run.result = .error (.failed (.notSameDevice "/s" "/d")) ∧
      (∀ way, run.memory.nodes.lookup (Path.components "/s" ++ way) =
        m.nodes.lookup (Path.components "/s" ++ way)) ∧
      ∀ way, run.memory.nodes.lookup (Path.components "/d" ++ way) =
        m.nodes.lookup (Path.components "/d" ++ way) := by
  refine ⟨rfl, ?_⟩
  obtain ⟨hsource, hdestination⟩ := failed_move_keeps_iff (((new.addFile "/s/f" 3).addFile
    "/d/old" 5).addFailure ⟨.move, "/s", .notSameDevice, none⟩) {} _
    { move := some { replaceExisting := true } } { replaceExisting := true } "/s" "/d" (by decide)
    (by decide) (Nat.le_refl _) rfl rfl rfl rfl (by rintro n old ⟨⟩ ⟨⟩; rfl)
    (.failed (.notSameDevice "/s" "/d")) rfl
  refine ⟨hsource, hdestination.mpr fun hmisleads => ?_⟩
  obtain ⟨code, hstrike, hcode⟩ := hmisleads.occupied
  obtain rfl : NativeCode.notSameDevice = code := Option.some.inj hstrike
  cases hcode

/-- A rename that is always denied has the destination removed. -/
theorem failed_move_loses_destination :
    let m := ((new.addFile "/s/f" 3).addFile "/d/old" 5).addFailure
      ⟨.move, "/s", .accessDenied, none⟩
    let opts : TransferOptions := { move := some { replaceExisting := true } }
    let run := m.runs {} (copyOrMove m.levels opts "/s" "/d")
    m.nodes.WellFormed ∧ (∀ f ∈ m.failures, f.primitive = .move ∧ f.path = "/s") ∧
      m.nodes.onOneVolume "/s" "/d" = .ok true ∧ run.result.isOk = false ∧
      (m.nodes.lookup (Path.components "/d/old")).isSome = true ∧
      (run.memory.nodes.lookup (Path.components "/d/old")).isSome = false ∧
      (run.memory.nodes.lookup (Path.components "/d")).isSome = false :=
  ⟨by decide, by decide, rfl, by decide +kernel, by decide +kernel, by decide +kernel,
    by decide +kernel⟩

end Memory

end TreeOps
