import TreeOps.Proofs.Transfer.Exact

/-!
# What a copy makes

A copy without failures to where nothing is makes an image of the source. Its records name the nodes
of the source in path order, which is once each and a directory before what is below it. Its totals
are those of the source as far as 64 bits hold them. As a copy gives every entry the text of its
name, the image has the names of the source exactly when these are valid UTF-8; a copy of other
names goes elsewhere, or several of them to one place.
-/

namespace TreeOps

/-- What the run of a copy has come to when it has made an image of its source. Each node of the
source is named by one record, and by none before that of a node above it. The counters of the
outcome keep the remainders modulo 2^64. -/
structure Images (t : Tree) (source destination : Path) (run : Memory.Run Outcome) : Prop where
  result : run.result = .ok {
    source, destination
    isMove := false
    canceled := false
    entries := UInt64.ofNat (t.below source.components).length
    bytes := UInt64.ofNat
      (sizes ((t.below source.components).filter fun e => e.2.kind ≠ .directory)) }
  contents : ∀ way, (run.memory.nodes.lookup (destination.components ++ way)).map Node.content =
    (t.lookup (source.components ++ way)).map Node.content
  elsewhere : ∀ place, ¬destination.components <+: place →
    t.SameOrMade run.memory.nodes destination.components place
  told : ∀ x, x ∈ run.records.map Progress.told ↔
    ∃ way n, t.lookup (source.components ++ way) = some n ∧
      x = (source.components ++ way, destination.components ++ way, n.size)
  ordered : run.records.Pairwise fun r r' => ¬r'.source.components <+: r.source.components

/-- What the run of a copy has come to when no name is lost and no two entries have become one. -/
structure KeepsNames (t : Tree) (source destination : Path) (run : Memory.Run Outcome) : Prop where
  completed : ∃ outcome, run.result = .ok outcome ∧ outcome.canceled = false
  kept : ∀ way n, t.lookup (source.components ++ way) = some n →
    ∃ n', run.memory.nodes.lookup (destination.components ++ way) = some n' ∧
      n'.content = n.content
  count : (run.memory.nodes.below destination.components).length =
    (t.below source.components).length

/-! ### Records -/

theorem sizes_filter (l : List (Place × Node)) :
    sizes (l.filter fun e => e.2.kind ≠ .directory) = sizes l := by
  induction l with
  | nil => rfl
  | cons e l ih =>
    rw [List.filter_cons]
    split
    · simpa [sizes] using ih
    · next hk =>
      have hsize := e.2.sizeless (by simpa using hk)
      simpa [sizes, hsize] using ih

theorem mem_announced {t : Tree} {source destination : Place} {x : Place × Place × UInt64} :
    x ∈ announced source destination (t.below source) ↔
      ∃ way n, t.lookup (source ++ way) = some n ∧
        x = (source ++ way, destination ++ way, n.size) := by
  rw [announced, List.mem_map]
  constructor
  · rintro ⟨e, he, rfl⟩
    obtain ⟨way, hway, hn⟩ := Tree.mem_below.mp he
    exact ⟨way, e.2, hn, by rw [hway, List.drop_left]⟩
  · rintro ⟨way, n, hn, rfl⟩
    exact ⟨(source ++ way, n), Tree.mem_below.mpr ⟨way, rfl, hn⟩, by rw [List.drop_left]⟩

theorem ordered_of_told {t : Tree} {source destination : Place} {rs : List Progress}
    (h : rs.map Progress.told = announced source destination (t.below source)) :
    rs.Pairwise fun r r' => ¬r'.source.components <+: r.source.components := by
  have hsources : rs.map (fun r => r.source.components) = (t.below source).map Prod.fst := by
    have hfirst := congrArg (List.map Prod.fst) h
    simpa [announced, Progress.told, Function.comp_def] using hfirst
  have hplaces : ((t.below source).map Prod.fst).Pairwise fun a b => ¬b <+: a :=
    List.pairwise_map.mpr ((t.below_sorted source).imp not_prefix_of_compare_lt)
  rw [← hsources] at hplaces
  exact List.pairwise_map.mp hplaces

namespace Memory

open Transfer Operation

variable {s : Scene} {source destination : Path} {levels : Nat} {opts : TransferOptions}
  {copy : CopyOptions}

/-! ### Runs of a copy -/

/-- A copy that passes its checks is a copy of the tree. -/
theorem ensures_copyOrMove_of_copyTree {canceling : Prop} {ok : Outcome → Scene → Prop}
    {err : Halt → Scene → Prop} (hmode : opts.mode = .ok (.copy copy))
    (hfolded : Apart source.foldedComponents destination.foldedComponents)
    (hsource : s.nodes.IsDirectoryAt source.components)
    (h : Ensures (Replies False canceling)
      (copyTree opts.transaction (TransferMode.copy copy).copyFlags levels true source destination
        {}) s
      (fun t s' => ok ⟨source, destination, false, t.canceled, t.entries, t.bytes⟩ s') err) :
    Ensures (Replies False canceling) (copyOrMove levels opts source destination) s ok err := by
  obtain ⟨n, hn, hk⟩ := hsource
  have hentry := Tree.entry_eq_ok.mpr ⟨n, hn, rfl⟩
  have hinfo := (n.describes_entryAt source).isDirectory
  unfold copyOrMove
  rw [hmode]
  simp only [Operation.ensures_bind, ensures_resolve, overlap_eq_none_iff.mpr hfolded]
  refine ensures_perform_ok (Prod.ext hentry rfl) ?_
  rw [hinfo, Node.isDirectoryLike_of_directory hk, if_neg (by simp)]
  unfold transferTree
  simp only [Operation.ensures_bind, ensures_note]
  exact h.mono_ok fun t s' h => ensures_pure.mpr h

/-- A copy of a directory to where nothing is succeeds. -/
theorem ensures_copyOrMove_copy {base missing : Place} (hmode : opts.mode = .ok (.copy copy))
    (hfolded : Apart source.foldedComponents destination.foldedComponents)
    (hcopyable : Copyable s.nodes source.components destination.components levels)
    (hplace : destination.components = base ++ missing) (hbase : base ≠ [])
    (hdir : s.nodes.IsDirectoryAt base) (hlacks : s.nodes.Lacks base missing)
    (hvacant : ∀ way, s.nodes.lookup (destination.components ++ way) = none) :
    Ensures (Replies False False) (copyOrMove levels opts source destination) s
      (fun outcome s' => ∃ t,
        outcome = ⟨source, destination, false, t.canceled, t.entries, t.bytes⟩ ∧
        Mirrored s source.components destination.components {} t s' ∧
        ∀ place, ¬destination.components <+: place →
          s.nodes.MadeDown s'.nodes base destination.components place)
      (fun _ _ => False) := by
  refine ensures_copyOrMove_of_copyTree hmode hfolded hcopyable.directory ?_
  refine (ensures_copyTree_root hcopyable hplace hbase hdir hlacks hvacant rfl).mono_ok ?_
  exact fun t s' h => ⟨t, rfl, h⟩

/-- A copy touches what is reached from the destination by names in valid UTF-8, and what is above
the destination. -/
theorem touches_copy (hmode : opts.mode = .ok (.copy copy)) :
    Touches (fun place => Spelled destination.components place ∨ place <+: destination.components)
      (copyOrMove levels opts source destination) := by
  unfold copyOrMove
  rw [hmode]
  refine touches_bind touches_resolve fun _ hsource => ?_
  refine touches_bind touches_resolve fun _ hdestination => ?_
  rw [hsource, hdestination]
  split
  · exact touches_fail
  · refine touches_bind (touches_perform.mono fun _ => False.elim) fun info _ => ?_
    split
    · exact touches_fail
    · have hframe (flags : CopyFlags) : Touches (fun place =>
          Spelled destination.components place ∨ place <+: destination.components)
            (copyTree opts.transaction flags levels true source destination {}) :=
        (touches_copyTree levels true source destination {}).mono fun _ => Or.imp_right And.right
      exact touches_seq touches_note (touches_bind (hframe _) fun _ _ => touches_pure trivial)

/-- Paths that overlap up to case make a transfer fail before it changes something. -/
theorem ensures_copyOrMove_overlap
    (h : ¬Apart source.foldedComponents destination.foldedComponents) :
    Ensures (Replies False False) (copyOrMove levels opts source destination) s
      (fun _ _ => False) (fun _ s' => s' = s) := by
  rw [copyOrMove_eq, Operation.ensures_bind]
  apply ensures_makePlan
  · exact fun _ _ => rfl
  · exact fun _ _ => rfl
  · exact fun _ _ => rfl
  · exact fun _ _ _ => rfl
  · intro mode n _ hnone _ _
    exact absurd (overlap_eq_none_iff.mp hnone) h

section Runs

variable {m : Memory} {listener : Listener} (hcalm : m.failures = [])
  (hproceed : ∀ p, listener.progress p = .proceed) (hmode : opts.mode = .ok (.copy copy))

include hcalm hproceed hmode

theorem exists_mirrored {base missing : Place}
    (hfolded : Apart source.foldedComponents destination.foldedComponents)
    (hcopyable : Copyable m.nodes source.components destination.components levels)
    (hplace : destination.components = base ++ missing) (hbase : base ≠ [])
    (hdir : m.nodes.IsDirectoryAt base) (hlacks : m.nodes.Lacks base missing)
    (hvacant : ∀ way, m.nodes.lookup (destination.components ++ way) = none) :
    ∃ t, (m.runs listener (copyOrMove levels opts source destination)).result =
        .ok ⟨source, destination, false, t.canceled, t.entries, t.bytes⟩ ∧
      Mirrored ⟨m.nodes, []⟩ source.components destination.components {} t
        (m.runs listener (copyOrMove levels opts source destination)).scene ∧
      ∀ place, ¬destination.components <+: place →
        m.nodes.MadeDown (m.runs listener (copyOrMove levels opts source destination)).memory.nodes
          base destination.components place := by
  have hends := ends_runs_calm hcalm hproceed
    (ensures_copyOrMove_copy hmode hfolded hcopyable hplace hbase hdir hlacks hvacant)
  cases hresult : (m.runs listener (copyOrMove levels opts source destination)).result with
  | error halt =>
    rw [hresult] at hends
    cases hends
  | ok outcome =>
    rw [hresult] at hends
    obtain ⟨t, rfl, hmirrored, helsewhere⟩ := hends
    exact ⟨t, rfl, hmirrored, helsewhere⟩

/-- Only names in valid UTF-8 are kept. -/
theorem textual_of_keepsNames
    (hvacant : ∀ way, m.nodes.lookup (destination.components ++ way) = none)
    (h : KeepsNames m.nodes source destination
      (m.runs listener (copyOrMove levels opts source destination))) :
    Textual (m.nodes.branch source.components) := by
  obtain ⟨⟨outcome, hresult, -⟩, hkept, -⟩ := h
  have htouches : Touches (fun place => Spelled destination.components place ∨
      place <+: destination.components) (copyOrMove levels opts source destination) :=
    touches_copy hmode
  have hends := ends_runs_calm hcalm hproceed (htouches.ensures ⟨m.nodes, []⟩)
  rw [hresult] at hends
  intro way n hn b hb
  obtain ⟨n', hn', -⟩ := hkept way n hn
  -- A node that was not there before is at a place that the copy can reach.
  by_cases hreached : Spelled destination.components (destination.components ++ way) ∨
      destination.components ++ way <+: destination.components
  · rcases hreached with ⟨way', heq, htext⟩ | hpre
    · exact htext b (List.append_cancel_left heq ▸ hb)
    · exact absurd hpre (append_not_prefix_self (List.ne_nil_of_mem hb))
  · have hsame := hends.1 _ hreached
    rw [hvacant] at hsame
    cases hn'.symm.trans hsame

omit hmode in
theorem apart_of_completed {outcome : Outcome}
    (h : (m.runs listener (copyOrMove levels opts source destination)).result = .ok outcome) :
    Apart source.foldedComponents destination.foldedComponents := by
  by_cases hapart : Apart source.foldedComponents destination.foldedComponents
  · exact hapart
  · have hensures : Ensures (Replies False False) (copyOrMove levels opts source destination)
        ⟨m.nodes, []⟩ _ _ := ensures_copyOrMove_overlap hapart
    have hends := ends_runs_calm hcalm hproceed hensures
    rw [h] at hends
    cases hends

end Runs

/-- A copy to below a directory keeps all names exactly when they are valid UTF-8, provided that the
paths are apart up to case. -/
theorem copy_keeps_names_iff (m : Memory) (listener : Listener) (levels : Nat)
    (opts : TransferOptions) (copy : CopyOptions) (source destination parent : Path)
    (hwf : m.nodes.WellFormed) (hcalm : m.failures = [])
    (hproceed : ∀ p, listener.progress p = .proceed) (hlevels : m.nodes.levels ≤ levels)
    (hmode : opts.mode = .ok (.copy copy)) (hsource : m.nodes.IsDirectoryAt source.components)
    (hparent : destination.parent = some parent) (hdir : m.nodes.IsDirectoryAt parent.components)
    (hvacant : ∀ way, m.nodes.lookup (destination.components ++ way) = none) :
    KeepsNames m.nodes source destination
        (m.runs listener (copyOrMove levels opts source destination)) ↔
      Textual (m.nodes.branch source.components) ∧
        Apart source.foldedComponents destination.foldedComponents := by
  constructor
  · intro h
    obtain ⟨outcome, hresult, -⟩ := h.completed
    exact ⟨textual_of_keepsNames hcalm hproceed hmode hvacant h,
      apart_of_completed hcalm hproceed hresult⟩
  · rintro ⟨htext, hapart⟩
    obtain ⟨c, -, hplace⟩ := Path.components_of_parent_eq_some hparent
    have hbase := hwf.ne_nil_of_directory hdir
    have hcopyable : Copyable m.nodes source.components destination.components levels :=
      ⟨hwf.regular hlevels (hwf.ne_nil_of_directory hsource), htext, hsource, Path.apart hapart⟩
    have hnone := hvacant []
    rw [List.append_nil, hplace] at hnone
    obtain ⟨t, hresult, ⟨hmirrored, hcounted, -⟩, -⟩ :=
      exists_mirrored hcalm hproceed hmode hapart hcopyable hplace hbase hdir
        (Tree.lacks_singleton hnone) hvacant
    refine ⟨⟨_, hresult, by rw [hcounted]; rfl⟩, fun way n hn => ?_, ?_⟩
    · have hcontent := (hmirrored way).trans (congrArg _ hn)
      exact Option.map_eq_some_iff.mp hcontent
    · refine Tree.length_below_eq fun way => ?_
      have hsome := congrArg Option.isSome (hmirrored way)
      rwa [Option.isSome_map, Option.isSome_map] at hsome

theorem copy_keeps_names_iff_text :
    let m := new.addFile "/s/a/f" 3
    KeepsNames m.nodes "/s" "/d" (m.runs {} (copyOrMove m.levels { copy := some {} } "/s" "/d")) ↔
      Textual (m.nodes.branch (Path.components "/s")) ∧
        Apart (Path.foldedComponents "/s") (Path.foldedComponents "/d") :=
  copy_keeps_names_iff _ _ _ _ {} _ _ "/" (by decide) rfl (fun _ => rfl) (Nat.le_refl _) rfl
    ⟨_, rfl, rfl⟩ (by decide) ⟨_, rfl, rfl⟩
    (Tree.WellFormed.eq_none_below (by decide) rfl (by decide))

/-- Two files whose names are not valid UTF-8 have the same text for their names. A copy that may
overwrite reports both and leaves one. -/
theorem copy_merges_names :
    let m := (new.addFile ⟨[47, 115, 47, 254]⟩ 1).addFile ⟨[47, 115, 47, 255]⟩ 2
    let run := m.runs {}
      (copyOrMove m.levels { copy := some { overwriteExisting := true } } "/s" "/d")
    m.nodes.WellFormed ∧ m.nodes.IsDirectoryAt (Path.components "/s") ∧
      (∀ way, m.nodes.lookup (Path.components "/d" ++ way) = none) ∧
      Apart (Path.foldedComponents "/s") (Path.foldedComponents "/d") ∧
      run.result = .ok ⟨"/s", "/d", false, false, 3, 3⟩ ∧
      (run.memory.nodes.below (Path.components "/d")).length = 2 ∧
      ¬KeepsNames m.nodes "/s" "/d" run :=
  ⟨by decide, ⟨_, rfl, rfl⟩, Tree.WellFormed.eq_none_below (by decide) rfl (by decide), by decide,
    rfl, by decide, fun h => absurd h.count (by decide)⟩

end Memory

end TreeOps
