import TreeOps.Proofs.Transfer.Cancel
import TreeOps.Proofs.Transfer.Entered
import TreeOps.Proofs.Transfer.Loss

/-!
# Links stay links

A transfer makes links again where it copies and takes them along where it renames, so when it
succeeds every link of the source is at the destination, to the same kind of target. It does not
list what a link leads to on the way, except for two cases: a copy lists its own source, which may
be a link, and the deletes of a move, before the copy and after it, enter a link on which a volume
is mounted, as every delete does.
-/

namespace TreeOps

/-- Every link at and below a place of a tree is at the same way from another place in another tree,
with the same kind of target. -/
def LinksAt (t : Tree) (source : Place) (t' : Tree) (destination : Place) : Prop :=
  ∀ way n, t.lookup (source ++ way) = some n → n.isLink = true →
    ∃ n', t'.lookup (destination ++ way) = some n' ∧ n'.kind = n.kind

theorem HoldsLeaves.links {t t' : Tree} {source destination : Place}
    (h : HoldsLeaves (t.branch source) t' destination) : LinksAt t source t' destination := by
  intro way n hn hlink
  have hk : n.kind ≠ .directory := by
    intro hk
    rw [Node.isLink, hk] at hlink
    cases hlink
  obtain ⟨n', hn', hcontent⟩ := h way n hn hk
  exact ⟨n', hn', congrArg Prod.fst hcontent⟩

/-- The copy phase of a transfer. -/
def Transfer.Plan.copying (plan : Plan) (levels : Nat) (opts : TransferOptions) :
    Operation Tally :=
  copyTree opts.transaction plan.mode.copyFlags levels true plan.source plan.destination {}

/-- No rename was reported. -/
def Scene.Unmoved (s : Scene) : Prop := ∀ r ∈ s.records, r.kind ≠ .treeMoved

namespace Memory

open Transfer Operation

variable {α : Type} {tx : Option Transaction} {allowed : Request → Prop} {failing canceling : Prop}
  {s : Scene} {view : Place → Option Node} {bound : Nat} {source destination : Path}
  {levels : Nat} {opts : TransferOptions} {m : MoveOptions} {flags : CopyFlags} {t : Tally}

/-! ### Renames that are reported -/

/-- What reports no rename leaves none reported. -/
theorem unmoved_of_asks {p : Operation α} {value : α → Prop} (h : Asks allowed p value)
    (hallowed : ∀ q, allowed (.report q) → q.kind ≠ .treeMoved) :
    Keeps (Replies failing canceling) Scene.Unmoved p value := by
  refine h.keeps _ fun r s a s' hr hs hstep => ?_
  cases r with
  | report q =>
    obtain ⟨-, rfl⟩ := hstep
    intro r hmem
    rcases List.mem_append.mp hmem with hmem | hmem
    · exact hs r hmem
    · obtain rfl := List.mem_singleton.mp hmem
      exact hallowed r hr
  | call tx c =>
    rcases hstep with ⟨-, rfl⟩ | ⟨-, rfl, -⟩
    · exact hs
    · exact hs
  | resolve path =>
    obtain ⟨-, rfl⟩ := hstep
    exact hs
  | consult | pause | note =>
    obtain rfl := hstep
    exact hs

theorem unmoved_of_silent {p : Operation α} {value : α → Prop}
    (h : Asks Request.IsSilent p value) :
    Keeps (Replies failing canceling) Scene.Unmoved p value :=
  unmoved_of_asks h fun _ => False.elim

/-! ### What has landed -/

/-- If a transfer was not canceled and had renamed its source, or the source can be copied, every
file and link is at the destination. -/
def Landed (view : Place → Option Node) (copyable : Prop) (destination : Place) (canceled : Bool)
    (s : Scene) : Prop :=
  canceled = false → copyable ∨ ¬s.Unmoved → HoldsLeaves view s.nodes destination

section Landed

/-- A directory in which all names are valid UTF-8. -/
def TextualDirectory (view : Place → Option Node) : Prop :=
  Textual view ∧ ∃ n, view [] = some n ∧ n.kind = .directory

variable (hview : Regular view bound)
  (hapart : Apart source.components destination.components)

include hview hapart

theorem landed_copyTree (hsame : ∀ way, s.nodes.branch source.components way = view way)
    (hs : s.Unmoved) :
    Ensures (Replies True True) (copyTree tx flags levels true source destination t) s
      (fun t' s' => s'.Unmoved ∧ (t'.canceled = false → TextualDirectory view →
        HoldsLeaves view s'.nodes destination.components))
      (fun _ _ => True) := by
  have hunmoved : Keeps (Replies True True) Scene.Unmoved
      (copyTree tx flags levels true source destination t) :=
    unmoved_of_asks (asks_copyTree ..) fun _ => id
  by_cases htext : TextualDirectory view
  · refine ((hunmoved s hs).and (copiesLeaves_copyTree levels true view bound source destination t
      s hview htext.1 htext.2 hsame hapart)).mono ?_ fun _ _ _ => trivial
    exact fun _ _ h => ⟨h.1.1, fun hcanceled _ => h.2 hcanceled⟩
  · refine (hunmoved s hs).mono ?_ fun _ _ _ => trivial
    exact fun _ _ h => ⟨h.1, fun _ h' => absurd h' htext⟩

/-- The source is deleted after everything in it has been copied. -/
theorem landed_copyAndDelete (hsame : ∀ way, s.nodes.branch source.components way = view way)
    (hs : s.Unmoved) :
    Ensures (Replies True True) (copyAndDelete levels m opts source destination t) s
      (fun t' s' => Landed view (TextualDirectory view) destination.components t'.canceled s')
      (fun _ _ => True) := by
  unfold copyAndDelete
  rw [Operation.ensures_bind]
  refine (landed_copyTree hview hapart hsame hs).mono_ok fun t' s' h => ?_
  obtain ⟨hs', hholds⟩ := h
  split
  · next hcanceled =>
    rw [Operation.ensures_bind, ensures_note]
    exact ensures_pure.mpr fun hrunning => absurd hcanceled (by simp [hrunning])
  · rw [Operation.ensures_bind]
    refine (((touches_deleteResolved levels source).ensures s').and
      (unmoved_of_silent silent_delete s' hs')).mono ?_ fun _ _ _ => trivial
    rintro _ s'' ⟨⟨hagree, -⟩, hs'', -⟩
    rw [Operation.ensures_bind, ensures_note]
    refine ensures_pure.mpr fun hrunning hcopied => ?_
    exact (hholds hrunning (hcopied.resolve_right (· hs''))).of_agree hapart hagree

omit hview in
/-- Until a rename takes everything to the destination, the source is as it was. -/
theorem phases_landed (hne : source.components ≠ []) :
    Phases (Replies True True) levels m opts source destination t
      (fun _ s => (∀ way, s.nodes.branch source.components way = view way) ∧ s.Unmoved)
      (fun t' s => Landed view (TextualDirectory view) destination.components t'.canceled s)
      (fun _ _ => True) where
  taken _ _ _ _ := trivial
  refuse _ _ _ _ := trivial
  attempt _ s hs := by
    refine attempted_tryRename hs (fun _ _ _ hmoved _ _ => ?_) fun _ => trivial
    exact holdsLeaves_of_withMoved hs.1 hapart hne hmoved
  replace _ s hs := by
    refine ((touches_replaceDestination.ensures s).and
      (unmoved_of_silent silent_replaceDestination s hs.2)).mono ?_ fun _ _ _ => trivial
    exact fun _ _ h => ⟨branch_eq_of_agree hs.1 hapart h.1.1, h.2.1⟩

theorem landed_moveTree (hsame : ∀ way, s.nodes.branch source.components way = view way)
    (hs : s.Unmoved) (hne : source.components ≠ []) :
    Ensures (Replies True True) (moveTree levels m opts source destination t) s
      (fun t' s' => Landed view (TextualDirectory view) destination.components t'.canceled s')
      (fun _ _ => True) := by
  apply (phases_landed hapart hne).ensures_moveTree
  · have hsurvey : Touches (destination.components <+: ·) (surveyMove opts source destination) :=
      touches_surveyMove
    have hsilent : Asks Request.IsSilent (surveyMove opts source destination) :=
      looks_surveyMove.mono fun _ => Request.Looks.silent
    refine ((hsurvey.ensures s).and (unmoved_of_silent hsilent s hs)).mono ?_ fun _ _ _ => trivial
    exact fun _ _ h => ⟨branch_eq_of_agree hsame hapart h.1.1, h.2.1⟩
  · exact fun s' hs' => landed_copyAndDelete hview hapart hs'.1 hs'.2

end Landed

/-- What a transfer that was not canceled has renamed, or copied from a directory in which all names
are valid UTF-8, is at the destination. -/
theorem landed_copyOrMove (hwf : s.nodes.WellFormed) (hs : s.Unmoved) :
    Ensures (Replies True True) (copyOrMove levels opts source destination) s
      (fun outcome s' => Landed (s.nodes.branch source.components)
        (TextualDirectory (s.nodes.branch source.components)) destination.components
        outcome.canceled s')
      (fun _ _ => True) := by
  rw [copyOrMove_eq, Operation.ensures_bind]
  apply ensures_makePlan
  · exact fun _ _ => trivial
  · exact fun _ _ => trivial
  · exact fun _ _ => trivial
  · exact fun _ _ _ => trivial
  · intro mode n _ hoverlap hn _
    have hapart := Path.apart (overlap_eq_none_iff.mp hoverlap)
    have hne := hwf.ne_nil hn
    have hview := hwf.regular (Nat.le_refl _) hne
    unfold transferTree
    cases mode with
    | copy c =>
      simp only [Operation.ensures_bind, ensures_note]
      refine (landed_copyTree hview hapart (fun _ => rfl) hs).mono_ok fun t s' h => ?_
      refine ensures_pure.mpr fun hrunning hcopied => ?_
      exact h.2 hrunning (hcopied.resolve_right (· h.1))
    | move m =>
      simp only [Operation.ensures_bind, ensures_note]
      exact (landed_moveTree hview hapart (fun _ => rfl) hs hne).mono_ok
        fun _ _ h => ensures_pure.mpr h

/-! ### Runs -/

theorem Traced.start (m : Memory) (places : Place → Prop) : Traced m.nodes places ⟨m, True⟩ :=
  ⟨trivial, fun _ n _ hn => ⟨n, hn, .refl n⟩⟩

/-- A trace can be watched anew. -/
theorem Traced.afresh {t : Tree} {places : Place → Prop} {w : Watch Memory}
    (h : Traced t places w) : Traced t places ⟨w.state, True⟩ :=
  ⟨trivial, h.persists⟩

section Runs

variable {m : Memory} {listener : Listener} {plan : Plan}

/-- When a transfer comes to copying, its source is what it was. -/
theorem ready_of_runs (hplan :
      (m.runs listener (untilCopy levels opts source destination)).result = .ok (.inr plan)) :
    Ready m.nodes opts source destination plan
      ⟨(m.runs listener (untilCopy levels opts source destination)).memory, True⟩ := by
  have htraced : Ensures (Tracing listener m.nodes (MountedInMove opts))
      (untilCopy levels opts source destination) ⟨m, True⟩ _ _ := traced_untilCopy (.start m _)
  have hends := ends_runs_observed htraced
  rw [hplan] at hends
  have hready : Ready m.nodes opts source destination plan ⟨_, _⟩ := hends
  exact { hready with traced := hready.traced.afresh }

/-- A listener that never cancels does not cancel a copy. -/
theorem running_of_runs (hproceed : ∀ p, listener.progress p = .proceed)
    (ht : (m.runs listener (plan.copying levels opts)).result = .ok t) : t.canceled = false := by
  have hcounts : Counts (plan.copying levels opts) (.running []) :=
    counts_copyTree levels true plan.source plan.destination {} _ rfl ⟨[], rfl, rfl, rfl⟩
  have hends := ends_runs_running (m := m) hproceed hcounts
  rw [ht] at hends
  exact totals_running hends

variable {t₀ : Tree} (hready : Ready t₀ opts source destination plan ⟨m, True⟩)

include hready

/-- A copy that comes through lists a link exactly if its source is one. -/
theorem listsLink_copying_iff (hproceed : ∀ p, listener.progress p = .proceed)
    (ht : (m.runs listener (plan.copying levels opts)).result = .ok t) :
    (∃ x ∈ m.moments listener (plan.copying levels opts), ∃ path, ListsLink path x) ↔
      ∃ n, t₀.lookup source.components = some n ∧ n.isLink = true := by
  constructor
  · rintro ⟨x, hx, path, hlists⟩
    have hcopied : Ensures (Tracing listener t₀ fun place _ => place = source.components)
        (plan.copying levels opts) ⟨m, True⟩ _ _ := hready.traced_copyTree
    obtain ⟨n, hn, hlink, hsource⟩ :=
      hcopied.moments (fun _ _ h => h.good) (fun _ _ => id) x hx path hlists
    exact ⟨n, hsource ▸ hn, hlink⟩
  · rintro ⟨n, hn, hlink⟩
    have hlisted : Ensures (Tracing listener t₀ fun _ _ => False) (plan.copying levels opts)
        ⟨m, True⟩ _ _ := hready.lists_copyTree hn hlink
    have hends := ends_runs_observed hlisted
    rw [ht] at hends
    refine Classical.byContradiction fun hnone => ?_
    refine hends (running_of_runs hproceed ht) ⟨trivial, fun x hx path hlists => ?_⟩
    exact absurd ⟨x, hx, path, hlists⟩ hnone

/-- What comes after a copy finds the source as the copy has left it. -/
theorem traced_of_copying (ht : (m.runs listener (plan.copying levels opts)).result = .ok t) :
    Traced t₀ (source.components <+: ·)
      ⟨(m.runs listener (plan.copying levels opts)).memory, True⟩ := by
  have hcopied : Ensures (Tracing listener t₀ fun place _ => place = source.components)
      (plan.copying levels opts) ⟨m, True⟩ _ _ := hready.traced_copyTree
  have hends := ends_runs_observed hcopied
  rw [ht] at hends
  exact hends.afresh

end Runs

/-- Links stay links. A transfer is what comes before its copy phase, the copy, and what comes
after. Whatever failures are scripted and however the transfer ends, all links that it lists before
the copy and after it are, in a move, links on which a volume was mounted before. The copy lists no
link but its own source, and a copy that comes through has listed a link exactly if its source is
one. A transfer that succeeds has all links of the source at the destination, provided that it was a
rename or that the source is a directory in which all names are valid UTF-8. -/
theorem links_stay_links (m : Memory) (listener : Listener) (levels : Nat) (opts : TransferOptions)
    (source destination : Path) (hwf : m.nodes.WellFormed)
    (hproceed : ∀ p, listener.progress p = .proceed) :
    (copyOrMove levels opts source destination =
      untilCopy levels opts source destination >>= fun result =>
        match result with
        | .inl outcome => pure outcome
        | .inr plan => plan.copying levels opts >>= afterCopy levels opts plan) ∧
    (∀ x ∈ m.moments listener (untilCopy levels opts source destination),
      EntersOnly m.nodes (MountedInMove opts) x) ∧
    (let before := m.runs listener (untilCopy levels opts source destination)
      ∀ plan, before.result = .ok (.inr plan) →
        let copied := before.memory.runs listener (plan.copying levels opts)
        (∀ x ∈ before.memory.moments listener (plan.copying levels opts),
          EntersOnly m.nodes (fun place _ => place = source.components) x) ∧
        ∀ t, copied.result = .ok t →
          ((∃ x ∈ before.memory.moments listener (plan.copying levels opts),
              ∃ path, ListsLink path x) ↔
            ∃ n, m.nodes.lookup source.components = some n ∧ n.isLink = true) ∧
          ∀ x ∈ copied.memory.moments listener (afterCopy levels opts plan t),
            EntersOnly m.nodes (MountedInMove opts) x) ∧
    let run := m.runs listener (copyOrMove levels opts source destination)
    ∀ outcome, run.result = .ok outcome →
      TextualDirectory (m.nodes.branch source.components) ∨
        (∃ r ∈ run.records, r.kind = .treeMoved) →
      LinksAt m.nodes source.components run.memory.nodes destination.components := by
  refine ⟨copyOrMove_eq_phases, ?_, fun plan hplan => ?_, fun outcome hresult hlanded => ?_⟩
  · have htraced : Ensures (Tracing listener m.nodes (MountedInMove opts))
        (untilCopy levels opts source destination) ⟨m, True⟩ _ _ := traced_untilCopy (.start m _)
    refine htraced.moments (fun result w h => ?_) fun _ _ => id
    cases result with
    | inl outcome => exact h
    | inr plan => exact h.traced.good
  · have hready := ready_of_runs hplan
    refine ⟨?_, fun t ht => ⟨listsLink_copying_iff hready hproceed ht, ?_⟩⟩
    · exact hready.traced_copyTree.moments (fun _ _ h => h.good) fun _ _ => id
    · have hcopied := traced_of_copying hready ht
      refine (traced_afterCopy hready.mode hready.sameSource _ hcopied).moments ?_ fun _ _ h => h.good
      exact fun _ _ h => h.1.good
  · have hensures : Ensures (Replies True True) (copyOrMove levels opts source destination)
        ⟨m.nodes, []⟩ _ _ := landed_copyOrMove hwf fun _ => nofun
    have hends := ends_runs listener (.inl trivial) (fun _ _ => trivial) hensures
    rw [hresult] at hends
    refine HoldsLeaves.links (hends (canceled_eq_false hproceed hresult) ?_)
    refine hlanded.imp_right fun hmoved hunmoved => ?_
    obtain ⟨r, hr, hkind⟩ := hmoved
    exact hunmoved r hr hkind

/-- A copy of a directory with a link below it. -/
theorem links_stay_links_below :
    let m := (new.addLink "/s/a/l" true).addFile "/s/f" 3
    let opts : TransferOptions := { copy := some {} }
    let before := m.runs {} (untilCopy m.levels opts "/s" "/d")
    let plan : Plan := ⟨.copy {}, "/s", "/d"⟩
    (∀ x ∈ m.moments {} (untilCopy m.levels opts "/s" "/d"),
      EntersOnly m.nodes (MountedInMove opts) x) ∧
    (∀ x ∈ before.memory.moments {} (plan.copying m.levels opts),
      EntersOnly m.nodes (fun place _ => place = Path.components "/s") x) ∧
    LinksAt m.nodes (Path.components "/s")
      (m.runs {} (copyOrMove m.levels opts "/s" "/d")).memory.nodes (Path.components "/d") :=
  (links_stay_links _ _ _ _ _ _ (by decide) fun _ => rfl).2.imp id <|
    .imp (fun h => (h _ rfl).1) fun h =>
      h _ rfl (.inl ⟨Tree.IsTextual.textual_branch (by decide) _, _, rfl, rfl⟩)

/-- That a link is listed at some moment can be computed. -/
theorem listsLink_of_any {moments : List (Moment Memory)} {path : Path}
    (h : moments.any (fun x => x.event.request = .call none (.list path) ∧
      (x.before.nodes.lookup path.components).any Node.isLink = true) = true) :
    ∃ x ∈ moments, ListsLink path x := by
  obtain ⟨x, hx, hevent⟩ := List.any_eq_true.mp h
  obtain ⟨hrequest, hlink⟩ := of_decide_eq_true hevent
  obtain ⟨n, hn, hlink⟩ := Option.any_eq_true _ _ |>.mp hlink
  exact ⟨x, hx, none, n, hrequest, hn, hlink⟩

/-- Links are entered after all: a copy whose source is a link lists it and makes a directory of it,
and a move that replaces a link on which a volume is mounted lists the link to delete it. -/
theorem links_are_entered :
    (let m := new.addLink "/l" true
      let copy := copyOrMove m.levels { copy := some {} } "/l" "/d"
      m.nodes.WellFormed ∧ m.failures = [] ∧
      (∃ x ∈ m.moments {} copy, ListsLink "/l" x) ∧
      (m.runs {} copy).result = .ok ⟨"/l", "/d", false, false, 1, 0⟩ ∧
      (m.runs {} copy).memory.nodes.IsDirectoryAt (Path.components "/d")) ∧
    let m := ((new.addDirectory "/s").addLink "/d" true).mount "/d"
    let move := copyOrMove m.levels { move := some { replaceExisting := true } } "/s" "/d"
    m.nodes.WellFormed ∧ m.failures = [] ∧ ∃ x ∈ m.moments {} move, ListsLink "/d" x := by
  refine ⟨⟨by decide, rfl, ?_, rfl, ⟨_, rfl, rfl⟩⟩, by decide, rfl, ?_⟩
  · exact listsLink_of_any (by decide +kernel)
  · exact listsLink_of_any (by decide +kernel)

end Memory

end TreeOps
