import TreeOps.Proofs.Transfer.Phases
import TreeOps.Proofs.Transfer.Whole

/-!
# Renaming and copying come to the same

The volumes of the nodes decide whether a move renames, tries to and then copies, or copies at once.
Without failures that makes no difference if the destination lies in a directory, or if the way to
it leads through a link to a directory: whether the move is refused, and why, can be told from the
paths and the kinds of the nodes, and otherwise every way to move swaps the destination for the
source. Where the destination lies in nothing, a rename is refused although a copy would make the
missing directories.
-/

namespace TreeOps

namespace Tree

variable {t t' : Tree} {source destination : Path} {m : MoveOptions} {place : Place}

/-- Two trees have the same paths with the same kinds and sizes. -/
def SameContent (t t' : Tree) : Prop :=
  ∀ place, (t.lookup place).map Node.content = (t'.lookup place).map Node.content

/-- Whether a path lies in a directory, or the way to it leads through a link to a directory. -/
def Settles (t : Tree) (path : Path) : Prop :=
  t.IsDirectoryAt path.components.dropLast ∨ (t.nearest path).map Node.kind = some (.link true)

/-- Why a move is refused, if it is: it must not overlap, or replace what it may not, and it needs a
directory for its destination. -/
def refusal? (t : Tree) (m : MoveOptions) (source destination : Path) : Option TreeError :=
  match Transfer.overlap? source destination with
  | some e => some e
  | none =>
    if (t.lookup destination.components).isSome && !m.replaceExisting then
      some (.alreadyExists destination)
    else if (t.lookup destination.components.dropLast).map Node.kind = some .directory then none
    else some (.notFound destination)

namespace SameContent

variable (h : SameContent t t')
include h

theorem map_kind : (t.lookup place).map Node.kind = (t'.lookup place).map Node.kind := by
  have hkind := congrArg (Option.map Prod.fst) (h place)
  rwa [Option.map_map, Option.map_map] at hkind

theorem isSome_eq : (t.lookup place).isSome = (t'.lookup place).isSome := by
  have hsome := congrArg Option.isSome (h place)
  rwa [Option.isSome_map, Option.isSome_map] at hsome

theorem eq_none_iff : t.lookup place = none ↔ t'.lookup place = none := by
  rw [← Option.map_eq_none_iff (f := Node.content), h place, Option.map_eq_none_iff]

theorem isDirectoryAt (hdir : t.IsDirectoryAt place) : t'.IsDirectoryAt place := by
  obtain ⟨n, hn, hk⟩ := hdir
  have hkind : (t'.lookup place).map Node.kind = some .directory := by
    rw [← h.map_kind, hn, Option.map_some, hk]
  exact Option.map_eq_some_iff.mp hkind

theorem nearest :
    (t.nearest destination).map Node.kind = (t'.nearest destination).map Node.kind := by
  unfold Tree.nearest
  induction destination.namedAncestors with
  | nil => rfl
  | cons p l ih =>
    have hp : (t.lookup p.components).map Node.kind = (t'.lookup p.components).map Node.kind :=
      h.map_kind
    rw [List.findSome?_cons, List.findSome?_cons, PathMap.find?_eq_lookup, PathMap.find?_eq_lookup]
    cases hn : t.lookup p.components with
    | none =>
      rw [hn, Option.map_none, eq_comm, Option.map_eq_none_iff] at hp
      rw [hp]
      exact ih
    | some n =>
      rw [hn, Option.map_some, eq_comm, Option.map_eq_some_iff] at hp
      obtain ⟨n', hn', hk⟩ := hp
      rw [hn']
      exact congrArg some hk.symm

theorem settles (hplace : t.Settles destination) : t'.Settles destination := by
  rcases hplace with hdir | hlink
  · exact .inl (h.isDirectoryAt hdir)
  · exact .inr (h.nearest ▸ hlink)

theorem refusal_eq : t.refusal? m source destination = t'.refusal? m source destination := by
  unfold refusal?
  rw [h.isSome_eq, h.map_kind]

end SameContent

/-- A move is not refused if its paths do not overlap, nothing that has to stay is in its way and
the destination lies in a directory. -/
theorem refusal_eq_none (hoverlap : Transfer.overlap? source destination = none)
    (hfree : m.replaceExisting = true ∨ t.lookup destination.components = none)
    (hdir : t.IsDirectoryAt destination.components.dropLast) :
    t.refusal? m source destination = none := by
  obtain ⟨d, hd, hk⟩ := hdir
  have hopen : ((t.lookup destination.components).isSome && !m.replaceExisting) = false := by
    rcases hfree with hreplace | hnone
    · simp [hreplace]
    · simp [hnone]
  simp [refusal?, hoverlap, hopen, hd, hk]

end Tree

/-- All directories have the same content. -/
theorem Tree.IsDirectoryAt.map_content {t : Tree} {place : Place} (h : t.IsDirectoryAt place) :
    (t.lookup place).map Node.content = some (.directory, 0) := by
  obtain ⟨n, hn, hk⟩ := h
  rw [hn, Option.map_some, Node.content, n.sizeless hk, hk]

/-- What a move leaves is told by the content of what it finds. -/
theorem Moved.sameContent {t t₁ t' t₁' : Tree} {source destination : Place}
    (h : Moved t t' source destination) (h₁ : Moved t₁ t₁' source destination)
    (hsame : t.SameContent t₁) : t'.SameContent t₁' := by
  intro place
  by_cases hsource : source <+: place
  · obtain ⟨way, rfl⟩ := hsource
    rw [h.gone, h₁.gone]
  · by_cases hdestination : destination <+: place
    · obtain ⟨way, rfl⟩ := hdestination
      rw [h.relocated, h₁.relocated, hsame]
    · have hkept := h.elsewhere place hsource hdestination
      have hkept₁ := h₁.elsewhere place hsource hdestination
      unfold Tree.SameOrMade at hkept hkept₁
      simp only [← hsame.eq_none_iff] at hkept₁
      split at hkept
      · next hmissing =>
        rw [if_pos hmissing] at hkept₁
        rw [hkept.map_content, hkept₁.map_content]
      · next hmissing =>
        rw [if_neg hmissing] at hkept₁
        rw [hkept, hkept₁, hsame]

namespace Memory

open Transfer Operation

variable {s : Scene} {source destination : Path} {levels : Nat} {opts : TransferOptions}
  {m : MoveOptions} {t : Tally}

/-! ### Destinations in a directory -/

/-- What is known of the destination while a move goes on: it is as a query has found it, or it has
been cleared. -/
def Cleared (s : Scene) (destination : Path) : Option Entry → Scene → Prop
  | none, s' => s.nodes.Without s'.nodes destination.components
  | some info, s' => s' = s ∧ Found s.nodes destination.components (some info)

section Cleared

variable {s' : Scene} {existing : Option Entry}

theorem cleared_of_found (h : Movable s.nodes source destination levels)
    (hfound : Found s.nodes destination.components existing) :
    Cleared s destination existing s := by
  cases existing with
  | some info => exact ⟨rfl, hfound⟩
  | none =>
    intro place
    split
    · next hbelow =>
      obtain ⟨way, rfl⟩ := hbelow
      exact h.wellFormed.eq_none_below hfound h.destination_ne_nil way
    · rfl

theorem Cleared.agreeOutside (hs' : Cleared s destination existing s') :
    s.nodes.AgreeOutside (destination.components <+: ·) s'.nodes := by
  cases existing with
  | none => exact Tree.Without.agreeOutside hs'
  | some info => exact hs'.1 ▸ .refl _

theorem Cleared.eq_none (hs' : Cleared s destination existing s')
    (hnone : existing.isSome = false) : s'.nodes.lookup destination.components = none := by
  rw [Option.isSome_eq_false_iff, Option.isNone_iff_eq_none] at hnone
  subst hnone
  exact Tree.Without.gone_self hs'

/-- Where a rename has made room, nothing is left. -/
theorem Cleared.vacant (h : Movable s.nodes source destination levels)
    (hs' : Cleared s destination existing s') (n : Node) (v : Tree) (hk : n.kind = .directory)
    (hv : s'.nodes.vacated n destination m.replaceExisting = .ok v) (way : Place) :
    v.lookup (destination.components ++ way) = none := by
  cases existing with
  | none =>
    have hnone : s'.nodes.find? destination = none := Tree.Without.gone_self hs'
    simp only [Tree.vacated, hnone] at hv
    obtain rfl := Except.ok.inj hv
    exact Tree.Without.gone hs' way
  | some info =>
    obtain ⟨rfl, -⟩ := hs'
    exact vacant_of_vacated h.wellFormed hk h.destination_ne_nil hv way

end Cleared

section Placed

variable (h : Movable s.nodes source destination levels)
  (hdir : s.nodes.IsDirectoryAt destination.components.dropLast)

include h hdir

theorem parentDirectory_of_placed {t' : Tree}
    (hagree : s.nodes.AgreeOutside (destination.components <+: ·) t') :
    ∃ d, t'.parentDirectory destination = .ok d := by
  obtain ⟨base, c, -, hc, hplace⟩ := h.exists_parent
  rw [hplace, List.dropLast_concat] at hdir
  obtain ⟨d, hd, hk⟩ := hdir
  refine ⟨d, Tree.parentDirectory_eq_ok hplace hc ?_ hk⟩
  rw [hagree base (hplace ▸ concat_not_prefix_self), hd]

/-- A rename to a place in a directory moves everything, or is left to copying, or finds something
in its way that may be removed. -/
theorem attempt_placed (hcopy : m.copyAllowed = true) (hcanceled : t.canceled = false)
    (existing : Option Entry) (s' : Scene) (hs' : Cleared s destination existing s') :
    Ensures (Replies False False) (tryRename m opts source destination existing.isSome t) s'
      (Attempted (fun t' s' => t'.canceled = false ∧
        Moved s.nodes s'.nodes source.components destination.components)
          (Cleared s destination existing)) (fun _ _ => False) := by
  obtain ⟨n, hn, -⟩ := h.directory
  have hagree := hs'.agreeOutside
  have hn' : s'.nodes.lookup source.components = some n := by rw [hagree _ h.apart.2, hn]
  apply (ensures_tryRename_calm hn' hs'.eq_none).mono
  · intro r s'' hr
    cases r with
    | renamed t' => exact ⟨hr.1.trans hcanceled, moved_of_withMoved h hagree (hs'.vacant h) hr.2⟩
    | crossedVolumes => exact hr ▸ hs'
    | occupied => exact hr.1 ▸ hs'
  · rintro halt s'' ⟨-, ⟨-, e, he⟩ | ⟨-, hno⟩⟩
    · obtain ⟨d, hd⟩ := parentDirectory_of_placed h hdir hagree
      cases hd.symm.trans he
    · cases hcopy.symm.trans hno

theorem phases_placed (hcopy : m.copyAllowed = true) (hcanceled : t.canceled = false)
    (hfree : m.replaceExisting = true ∨ s.nodes.lookup destination.components = none) :
    Phases (Replies False False) levels m opts source destination t (Cleared s destination)
      (fun t' s' => t'.canceled = false ∧
        Moved s.nodes s'.nodes source.components destination.components) (fun _ _ => False) where
  taken := by
    rintro hno old _ ⟨-, n, hn, -⟩
    rcases hfree with hreplace | hnone
    · cases hno.symm.trans hreplace
    · cases hnone.symm.trans hn
  refuse hno := by cases hcopy.symm.trans hno
  attempt := attempt_placed h hdir hcopy hcanceled
  replace := by
    rintro info _ ⟨rfl, old, hold, hinfo⟩
    exact (leaves_replaceDestination h.regular_destination hold hinfo).mono_ok fun _ _ => And.right

/-- A move to a place in a directory succeeds if nothing that has to stay is in its way. -/
theorem ensures_moveTree_placed (hcopy : m.copyAllowed = true) (hcanceled : t.canceled = false)
    (hfree : m.replaceExisting = true ∨ s.nodes.lookup destination.components = none) :
    Ensures (Replies False False) (moveTree levels m opts source destination t) s
      (fun t' s' => t'.canceled = false ∧
        Moved s.nodes s'.nodes source.components destination.components) (fun _ _ => False) := by
  obtain ⟨n, hn, -⟩ := h.directory
  apply (phases_placed h hdir hcopy hcanceled hfree).ensures_moveTree
  · apply (ensures_surveyMove h.wellFormed hn h.normal).mono_ok
    rintro _ _ ⟨rfl, hfound⟩
    exact cleared_of_found h hfound
  · intro _ hs'
    exact ensures_copyAndDelete_cleared h hdir hs' hcanceled

end Placed

/-- A move onto something that has to stay is refused. -/
theorem ensures_moveTree_taken (h : Movable s.nodes source destination levels)
    (hno : m.replaceExisting = false)
    (htaken : (s.nodes.lookup destination.components).isSome = true) :
    Ensures (Replies False False) (moveTree levels m opts source destination t) s
      (fun _ _ => False) (fun halt s' => s' = s ∧ halt = .failed (.alreadyExists destination)) := by
  obtain ⟨n, hn, -⟩ := h.directory
  rw [moveTree_eq, Operation.ensures_bind]
  apply (ensures_surveyMove h.wellFormed hn h.normal).mono
  · rintro ⟨onOneVolume, existing⟩ _ ⟨rfl, hfound⟩
    cases existing with
    | none =>
      rw [show _ = none from hfound] at htaken
      cases htaken
    | some info =>
      unfold moveSurveyed
      rw [if_pos (by simp [hno])]
      exact ensures_fail.mpr ⟨rfl, rfl⟩
  · exact fun _ _ => False.elim

/-! ### Destinations below a link -/

section Linked

variable (h : Movable s.nodes source destination levels)
  (hdir : ¬s.nodes.IsDirectoryAt destination.components.dropLast) (hcopy : m.copyAllowed = true)
include h hdir

theorem vacant_of_not_placed : s.nodes.lookup destination.components = none := by
  cases hl : s.nodes.lookup destination.components with
  | none => rfl
  | some old => exact absurd (h.directory_above hl) hdir

include hcopy

/-- Where the parent of the destination is no directory, a rename fails for a path that is missing,
or is left to copying. -/
theorem phases_unplaced :
    Phases (Replies False False) levels m opts source destination t
      (fun existing s' => s' = s ∧ existing = none) (fun _ _ => False)
      (fun halt s' => s' = s ∧ ∃ p, halt = .failed (.notFound p)) where
  taken := by
    rintro - old _ ⟨-, ⟨⟩⟩
  refuse hno := by cases hcopy.symm.trans hno
  attempt := by
    rintro existing _ ⟨rfl, rfl⟩
    obtain ⟨n, hn, -⟩ := h.directory
    apply (ensures_tryRename_calm hn fun _ => vacant_of_not_placed h hdir).mono
    · intro r s' hr
      cases r with
      | renamed t' =>
        obtain ⟨-, parent, -, hparent, -⟩ := Tree.withMoved_eq_ok.mp hr.2
        exact hdir (Tree.isDirectoryAt_of_parentDirectory hparent)
      | crossedVolumes => exact ⟨hr, rfl⟩
      | occupied => exact ⟨hr.1, rfl⟩
    · rintro halt s' ⟨hs', ⟨rfl, -⟩ | ⟨-, hno⟩⟩
      · exact ⟨hs', source, rfl⟩
      · cases hcopy.symm.trans hno
  replace := by
    rintro old _ ⟨-, ⟨⟩⟩

/-- Below a link to a directory, a rename and a copy both find a path missing. -/
theorem ensures_moveTree_linked
    (hlink : (s.nodes.nearest destination).map Node.kind = some (.link true)) :
    Ensures (Replies False False) (moveTree levels m opts source destination t) s
      (fun _ _ => False) (fun halt s' => s' = s ∧ ∃ p, halt = .failed (.notFound p)) := by
  obtain ⟨n, hn, -⟩ := h.directory
  have hnone := vacant_of_not_placed h hdir
  apply (phases_unplaced h hdir hcopy).ensures_moveTree
  · apply (ensures_surveyMove h.wellFormed hn h.normal).mono
    · rintro ⟨onOneVolume, existing⟩ _ ⟨rfl, hfound⟩
      cases existing with
      | none => exact ⟨rfl, rfl⟩
      | some info =>
        obtain ⟨old, hold, -⟩ := hfound
        cases hnone.symm.trans hold
    · exact fun _ _ => False.elim
  · rintro _ ⟨rfl, -⟩
    obtain ⟨link, hnearest, hk⟩ := Option.map_eq_some_iff.mp hlink
    obtain ⟨above, missing, hplace, habove, hlookup, hlacks⟩ :=
      Tree.exists_lacks_of_climbs (Path.climbs_namedAncestors destination) hnearest
    have hmissing : missing ≠ [] := by
      rintro rfl
      rw [hplace, List.append_nil, hlookup] at hnone
      cases hnone
    apply (ensures_copyAndDelete_of_not_directory hplace hlacks h.levels_pos habove hlookup
      (by simp [hk]) hmissing t).mono
    · exact fun _ _ => False.elim
    · rintro halt s' ⟨hs', hmissing⟩
      exact ⟨hs', hmissing (by simp [Node.isDirectoryLike, hk])⟩

end Linked

/-! ### Whole moves -/

/-- Where its paths overlap or its destination is settled, a move fails just if it is refused, for a
reason of the same kind, and then changes nothing. -/
theorem ensures_copyOrMove_settled (hmode : opts.mode = .ok (.move m))
    (hcopy : m.copyAllowed = true) (hwf : s.nodes.WellFormed) (htext : s.nodes.IsTextual)
    (hlevels : s.nodes.levels ≤ levels) (hsource : s.nodes.IsDirectoryAt source.components)
    (hnormal : destination.isNormal = true)
    (hsettles : overlap? source destination = none → s.nodes.Settles destination) :
    Ensures (Replies False False) (copyOrMove levels opts source destination) s
      (fun _ s' => s.nodes.refusal? m source destination = none ∧
        Moved s.nodes s'.nodes source.components destination.components)
      (fun halt s' => s'.nodes = s.nodes ∧ ∃ e refused, halt = .failed e ∧
        s.nodes.refusal? m source destination = some refused ∧ e.kind = refused.kind) := by
  obtain ⟨n, hn, hk⟩ := hsource
  rw [copyOrMove_eq, Operation.ensures_bind]
  apply ensures_makePlan
  · intro e he
    cases hmode.symm.trans he
  · intro e hoverlap
    exact ⟨rfl, e, e, rfl, by simp [Tree.refusal?, hoverlap], rfl⟩
  · intro e he
    rw [Tree.entry_eq_ok.mpr ⟨n, hn, rfl⟩] at he
    cases he.resolve_left id
  · intro n' hn' hlike
    obtain rfl := Option.some.inj (hn.symm.trans hn')
    rw [Node.isDirectoryLike_of_directory hk] at hlike
    cases hlike
  · intro mode n' hmode' hoverlap _ _
    obtain rfl := Except.ok.inj (hmode.symm.trans hmode')
    have h : Movable s.nodes source destination levels :=
      ⟨hwf, htext, hlevels, ⟨n, hn, hk⟩, hnormal, Path.apart (overlap_eq_none_iff.mp hoverlap)⟩
    unfold transferTree
    simp only [Operation.ensures_bind, ensures_note, ensures_pure]
    by_cases htaken : ((s.nodes.lookup destination.components).isSome && !m.replaceExisting) = true
    · have hrefusal :
          s.nodes.refusal? m source destination = some (.alreadyExists destination) := by
        simp only [Tree.refusal?, hoverlap, if_pos htaken]
      rw [Bool.and_eq_true, Bool.not_eq_true'] at htaken
      apply (ensures_moveTree_taken h htaken.2 htaken.1).mono
      · exact fun _ _ => False.elim
      · rintro _ _ ⟨rfl, rfl⟩
        exact ⟨rfl, _, _, rfl, hrefusal, rfl⟩
    · by_cases hdir : s.nodes.IsDirectoryAt destination.components.dropLast
      · have hfree : m.replaceExisting = true ∨ s.nodes.lookup destination.components = none := by
          cases hl : s.nodes.lookup destination.components with
          | none => exact .inr rfl
          | some old => exact .inl (by simpa [hl] using htaken)
        apply (ensures_moveTree_placed h hdir hcopy rfl hfree).mono
        · rintro t s' ⟨-, hmoved⟩
          exact ⟨Tree.refusal_eq_none hoverlap hfree hdir, hmoved⟩
        · exact fun _ _ => False.elim
      · have hkind : (s.nodes.lookup destination.components.dropLast).map Node.kind ≠
            some .directory := fun hk => hdir (Option.map_eq_some_iff.mp hk)
        have hrefusal : s.nodes.refusal? m source destination = some (.notFound destination) := by
          simp only [Tree.refusal?, hoverlap, if_neg htaken, if_neg hkind]
        apply (ensures_moveTree_linked h hdir hcopy ((hsettles hoverlap).resolve_left hdir)).mono
        · exact fun _ _ => False.elim
        · rintro _ _ ⟨rfl, p, rfl⟩
          exact ⟨rfl, _, _, rfl, hrefusal, rfl⟩

theorem sameContent_setVolume (m : Memory) (path : Path) (volume : Nat) :
    m.nodes.SameContent (m.setVolume path volume).nodes := by
  intro place
  apply Eq.symm
  apply PathMap.map_lookup_mapValues
  intro key n
  split <;> rfl

/-- Whether two results are both of a move that succeeded, or both of one that failed for a reason
of one kind. -/
def Agree : Except Halt Outcome → Except Halt Outcome → Prop
  | .ok _, .ok _ => True
  | .error (.failed e), .error (.failed e') => e.kind = e'.kind
  | _, _ => False

instance : DecidableRel Agree
  | .ok _, .ok _ => .isTrue trivial
  | .error (.failed e), .error (.failed e') => inferInstanceAs (Decidable (e.kind = e'.kind))
  | .ok _, .error _ => .isFalse id
  | .error (.failed _), .ok _ => .isFalse id
  | .error (.failed _), .error .tooDeep => .isFalse id
  | .error .tooDeep, _ => .isFalse id

/-- Without failures and with a listener that never cancels, how a move that may copy ends does not
depend on the volumes of the nodes, if its paths overlap or its destination lies in a directory or
below a link to one: on trees with the same paths, kinds and sizes it succeeds on both or fails on
both for a reason of one kind, and leaves the same paths with the same kinds and sizes. -/
theorem moves_agree (m m' : Memory) (listener : Listener) (levels : Nat) (opts : TransferOptions)
    (move : MoveOptions) (source destination : Path) (hwf : m.nodes.WellFormed)
    (hwf' : m'.nodes.WellFormed) (htext : m.nodes.IsTextual) (htext' : m'.nodes.IsTextual)
    (hcalm : m.failures = []) (hcalm' : m'.failures = []) (hsame : m.nodes.SameContent m'.nodes)
    (hproceed : ∀ p, listener.progress p = .proceed) (hlevels : m.nodes.levels ≤ levels)
    (hlevels' : m'.nodes.levels ≤ levels) (hmode : opts.mode = .ok (.move move))
    (hcopy : move.copyAllowed = true) (hsource : m.nodes.IsDirectoryAt source.components)
    (hnormal : destination.isNormal = true)
    (hsettles : overlap? source destination = none → m.nodes.Settles destination) :
    let run := m.runs listener (copyOrMove levels opts source destination)
    let run' := m'.runs listener (copyOrMove levels opts source destination)
    Agree run.result run'.result ∧ run.memory.nodes.SameContent run'.memory.nodes := by
  have hends := ends_runs_calm hcalm hproceed
    (ensures_copyOrMove_settled (s := ⟨m.nodes, []⟩) hmode hcopy hwf htext hlevels hsource hnormal
      hsettles)
  have hends' := ends_runs_calm hcalm' hproceed
    (ensures_copyOrMove_settled (s := ⟨m'.nodes, []⟩) hmode hcopy hwf' htext' hlevels'
      (hsame.isDirectoryAt hsource) hnormal fun hoverlap => hsame.settles (hsettles hoverlap))
  simp only [← hsame.refusal_eq] at hends'
  intro run run'
  cases hresult : run.result with
  | ok outcome =>
    rw [hresult] at hends
    obtain ⟨hnone, hmoved⟩ := hends
    cases hresult' : run'.result with
    | ok outcome' =>
      rw [hresult'] at hends'
      exact ⟨trivial, hmoved.sameContent hends'.2 hsame⟩
    | error halt' =>
      rw [hresult'] at hends'
      obtain ⟨-, e', refused, -, hsome, -⟩ := hends'
      cases hnone.symm.trans hsome
  | error halt =>
    rw [hresult] at hends
    obtain ⟨hnodes, e, refused, rfl, hsome, hkind⟩ := hends
    cases hresult' : run'.result with
    | ok outcome' =>
      rw [hresult'] at hends'
      cases hends'.1.symm.trans hsome
    | error halt' =>
      rw [hresult'] at hends'
      obtain ⟨hnodes', e', refused', rfl, hsome', hkind'⟩ := hends'
      obtain rfl := Option.some.inj (hsome.symm.trans hsome')
      refine ⟨hkind.trans hkind'.symm, ?_⟩
      rw [show run.memory.nodes = m.nodes from hnodes,
        show run'.memory.nodes = m'.nodes from hnodes']
      exact hsame

/-- A rename and a move across volumes onto a full directory that may be replaced. -/
theorem moves_agree_replacing :
    let m := (new.addFile "/s/f" 3).addFile "/d/old" 5
    let m' := m.setVolume "/s" 1
    let opts : TransferOptions := { move := some { replaceExisting := true, copyAllowed := true } }
    let run := m.runs {} (copyOrMove m.levels opts "/s" "/d")
    let run' := m'.runs {} (copyOrMove m.levels opts "/s" "/d")
    Agree run.result run'.result ∧ run.memory.nodes.SameContent run'.memory.nodes :=
  moves_agree ((new.addFile "/s/f" 3).addFile "/d/old" 5) _ _ _ _
    { replaceExisting := true, copyAllowed := true } _ _ (by decide) (by decide) (by decide)
    (by decide) rfl rfl (sameContent_setVolume _ _ _) (fun _ => rfl) (Nat.le_refl _)
    (Nat.le_refl _) rfl rfl ⟨_, rfl, rfl⟩ (by decide) (fun _ => .inl ⟨_, rfl, rfl⟩)

/-- Where the parent of the destination is missing, a rename fails and a move across volumes makes
it. -/
theorem moves_disagree :
    let m := new.addFile "/s/f" 3
    let m' := m.setVolume "/s" 1
    let opts : TransferOptions := { move := some { copyAllowed := true } }
    let run := m.runs {} (copyOrMove m.levels opts "/s" "/a/b")
    let run' := m'.runs {} (copyOrMove m.levels opts "/s" "/a/b")
    m.nodes.WellFormed ∧ m'.nodes.WellFormed ∧ m.nodes.IsTextual ∧ m'.nodes.IsTextual ∧
      m.nodes.SameContent m'.nodes ∧ m.nodes.IsDirectoryAt (Path.components "/s") ∧
      run.result = .error (.failed (.notFound "/s")) ∧
      run'.result.toOption = some ⟨"/s", "/a/b", true, false, 2, 3⟩ ∧
      ¬Agree run.result run'.result ∧ ¬run.memory.nodes.SameContent run'.memory.nodes := by
  refine ⟨by decide, by decide, by decide, by decide, sameContent_setVolume _ _ _, ⟨_, rfl, rfl⟩,
    rfl, by decide +kernel, by decide +kernel, ?_⟩
  intro hsame
  exact absurd (hsame (Path.components "/a")) (by decide +kernel)

end Memory

end TreeOps
