import TreeOps.Proofs.Errors.Copies
import TreeOps.Proofs.Memory.Watched
import TreeOps.Proofs.Transfer.Phases
import TreeOps.Proofs.Transfer.Writes

/-!
# Every transfer ends

A copy lists the tree that it adds nodes to. It ends since nothing that it makes lies in the source:
source and destination are apart, and every target lies below the destination. So the source stays
what it was, a copy nests no deeper than the source does, and it lists each directory of the source
at most once and nothing at the destination. Any calls may fail, the listener may cancel anywhere,
and names need not be text.
-/

namespace TreeOps

/-- Everything at or below a place lies less deep than a bound. -/
def Tree.ShallowBelow (t : Tree) (root : Place) (depth : Nat) : Prop :=
  ∀ place n, root <+: place → t.lookup place = some n → place.length < depth

namespace Tree.ShallowBelow

variable {t t' : Tree} {root : Place} {depth : Nat}

theorem of_levels (h : t.levels ≤ depth) : t.ShallowBelow root depth :=
  fun _ _ _ hn => Nat.lt_of_lt_of_le (length_lt_levels hn) h

theorem mono {root' : Place} (h : t.ShallowBelow root depth) (hroot : root <+: root') :
    t.ShallowBelow root' depth :=
  fun place n hplace hn => h place n (hroot.trans hplace) hn

theorem of_agree {place : Place} (h : t.ShallowBelow root depth) (happart : Apart root place)
    (hagree : AgreeOutside (fun p => place <+: p ∨ p <+: place) t t') :
    t'.ShallowBelow root depth := by
  rintro p n ⟨way, rfl⟩ hn
  rw [happart.lookup_eq hagree way] at hn
  exact h _ n (List.prefix_append _ _) hn

theorem perform {c : Call} (hc : c.Removing) (h : t.ShallowBelow root depth) :
    (t.perform c).2.ShallowBelow root depth := by
  intro place n hplace hn
  cases hl : t.lookup place with
  | some n' => exact h place n' hplace hl
  | none =>
    have hremoves : Request.Removes none [] (.call none c) := by
      cases c with
      | removeDirectory | deleteFile | setAttributes | unmount => exact ⟨rfl, List.nil_prefix⟩
      | _ => exact hc.elim
    rw [Memory.lookup_perform_of_removes hremoves hl] at hn
    cases hn

end Tree.ShallowBelow

namespace Memory

open Removal Transfer Operation

variable {source destination path : Path} {root : Place} {depth levels : Nat}
  {opts : TransferOptions} {m : MoveOptions} {tx : Option Transaction} {s : Scene}

/-! ### The levels are enough -/

/-- What halts an operation is not that it follows the nodes too deep. -/
def NotDeep : Halt → Scene → Prop := fun halt _ => halt ≠ .tooDeep

theorem notDeep_failed (e : TreeError) (s : Scene) : NotDeep (.failed e) s := by
  simp [NotDeep]

theorem admits_notDeep {inv : Tree → Prop} : Admits True inv NotDeep :=
  fun _ _ _ _ _ => notDeep_failed _ _

theorem reports_deleteNode_shallow {deletion : DeleteOptions} (levels : Nat)
    (continueIfMissing : Bool) (path : Path) (hroot : root <+: path.components) (hpos : 0 < levels)
    (hdepth : depth ≤ path.components.length + levels) :
    Reports True (·.ShallowBelow root depth) NotDeep
      (deleteNode deletion levels continueIfMissing path) := by
  induction levels generalizing continueIfMissing path with
  | zero => exact absurd hpos (Nat.lt_irrefl 0)
  | succ levels ih =>
    apply reports_deleteNode_succ admits_notDeep fun _ hc _ => .perform hc
    rintro child ⟨t, b, n, ht, hchild, hn⟩
    have hbelow : root <+: child.components := hchild ▸ hroot.trans (List.prefix_append _ _)
    have hlt := ht _ n hbelow hn
    have hlength : child.components.length = path.components.length + 1 := by simp [hchild]
    apply ih true child hbelow
    · omega
    · omega

theorem reports_deleteResolved_shallow {deletion : DeleteOptions} (hpos : 0 < levels)
    (hdepth : depth ≤ levels) :
    Reports True (·.ShallowBelow path.components depth) NotDeep
      (deleteResolved levels deletion path) :=
  reports_deleteNode_shallow levels _ path (List.prefix_refl _) hpos (by omega)

/-- A copy goes down no deeper than its source. -/
theorem copyRule_shallow {flags : CopyFlags}
    (happart : Apart source.components destination.components) :
    CopyRule True flags destination.components
      (fun levels p target => source.components <+: p.components ∧
        destination.components <+: target.components ∧ 0 < levels ∧
          depth ≤ p.components.length + levels)
      (·.ShallowBelow source.components depth) NotDeep where
  admits := admits_notDeep
  below _ _ _ h := h.2.1
  kept _ _ hagree h := h.of_agree happart hagree
  child := by
    rintro levels p target t e ⟨hp, htarget, -, hdepth⟩ ht he
    obtain ⟨b, n, hname, hpath, htext, hn, -⟩ := Tree.exists_of_mem_entriesOf he
    have hbelow : source.components <+: e.path.components :=
      hpath ▸ hp.trans (List.prefix_append _ _)
    have hlt := ht _ n hbelow hn
    have hlength : e.path.components.length = p.components.length + 1 := by simp [hpath]
    refine ⟨hbelow, ?_, by omega, by omega⟩
    rw [htext, components_copied target hname]
    exact htarget.trans (List.prefix_append _ _)
  refused _ _ _ _ _ _ _ _ _ _ _ := notDeep_failed _ _
  deep _ _ _ h _ := absurd h.2.2.1 (Nat.lt_irrefl 0)

theorem reports_copyTree_shallow {flags : CopyFlags} {t : Tally}
    (happart : Apart source.components destination.components) (hpos : 0 < levels)
    (hdepth : depth ≤ levels) :
    Reports True (·.ShallowBelow source.components depth) NotDeep
      (copyTree tx flags levels true source destination t) :=
  (copyRule_shallow happart).reports_copyTree true
    ⟨List.prefix_refl _, List.prefix_refl _, hpos, by omega⟩

/-- A survey is halted by what comes from calls. -/
theorem reports_surveyMove {err : Halt → Scene → Prop} (herr : Admits True (fun _ => True) err) :
    Reports True (fun _ => True) err (surveyMove opts source destination) := by
  have hfirst (l : List Path) :
      Reports True (fun _ => True) err (firstExisting opts.transaction l) := by
    induction l with
    | nil => exact reports_pure
    | cons p l ih =>
      apply reports_attempt fun _ _ => trivial
      · exact fun _ => reports_pure
      · exact fun s _ _ _ => ih s trivial
  have hvolume (anchor : Path) : Reports True (fun _ => True) err
      (perform opts.transaction (.sameVolume source anchor) (.ofNative source "volume query")) :=
    fun _ _ => ensures_perform.mpr
      ⟨fun _ _ => trivial, fun _ _ => herr.ofNative trivial (.inl trivial)⟩
  have hquery : Reports True (fun _ => True) err
      (queryDestination opts.transaction destination) := by
    apply reports_attempt fun _ _ => trivial
    · exact fun _ => reports_pure
    · intro s e _ _
      dsimp only
      split
      · exact ensures_pure.mpr trivial
      · exact ensures_fail.mpr (herr.ofNative trivial (.inl trivial))
  apply reports_bind (hfirst _)
  intro anchor
  cases anchor with
  | none => exact fun _ _ => ensures_fail.mpr (herr _ _ rfl trivial (.inl trivial))
  | some anchor =>
    exact reports_bind (hvolume anchor) fun _ => reports_bind hquery fun _ => reports_pure

theorem reports_replaceDestination_shallow {isDirectory : Bool} (hpos : 0 < levels)
    (hdepth : depth ≤ levels) :
    Reports True (·.ShallowBelow [] depth) NotDeep
      (replaceDestination levels opts destination isDirectory) := by
  apply reports_bind reports_note
  intro _
  split
  · exact reports_deleteNode_shallow levels _ destination List.nil_prefix hpos (by omega)
  · exact reports_deleteFile admits_notDeep fun _ hc _ => .perform hc

/-- What holds of the nodes until a transfer copies: they nest as they did, and have changed at the
destination only. -/
def UntilCopy (t : Tree) (destination : Place) (depth : Nat) (s : Scene) : Prop :=
  s.nodes.ShallowBelow [] depth ∧ t.AgreeOutside (destination <+: ·) s.nodes

theorem phases_shallow {t₀ : Tree} {t : Tally} (hpos : 0 < levels) (hdepth : depth ≤ levels) :
    Phases (Replies True True) levels m opts source destination t
      (fun _ => UntilCopy t₀ destination.components depth) (fun _ _ => True) NotDeep where
  taken _ _ _ _ := notDeep_failed _ _
  refuse _ _ _ _ := notDeep_failed _ _
  attempt _ s hs := attempted_tryRename hs (fun _ _ _ _ => trivial) fun _ => notDeep_failed _ _
  replace _ s hs := by
    apply ((reports_replaceDestination_shallow hpos hdepth s hs.1).and
      (touches_replaceDestination.ensures s)).mono
    · rintro _ s' ⟨hshallow, hagree, -⟩
      exact ⟨hshallow, hs.2.trans hagree⟩
    · rintro _ _ ⟨hhalt, -⟩
      exact hhalt

/-- What is known when a transfer comes to its copy phase. -/
structure ReachesCopy (t : Tree) (source destination : Path) (depth : Nat) (plan : Plan)
    (s : Scene) : Prop where
  source_eq : plan.source = source
  destination_eq : plan.destination = destination
  apart : Apart source.components destination.components
  there : ∃ n, t.lookup source.components = some n
  until_copy : UntilCopy t destination.components depth s

theorem ensures_untilCopy (hlevels : s.nodes.levels ≤ levels) :
    Ensures (Replies True True) (untilCopy levels opts source destination) s
      (fun result s' => ∀ plan, result = .inr plan →
        ReachesCopy s.nodes source destination s.nodes.levels plan s')
      NotDeep := by
  have hpos : 0 < levels := Nat.lt_of_lt_of_le (Nat.succ_pos _) hlevels
  have hstart : UntilCopy s.nodes destination.components s.nodes.levels s :=
    ⟨.of_levels (Nat.le_refl _), .refl _⟩
  rw [untilCopy, Operation.ensures_bind]
  apply ensures_makePlan
  · exact fun _ _ => notDeep_failed _ _
  · exact fun _ _ => notDeep_failed _ _
  · exact fun _ _ => notDeep_failed _ _
  · exact fun _ _ _ => notDeep_failed _ _
  · intro mode n _ hoverlap hn _
    have happart := Path.apart (overlap_eq_none_iff.mp hoverlap)
    cases mode with
    | copy c =>
      simp only [Operation.ensures_bind, ensures_note]
      apply ensures_pure.mpr
      rintro _ ⟨⟩
      exact ⟨rfl, rfl, happart, ⟨n, hn⟩, hstart⟩
    | move m =>
      simp only [Operation.ensures_bind, ensures_note]
      have hsurvey : Ensures (Replies True True) (surveyMove opts source destination) s
          (fun _ => UntilCopy s.nodes destination.components s.nodes.levels) NotDeep := by
        have hlooks : Touches (fun _ => False) (surveyMove opts source destination) :=
          touches_surveyMove
        apply ((reports_surveyMove admits_notDeep s trivial).and (hlooks.ensures s)).mono
        · rintro _ s' ⟨-, hagree, -⟩
          refine ⟨fun place n' hplace hn' => ?_, hagree.mono fun _ => False.elim⟩
          rw [hagree place id] at hn'
          exact hstart.1 place n' hplace hn'
        · rintro _ _ ⟨hhalt, -⟩
          exact hhalt
      apply ((phases_shallow hpos hlevels).ensures_moveUntilCopy hsurvey).mono_ok
      intro result s' hs'
      cases result with
      | some t =>
        apply ensures_pure.mpr
        rintro _ ⟨⟩
      | none =>
        apply ensures_pure.mpr
        rintro _ ⟨⟩
        exact ⟨rfl, rfl, happart, ⟨n, hn⟩, hs'⟩

/-- With levels for the nodes that are there at the start, a transfer does not run out of them. -/
theorem ensures_copyOrMove_notDeep (hlevels : s.nodes.levels ≤ levels) :
    Ensures (Replies True True) (copyOrMove levels opts source destination) s (fun _ _ => True)
      NotDeep := by
  have hpos : 0 < levels := Nat.lt_of_lt_of_le (Nat.succ_pos _) hlevels
  rw [copyOrMove_eq_phases, Operation.ensures_bind]
  apply (ensures_untilCopy hlevels).mono_ok
  intro result s₁ h₁
  cases result with
  | inl outcome => exact ensures_pure.mpr trivial
  | inr plan =>
    obtain ⟨rfl, rfl, happart, -, hshallow, -⟩ := h₁ plan rfl
    have hsource : s₁.nodes.ShallowBelow plan.source.components s.nodes.levels :=
      hshallow.mono List.nil_prefix
    dsimp only
    rw [Operation.ensures_bind]
    apply (reports_copyTree_shallow happart hpos hlevels s₁ hsource).mono_ok
    intro t s₂ h₂
    unfold afterCopy
    split
    · exact ensures_pure.mpr trivial
    · split
      · rw [Operation.ensures_bind, ensures_note]
        exact ensures_pure.mpr trivial
      · simp only [Operation.ensures_bind]
        apply (reports_deleteResolved_shallow hpos hlevels s₂ h₂).mono_ok
        intro _ s₃ _
        rw [ensures_note]
        exact ensures_pure.mpr trivial

/-! ### What a copy lists -/

/-- What a copy has come to, as far as its source goes: the source is as in a tree `t`, and some of
the directories that were there in `t`, at some places only, were listed once more. -/
structure Visits (t : Tree) (source : Place) (places : Place → Prop) (m m' : Memory) : Prop where
  source : ∀ way, m'.nodes.lookup (source ++ way) = t.lookup (source ++ way)
  listed : ∀ p, m'.callCount .list p = m.callCount .list p ∨
    m'.callCount .list p = m.callCount .list p + 1 ∧ places p.components ∧
      ∃ n, t.lookup p.components = some n

namespace Visits

variable {t : Tree} {source : Place} {places places' : Place → Prop} {m m' m'' : Memory}

theorem refl (h : ∀ way, m.nodes.lookup (source ++ way) = t.lookup (source ++ way)) :
    Visits t source places m m := ⟨h, fun _ => .inl rfl⟩

theorem mono (h : Visits t source places m m') (hplaces : ∀ place, places place → places' place) :
    Visits t source places' m m' :=
  ⟨h.source, fun p => (h.listed p).imp_right fun h => ⟨h.1, hplaces _ h.2.1, h.2.2⟩⟩

/-- Places that are visited one after the other must be disjoint. -/
theorem trans (h : Visits t source places m m') (h' : Visits t source places' m' m'')
    (hdisjoint : ∀ place, places place → ¬places' place) :
    Visits t source (fun place => places place ∨ places' place) m m'' where
  source := h'.source
  listed p := by
    rcases h.listed p with heq | ⟨heq, hp, hn⟩
    · rcases h'.listed p with heq' | ⟨heq', hp', hn'⟩
      · exact .inl (heq'.trans heq)
      · exact .inr ⟨heq'.trans (heq ▸ rfl), .inr hp', hn'⟩
    · rcases h'.listed p with heq' | ⟨-, hp', -⟩
      · exact .inr ⟨heq'.trans heq, .inl hp, hn⟩
      · exact absurd hp' (hdisjoint _ hp)

/-- A call that lists nothing and writes away from the source adds nothing. -/
theorem call {c : Call} (h : Visits t source places m m') (hlist : c.primitive ≠ .list)
    (hreaches : ∀ place, c.Reaches place → ¬source <+: place) :
    Visits t source places m (m'.call c).2 where
  source way := by
    rw [← h.source way]
    rcases m'.nodes_call c with heq | heq
    · rw [heq]
    · rw [heq]
      apply Tree.agreeOutside_perform c m'.nodes
      intro hplace
      exact hreaches _ hplace (List.prefix_append _ _)
  listed p := by
    have hcount : (m'.call c).2.callCount .list p = m'.callCount .list p := by
      rw [callCount, calls_call, List.countP_cons_of_neg]
      · rfl
      · simp [hlist]
    rw [hcount]
    exact h.listed p

/-- A listing of a directory of the source adds that directory. -/
theorem list {dir : Path} {n : Node} (hn : t.lookup dir.components = some n)
    (h : ∀ way, m.nodes.lookup (source ++ way) = t.lookup (source ++ way)) :
    Visits t source (dir.components = ·) m (m.call (.list dir)).2 where
  source way := by
    rw [← h way]
    rcases m.nodes_call (.list dir) with heq | heq
    · rw [heq]
    · rw [heq]
      rfl
  listed p := by
    rw [callCount, calls_call, List.countP_cons]
    by_cases hp : dir.same p = true
    · have hsame := Path.same_iff.mp hp
      right
      refine ⟨?_, hsame, n, hsame ▸ hn⟩
      simp [callCount, Call.primitive, Call.path, hp]
    · left
      simp [callCount, Call.primitive, Call.path, hp]

end Visits

section Lists

variable {listener : Listener} {t₀ : Tree} {source destination : Place} {places : Place → Prop}
  {flags : CopyFlags} {p target : Path} {t : Tally} {m : Memory}

/-- Making directories away from the source lists nothing. -/
theorem visits_of_creates {made : Path → Prop} {make : Operation Unit}
    (h : Asks (Request.Creates tx made) make) (hmade : ∀ p, made p → ¬source <+: p.components) :
    Keeps (answers listener) (Visits t₀ source places m) make := by
  apply h.keeps
  intro r m₁ a m₂ hr hm₁ hstep
  cases r with
  | call tx' c =>
    obtain ⟨-, rfl⟩ := Prod.mk.inj hstep
    cases c with
    | query path => exact hm₁.call nofun fun _ => False.elim
    | createDirectory path =>
      refine hm₁.call nofun ?_
      rintro place rfl
      exact hmade path hr.2
    | _ => exact hr.elim
  | _ =>
    obtain ⟨-, rfl⟩ := Prod.mk.inj hstep
    exact hm₁

theorem visits_copyLeaf {e : Entry} {asLink : Bool} (htarget : ¬source <+: target.components) :
    Keeps (answers listener) (Visits t₀ source places m)
      (copyLeaf tx flags e target asLink t) := by
  have hcopy : Keeps (answers listener) (Visits t₀ source places m)
      (perform tx (.copy e.path target { flags with copySymlink := asLink })
        (copyError e.path target)) := by
    apply keeps_perform
    apply keeps_attempt
    intro m₁ hm₁
    refine ⟨hm₁.call nofun ?_, fun _ _ => trivial⟩
    rintro place rfl
    exact htarget
  apply keeps_bind hcopy
  intro bytes _
  exact keeps_seq keeps_note keeps_report

/-- A listing is one call, and tells what is there. -/
theorem ensures_childEntries_counted {ok : List Entry → Memory → Prop} {err : Halt → Memory → Prop}
    (hok : ok (m.nodes.entriesOf p) (m.call (.list p)).2)
    (herr : ∀ halt, err halt (m.call (.list p)).2) :
    Ensures (answers listener) (childEntries tx p) m ok err := by
  unfold childEntries listEntries
  rw [Operation.ensures_bind, Operation.ensures_bind, Operation.ensures_attempt]
  intro result m' hr
  obtain ⟨hresult, rfl⟩ := Prod.mk.inj hr
  cases result with
  | ok children =>
    obtain ⟨n, -, -, rfl⟩ := Tree.listing_eq_ok.mp (perform_of_call_ok hresult)
    simp only [ensures_pure, Tree.entriesIn_eq]
    exact hok
  | error e =>
    simp only [Operation.ensures_bind, ensures_pure]
    have hnote {note : Note} :
        Keeps (answers listener) (· = (m.call (.list p)).2) (Operation.note note) := keeps_note
    apply (hnote _ rfl).mono
    · rintro _ _ ⟨rfl, -⟩
      exact ensures_fail.mpr (herr _)
    · rintro _ _ rfl
      exact herr _

/-- However it ends, an operation visits some places only. -/
def Visiting (listener : Listener) (t₀ : Tree) (source : Place) (places : Place → Prop) {α : Type}
    (operation : Operation α) : Prop :=
  ∀ m, (∀ way, m.nodes.lookup (source ++ way) = t₀.lookup (source ++ way)) →
    Ensures (answers listener) operation m (fun _ => Visits t₀ source places m)
      (fun _ => Visits t₀ source places m)

theorem visiting_of_keeps {α : Type} {operation : Operation α}
    (h : ∀ m, Keeps (answers listener) (Visits t₀ source places m) operation) :
    Visiting listener t₀ source places operation :=
  fun m hm => (h m m (.refl hm)).mono_ok fun _ _ h => h.1

/-- What comes after something that visits nothing visits as much as by itself. -/
theorem visiting_after {α β : Type} {operation : Operation α} {rest : α → Operation β}
    (h : ∀ m, Keeps (answers listener) (Visits t₀ source (fun _ => False) m) operation)
    (hrest : ∀ a, Visiting listener t₀ source places (rest a)) :
    Visiting listener t₀ source places (operation >>= rest) := by
  intro m hm
  rw [Operation.ensures_bind]
  have hjoin (m₁ m₂ : Memory) (h₁ : Visits t₀ source (fun _ => False) m m₁)
      (h₂ : Visits t₀ source places m₁ m₂) : Visits t₀ source places m m₂ :=
    (h₁.trans h₂ fun _ => False.elim).mono fun _ hp => hp.resolve_left id
  apply (h m m (.refl hm)).mono
  · rintro a m₁ ⟨h₁, -⟩
    exact (hrest a m₁ h₁.source).mono (fun _ m₂ => hjoin m₁ m₂ h₁) fun _ m₂ => hjoin m₁ m₂ h₁
  · exact fun _ _ h₁ => h₁.mono fun _ => False.elim

section Contents

variable {copyBelow : Path → Path → Tally → Operation Tally}
  (happart : Apart source destination)
  (hcopy : ∀ p target t, source <+: p.components → destination <+: target.components →
    (∃ n, t₀.lookup p.components = some n) →
    Visiting listener t₀ source (p.components <+: ·) (copyBelow p target t))
  (hp : source <+: p.components) (htarget : destination <+: target.components)
  (hthere : ∃ n, t₀.lookup p.components = some n)

include happart hcopy hp htarget

theorem visiting_copyEntry {e : Entry} {b : Bytes} (hname : IsName b)
    (hpath : e.path.components = p.components ++ [.name b]) (htext : e.name = Utf8.lossy b)
    (hn : ∃ n, t₀.lookup e.path.components = some n) :
    Visiting listener t₀ source (e.path.components <+: ·)
      (copyEntry tx flags copyBelow target t e) := by
  have hplace : destination <+: (target.child (Utf8.encode e.name)).components := by
    rw [htext, components_copied target hname]
    exact htarget.trans (List.prefix_append _ _)
  have hleaf (asLink : Bool) : Visiting listener t₀ source (e.path.components <+: ·)
      (copyLeaf tx flags e (target.child (Utf8.encode e.name)) asLink t) :=
    visiting_of_keeps fun _ => visits_copyLeaf (happart.not_below hplace)
  unfold copyEntry
  dsimp only
  split
  · exact visiting_of_keeps fun _ => keeps_pure trivial
  · split
    · exact hleaf true
    · split
      · exact hcopy _ _ t (hpath ▸ hp.trans (List.prefix_append _ _)) hplace hn
      · exact hleaf false

include hthere

/-- A directory is listed before its entries, and these lie apart. -/
theorem visiting_copyContents :
    Visiting listener t₀ source (p.components <+: ·)
      (copyContents tx flags copyBelow p target t) := by
  apply visiting_after fun _ => keeps_report
  intro t
  split
  · exact visiting_of_keeps fun _ => keeps_pure trivial
  · intro m hm
    obtain ⟨n, hn⟩ := hthere
    have hlist := Visits.list hn hm
    have hbelow : ∀ e ∈ m.nodes.entriesOf p, p.components <+: e.path.components :=
      fun _ he => Tree.prefix_of_mem_entriesOf he
    -- What is visited before an entry: the directory, and the entries that are done.
    let seen (before : List Entry) (place : Place) : Prop :=
      p.components = place ∨ ∃ d ∈ before, d.path.components <+: place
    have hseen (before after : List Entry) (hl : m.nodes.entriesOf p = before ++ after)
        (place : Place) (h : seen before place) : p.components <+: place := by
      rcases h with rfl | ⟨d, hd, hplace⟩
      · exact List.prefix_refl _
      · exact (hbelow d (by simp [hl, hd])).trans hplace
    rw [Operation.ensures_bind]
    apply ensures_childEntries_counted
    · apply (ensures_foldlM (fun before _ => Visits t₀ source (seen before) m)
        (hlist.mono fun _ => .inl) ?_).mono_ok
      · exact fun _ _ h => h.mono (hseen _ [] (List.append_nil _).symm)
      · intro before e after t' m' hl hm'
        have he : e ∈ m.nodes.entriesOf p := by simp [hl]
        obtain ⟨b, n, hname, hpath, htext, hn, -⟩ := Tree.exists_of_mem_entriesOf he
        obtain ⟨way, hway⟩ := hp.trans (hbelow e he)
        rw [← hway, hm way, hway] at hn
        have hdisjoint (place : Place) (h : seen before place) : ¬e.path.components <+: place := by
          intro hplace
          rcases h with rfl | ⟨d, hd, hplace'⟩
          · rw [hpath] at hplace
            exact concat_not_prefix_self hplace
          · have happart' := Tree.entriesOf_apart hl hd
            exact (List.prefix_or_prefix_of_prefix hplace' hplace).elim happart'.1 happart'.2
        apply (visiting_copyEntry happart hcopy hp htarget hname hpath htext ⟨n, hn⟩ m'
          hm'.source).mono
        · intro _ m'' hm''
          apply (hm'.trans hm'' hdisjoint).mono
          rintro place ((hplace | ⟨d, hd, hplace⟩) | hplace)
          · exact .inl hplace
          · exact .inr ⟨d, by simp [hd], hplace⟩
          · exact .inr ⟨e, by simp, hplace⟩
        · intro _ m'' hm''
          apply (hm'.trans hm'' hdisjoint).mono
          rintro place (hplace | hplace)
          · exact hseen before _ hl place hplace
          · exact (hbelow e he).trans hplace
    · exact fun _ => hlist.mono fun place hplace => hplace ▸ List.prefix_refl _

end Contents

/-- A copy lists every directory of its source at most once, and nothing else. -/
theorem visiting_copyTree (happart : Apart source destination) (isRoot : Bool)
    (hp : source <+: p.components) (htarget : destination <+: target.components)
    (hroot : isRoot = true → target.components = destination)
    (hthere : ∃ n, t₀.lookup p.components = some n) :
    Visiting listener t₀ source (p.components <+: ·)
      (copyTree tx flags levels isRoot p target t) := by
  induction levels generalizing isRoot p target t with
  | zero => exact visiting_of_keeps fun _ => keeps_throw
  | succ levels ih =>
    have hcontents : Visiting listener t₀ source (p.components <+: ·)
        (copyContents tx flags (copyTree tx flags levels false) p target t) := by
      apply visiting_copyContents happart _ hp htarget hthere
      intro p target t hp htarget hthere
      exact ih false hp htarget nofun hthere
    cases isRoot with
    | true =>
      obtain rfl := hroot rfl
      rw [copyTree_root]
      apply visiting_after _ fun _ => hcontents
      intro m
      apply visits_of_creates asks_createAbove
      rintro dir ⟨habove, -⟩ hsource
      exact happart.1 (hsource.trans habove)
    | false =>
      rw [copyTree_inner]
      apply visiting_after _ fun _ => hcontents
      intro m
      apply visits_of_creates (asks_createOne (· = target) rfl)
      rintro _ rfl
      exact happart.not_below htarget

end Lists

/-! ### Runs -/

/-- On the way from one file system to another, each node that a tree has at or below a source is
listed at most once, and nothing else is, least of all at or below a destination. -/
def ListsOnce (t : Tree) (source destination : Path) (m m' : Memory) : Prop :=
  ∀ p, m'.callCount .list p ≤ m.callCount .list p + 1 ∧
    (m'.callCount .list p ≠ m.callCount .list p →
      source.components <+: p.components ∧ (∃ n, t.lookup p.components = some n) ∧
        ¬destination.components <+: p.components)

/-- Every transfer ends: it does not run out of levels, whatever fails and wherever the listener
cancels. It is what comes before its copy phase, the copy, and what comes after; and the copy phase
lists each node that was in the source before the transfer at most once, and nothing at or below the
destination. -/
theorem transfer_ends (m : Memory) (listener : Listener) (levels : Nat) (opts : TransferOptions)
    (source destination : Path) (hlevels : m.nodes.levels ≤ levels) :
    (m.runs listener (copyOrMove levels opts source destination)).result ≠ .error .tooDeep ∧
    (copyOrMove levels opts source destination =
      untilCopy levels opts source destination >>= fun result =>
        match result with
        | .inl outcome => pure outcome
        | .inr plan =>
          copyTree opts.transaction plan.mode.copyFlags levels true plan.source plan.destination {}
            >>= afterCopy levels opts plan) ∧
    let before := m.runs listener (untilCopy levels opts source destination)
    ∀ plan, before.result = .ok (.inr plan) →
      let after := before.memory.runs listener
        (copyTree opts.transaction plan.mode.copyFlags levels true plan.source plan.destination {})
      ListsOnce m.nodes source destination before.memory after.memory := by
  refine ⟨?_, copyOrMove_eq_phases, ?_⟩
  · have hensures : Ensures (Replies True True) (copyOrMove levels opts source destination)
        ⟨m.nodes, []⟩ (fun _ _ => True) NotDeep := ensures_copyOrMove_notDeep hlevels
    have hends := ends_runs listener (.inl trivial) (fun _ _ => trivial) hensures
    intro hdeep
    rw [hdeep] at hends
    exact hends rfl
  · intro before plan hplan after p
    have hensures : Ensures (Replies True True) (untilCopy levels opts source destination)
        ⟨m.nodes, []⟩ _ NotDeep := ensures_untilCopy hlevels
    have hends := ends_runs listener (.inl trivial) (fun _ _ => trivial) hensures
    rw [hplan] at hends
    obtain ⟨rfl, rfl, happart, hthere, -, hagree⟩ := hends plan rfl
    have hsource (way : Place) := happart.lookup_eq (hagree.mono fun _ => .inl) way
    have hcopy : Visiting listener m.nodes plan.source.components (plan.source.components <+: ·)
        (copyTree opts.transaction plan.mode.copyFlags levels true plan.source plan.destination
          {}) :=
      visiting_copyTree happart true (List.prefix_refl _) (List.prefix_refl _) (fun _ => rfl) hthere
    have hvisits : Visits m.nodes plan.source.components (plan.source.components <+: ·)
        before.memory after.memory :=
      (Program.Ensures.runRecorded (hcopy before.memory hsource)).elim
    rcases hvisits.listed p with heq | ⟨heq, hp, hn⟩
    · exact ⟨by omega, fun hne => absurd heq hne⟩
    · exact ⟨by omega, fun _ => ⟨hp, hn, fun hd => happart.not_below hd hp⟩⟩

/-- A move across volumes of two files whose names are no text and become one at the destination. -/
theorem transfer_ends_unspellable :
    let m := ((new.addFile ⟨[47, 115, 47, 254]⟩ 3).addFile ⟨[47, 115, 47, 255]⟩ 4).setVolume "/s" 1
    let opts : TransferOptions := { move := some { copyAllowed := true } }
    let before := m.runs {} (untilCopy m.levels opts "/s" "/d")
    let plan : Plan := ⟨.move { copyAllowed := true }, "/s", "/d"⟩
    let after := before.memory.runs {}
      (copyTree opts.transaction plan.mode.copyFlags m.levels true plan.source plan.destination {})
    before.result = .ok (.inr plan) ∧
      after.result = .error (.failed (.alreadyExists "/d/\uFFFD")) ∧
      ListsOnce m.nodes "/s" "/d" before.memory after.memory :=
  ⟨rfl, rfl, (transfer_ends _ _ _ _ _ _ (Nat.le_refl _)).2.2 _ rfl⟩

end Memory

end TreeOps
