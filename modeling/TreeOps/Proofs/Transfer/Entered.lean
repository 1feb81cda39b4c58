import TreeOps.Proofs.Removal.Mounts
import TreeOps.Proofs.Transfer.Course
import TreeOps.Proofs.Transfer.Frame

/-!
# The links that a transfer enters

A copy enters the directories that it finds as entries, which links are not, and its own source,
whatever that is. A move also deletes before the copy and after it, and a delete enters a link if a
volume was mounted on it. To tell that such a link was there before the transfer, the nodes at and
below the source, and as long as nothing is copied those at and below the destination, are traced:
each of them was there before. Any call may fail and the listener may cancel.
-/

namespace TreeOps

/-- What is at a place of a tree may be entered: it is no link, or an excepted one. -/
def Tree.MayEnter (t : Tree) (excepted : Place → Node → Prop) (place : Place) : Prop :=
  ∀ n, t.lookup place = some n → n.isLink = true → excepted place n

theorem Tree.mayEnter_of_not_link {t : Tree} {excepted : Place → Node → Prop} {place : Place}
    {n : Node} (hn : t.lookup place = some n) (h : n.isLink = false) :
    t.MayEnter excepted place := by
  intro n' hn' hlink
  obtain rfl := Option.some.inj (hn.symm.trans hn')
  rw [h] at hlink
  cases hlink

/-- The requests that list what may be entered and make nothing at some places. -/
def Request.Enters (t : Tree) (excepted : Place → Node → Prop) (places : Place → Prop) :
    Request → Prop
  | .call _ (.list path) => places path.components ∧ t.MayEnter excepted path.components
  | .call _ (.createDirectory path) | .call _ (.copy _ path _) => ¬places path.components
  | .call _ (.move ..) => False
  | _ => True

section Requests

variable {t : Tree} {excepted : Place → Node → Prop} {places : Place → Prop} {r : Request}
  {tx : Option Transaction} {path : Path}

theorem Request.Queries.enters (hr : r.Queries tx) : r.Enters t excepted places := by
  cases r with
  | call tx' c =>
    cases c with
    | query | sameVolume => trivial
    | _ => exact hr.elim
  | _ => trivial

theorem Request.Edits.enters (hr : r.Edits tx path) : r.Enters t excepted places := by
  cases r with
  | call tx' c =>
    cases c with
    | deleteFile | setAttributes => trivial
    | _ => exact hr.elim
  | _ => trivial

theorem Request.Attempts.enters (hr : r.Attempts tx path) : r.Enters t excepted places := by
  cases r with
  | call tx' c =>
    cases c with
    | removeDirectory | setAttributes => trivial
    | _ => exact hr.elim
  | _ => trivial

theorem Request.Creates.enters {made : Path → Prop}
    (hmade : ∀ path, made path → ¬places path.components) (hr : r.Creates tx made) :
    r.Enters t excepted places := by
  cases r with
  | call tx' c =>
    cases c with
    | query => trivial
    | createDirectory path => exact hmade path hr.2
    | _ => exact hr.elim
  | _ => trivial

/-- Such a call leaves at the places only what was there. -/
theorem Request.Enters.persists {u : Tree} {c : Call} {place : Place} {n' : Node}
    (hr : Request.Enters t excepted places (.call tx c)) (hplace : places place)
    (hn' : (u.perform c).2.lookup place = some n') :
    ∃ n, u.lookup place = some n ∧ n.Persists n' := by
  have hkept (hout : ¬c.Reaches place) : ∃ n, u.lookup place = some n ∧ n.Persists n' := by
    rw [Tree.agreeOutside_perform c u place hout] at hn'
    exact ⟨n', hn', .refl n'⟩
  have hremoved (hc : Request.Removes tx [] (.call tx c)) :
      ∃ n, u.lookup place = some n ∧ n.Persists n' := Tree.persists_perform hc hn'
  cases c with
  | list | query | sameVolume => exact hkept id
  | createDirectory path => exact hkept fun heq => hr (heq ▸ hplace)
  | copy source path flags => exact hkept fun heq => hr (heq ▸ hplace)
  | removeDirectory | deleteFile | setAttributes | unmount =>
    exact hremoved ⟨rfl, List.nil_prefix⟩
  | move => exact hr.elim

end Requests

theorem TransferOptions.isSome_of_mode {opts : TransferOptions} {m : MoveOptions}
    (h : opts.mode = .ok (.move m)) : opts.move.isSome = true := by
  unfold mode at h
  split at h
  · cases h
  · next hmove => rw [hmove, Option.isSome_some]
  · cases h
  · cases h

namespace Memory

open Transfer Removal Operation

/-! ### Traces -/

/-- A link is listed at a moment. -/
def ListsLink (path : Path) (x : Moment Memory) : Prop :=
  ∃ tx n, x.event.request = .call tx (.list path) ∧
    x.before.nodes.lookup path.components = some n ∧ n.isLink = true

/-- If a link is listed at a moment, it was a link in a tree already, and an excepted one. -/
def EntersOnly (t : Tree) (excepted : Place → Node → Prop) (x : Moment Memory) : Prop :=
  ∀ path, ListsLink path x →
    ∃ n, t.lookup path.components = some n ∧ n.isLink = true ∧ excepted path.components n

theorem entersOnly_of_not_list {t : Tree} {excepted : Place → Node → Prop} {x : Moment Memory}
    (h : ∀ tx path, x.event.request ≠ .call tx (.list path)) : EntersOnly t excepted x := by
  rintro path ⟨tx, -, hrequest, -⟩
  exact absurd hrequest (h tx path)

/-- How a file system in memory and a listener answer, watched for the links that are listed. -/
abbrev Tracing (listener : Listener) (t : Tree) (excepted : Place → Node → Prop) :
    Answering (Watch Memory) :=
  (answers listener).observing (EntersOnly t excepted)

/-- No link was listed so far that may not be entered, and whatever is at some places was in a tree
already. -/
structure Traced (t : Tree) (places : Place → Prop) (w : Watch Memory) : Prop where
  good : w.good
  persists : ∀ place n', places place → w.state.nodes.lookup place = some n' →
    ∃ n, t.lookup place = some n ∧ n.Persists n'

section Steps

variable {t : Tree} {excepted : Place → Node → Prop} {places places' : Place → Prop}
  {w w' : Watch Memory} {listener : Listener} {tx : Option Transaction} {path : Path} {α : Type}
  {err : Halt → Watch Memory → Prop}

theorem Traced.mono (h : Traced t places w) (himp : ∀ place, places' place → places place) :
    Traced t places' w :=
  ⟨h.good, fun place n' hplace => h.persists place n' (himp place hplace)⟩

/-- The nodes at the places stay what they are. -/
theorem Traced.step {r : Request} {a : r.Answer} (h : Traced t places w)
    (hr : r.Enters t excepted places) (hstep : Tracing listener t excepted r w a w') :
    Traced t places w' := by
  obtain ⟨hanswer, hgood⟩ := hstep
  have hstate := (Prod.mk.inj hanswer).2
  have hsame (heq : w'.state = w.state) (hlist : ∀ tx path, r ≠ .call tx (.list path)) :
      Traced t places w' := by
    refine ⟨hgood.mpr ⟨h.good, entersOnly_of_not_list hlist⟩, ?_⟩
    rw [heq]
    exact h.persists
  cases r with
  | call tx c =>
    change (w.state.call c).2 = w'.state at hstate
    refine ⟨hgood.mpr ⟨h.good, ?_⟩, ?_⟩
    · rintro path ⟨tx', n, hrequest, hn, hlink⟩
      obtain ⟨-, rfl⟩ := Request.call.inj hrequest
      obtain ⟨n₀, hn₀, hpersists⟩ := h.persists _ n hr.1 hn
      have hlink₀ : n₀.isLink = true := hpersists.isLink ▸ hlink
      exact ⟨n₀, hn₀, hlink₀, hr.2 n₀ hn₀ hlink₀⟩
    · intro place n' hplace hn'
      rw [← hstate] at hn'
      rcases w.state.nodes_call c with hnodes | hnodes
      · rw [hnodes] at hn'
        exact h.persists place n' hplace hn'
      · rw [hnodes] at hn'
        obtain ⟨n₁, hn₁, hpersists⟩ := hr.persists hplace hn'
        obtain ⟨n, hn, hpersists₁⟩ := h.persists place n₁ hplace hn₁
        exact ⟨n, hn, hpersists₁.trans hpersists⟩
  | resolve | consult | report | pause | note => exact hsame hstate.symm (by simp)

theorem traced_of_asks {p : Operation α} {value : α → Prop}
    (h : Asks (Request.Enters t excepted places) p value) :
    Keeps (Tracing listener t excepted) (Traced t places) p value :=
  h.keeps _ fun _ _ _ _ hr hw hstep => hw.step hr hstep

theorem traced_note {n : Note} :
    Keeps (Tracing listener t excepted) (Traced t places) (note n) :=
  traced_of_asks (asks_note trivial)

theorem traced_resolve :
    Keeps (Tracing listener t excepted) (Traced t places) (resolve path) (· = path) := by
  apply keeps_request
  intro w a w' hw hstep
  exact ⟨hw.step (r := .resolve path) trivial hstep, (Prod.mk.inj hstep.1).1.symm⟩

/-- A query at one of the places tells about what was there. -/
theorem traced_query (hpath : places path.components) :
    Keeps (Tracing listener t excepted) (Traced t places) (attempt tx (.query path))
      fun result => ∀ info, result = .ok info → ∃ n n', t.lookup path.components = some n ∧
        n.Persists n' ∧ info.Describes n' := by
  intro w hw
  refine (observed_query fun _ _ hstep => hw.step (r := .call tx (.query path)) trivial
    hstep).mono_ok fun result w' hqueried => ⟨hqueried.1, fun info hinfo => ?_⟩
  obtain ⟨n', hn', hdescribes⟩ := hqueried.2 info hinfo
  obtain ⟨n, hn, hpersists⟩ := hqueried.1.persists _ n' hpath hn'
  exact ⟨n, n', hn, hpersists, hdescribes⟩

/-- A listing gives entries for what was in the directory. -/
theorem traced_listEntries (hpath : places path.components)
    (hplaces : ∀ place way, places place → places (place ++ way))
    (hmay : t.MayEnter excepted path.components) :
    Keeps (Tracing listener t excepted) (Traced t places) (listEntries tx path)
      fun result => ∀ entries, result = .ok entries → ∀ e ∈ entries, ∃ b n n', IsName b ∧
        e.path.components = path.components ++ [.name b] ∧ e.name = Utf8.lossy b ∧
        t.lookup e.path.components = some n ∧ n.Persists n' ∧ e.Describes n' := by
  intro w hw
  refine (observed_listEntries (fun _ _ hstep => hw.step (r := .call tx (.list path))
    ⟨hpath, hmay⟩ hstep) fun _ _ _ _ h hstep => h.step (r := .note _) trivial hstep).mono
    ?_ fun _ _ => id
  intro result w' hlisted
  refine ⟨hlisted.1, fun entries hok e he => ?_⟩
  rw [hlisted.2 entries hok] at he
  obtain ⟨b, n', hname, hbelow, htext, hn', hdescribes⟩ := Tree.exists_of_mem_entriesOf he
  obtain ⟨n, hn, hpersists⟩ := hlisted.1.persists _ n' (hbelow ▸ hplaces _ _ hpath) hn'
  exact ⟨b, n, n', hname, hbelow, htext, hn, hpersists, hdescribes⟩

theorem traced_childEntries (hpath : places path.components)
    (hplaces : ∀ place way, places place → places (place ++ way))
    (hmay : t.MayEnter excepted path.components) :
    Keeps (Tracing listener t excepted) (Traced t places) (childEntries tx path)
      fun entries => ∀ e ∈ entries, ∃ b n n', IsName b ∧
        e.path.components = path.components ++ [.name b] ∧ e.name = Utf8.lossy b ∧
        t.lookup e.path.components = some n ∧ n.Persists n' ∧ e.Describes n' := by
  apply keeps_bind (traced_listEntries hpath hplaces hmay)
  intro result hresult
  cases result with
  | ok entries => exact keeps_pure (hresult entries rfl)
  | error code => exact keeps_fail

/-- Where the children of a link are known, the link was listed. -/
theorem lists_childEntries {n : Node} (h : Traced t places w) (hplace : places path.components)
    (hn : t.lookup path.components = some n) (hlink : n.isLink = true) :
    Ensures (Tracing listener t fun _ _ => False) (childEntries tx path) w
      (fun _ w' => ¬w'.good) (fun _ _ => True) := by
  unfold childEntries listEntries
  rw [bind_assoc, Operation.ensures_bind, Operation.ensures_attempt]
  intro a w' hstep
  cases a with
  | ok children =>
    simp only [ensures_pure, pure_bind]
    intro hgood
    obtain ⟨-, hseen⟩ := hstep.2.mp hgood
    have hresult := (Prod.mk.inj hstep.1).1
    obtain ⟨n', hn', -⟩ := Tree.listing_eq_ok.mp (perform_of_call_ok hresult)
    obtain ⟨n₀, hn₀, hpersists⟩ := h.persists _ n' hplace hn'
    obtain rfl := Option.some.inj (hn.symm.trans hn₀)
    obtain ⟨-, -, -, hnone⟩ := hseen _ ⟨_, n', rfl, hn', hpersists.isLink.trans hlink⟩
    exact hnone
  | error e =>
    simp only [Operation.ensures_bind, Operation.ensures_note, ensures_pure]
    exact fun _ _ _ => ensures_fail.mpr trivial

end Steps

/-! ### Deletes -/

section Deletes

variable {t : Tree} {excepted : Place → Node → Prop} {places : Place → Prop} {listener : Listener}
  {tx : Option Transaction} {path : Path} {opts : DeleteOptions}
  (hplaces : ∀ place way, places place → places (place ++ way))

theorem enters_unmount : Asks (Request.Enters t excepted places) (unmount tx path) := by
  refine asks_bind (asks_attempt trivial) fun result _ => ?_
  cases result with
  | ok _ => exact asks_note trivial
  | error e =>
    dsimp only
    split
    · exact asks_note trivial
    · exact asks_fail

include hplaces

theorem traced_emptyDirectory {deleteChild : Path → Operation Unit}
    (hdelete : ∀ child : Path, places child.components →
      Keeps (Tracing listener t excepted) (Traced t places) (deleteChild child))
    (hpath : places path.components) (hmay : t.MayEnter excepted path.components) :
    Keeps (Tracing listener t excepted) (Traced t places)
      (emptyDirectory opts deleteChild path) := by
  apply keeps_bind (traced_listEntries hpath hplaces hmay)
  intro result hresult
  cases result with
  | ok entries =>
    apply keeps_forM
    intro e he
    obtain ⟨b, n, n', -, hbelow, -⟩ := hresult entries rfl e he
    split
    · exact hdelete e.path (hbelow ▸ hplaces _ _ hpath)
    · exact traced_of_asks (edits_removeFile.mono fun _ => Request.Edits.enters)
  | error code =>
    dsimp only
    split
    · exact keeps_pure trivial
    · exact keeps_fail

omit hplaces in
theorem traced_removal {emptyIt : Operation Unit} {info : Entry}
    (hempty : Keeps (Tracing listener t excepted) (Traced t places) emptyIt)
    (context : Context) (retries attempt : Nat) :
    Keeps (Tracing listener t excepted) (Traced t places)
      (releaseReadOnly opts path info >>= fun _ =>
        removeRepeatedly opts context path info.attributes emptyIt retries attempt) :=
  keeps_removal hempty (fun _ _ _ _ hr hw hstep => hw.step hr.enters hstep) _ _ _

variable (hexcepted : ∀ place n, n.mounted = true → excepted place n)
include hexcepted

/-- A delete enters a link only if a volume was mounted on it. -/
theorem traced_deleteNode (levels : Nat) (continueIfMissing : Bool) (path : Path)
    (hpath : places path.components) :
    Keeps (Tracing listener t excepted) (Traced t places)
      (deleteNode opts levels continueIfMissing path) := by
  induction levels generalizing continueIfMissing path with
  | zero => exact keeps_throw
  | succ levels ih =>
    apply keeps_bind (traced_query hpath)
    intro result hresult
    cases result with
    | error e =>
      dsimp only
      split
      · exact traced_note
      · exact keeps_fail
    | ok info =>
      obtain ⟨n, n', hn, hpersists, hdescribes⟩ := hresult info rfl
      have hempty : Keeps (Tracing listener t excepted) (Traced t places)
          (if (opts.recursive && (!info.isReparsePoint || info.isMountPoint)) = true then
            emptyDirectory opts (deleteNode opts levels true) path else pure ()) := by
        split
        · next hdescends =>
          refine traced_emptyDirectory hplaces (fun child hchild => ih true child hchild) hpath ?_
          intro n₀ hn₀ hlink
          obtain rfl := Option.some.inj (hn.symm.trans hn₀)
          have hmounted : n'.mounted = true := by
            simp only [Bool.and_eq_true, hdescribes.isReparsePoint, hpersists.isLink, hlink,
              hdescribes.isMountPoint] at hdescends
            exact hdescends.2
          exact hexcepted path.components n (hpersists.mounted hmounted)
        · exact keeps_pure trivial
      dsimp only
      split
      · exact keeps_fail
      · split
        · exact keeps_seq (traced_of_asks enters_unmount) (traced_removal hempty _ _ 1)
        · exact traced_removal hempty _ _ 1

theorem traced_replaceDestination {opts : TransferOptions} (levels : Nat) (isDirectory : Bool)
    (hpath : places path.components) :
    Keeps (Tracing listener t excepted) (Traced t places)
      (replaceDestination levels opts path isDirectory) := by
  apply keeps_seq traced_note
  split
  · exact traced_deleteNode hplaces hexcepted levels _ path hpath
  · apply keeps_bind traced_resolve
    rintro _ rfl
    refine traced_of_asks (asks_bind (asks_attempt trivial) fun result _ => ?_)
    cases result with
    | ok info => exact edits_removeFile.mono fun _ => Request.Edits.enters
    | error e =>
      dsimp only
      split
      · exact asks_pure trivial
      · exact asks_fail

end Deletes

/-! ### Copies -/

section Copies

variable {t : Tree} {excepted : Place → Node → Prop} {source destination : Place}
  {listener : Listener}
  {tx : Option Transaction} {flags : CopyFlags} {p target : Path} {tally : Tally}
  {copyBelow : Path → Path → Tally → Operation Tally}
  (happart : Apart source destination)
  (hcopy : ∀ p target tally, source <+: p.components → destination <+: target.components →
    t.MayEnter excepted p.components →
    Keeps (Tracing listener t excepted) (Traced t (source <+: ·)) (copyBelow p target tally))
  (htarget : destination <+: target.components)

include happart hcopy htarget

/-- An entry that a copy enters is no link. -/
theorem traced_copyEntry {e : Entry} {b : Bytes} {n n' : Node} (hname : IsName b)
    (htext : e.name = Utf8.lossy b) (hbelow : source <+: e.path.components)
    (hn : t.lookup e.path.components = some n) (hpersists : n.Persists n')
    (hdescribes : e.Describes n') :
    Keeps (Tracing listener t excepted) (Traced t (source <+: ·))
      (copyEntry tx flags copyBelow target tally e) := by
  have hplace : destination <+: (target.child (Utf8.encode e.name)).components := by
    rw [htext, components_copied target hname]
    exact htarget.trans (List.prefix_append _ _)
  have hleaf (asLink : Bool) : Keeps (Tracing listener t excepted) (Traced t (source <+: ·))
      (copyLeaf tx flags e (target.child (Utf8.encode e.name)) asLink tally) :=
    traced_of_asks (asks_copyLeaf (fun _ _ => trivial) (fun _ => trivial)
      (happart.not_below hplace))
  unfold copyEntry
  dsimp only
  split
  · exact keeps_pure trivial
  · split
    · exact hleaf true
    · next hlink =>
      have hplain : n.isLink = false := by
        rw [← hpersists.isLink, ← hdescribes.isReparsePoint]
        simpa using hlink
      split
      · exact hcopy _ _ tally hbelow hplace (Tree.mayEnter_of_not_link hn hplain)
      · exact hleaf false

theorem traced_copyContents (hp : source <+: p.components)
    (hmay : t.MayEnter excepted p.components) :
    Keeps (Tracing listener t excepted) (Traced t (source <+: ·))
      (copyContents tx flags copyBelow p target tally) := by
  have hreport : Keeps (Tracing listener t excepted) (Traced t (source <+: ·))
      (report tally .directoryCreated p target 0) :=
    traced_of_asks (asks_report (fun _ _ => trivial) (fun _ => trivial) nofun)
  apply keeps_bind hreport
  intro tally _
  split
  · exact keeps_pure trivial
  · apply keeps_bind (traced_childEntries hp (fun _ _ h => h.trans (List.prefix_append _ _)) hmay)
    intro entries hentries
    apply keeps_foldlM
    intro tally e he
    obtain ⟨b, n, n', hname, hpath, htext, hn, hpersists, hdescribes⟩ := hentries e he
    have hbelow : source <+: e.path.components := hpath ▸ hp.trans (List.prefix_append _ _)
    exact traced_copyEntry happart hcopy htarget hname htext hbelow hn hpersists hdescribes

omit hcopy in
/-- A copy enters no link but its own source. -/
theorem traced_copyTree (levels : Nat) (isRoot : Bool) (hp : source <+: p.components)
    (hroot : isRoot = true → target.components = destination)
    (hmay : t.MayEnter excepted p.components) :
    Keeps (Tracing listener t excepted) (Traced t (source <+: ·))
      (copyTree tx flags levels isRoot p target tally) := by
  induction levels generalizing isRoot p target tally with
  | zero => exact keeps_throw
  | succ levels ih =>
    have hcontents : Keeps (Tracing listener t excepted) (Traced t (source <+: ·))
        (copyContents tx flags (copyTree tx flags levels false) p target tally) := by
      apply traced_copyContents happart _ htarget hp hmay
      intro p target tally hp htarget hmay
      exact ih htarget false hp nofun hmay
    have hmade {made : Path → Prop} {make : Operation Unit}
        (hmake : Asks (Request.Creates tx made) make)
        (haway : ∀ path, made path → ¬source <+: path.components) :
        Keeps (Tracing listener t excepted) (Traced t (source <+: ·)) make :=
      traced_of_asks (hmake.mono fun _ => Request.Creates.enters haway)
    cases isRoot with
    | true =>
      obtain rfl := hroot rfl
      rw [copyTree_root]
      apply keeps_seq (hmade asks_createAbove _) hcontents
      rintro dir ⟨habove, -⟩ hsource
      exact happart.1 (hsource.trans habove)
    | false =>
      rw [copyTree_inner]
      apply keeps_seq (hmade (asks_createOne (· = target) rfl) _) hcontents
      rintro _ rfl
      exact happart.not_below htarget

end Copies

/-! ### Moves -/

/-- At or below the source or the destination. -/
def Around (source destination place : Place) : Prop := source <+: place ∨ destination <+: place

section Moves

variable {t : Tree} {excepted : Place → Node → Prop} {source destination : Path}
  {places : Place → Prop}
  {listener : Listener} {tx : Option Transaction} {levels : Nat} {m : MoveOptions}
  {opts : TransferOptions} {tally : Tally} {w w' : Watch Memory}

/-- A call that fails leaves the nodes as they are. -/
theorem Traced.fail {c : Call} {e : NativeError} (h : Traced t places w)
    (hc : c.primitive ≠ .list)
    (hstep : Tracing listener t excepted (.call tx c) w (.error e) w') :
    Traced t places w' := by
  obtain ⟨hanswer, hgood⟩ := hstep
  obtain ⟨hresult, hstate⟩ := Prod.mk.inj hanswer
  change (w.state.call c).1 = .error e at hresult
  change (w.state.call c).2 = w'.state at hstate
  refine ⟨hgood.mpr ⟨h.good, entersOnly_of_not_list fun tx' path hrequest => ?_⟩, ?_⟩
  · obtain ⟨-, rfl⟩ := Request.call.inj hrequest
    exact hc rfl
  · have hnodes : w'.state.nodes = w.state.nodes := by
      rw [← hstate]
      rcases w.state.call_nodes c with ⟨-, hperformed, hnodes⟩ | ⟨-, -, hnodes⟩
      · exact hnodes.trans (Tree.perform_error (hperformed.symm.trans hresult))
      · exact hnodes
    rw [hnodes]
    exact h.persists

/-- As long as a rename fails, nothing has moved. -/
theorem traced_tryRename {mayRemove : Bool} (h : Traced t places w) :
    Ensures (Tracing listener t excepted)
      (tryRename m opts source destination mayRemove tally) w
      (Attempted (fun _ w' => w'.good) (Traced t places)) (fun _ w' => w'.good) := by
  unfold tryRename
  rw [Operation.ensures_bind, Operation.ensures_attempt]
  intro a w' hstep
  cases a with
  | ok _ =>
    have hw' : Traced t (fun _ => False) w' := by
      refine ⟨hstep.2.mpr ⟨h.good, entersOnly_of_not_list fun tx path hrequest => ?_⟩,
        fun _ _ => False.elim⟩
      exact nomatch (Request.call.inj hrequest).2
    have hdone {p : Operation Rename} (hp : Asks (Request.Enters t excepted
        fun _ => False) p fun r => ∃ t', r = .renamed t') :
        Ensures (Tracing listener t excepted) p w'
          (Attempted (fun _ w' => w'.good) (Traced t places)) (fun _ w' => w'.good) := by
      refine (traced_of_asks hp w' hw').mono ?_ fun _ _ h => h.good
      rintro _ w'' ⟨hw'', t', rfl⟩
      exact hw''.good
    apply hdone
    refine asks_bind (asks_record fun _ _ => trivial) fun recorded _ => ?_
    exact asks_seq (asks_note trivial) (asks_pure ⟨_, rfl⟩)
  | error e =>
    have hw' := h.fail (by simp [Call.primitive]) hstep
    have hleft {r : Rename} (hr : r = .crossedVolumes ∨ r = .occupied) {w'' : Watch Memory}
        (hw'' : Traced t places w'') :
        Attempted (fun _ w' => w'.good) (Traced t places) r w'' := by
      rcases hr with rfl | rfl <;> exact hw''
    dsimp only
    split
    · split
      · rw [Operation.ensures_bind]
        refine (traced_note w' hw').mono (fun _ _ h => ?_) fun _ _ h => h.good
        exact ensures_pure.mpr (hleft (.inl rfl) h.1)
      · exact ensures_fail.mpr hw'.good
    · split
      · exact ensures_pure.mpr (hleft (.inr rfl) hw')
      · split
        · exact ensures_fail.mpr hw'.good
        · exact ensures_fail.mpr hw'.good

/-- Until the copy, the nodes at and below both paths are those that were there before. -/
theorem phases_traced (hexcepted : ∀ place n, n.mounted = true → excepted place n) :
    Phases (Tracing listener t excepted) levels m opts source destination tally
      (fun _ w => Traced t (Around source.components destination.components) w)
      (fun _ w => w.good) (fun _ w => w.good) where
  taken _ _ _ h := h.good
  refuse _ _ _ h := h.good
  attempt _ _ h := traced_tryRename h
  replace old w h := by
    refine (traced_replaceDestination ?_ hexcepted levels old.isDirectory ?_ w h).mono
      (fun _ _ h => h.1) fun _ _ h => h.good
    · exact fun _ _ => Or.imp (·.trans (List.prefix_append _ _)) (·.trans (List.prefix_append _ _))
    · exact .inr (List.prefix_refl _)

theorem traced_moveUntilCopy (hexcepted : ∀ place n, n.mounted = true → excepted place n)
    (h : Traced t (Around source.components destination.components) w) :
    Ensures (Tracing listener t excepted)
      (moveUntilCopy levels m opts source destination tally) w
      (fun result w' => match result with
        | some _ => w'.good
        | none => Traced t (Around source.components destination.components) w')
      (fun _ w' => w'.good) :=
  (phases_traced hexcepted).ensures_moveUntilCopy
    ((traced_of_asks (queries_surveyMove.mono fun _ => Request.Queries.enters) w h).mono
      (fun _ _ h => h.1) fun _ _ h => h.good)

end Moves

/-! ### Transfers -/

section Transfers

variable {t : Tree} {excepted : Place → Node → Prop} {source destination : Path}
  {places : Place → Prop} {listener : Listener} {levels : Nat} {opts : TransferOptions}
  {w : Watch Memory}

/-- What is known of a transfer when it comes to copying. -/
structure Ready (t : Tree) (opts : TransferOptions) (source destination : Path) (plan : Plan)
    (w : Watch Memory) : Prop where
  mode : opts.mode = .ok plan.mode
  sameSource : plan.source = source
  sameDestination : plan.destination = destination
  apart : Apart source.components destination.components
  traced : Traced t (source.components <+: ·) w

theorem traced_makePlan :
    Keeps (Tracing listener t excepted) (Traced t places)
      (makePlan opts source destination) fun plan => opts.mode = .ok plan.mode ∧
        plan.source = source ∧ plan.destination = destination ∧
        Apart source.components destination.components := by
  unfold makePlan
  split
  · exact keeps_fail
  · next mode hmode =>
    apply keeps_bind traced_resolve
    rintro source rfl
    apply keeps_bind traced_resolve
    rintro destination rfl
    split
    · exact keeps_fail
    · next hoverlap =>
      have hquery : Asks (Request.Enters t excepted places)
          (perform opts.transaction (.query source) (.ofNative source "query")) :=
        asks_perform trivial
      apply keeps_bind (traced_of_asks hquery)
      intro info _
      split
      · exact keeps_fail
      · exact keeps_pure ⟨hmode, rfl, rfl, Path.apart (overlap_eq_none_iff.mp hoverlap)⟩

/-- The copy enters no link but its own source. -/
theorem Ready.traced_copyTree {plan : Plan} (h : Ready t opts source destination plan w) :
    Ensures (Tracing listener t fun place _ => place = source.components)
      (copyTree opts.transaction plan.mode.copyFlags levels true plan.source plan.destination {}) w
      (fun _ w' => Traced t (source.components <+: ·) w') (fun _ w' => w'.good) := by
  obtain ⟨-, rfl, rfl, happart, htraced⟩ := h
  exact (Memory.traced_copyTree happart (List.prefix_refl _) levels true (List.prefix_refl _)
    (fun _ => rfl) (fun _ _ _ => rfl) w htraced).mono (fun _ _ h => h.1) fun _ _ h => h.good

/-- A copy that comes through has listed its source. -/
theorem Ready.lists_copyTree {plan : Plan} {n : Node} (h : Ready t opts source destination plan w)
    (hn : t.lookup source.components = some n) (hlink : n.isLink = true) :
    Ensures (Tracing listener t fun _ _ => False)
      (copyTree opts.transaction plan.mode.copyFlags levels true plan.source plan.destination {}) w
      (fun tally w' => tally.canceled = false → ¬w'.good) (fun _ _ => True) := by
  obtain ⟨-, rfl, rfl, happart, htraced⟩ := h
  cases levels with
  | zero => exact ensures_throw.mpr trivial
  | succ levels =>
    rw [copyTree_root, Operation.ensures_bind]
    have hmade : Keeps (Tracing listener t fun _ _ => False)
        (Traced t (plan.source.components <+: ·))
        (createResolved opts.transaction plan.destination) :=
      traced_of_asks <| asks_createAbove.mono fun _ =>
        Request.Creates.enters fun dir habove hsource => happart.1 (hsource.trans habove.1)
    refine (hmade w htraced).mono (fun _ w₁ h₁ => ?_) fun _ _ _ => trivial
    have hreport : Keeps (Tracing listener t fun _ _ => False)
        (Traced t (plan.source.components <+: ·))
        (report {} .directoryCreated plan.source plan.destination 0) :=
      traced_of_asks (asks_report (fun _ _ => trivial) (fun _ => trivial) nofun)
    unfold copyContents
    rw [Operation.ensures_bind]
    refine (hreport w₁ h₁.1).mono (fun tally w₂ h₂ => ?_) fun _ _ _ => trivial
    split
    · next hcanceled =>
      exact ensures_pure.mpr fun hrunning => absurd hcanceled (by simp [hrunning])
    · rw [Operation.ensures_bind]
      refine (lists_childEntries h₂.1 (List.prefix_refl _) hn hlink).mono_ok fun _ w₃ hlisted => ?_
      exact (ensures_of_not_good _ hlisted).mono (fun _ _ h _ => h) fun _ _ _ => trivial

/-- In a move, what a volume is mounted on is excepted. -/
def MountedInMove (opts : TransferOptions) (_ : Place) (n : Node) : Prop :=
  opts.move.isSome = true ∧ n.mounted = true

/-- Up to the copy a move lists only links on which a volume was mounted, and the source is still as
it was. -/
theorem traced_untilCopy (h : Traced t (Around source.components destination.components) w) :
    Ensures (Tracing listener t (MountedInMove opts)) (untilCopy levels opts source destination) w
      (fun result w' => match result with
        | .inl _ => w'.good
        | .inr plan => Ready t opts source destination plan w')
      (fun _ w' => w'.good) := by
  unfold untilCopy
  rw [Operation.ensures_bind]
  refine (traced_makePlan w h).mono ?_ fun _ _ h => h.good
  rintro ⟨mode, _, _⟩ w₁ ⟨h₁, hmode, rfl, rfl, happart⟩
  cases mode with
  | copy c =>
    rw [Operation.ensures_bind]
    refine (traced_note w₁ h₁).mono (fun _ w₂ h₂ => ?_) fun _ _ h => h.good
    exact ensures_pure.mpr ⟨hmode, rfl, rfl, happart, h₂.1.mono fun _ => .inl⟩
  | move m =>
    have hexcepted (place : Place) (n : Node) (hmounted : n.mounted = true) :
        MountedInMove opts place n := ⟨TransferOptions.isSome_of_mode hmode, hmounted⟩
    rw [Operation.ensures_bind]
    refine (traced_note w₁ h₁).mono (fun _ w₂ h₂ => ?_) fun _ _ h => h.good
    rw [Operation.ensures_bind]
    refine (traced_moveUntilCopy hexcepted h₂.1).mono_ok fun result w₃ h₃ => ?_
    cases result with
    | some tally => exact ensures_pure.mpr h₃
    | none => exact ensures_pure.mpr ⟨hmode, rfl, rfl, happart, h₃.mono fun _ => .inl⟩

/-- After the copy a move lists only links on which a volume was mounted. -/
theorem traced_afterCopy {plan : Plan} {tally : Tally} (hmode : opts.mode = .ok plan.mode)
    (hplan : plan.source = source) :
    Keeps (Tracing listener t (MountedInMove opts)) (Traced t (source.components <+: ·))
      (afterCopy levels opts plan tally) := by
  unfold afterCopy
  split
  · exact keeps_pure trivial
  · next m hmove =>
    split
    · exact keeps_seq traced_note (keeps_pure trivial)
    · have hexcepted (place : Place) (n : Node) (hmounted : n.mounted = true) :
          MountedInMove opts place n :=
        ⟨TransferOptions.isSome_of_mode (hmode.trans (congrArg _ hmove)), hmounted⟩
      have hdelete : Keeps (Tracing listener t (MountedInMove opts))
          (Traced t (source.components <+: ·)) (deleteResolved levels opts.deletion plan.source) :=
        traced_deleteNode (fun _ _ h => h.trans (List.prefix_append _ _)) hexcepted levels _
          plan.source (hplan ▸ List.prefix_refl _)
      exact keeps_seq hdelete (keeps_seq traced_note (keeps_pure trivial))

end Transfers

end Memory

end TreeOps
