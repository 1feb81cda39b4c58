import TreeOps.Proofs.Memory.Keeps
import TreeOps.Proofs.Memory.Scripted
import TreeOps.Proofs.Memory.Watched
import TreeOps.Proofs.Program.Moments

/-!
# What is mounted is detached first

Whenever a delete removes something, no volume is mounted any more on a directory between its root
and there. It looks at each directory afresh and detaches what is mounted on it before anything else
is done to it, and nothing is ever mounted again; so the directories on the way down, once detached,
stay so over failures and further attempts. A volume that cannot be detached ends the delete at
once. Only a file system that denies a mount which is there could mislead it.
-/

namespace TreeOps

/-! ### Nodes without mounts -/

/-- A node that is still there: it is what it was, and no volume has been mounted on it. -/
structure Node.Persists (n n' : Node) : Prop where
  kind : n'.kind = n.kind
  mounted : n'.mounted = true → n.mounted = true

namespace Node.Persists

variable {n n' n'' : Node}

theorem refl (n : Node) : n.Persists n := ⟨rfl, id⟩

theorem trans (h : n.Persists n') (h' : n'.Persists n'') : n.Persists n'' :=
  ⟨h'.kind.trans h.kind, fun hmounted => h.mounted (h'.mounted hmounted)⟩

theorem isLink (h : n.Persists n') : n'.isLink = n.isLink := by
  rw [Node.isLink, Node.isLink, h.kind]

theorem isDirectoryLike (h : n.Persists n') : n'.isDirectoryLike = n.isDirectoryLike := by
  rw [Node.isDirectoryLike, Node.isDirectoryLike, h.kind]

end Node.Persists

namespace Tree

variable {t : Tree} {root place : Place} {tx tx' : Option Transaction} {c : Call} {n : Node}

/-- No volume is mounted on a directory at a place. -/
def DetachedAt (t : Tree) (place : Place) : Prop :=
  ∀ n, t.lookup place = some n → n.isDirectoryLike = true → n.mounted = false

/-- No volume is mounted on a directory at a place, nor on one above it down from a root. -/
def DetachedTo (t : Tree) (root place : Place) : Prop :=
  ∀ above, root <+: above → above <+: place → t.DetachedAt above

/-- What a call of a removal leaves was there before. -/
theorem persists_perform {n' : Node} (hc : Request.Removes tx' root (.call tx c))
    (hn' : (t.perform c).2.lookup place = some n') :
    ∃ n, t.lookup place = some n ∧ n.Persists n' := by
  have hsame (h : t.lookup place = some n') : ∃ n, t.lookup place = some n ∧ n.Persists n' :=
    ⟨n', h, .refl n'⟩
  have herase (path : Path) (h : (t.erase path).lookup place = some n') :
      ∃ n, t.lookup place = some n ∧ n.Persists n' := by
    rw [PathMap.lookup_erase] at h
    split at h
    · cases h
    · exact hsame h
  have hmodify (path : Path) (f : Node → Node) (hf : ∀ n : Node, n.Persists (f n))
      (h : (t.modify path f).lookup place = some n') :
      ∃ n, t.lookup place = some n ∧ n.Persists n' := by
    rw [PathMap.lookup_modify] at h
    split at h
    · obtain ⟨n, hn, rfl⟩ := Option.map_eq_some_iff.mp h
      exact ⟨n, hn, hf n⟩
    · exact hsame h
  revert hn'
  cases c with
  | list | query => exact hsame
  | removeDirectory path =>
    apply update_keeps (P := (PathMap.lookup · place = some n' → _)) hsame
    intro t' ht'
    obtain ⟨-, -, -, -, rfl⟩ := withoutDirectory_eq_ok.mp ht'
    exact herase path
  | deleteFile path =>
    apply update_keeps (P := (PathMap.lookup · place = some n' → _)) hsame
    intro t' ht'
    obtain ⟨-, -, -, -, rfl⟩ := withoutFile_eq_ok.mp ht'
    exact herase path
  | setAttributes path attributes =>
    apply update_keeps (P := (PathMap.lookup · place = some n' → _)) hsame
    intro t' ht'
    obtain ⟨-, rfl⟩ := withAttributes_eq_ok.mp ht'
    exact hmodify path _ fun _ => ⟨rfl, id⟩
  | unmount path =>
    apply update_keeps (P := (PathMap.lookup · place = some n' → _)) hsame
    intro t' ht'
    obtain ⟨-, rfl⟩ := withUnmounted_eq_ok.mp ht'
    exact hmodify path _ fun _ => ⟨rfl, nofun⟩
  | createDirectory | move | copy | sameVolume => exact hc.elim

namespace DetachedAt

theorem of_mounted (hn : t.lookup place = some n) (h : n.mounted = false) : t.DetachedAt place := by
  intro n' hn' _
  obtain rfl := Option.some.inj (hn.symm.trans hn')
  exact h

theorem of_not_directoryLike (hn : t.lookup place = some n) (h : n.isDirectoryLike = false) :
    t.DetachedAt place := by
  intro n' hn' hlike
  obtain rfl := Option.some.inj (hn.symm.trans hn')
  rw [h] at hlike
  cases hlike

/-- Nothing is mounted by a removal. -/
theorem perform (h : t.DetachedAt place) (hc : Request.Removes tx' root (.call tx c)) :
    (t.perform c).2.DetachedAt place := by
  intro n' hn' hlike
  obtain ⟨n, hn, hpersists⟩ := persists_perform hc hn'
  exact Bool.eq_false_iff.mpr fun hmounted =>
    Bool.eq_false_iff.mp (h n hn (hpersists.isDirectoryLike ▸ hlike)) (hpersists.mounted hmounted)

end DetachedAt

/-- What a call of a removal takes away is what it is told to. -/
theorem deletes_of_removed (hc : Request.Removes tx' root (.call tx c))
    (hn : t.lookup place = some n) (hgone : (t.perform c).2.lookup place = none) :
    (c.primitive = .deleteFile ∨ c.primitive = .removeDirectory) ∧ c.path.components = place := by
  have hsome : t.lookup place ≠ none := by simp [hn]
  have hmodify (path : Path) (f : Node → Node) : (t.modify path f).lookup place ≠ none := by
    rw [PathMap.lookup_modify]
    split <;> simp [hn]
  have hreached (hreaches : c.Reaches = (c.path.components = ·)) : c.path.components = place := by
    have hagree := agreeOutside_perform c t place
    rw [hgone, hn, hreaches] at hagree
    exact Decidable.byContradiction fun hne => nomatch hagree hne
  cases c with
  | list | query => exact absurd hgone hsome
  | removeDirectory path => exact ⟨.inr rfl, hreached rfl⟩
  | deleteFile path => exact ⟨.inl rfl, hreached rfl⟩
  | setAttributes path attributes =>
    refine absurd hgone (update_keeps (P := (PathMap.lookup · place ≠ none)) hsome ?_)
    intro t' ht'
    obtain ⟨-, rfl⟩ := withAttributes_eq_ok.mp ht'
    exact hmodify path _
  | unmount path =>
    refine absurd hgone (update_keeps (P := (PathMap.lookup · place ≠ none)) hsome ?_)
    intro t' ht'
    obtain ⟨-, rfl⟩ := withUnmounted_eq_ok.mp ht'
    exact hmodify path _
  | createDirectory | move | copy | sameVolume => exact hc.elim

end Tree

/-- The requests of a removal, without unmounts, that take something away only if some places have
among them its own and those above it, down from a root. -/
def Request.Spares (root : Place) (places : Place → Prop) : Request → Prop
  | .call _ (.deleteFile path) | .call _ (.removeDirectory path) =>
    ∀ above, root <+: above → above <+: path.components → places above
  | .call _ (.list _) | .call _ (.query _) | .call _ (.setAttributes ..) => True
  | .resolve _ | .pause _ | .note _ => True
  | _ => False

theorem Request.Edits.spares {tx : Option Transaction} {path : Path} {root : Place}
    {places : Place → Prop} {r : Request}
    (hway : ∀ above, root <+: above → above <+: path.components → places above)
    (hr : r.Edits tx path) : r.Spares root places := by
  cases r with
  | call tx' c =>
    cases c with
    | deleteFile => exact hr.2 ▸ hway
    | setAttributes => trivial
    | list | query | createDirectory | removeDirectory | move | copy | unmount | sameVolume =>
      exact hr.elim
  | note => trivial
  | resolve | consult | report | pause => exact hr.elim

theorem Request.Attempts.spares {tx : Option Transaction} {path : Path} {root : Place}
    {places : Place → Prop} {r : Request}
    (hway : ∀ above, root <+: above → above <+: path.components → places above)
    (hr : r.Attempts tx path) : r.Spares root places := by
  cases r with
  | call tx' c =>
    cases c with
    | removeDirectory => exact hr.2 ▸ hway
    | setAttributes => trivial
    | list | query | createDirectory | deleteFile | move | copy | unmount | sameVolume =>
      exact hr.elim
  | pause | note => trivial
  | resolve | consult | report => exact hr.elim

theorem Request.Spares.removes {tx : Option Transaction} {c : Call} {root : Place}
    {places : Place → Prop} (hr : Request.Spares root places (.call tx c)) :
    Request.Removes tx [] (.call tx c) := by
  cases c with
  | list | query | removeDirectory | deleteFile | setAttributes => exact ⟨rfl, List.nil_prefix⟩
  | createDirectory | move | copy | unmount | sameVolume => exact hr.elim

namespace Memory

open Removal Operation

/-! ### Observed answers -/

section Observed

variable {listener : Listener} {good : Moment Memory → Prop} {inv : Watch Memory → Prop}
  {w : Watch Memory} {tx : Option Transaction} {path : Path} {err : Halt → Watch Memory → Prop}

/-- A query that succeeds tells about the node that is there. -/
theorem observed_query (hquery : ∀ a w',
      (answers listener).observing good (.call tx (.query path)) w a w' → inv w') :
    Ensures ((answers listener).observing good) (attempt tx (.query path)) w
      (fun result w' => inv w' ∧ ∀ info, result = .ok info →
        ∃ n, w'.state.nodes.lookup path.components = some n ∧ info.Describes n) err := by
  rw [Operation.ensures_attempt]
  intro a w' hstep
  refine ⟨hquery a w' hstep, fun info hinfo => ?_⟩
  obtain ⟨hresult, hstate⟩ := Prod.mk.inj hstep.1
  change (w.state.call (.query path)).2 = w'.state at hstate
  obtain ⟨n, hn, rfl⟩ := Tree.entry_eq_ok.mp (perform_of_call_ok (hresult.trans hinfo))
  refine ⟨n, ?_, n.describes_entryAt path⟩
  rw [← hstate]
  rcases w.state.nodes_call (.query path) with hnodes | hnodes
  · rw [hnodes, hn]
  · rw [hnodes]
    exact hn

/-- A listing that succeeds gives the entries that are there. -/
theorem observed_listEntries (hlist : ∀ a w',
      (answers listener).observing good (.call tx (.list path)) w a w' → inv w')
    (hnote : ∀ n w a w', inv w → (answers listener).observing good (.note n) w a w' → inv w') :
    Ensures ((answers listener).observing good) (listEntries tx path) w
      (fun result w' => inv w' ∧ ∀ entries, result = .ok entries →
        entries = w'.state.nodes.entriesOf path) err := by
  unfold listEntries
  rw [Operation.ensures_bind, Operation.ensures_attempt]
  intro a w' hstep
  have hinv := hlist a w' hstep
  obtain ⟨hresult, hstate⟩ := Prod.mk.inj hstep.1
  change (w.state.call (.list path)).1 = a at hresult
  change (w.state.call (.list path)).2 = w'.state at hstate
  cases a with
  | ok children =>
    obtain ⟨-, -, -, rfl⟩ := Tree.listing_eq_ok.mp (perform_of_call_ok hresult)
    refine ensures_pure.mpr ⟨hinv, fun entries hentries => ?_⟩
    rw [← Except.ok.inj hentries, Tree.entriesIn_eq, ← hstate]
    rcases w.state.nodes_call (.list path) with hnodes | hnodes
    · rw [hnodes]
    · rw [hnodes]
      rfl
  | error e =>
    rw [Operation.ensures_bind, Operation.ensures_note]
    exact fun _ w'' hstep' => ensures_pure.mpr ⟨hnote _ w' _ w'' hinv hstep', nofun⟩

end Observed

/-! ### The moments of a delete -/

/-- No failure is scripted by which an unmount would report that nothing is mounted. -/
def AdmitsMounts (m : Memory) : Prop :=
  ∀ f ∈ m.failures, f.remaining ≠ some 0 → f.primitive = .unmount → f.code ≠ .mountPointNotFound

/-- At a moment of a delete at a root: if a node goes, no volume is mounted on the way to it, and if
an unmount fails, it is not for the reason that nothing is mounted. -/
structure Careful (root : Place) (x : Moment Memory) : Prop where
  detached : ∀ place n, x.before.nodes.lookup place = some n →
    x.after.nodes.lookup place = none → x.before.nodes.DetachedTo root place
  mounted : ∀ tx path e, x.event = ⟨.call tx (.unmount path), .error e⟩ →
    e.code ≠ .mountPointNotFound

/-- How a file system in memory and a listener answer, watched for careful moments. -/
abbrev Observed (listener : Listener) (root : Place) : Answering (Watch Memory) :=
  (answers listener).observing (Careful root)

/-- Every moment so far was careful, and no volume is mounted on a directory at some places. -/
structure Freed (root : Place) (places : Place → Prop) (w : Watch Memory) : Prop where
  good : w.good
  admits : w.state.AdmitsMounts
  detached : ∀ place, places place → w.state.nodes.DetachedAt place

section Calls

variable {m : Memory} {root root' : Place} {places places' : Place → Prop} {w w' : Watch Memory}
  {listener : Listener} {tx tx' : Option Transaction} {c : Call}

/-- A scripted failure of an unmount gives another reason than that nothing is mounted. -/
theorem AdmitsMounts.call (h : m.AdmitsMounts) (c : Call) : (m.call c).2.AdmitsMounts ∧
    ∀ code, (strike c.primitive c.path m.failures).1 = some code → c.primitive = .unmount →
      code ≠ .mountPointNotFound := by
  obtain ⟨hcode, hleft⟩ := strike_keeps
    (fun primitive code => primitive = .unmount → code ≠ .mountPointNotFound) c.primitive c.path h
  exact ⟨by rw [AdmitsMounts, (m.call_eq c).2.2]; exact hleft, hcode⟩

/-- An unmount of what is mounted does not report that nothing is. -/
theorem AdmitsMounts.unmount_error (h : m.AdmitsMounts) {path : Path} {n : Node} {e : NativeError}
    (hn : m.nodes.lookup path.components = some n) (hmounted : n.mounted = true)
    (he : (m.call (.unmount path)).1 = .error e) : e.code ≠ .mountPointNotFound := by
  rw [(m.call_eq _).1] at he
  cases hstrike : (strike .unmount path m.failures).1 with
  | some code =>
    simp only [Call.primitive, Call.path, hstrike] at he
    obtain rfl := Except.error.inj he
    exact (h.call (.unmount path)).2 code hstrike rfl
  | none =>
    simp only [Call.primitive, Call.path, hstrike] at he
    have hok := Tree.withUnmounted_eq_ok.mpr ⟨⟨n, hn, hmounted⟩, rfl⟩
    rw [Tree.perform, Tree.update_eq hok] at he
    cases he

/-- What is unmounted is no longer mounted. -/
theorem detachedAt_of_unmount {path : Path} {u : Unit}
    (h : (m.call (.unmount path)).1 = .ok u) :
    (m.call (.unmount path)).2.nodes.DetachedAt path.components := by
  have hok := Tree.update_ok (perform_of_call_ok h)
  rcases m.call_nodes (.unmount path) with ⟨-, -, hnodes⟩ | ⟨-, ⟨e, he⟩, -⟩
  · obtain ⟨-, hmodify⟩ := Tree.withUnmounted_eq_ok.mp hok
    rw [hnodes]
    intro n hn _
    rw [Tree.perform, ← hmodify, PathMap.lookup_modify, if_pos rfl] at hn
    obtain ⟨-, -, rfl⟩ := Option.map_eq_some_iff.mp hn
    rfl
  · cases he.symm.trans h

namespace Freed

theorem mono (h : Freed root places w) (himp : ∀ place, places' place → places place) :
    Freed root places' w :=
  ⟨h.good, h.admits, fun place hplace => h.detached place (himp place hplace)⟩

/-- A call of a removal at a careful moment leaves no less free. -/
theorem call (h : Freed root places w) (hc : Request.Removes tx' root' (.call tx c))
    (hcareful : Careful root ⟨w.state, ⟨.call tx c, (w.state.call c).1⟩, (w.state.call c).2⟩)
    {a : Except NativeError c.Result} (hstep : Observed listener root (.call tx c) w a w') :
    a = (w.state.call c).1 ∧ w'.state = (w.state.call c).2 ∧ Freed root places w' := by
  obtain ⟨hanswer, hgood⟩ := hstep
  obtain ⟨rfl, hstate⟩ := Prod.mk.inj hanswer
  change (w.state.call c).2 = w'.state at hstate
  rw [← hstate] at hgood
  refine ⟨rfl, hstate.symm, hgood.mpr ⟨h.good, hcareful⟩, hstate ▸ (h.admits.call c).1, ?_⟩
  intro place hplace
  rw [← hstate]
  rcases w.state.nodes_call c with hnodes | hnodes
  · rw [hnodes]
    exact h.detached place hplace
  · rw [hnodes]
    exact (h.detached place hplace).perform hc

theorem stay {r : Request} {a : r.Answer} (h : Freed root places w) (hr : ∀ tx c, r ≠ .call tx c)
    (hstate : w'.state = w.state) (hstep : Observed listener root r w a w') :
    Freed root places w' where
  good := by
    rw [hstep.2, hstate]
    refine ⟨h.good, fun place n hn hgone => ?_, fun tx path e hevent => ?_⟩
    · cases hn.symm.trans hgone
    · exact absurd (congrArg Event.request hevent) (hr tx _)
  admits := hstate ▸ h.admits
  detached := hstate ▸ h.detached

/-- A request that spares what is below a mount is made at a careful moment. -/
theorem step {r : Request} {a : r.Answer} (h : Freed root places w) (hr : r.Spares root places)
    (hstep : Observed listener root r w a w') : Freed root places w' := by
  cases r with
  | call tx c =>
    refine (h.call hr.removes ⟨fun place n hn hgone => ?_, fun tx' path e hevent => ?_⟩ hstep).2.2
    · rcases w.state.nodes_call c with hnodes | hnodes
      · rw [hnodes, hn] at hgone
        cases hgone
      · rw [hnodes] at hgone
        obtain ⟨hprimitive, rfl⟩ := Tree.deletes_of_removed hr.removes hn hgone
        intro above hroot habove
        refine h.detached above ?_
        cases c with
        | removeDirectory | deleteFile => exact hr above hroot habove
        | _ => simp [Call.primitive] at hprimitive
    · obtain ⟨-, rfl⟩ := Request.call.inj (congrArg Event.request hevent)
      exact hr.elim
  | resolve | pause | note => exact h.stay (by simp) (Prod.mk.inj hstep.1).2.symm hstep
  | consult | report => exact hr.elim

/-- What is found detached is one of the places. -/
theorem insert (h : Freed root places w) {place : Place}
    (hdetached : w.state.nodes.DetachedAt place) :
    Freed root (fun p => p = place ∨ places p) w where
  good := h.good
  admits := h.admits
  detached := by
    rintro p (rfl | hp)
    · exact hdetached
    · exact h.detached p hp

end Freed

end Calls

/-! ### The parts of a delete -/

section Parts

variable {root : Place} {places : Place → Prop} {w : Watch Memory} {listener : Listener}
  {tx : Option Transaction} {path : Path} {opts : DeleteOptions} {α : Type}

theorem freed_of_asks {p : Operation α} {value : α → Prop}
    (h : Asks (Request.Spares root places) p value) :
    Keeps (Observed listener root) (Freed root places) p value :=
  h.keeps _ fun _ _ _ _ hr hw hstep => hw.step hr hstep

theorem freed_of_edits {p : Operation α} {value : α → Prop}
    (hway : ∀ above, root <+: above → above <+: path.components → places above)
    (h : Asks (Request.Edits tx path) p value) :
    Keeps (Observed listener root) (Freed root places) p value :=
  freed_of_asks (h.mono fun _ => Request.Edits.spares hway)

theorem freed_query (h : Freed root places w) :
    Ensures (Observed listener root) (attempt tx (.query path)) w
      (fun result w' => Freed root places w' ∧ ∀ info, result = .ok info →
        ∃ n, w'.state.nodes.lookup path.components = some n ∧ info.Describes n)
      fun _ w' => Freed root places w' :=
  observed_query fun _ _ hstep => h.step (r := .call tx (.query path)) trivial hstep

/-- The files of a listing are among the places that no volume is mounted on. -/
theorem freed_listEntries (h : Freed root places w) :
    Ensures (Observed listener root) (listEntries tx path) w
      (fun result w' => Freed root places w' ∧ ∀ entries, result = .ok entries →
        (∀ e ∈ entries, ∃ b, e.path.components = path.components ++ [.name b]) ∧
        Freed root (fun p => places p ∨
          ∃ e ∈ entries, e.isDirectory = false ∧ e.path.components = p) w')
      fun _ w' => Freed root places w' := by
  refine (observed_listEntries (fun _ _ hstep => h.step (r := .call tx (.list path)) trivial hstep)
    fun _ _ _ _ hw hstep => hw.step (r := .note _) trivial hstep).mono_ok ?_
  intro result w' hlisted
  obtain ⟨hfreed, hentries⟩ := hlisted
  refine ⟨hfreed, fun entries hok => ?_⟩
  rw [hentries entries hok]
  refine ⟨fun e he => ?_, hfreed.good, hfreed.admits, ?_⟩
  · obtain ⟨b, -, -, hpath, -⟩ := Tree.exists_of_mem_entriesOf he
    exact ⟨b, hpath⟩
  · rintro place (hplace | ⟨e, he, hfile, rfl⟩)
    · exact hfreed.detached place hplace
    · obtain ⟨-, n, -, -, -, hn, hdescribes⟩ := Tree.exists_of_mem_entriesOf he
      exact .of_not_directoryLike hn (hdescribes.isDirectory ▸ hfile)

/-- After an unmount of what was mounted no volume is. -/
theorem freed_unmount {n : Node} (h : Freed root places w)
    (hn : w.state.nodes.lookup path.components = some n) (hmounted : n.mounted = true) :
    Ensures (Observed listener root) (unmount tx path) w
      (fun _ w' => Freed root (fun p => p = path.components ∨ places p) w')
      fun _ w' => Freed root places w' := by
  have hremoves : Request.Removes tx [] (.call tx (.unmount path)) := ⟨rfl, List.nil_prefix⟩
  have hcareful : Careful root
      ⟨w.state, ⟨.call tx (.unmount path), (w.state.call (.unmount path)).1⟩,
        (w.state.call (.unmount path)).2⟩ := by
    refine ⟨fun place d hd hgone => ?_, fun tx' path' e hevent => ?_⟩
    · rcases w.state.nodes_call (.unmount path) with hnodes | hnodes
      · rw [hnodes, hd] at hgone
        cases hgone
      · rw [hnodes] at hgone
        simpa [Call.primitive] using (Tree.deletes_of_removed hremoves hd hgone).1
    · injection hevent with hrequest hanswer
      obtain ⟨rfl, hcall⟩ := Request.call.inj hrequest
      obtain rfl := Call.unmount.inj hcall
      exact h.admits.unmount_error hn hmounted hanswer
  unfold unmount
  rw [Operation.ensures_bind, Operation.ensures_attempt]
  intro a w' hstep
  obtain ⟨rfl, hstate, hfreed⟩ := h.call hremoves hcareful hstep
  cases hresult : (w.state.call (.unmount path)).1 with
  | ok u =>
    have hdetached : w'.state.nodes.DetachedAt path.components :=
      hstate ▸ detachedAt_of_unmount hresult
    exact (freed_of_asks (asks_note trivial) w' (hfreed.insert hdetached)).mono
      (fun _ _ => And.left) fun _ _ hw'' => hw''.mono fun _ => .inr
  | error e =>
    dsimp only
    rw [if_neg (h.admits.unmount_error hn hmounted hresult)]
    exact ensures_fail.mpr hfreed

theorem freed_emptyDirectory {deleteChild : Path → Operation Unit}
    (hdelete : ∀ (places : Place → Prop) (child : Path),
      (∀ above, root <+: above → above <+: child.components →
        above = child.components ∨ places above) →
      Keeps (Observed listener root) (Freed root places) (deleteChild child))
    (hway : ∀ above, root <+: above → above <+: path.components → places above) :
    Keeps (Observed listener root) (Freed root places) (emptyDirectory opts deleteChild path) := by
  intro w hw
  unfold emptyDirectory
  rw [Operation.ensures_bind]
  refine (freed_listEntries hw).mono_ok fun result w' hlisted => ?_
  obtain ⟨hfreed, hentries⟩ := hlisted
  cases result with
  | ok entries =>
    obtain ⟨hbelow, hfreed⟩ := hentries entries rfl
    refine Ensures.mono (keeps_forM (fun e he => ?_) w' hfreed)
      (fun _ _ h => ⟨h.1.mono fun _ => .inl, trivial⟩) fun _ _ h => h.mono fun _ => .inl
    obtain ⟨b, hb⟩ := hbelow e he
    -- Above an entry there is the directory, from which everything is detached up to the root.
    have habove (above : Place) (hroot : root <+: above) (hpre : above <+: e.path.components) :
        above = e.path.components ∨ places above := by
      rw [hb, List.prefix_concat_iff, ← hb] at hpre
      exact hpre.imp_right (hway above hroot)
    split
    · refine hdelete _ e.path fun above hroot hpre => ?_
      exact (habove above hroot hpre).imp_right .inl
    · next hfile =>
      refine freed_of_edits (fun above hroot hpre => ?_) edits_removeFile
      rcases habove above hroot hpre with rfl | hplace
      · exact .inr ⟨e, he, by simpa using hfile, rfl⟩
      · exact .inl hplace
  | error code =>
    dsimp only
    split
    · exact ensures_pure.mpr ⟨hfreed, trivial⟩
    · exact ensures_fail.mpr hfreed

/-- Further attempts mount nothing. -/
theorem freed_removal {emptyIt : Operation Unit} {info : Entry}
    (hempty : Keeps (Observed listener root) (Freed root places) emptyIt)
    (hway : ∀ above, root <+: above → above <+: path.components → places above)
    (context : Context) (retries attempt : Nat) :
    Keeps (Observed listener root) (Freed root places) (releaseReadOnly opts path info >>= fun _ =>
      removeRepeatedly opts context path info.attributes emptyIt retries attempt) :=
  keeps_removal hempty (fun _ _ _ _ hr hw hstep => hw.step (hr.spares hway) hstep) _ _ _

/-- A directory is deleted with care if nothing is mounted on those above it. -/
theorem freed_deleteNode (levels : Nat) (continueIfMissing : Bool) (places : Place → Prop)
    (path : Path) (habove : ∀ above, root <+: above → above <+: path.components →
      above = path.components ∨ places above) :
    Keeps (Observed listener root) (Freed root places)
      (deleteNode opts levels continueIfMissing path) := by
  induction levels generalizing continueIfMissing places path with
  | zero => exact keeps_throw
  | succ levels ih =>
    intro w hw
    unfold deleteNode
    rw [Operation.ensures_bind]
    refine (freed_query hw).mono_ok fun result w' hqueried => ?_
    obtain ⟨hfreed, hinfo⟩ := hqueried
    cases result with
    | error e =>
      dsimp only
      split
      · exact freed_of_asks (asks_note trivial) w' hfreed
      · exact ensures_fail.mpr hfreed
    | ok info =>
      obtain ⟨n, hn, hdescribes⟩ := hinfo info rfl
      dsimp only
      split
      · exact ensures_fail.mpr hfreed
      · -- From here on nothing is mounted on the directory itself.
        have hempty : Keeps (Observed listener root)
            (Freed root fun p => p = path.components ∨ places p)
            (if (opts.recursive && (!info.isReparsePoint || info.isMountPoint)) = true then
              emptyDirectory opts (deleteNode opts levels true) path else pure ()) := by
          split
          · exact freed_emptyDirectory (fun places child => ih true places child) habove
          · exact keeps_pure trivial
        have hback (w'' : Watch Memory)
            (h : Freed root (fun p => p = path.components ∨ places p) w'') :
            Freed root places w'' := h.mono fun _ => .inr
        split
        · next hmount =>
          rw [Operation.ensures_bind]
          have hmounted : n.mounted = true := hdescribes.isMountPoint ▸ hmount
          refine (freed_unmount hfreed hn hmounted).mono_ok fun _ w'' hdetached => ?_
          exact (freed_removal hempty habove _ _ _ w'' hdetached).mono
            (fun _ w'' h => ⟨hback w'' h.1, trivial⟩) fun _ => hback
        · next hmount =>
          have hmounted : n.mounted = false := by
            rw [← hdescribes.isMountPoint]
            simpa using hmount
          have hdetached := hfreed.insert (.of_mounted hn hmounted)
          exact (freed_removal hempty habove _ _ _ w' hdetached).mono
            (fun _ w'' h => ⟨hback w'' h.1, trivial⟩) fun _ => hback

theorem freed_deleteDirectory (levels : Nat) (root : Path) :
    Keeps (Observed listener root.components) (Freed root.components fun _ => False)
      (deleteDirectory levels opts root) := by
  have hresolve : Keeps (Observed listener root.components) (Freed root.components fun _ => False)
      (resolve root) (· = root) := by
    apply keeps_request
    intro w a w' hw hstep
    exact ⟨hw.step (r := .resolve root) trivial hstep, (Prod.mk.inj hstep.1).1.symm⟩
  apply keeps_bind hresolve
  rintro _ rfl
  apply keeps_seq (freed_of_asks (asks_note trivial))
  apply freed_deleteNode
  intro above hroot hpre
  exact .inl (hpre.eq_of_length_le hroot.length_le)

end Parts

/-! ### Volumes that cannot be detached -/

/-- What an unmount that fails halts a delete with, unless nothing was mounted. -/
def unmountHalt : Event → Option Halt
  | ⟨.call _ (.unmount path), .error e⟩ =>
    if e.code = .mountPointNotFound then none else some (.failed (.native path "unmount" e))
  | _ => none

section Stops

variable {α : Type} {tx : Option Transaction} {path : Path} {opts : DeleteOptions}

theorem unmountHalt_of_ne {r : Request} (h : ∀ tx path, r ≠ .call tx (.unmount path))
    (answer : r.Answer) : unmountHalt ⟨r, answer⟩ = none := by
  unfold unmountHalt
  split
  · next hevent => exact absurd (congrArg Event.request hevent) (h _ _)
  · rfl

theorem stops_attempt_bind {c : Call} {f : Except NativeError c.Result → Operation α}
    (hc : c.primitive ≠ .unmount) (hf : ∀ answer, StopsAt unmountHalt (f answer)) :
    StopsAt unmountHalt (attempt tx c >>= f) := by
  refine stopsAt_attempt_bind fun answer => ⟨fun halt hhalt => ?_, hf answer⟩
  rw [unmountHalt_of_ne] at hhalt
  · cases hhalt
  · rintro tx' path ⟨⟩
    exact hc rfl

theorem stops_request {r : Request} (h : ∀ tx path, r ≠ .call tx (.unmount path)) :
    StopsAt unmountHalt (ExceptT.lift (Program.request r)) := by
  have hasked : Asks (· = r) (ExceptT.lift (Program.request r)) := asks_request rfl
  refine hasked.stopsAt fun r' hr => ?_
  obtain rfl := hr
  exact unmountHalt_of_ne h

theorem stops_note {n : Note} : StopsAt unmountHalt (note n) := stops_request (by simp)

theorem stops_edits {p : Operation α} {value : α → Prop}
    (h : Asks (Request.Edits tx path) p value) : StopsAt unmountHalt p := by
  refine h.stopsAt fun r hr => unmountHalt_of_ne ?_
  rintro tx' path' rfl
  exact hr

theorem stops_unmount : StopsAt unmountHalt (unmount tx path) := by
  refine stopsAt_attempt_bind fun answer => ?_
  cases answer with
  | ok u => exact ⟨nofun, stops_note⟩
  | error e =>
    by_cases hcode : e.code = .mountPointNotFound
    · simp only [unmountHalt, hcode, if_true]
      exact ⟨nofun, stops_note⟩
    · simp only [unmountHalt, hcode, if_false]
      exact ⟨fun halt hhalt => Option.some.inj hhalt ▸ rfl, stopsAt_fail⟩

theorem stops_emptyDirectory {deleteChild : Path → Operation Unit}
    (hdelete : ∀ child, StopsAt unmountHalt (deleteChild child)) :
    StopsAt unmountHalt (emptyDirectory opts deleteChild path) := by
  have hlist : StopsAt unmountHalt (listEntries opts.transaction path) := by
    refine stops_attempt_bind (by simp [Call.primitive]) fun answer => ?_
    cases answer with
    | ok children => exact stopsAt_pure
    | error e => exact stopsAt_seq stops_note stopsAt_pure
  refine stopsAt_bind hlist fun result => ?_
  cases result with
  | ok entries =>
    refine stopsAt_forM fun e _ => ?_
    split
    · exact hdelete e.path
    · exact stops_edits edits_removeFile
  | error code =>
    dsimp only
    split
    · exact stopsAt_pure
    · exact stopsAt_fail

theorem stops_removeRepeatedly {emptyIt : Operation Unit} {attributes : Attributes}
    (hempty : StopsAt unmountHalt emptyIt) (context : Context) (retries attempt : Nat) :
    StopsAt unmountHalt
      (removeRepeatedly opts context path attributes emptyIt retries attempt) := by
  induction retries generalizing context attempt with
  | zero =>
    unfold removeRepeatedly
    refine stopsAt_seq hempty (stops_attempt_bind (by simp [Call.primitive]) fun result => ?_)
    cases result with
    | ok _ => exact stops_note
    | error e =>
      dsimp only
      split
      · exact stopsAt_pure
      · exact stopsAt_fail
      · exact stopsAt_fail
  | succ retries ih =>
    unfold removeRepeatedly
    refine stopsAt_seq hempty (stops_attempt_bind (by simp [Call.primitive]) fun result => ?_)
    cases result with
    | ok _ => exact stops_note
    | error e =>
      dsimp only
      split
      · exact stopsAt_pure
      · exact stopsAt_fail
      · refine stopsAt_seq stops_note ?_
        split
        · split
          · exact stopsAt_seq (stops_request (by simp)) (ih context (attempt + 1))
          · exact ih context (attempt + 1)
        · exact stopsAt_seq (stops_edits edits_clearReadOnly) (ih _ (attempt + 1))

/-- A delete ends with the first unmount that fails. -/
theorem stops_deleteNode (levels : Nat) (continueIfMissing : Bool) (path : Path) :
    StopsAt unmountHalt (deleteNode opts levels continueIfMissing path) := by
  induction levels generalizing continueIfMissing path with
  | zero => exact stopsAt_throw
  | succ levels ih =>
    unfold deleteNode
    refine stops_attempt_bind (by simp [Call.primitive]) fun result => ?_
    cases result with
    | error e =>
      dsimp only
      split
      · exact stops_note
      · exact stopsAt_fail
    | ok info =>
      have hempty (descends : Bool) : StopsAt unmountHalt
          (if descends = true then emptyDirectory opts (deleteNode opts levels true) path
            else pure ()) := by
        split
        · exact stops_emptyDirectory (ih true)
        · exact stopsAt_pure
      have hrelease : StopsAt unmountHalt (releaseReadOnly opts path info) :=
        stops_edits edits_releaseReadOnly
      dsimp only
      split
      · exact stopsAt_fail
      · split
        · exact stopsAt_seq stops_unmount
            (stopsAt_seq hrelease (stops_removeRepeatedly (hempty _) _ _ 1))
        · exact stopsAt_seq hrelease (stops_removeRepeatedly (hempty _) _ _ 1)

theorem stops_deleteDirectory (levels : Nat) (root : Path) :
    StopsAt unmountHalt (deleteDirectory levels opts root) := by
  have hresolve : StopsAt unmountHalt (resolve root) := fun _ => ⟨nofun, trivial⟩
  exact stopsAt_bind hresolve fun root =>
    stopsAt_seq stops_note (stops_deleteNode levels opts.continueIfMissing root)

end Stops

/-! ### Whole deletes -/

/-- Where no failure of an unmount is scripted to report that nothing is mounted, no volume is
mounted on a directory between the root and what a delete takes away, whenever it takes something
away. An unmount that fails is the last thing that the delete asks for, and what it fails with. -/
theorem delete_detaches_first (m : Memory) (listener : Listener) (levels : Nat)
    (opts : DeleteOptions) (root : Path)
    (hmounts : ∀ f ∈ m.failures, f.primitive = .unmount → f.code ≠ .mountPointNotFound) :
    (∀ x ∈ m.moments listener (deleteDirectory levels opts root), ∀ place n,
      x.before.nodes.lookup place = some n → x.after.nodes.lookup place = none →
      x.before.nodes.DetachedTo root.components place) ∧
    ∀ before x after tx path e,
      m.moments listener (deleteDirectory levels opts root) = before ++ x :: after →
      x.event = ⟨.call tx (.unmount path), .error e⟩ →
      (m.runs listener (deleteDirectory levels opts root)).result =
        .error (.failed (.native path "unmount" e)) ∧ after = [] := by
  have hfreed : Freed root.components (fun _ => False) ⟨m, True⟩ :=
    ⟨trivial, fun f hf _ => hmounts f hf, fun _ => False.elim⟩
  have hcareful : ∀ x ∈ m.moments listener (deleteDirectory levels opts root),
      Careful root.components x :=
    (freed_deleteDirectory levels root _ hfreed).moments (fun _ _ h => h.1.good) fun _ _ h => h.good
  refine ⟨fun x hx => (hcareful x hx).detached, fun before x after tx path e hmoments hevent => ?_⟩
  have hcode : e.code ≠ .mountPointNotFound := by
    refine (hcareful x ?_).mounted tx path e hevent
    exact hmoments ▸ List.mem_append_right _ List.mem_cons_self
  have hhalt : unmountHalt x.event = some (.failed (.native path "unmount" e)) := by
    rw [hevent]
    exact if_neg hcode
  obtain ⟨hlast, hresult⟩ := (stops_deleteDirectory levels root).moments hmoments hhalt
  rw [runs_eq]
  exact ⟨hresult, hlast⟩

/-- A delete of nested directories with a mount on each, of which the inner one cannot be detached.
-/
theorem delete_detaches_first_denied :
    let m := ((((new.addFile "/r/a/b" 3).addFile "/r/a/c" 4).mount "/r").mount "/r/a").addFailure
      ⟨.unmount, "/r/a", .accessDenied, none⟩
    let p := deleteDirectory m.levels { recursive := true } "/r"
    (∀ x ∈ m.moments {} p, ∀ place n, x.before.nodes.lookup place = some n →
      x.after.nodes.lookup place = none → x.before.nodes.DetachedTo (Path.components "/r") place) ∧
    ∀ before x after tx path e, m.moments {} p = before ++ x :: after →
      x.event = ⟨.call tx (.unmount path), .error e⟩ →
      (m.runs {} p).result = .error (.failed (.native path "unmount" e)) ∧ after = [] :=
  delete_detaches_first _ {} _ { recursive := true } "/r" (by decide)

end Memory

end TreeOps
