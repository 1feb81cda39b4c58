import TreeOps.Proofs.Memory.Keeps
import TreeOps.Proofs.Removal.Frame

/-!
# A delete only shrinks its tree

Whatever fails and however it ends, a delete adds no node and changes none outside its root. What is
left there is what it was, but for a read-only attribute or a mount that is gone. A delete that may
not clear read-only attributes sets none, and removes neither a read-only node nor a directory above
one. It never lists a link unless a volume was mounted on it.
-/

namespace TreeOps

namespace Attributes

variable {a b : Attributes}

theorem without_eq_self (h : a.bits &&& b.bits = 0) : a.without b = a := by
  have hbits : a.bits &&& ~~~b.bits = a.bits := calc
    a.bits &&& ~~~b.bits = (a.bits &&& b.bits) ||| (a.bits &&& ~~~b.bits) := by
      rw [h, UInt32.zero_or]
    _ = a.bits &&& (b.bits ||| ~~~b.bits) :=
      (UInt32.toBitVec_inj.mp BitVec.and_or_distrib_left).symm
    _ = a.bits := by rw [UInt32.or_not_self, UInt32.and_neg_one]
  exact congrArg Attributes.mk hbits

theorem without_without : (a.without b).without b = a.without b := by
  simp only [without, UInt32.and_assoc, UInt32.and_self]

theorem union_without (a b c : Attributes) :
    (a.union b).without c = (a.without c).union (b.without c) :=
  congrArg Attributes.mk (union_and a b _)

theorem neutral_of_isNeutral (h : a.isNeutral = true) : a.neutral = a := by
  have hdirectory := a.and_eq_zero_of_isNeutral directory.bits h rfl
  have hreparse := a.and_eq_zero_of_isNeutral reparsePoint.bits h rfl
  rw [neutral, without_eq_self hdirectory, without_eq_self hreparse]

theorem isNeutral_without (h : a.isNeutral = true) : (a.without b).isNeutral = true := by
  simp only [isNeutral, without, beq_iff_eq] at h ⊢
  rw [UInt32.and_assoc, UInt32.and_comm (~~~b.bits), ← UInt32.and_assoc, h, UInt32.zero_and]

/-- Flags that tell what a node is make no difference to the neutral flags. -/
theorem neutral_without_union (h : (b.without .readOnly).neutral = .empty) :
    ((a.union b).without .readOnly).neutral = (a.without .readOnly).neutral := by
  have hunion : ((a.union b).without .readOnly).neutral =
      (a.without .readOnly).neutral.union (b.without .readOnly).neutral := by
    simp only [neutral, union_without]
  rw [hunion, h]
  exact congrArg Attributes.mk UInt32.or_zero

end Attributes

namespace Node

/-- What may have become of a node that is still there. -/
structure Remains (clears : Bool) (n n' : Node) : Prop where
  kind : n'.kind = n.kind
  size : n'.size = n.size
  volume : n'.volume = n.volume
  attributes : n'.attributes = n.attributes ∨
    clears = true ∧ n'.attributes = n.attributes.without .readOnly
  mounted : n'.mounted = true → n.mounted = true

/-- The attributes that are written to clear the read-only attribute of a node. -/
theorem neutral_shownAttributes_without (n : Node) :
    (n.shownAttributes.without .readOnly).neutral = n.attributes.without .readOnly := by
  have hneutral := Attributes.neutral_of_isNeutral
    (Attributes.isNeutral_without (b := .readOnly) n.neutral)
  unfold shownAttributes
  split
  · rw [Attributes.neutral_without_union rfl, hneutral]
  · exact hneutral
  · rw [Attributes.neutral_without_union rfl, Attributes.neutral_without_union rfl, hneutral]
  · rw [Attributes.neutral_without_union rfl, hneutral]

namespace Remains

variable {clears : Bool} {n n' : Node}

theorem refl (n : Node) : n.Remains clears n := ⟨rfl, rfl, rfl, .inl rfl, id⟩

theorem withAttributes {attributes : Attributes} (h : n.Remains clears n') (hclears : clears = true)
    (heq : attributes.neutral = n.attributes.without .readOnly) :
    n.Remains clears (n'.withAttributes attributes) :=
  ⟨h.kind, h.size, h.volume, .inr ⟨hclears, heq⟩, h.mounted⟩

theorem unmounted (h : n.Remains clears n') : n.Remains clears { n' with mounted := false } :=
  ⟨h.kind, h.size, h.volume, h.attributes, nofun⟩

theorem attributes_eq (h : n.Remains clears n') (hclears : clears = false) :
    n'.attributes = n.attributes :=
  h.attributes.resolve_right fun hmay => by simp [hclears] at hmay

theorem attributes_without (h : n.Remains clears n') :
    n'.attributes.without .readOnly = n.attributes.without .readOnly := by
  rcases h.attributes with heq | ⟨-, heq⟩
  · rw [heq]
  · rw [heq, Attributes.without_without]

end Remains

end Node

/-- What an entry tells about a node as it was before. -/
structure Entry.Recalls (e : Entry) (clears : Bool) (n : Node) : Prop where
  isReparsePoint : e.isReparsePoint = n.isLink
  isMountPoint : e.isMountPoint = true → n.mounted = true
  cleared : (e.attributes.without .readOnly).neutral = n.attributes.without .readOnly
  isReadOnly : clears = false → e.isReadOnly = n.attributes.isReadOnly

theorem Entry.Describes.recalls {e : Entry} {clears : Bool} {n n' : Node} (h : e.Describes n')
    (hn : n.Remains clears n') : e.Recalls clears n where
  isReparsePoint := by
    rw [h.isReparsePoint, Node.isLink, Node.isLink, hn.kind]
  isMountPoint hmount := hn.mounted (h.isMountPoint ▸ hmount)
  cleared := by
    rw [h.attributes, n'.neutral_shownAttributes_without, hn.attributes_without]
  isReadOnly hclears := by
    rw [isReadOnly, h.attributes, n'.isReadOnly_shownAttributes, hn.attributes_eq hclears]

/-- The calls of a delete below a root of a tree: it only looks, and never into a link that nothing
was mounted on; or it removes a single entry, or clears its read-only attribute or its mount. -/
def Call.Removes (t : Tree) (root : Place) (clears : Bool) : Call → Prop
  | .query _ => True
  | .list dir => ∃ n, t.lookup dir.components = some n ∧ (n.isLink = true → n.mounted = true)
  | .removeDirectory path => root <+: path.components ∧ ∃ n, t.lookup path.components = some n ∧
      (clears = false → n.attributes.isReadOnly = false)
  | .deleteFile path | .unmount path => root <+: path.components
  | .setAttributes path attributes => clears = true ∧ root <+: path.components ∧
      ∃ n, t.lookup path.components = some n ∧
        attributes.neutral = n.attributes.without .readOnly
  | _ => False

/-- What a delete at a root may leave of a tree. -/
structure Tree.Shrinks (t t' : Tree) (root : Place) (clears : Bool) : Prop where
  outside : Tree.AgreeOutside (root <+: ·) t t'
  remains : ∀ place n', t'.lookup place = some n' →
    ∃ n, t.lookup place = some n ∧ n.Remains clears n'
  kept : clears = false → ∀ place n above, t.lookup place = some n →
    n.attributes.isReadOnly = true → above <+: place → (t.lookup above).isSome = true →
    (t'.lookup above).isSome = true

namespace Tree.Shrinks

variable {t t' : Tree} {root : Place} {clears : Bool} {path : Path}

theorem refl (t : Tree) : t.Shrinks t root clears where
  outside := .refl t
  remains _ n hn := ⟨n, hn, .refl n⟩
  kept _ _ _ _ _ _ _ := id

/-- A node changes within bounds. -/
theorem modify {f : Node → Node} (h : t.Shrinks t' root clears) (hbelow : root <+: path.components)
    (hf : ∀ n n', t.lookup path.components = some n → n.Remains clears n' →
      n.Remains clears (f n')) : t.Shrinks (t'.modify path f) root clears where
  outside := h.outside.trans ((agreeOutside_modify t' path f).mono fun _ heq => heq ▸ hbelow)
  remains := by
    intro place n' hn'
    rw [PathMap.lookup_modify] at hn'
    split at hn'
    · next heq =>
      obtain ⟨n'', hn'', rfl⟩ := Option.map_eq_some_iff.mp hn'
      obtain ⟨n, hn, hremains⟩ := h.remains place n'' hn''
      exact ⟨n, hn, hf n n'' (heq ▸ hn) hremains⟩
    · exact h.remains place n' hn'
  kept := by
    intro hclears place n above hn hr habove hsome
    have hkept := h.kept hclears place n above hn hr habove hsome
    rw [PathMap.lookup_modify]
    split
    · rw [Option.isSome_map]
      exact hkept
    · exact hkept

/-- A node is removed that is neither read-only nor above a read-only node. -/
theorem erase (h : t.Shrinks t' root clears) (hbelow : root <+: path.components)
    (hfree : clears = false → ∀ place n, t.lookup place = some n →
      n.attributes.isReadOnly = true → ¬path.components <+: place) :
    t.Shrinks (t'.erase path) root clears where
  outside := h.outside.trans ((agreeOutside_erase t' path).mono fun _ heq => heq ▸ hbelow)
  remains := by
    intro place n' hn'
    rw [PathMap.lookup_erase] at hn'
    split at hn'
    · cases hn'
    · exact h.remains place n' hn'
  kept := by
    intro hclears place n above hn hr habove hsome
    rw [PathMap.lookup_erase, if_neg]
    · exact h.kept hclears place n above hn hr habove hsome
    · rintro rfl
      exact hfree hclears place n hn hr habove

/-- What can be removed as it is writable, and holds nothing if it is a directory, is not above a
read-only node: the entry of it on the way there would still be there. -/
theorem not_above_readOnly (h : t.Shrinks t' root false) (hwf : t.WellFormed) {n' : Node}
    (hn' : t'.lookup path.components = some n') (hwritable : n'.attributes.isReadOnly = false)
    (hempty : n'.kind = .directory → t'.hasChildren path = false) {place : Place} {n : Node}
    (hn : t.lookup place = some n) (hr : n.attributes.isReadOnly = true) :
    ¬path.components <+: place := by
  obtain ⟨n₀, hn₀, hremains⟩ := h.remains _ _ hn'
  have hne := hwf.ne_nil hn₀
  rintro ⟨way, rfl⟩
  cases way with
  | nil =>
    rw [List.append_nil, hn₀] at hn
    obtain rfl := Option.some.inj hn
    rw [← hremains.attributes_eq rfl, hwritable] at hr
    cases hr
  | cons c way =>
    have hregular := hwf.regular (Nat.le_refl _) hne
    obtain ⟨b, rfl⟩ := hregular.names _ _ hn c (by simp)
    obtain ⟨d, hd, hdirectory⟩ := hregular.directory_above [] hn (by simp)
    rw [PathMap.branch_nil, hn₀] at hd
    obtain rfl := Option.some.inj hd
    rw [List.append_cons] at hn
    obtain ⟨d, hd⟩ := hwf.exists_above hn (by simp)
    have hsome := h.kept rfl _ n _ hn hr (List.prefix_append _ way) (by rw [hd]; rfl)
    have hnone := Tree.hasChildren_eq_false.mp (hempty (hremains.kind.trans hdirectory))
      (.name b) (by simp)
    rw [hnone] at hsome
    cases hsome

/-- A tree shrinks with every call of a delete. -/
theorem perform {c : Call} (h : t.Shrinks t' root clears) (hwf : t.WellFormed)
    (hc : c.Removes t root clears) : t.Shrinks (t'.perform c).2 root clears := by
  cases c with
  | list dir => exact h
  | query path => exact h
  | removeDirectory path =>
    obtain ⟨hbelow, n₀, hn₀, hwritable⟩ := hc
    apply update_keeps (P := (t.Shrinks · root clears)) h
    intro t'' ht''
    obtain ⟨n', hn', -, hempty, rfl⟩ := withoutDirectory_eq_ok.mp ht''
    apply h.erase hbelow
    rintro rfl place n hn hr
    obtain ⟨n₁, hn₁, hremains⟩ := h.remains _ _ hn'
    obtain rfl := Option.some.inj (hn₀.symm.trans hn₁)
    have hwritable' : n'.attributes.isReadOnly = false := by
      rw [hremains.attributes_eq rfl]
      exact hwritable rfl
    exact h.not_above_readOnly hwf hn' hwritable' (fun hk => (hempty hk).1) hn hr
  | deleteFile path =>
    apply update_keeps (P := (t.Shrinks · root clears)) h
    intro t'' ht''
    obtain ⟨n', hn', hkind, hwritable, rfl⟩ := withoutFile_eq_ok.mp ht''
    apply h.erase hc
    rintro rfl place n hn hr
    exact h.not_above_readOnly hwf hn' hwritable (fun hk => (hkind hk).elim) hn hr
  | setAttributes path attributes =>
    obtain ⟨hclears, hbelow, n₀, hn₀, hattributes⟩ := hc
    apply update_keeps (P := (t.Shrinks · root clears)) h
    intro t'' ht''
    obtain ⟨-, rfl⟩ := withAttributes_eq_ok.mp ht''
    apply h.modify hbelow
    intro n n' hn hremains
    obtain rfl := Option.some.inj (hn₀.symm.trans hn)
    exact hremains.withAttributes hclears hattributes
  | unmount path =>
    apply update_keeps (P := (t.Shrinks · root clears)) h
    intro t'' ht''
    obtain ⟨-, rfl⟩ := withUnmounted_eq_ok.mp ht''
    apply h.modify hc
    intro n n' _ hremains
    exact hremains.unmounted
  | createDirectory | move | copy | sameVolume => exact hc.elim

end Tree.Shrinks

namespace Memory

open Removal Operation

/-- What a delete at a root may leave of a file system, and which calls it may have made. -/
structure Shrinks (m : Memory) (root : Place) (clears : Bool) (m' : Memory) : Prop where
  nodes : m.nodes.Shrinks m'.nodes root clears
  unset : clears = false → m'.totalCalls .setAttributes = m.totalCalls .setAttributes
  unlisted : ∀ path n, m.nodes.lookup path.components = some n → n.isLink = true →
    n.mounted = false → m'.callCount .list path = m.callCount .list path

namespace Shrinks

variable {m m' : Memory} {root : Place} {clears : Bool}

theorem refl (m : Memory) : m.Shrinks root clears m := ⟨.refl _, fun _ => rfl, fun _ _ _ _ _ => rfl⟩

/-- The step of the invariant. -/
theorem call {c : Call} (h : m.Shrinks root clears m') (hwf : m.nodes.WellFormed)
    (hc : c.Removes m.nodes root clears) : m.Shrinks root clears (m'.call c).2 where
  nodes := by
    rcases m'.nodes_call c with heq | heq
    · exact heq ▸ h.nodes
    · exact heq ▸ h.nodes.perform hwf hc
  unset := by
    intro hclears
    rw [← h.unset hclears, totalCalls, calls_call, List.countP_cons_of_neg]
    · rfl
    · cases c with
      | setAttributes path attributes => simp [hclears, Call.Removes] at hc
      | _ => simp [Call.primitive]
  unlisted := by
    intro path n hn hlink hmounted
    rw [← h.unlisted path n hn hlink hmounted, callCount, calls_call, List.countP_cons_of_neg]
    · rfl
    · cases c with
      | list dir =>
        obtain ⟨d, hd, hopen⟩ := hc
        intro hsame
        simp only [Call.primitive, Call.path, beq_self_eq_true, Bool.true_and, Path.same_iff]
          at hsame
        rw [hsame, hn] at hd
        obtain rfl := Option.some.inj hd
        rw [hopen hlink] at hmounted
        cases hmounted
      | _ => simp [Call.primitive]

end Shrinks

/-! ### The parts of a delete -/

/-- A retry that clears the read-only attribute needs the leave to do so. -/
theorem ignoreReadOnly_of_classify {code : NativeCode} {context : Context}
    (h : classify code context = .retry .clearReadOnly) : context.ignoreReadOnly = true := by
  unfold classify at h
  repeat' split at h
  all_goals first | assumption | cases h

section Parts

variable {m : Memory} {root : Place} {listener : Listener} {tx : Option Transaction} {path : Path}
  {n : Node} {attributes : Attributes} {clears : Bool} {opts : DeleteOptions}
  (hwf : m.nodes.WellFormed)

include hwf

theorem keeps_attempt_removing {c : Call} (hc : c.Removes m.nodes root clears) :
    Keeps (answers listener) (m.Shrinks root clears) (attempt tx c) :=
  keeps_attempt fun _ hm => ⟨hm.call hwf hc, trivial⟩

theorem keeps_clearReadOnly (hclears : clears = true) (hbelow : root <+: path.components)
    (hn : m.nodes.lookup path.components = some n)
    (hcleared : (attributes.without .readOnly).neutral = n.attributes.without .readOnly) :
    Keeps (answers listener) (m.Shrinks root clears) (clearReadOnly tx path attributes) := by
  have hset :
      (Call.setAttributes path (attributes.without .readOnly)).Removes m.nodes root clears :=
    ⟨hclears, hbelow, n, hn, hcleared⟩
  apply keeps_seq keeps_note
  exact keeps_perform ((keeps_attempt_removing hwf hset).mono fun _ _ _ _ => trivial)

theorem keeps_unmount (hbelow : root <+: path.components) :
    Keeps (answers listener) (m.Shrinks root clears) (unmount tx path) := by
  apply keeps_bind (keeps_attempt_removing hwf (c := .unmount path) hbelow)
  intro result _
  cases result with
  | ok _ => exact keeps_note
  | error e =>
    dsimp only
    split
    · exact keeps_note
    · exact keeps_fail

theorem keeps_deleteCleared (hclears : clears = true) (hbelow : root <+: path.components)
    (hn : m.nodes.lookup path.components = some n)
    (hcleared : (attributes.without .readOnly).neutral = n.attributes.without .readOnly) :
    Keeps (answers listener) (m.Shrinks root clears) (deleteCleared tx path attributes) := by
  apply keeps_seq (keeps_clearReadOnly hwf hclears hbelow hn hcleared)
  apply keeps_bind (keeps_attempt_removing hwf (c := .deleteFile path) hbelow)
  intro result _
  cases result with
  | ok _ => exact keeps_note
  | error e =>
    dsimp only
    split
    · exact keeps_note
    · exact keeps_fail

theorem keeps_removeFile (hbelow : root <+: path.components)
    (hn : m.nodes.lookup path.components = some n)
    (hcleared : (attributes.without .readOnly).neutral = n.attributes.without .readOnly) :
    Keeps (answers listener) (m.Shrinks root clears) (removeFile tx path attributes clears) := by
  unfold removeFile
  split
  · exact keeps_fail
  · next hmay =>
    apply keeps_bind (keeps_attempt_removing hwf (c := .deleteFile path) hbelow)
    intro result _
    cases result with
    | ok _ => exact keeps_note
    | error e =>
      dsimp only
      split
      · exact keeps_note
      · split
        · next hdenied =>
          have hclears : clears = true := by simp_all
          exact keeps_deleteCleared hwf hclears hbelow hn hcleared
        · exact keeps_fail

/-- A delete goes on with a read-only directory only if it may clear the attribute. -/
theorem keeps_releaseReadOnly {info : Entry} (hbelow : root <+: path.components)
    (hn : m.nodes.lookup path.components = some n) (hinfo : info.Recalls opts.ignoreReadOnly n) :
    Keeps (answers listener) (m.Shrinks root opts.ignoreReadOnly) (releaseReadOnly opts path info)
      fun _ => opts.ignoreReadOnly = false → n.attributes.isReadOnly = false := by
  unfold releaseReadOnly
  split
  · split
    · next hclears =>
      apply (keeps_clearReadOnly hwf hclears hbelow hn hinfo.cleared).mono
      intro _ _ hno
      simp [hclears] at hno
    · exact keeps_fail
  · next hwritable =>
    apply keeps_pure
    intro hno
    rw [← hinfo.isReadOnly hno]
    simpa using hwritable

theorem keeps_emptyDirectory {deleteChild : Path → Operation Unit}
    (hdelete : ∀ child, root <+: child.components →
      Keeps (answers listener) (m.Shrinks root opts.ignoreReadOnly) (deleteChild child))
    (hbelow : root <+: path.components) (hn : m.nodes.lookup path.components = some n)
    (hopen : n.isLink = true → n.mounted = true) :
    Keeps (answers listener) (m.Shrinks root opts.ignoreReadOnly)
      (emptyDirectory opts deleteChild path) := by
  have hentries : Keeps (answers listener) (m.Shrinks root opts.ignoreReadOnly)
      (listEntries opts.transaction path) fun result => ∀ entries, result = .ok entries →
        ∀ e ∈ entries, root <+: e.path.components ∧
          ∃ d, m.nodes.lookup e.path.components = some d ∧ e.Recalls opts.ignoreReadOnly d := by
    apply keeps_listEntries
    · intro m' hm'
      exact hm'.call hwf (c := .list path) ⟨n, hn, hopen⟩
    · intro m' hm' e he
      obtain ⟨b, d', -, hpath, -, hd', hdescribes⟩ := Tree.exists_of_mem_entriesOf he
      obtain ⟨d, hd, hremains⟩ := hm'.nodes.remains _ _ hd'
      refine ⟨?_, d, hd, hdescribes.recalls hremains⟩
      rw [hpath]
      exact hbelow.trans (List.prefix_append _ _)
  apply keeps_bind hentries
  intro result hresult
  cases result with
  | ok entries =>
    apply keeps_forM
    intro e he
    obtain ⟨hchild, d, hd, hrecalls⟩ := hresult entries rfl e he
    split
    · exact hdelete e.path hchild
    · exact keeps_removeFile hwf hchild hd hrecalls.cleared
  | error code =>
    dsimp only
    split
    · exact keeps_pure trivial
    · exact keeps_fail

/-- Every attempt keeps the bounds, and so does what is done between two of them. -/
theorem keeps_removeRepeatedly {emptyIt : Operation Unit}
    (hempty : Keeps (answers listener) (m.Shrinks root opts.ignoreReadOnly) emptyIt)
    (hbelow : root <+: path.components) (hn : m.nodes.lookup path.components = some n)
    (hcleared : (attributes.without .readOnly).neutral = n.attributes.without .readOnly)
    (hwritable : opts.ignoreReadOnly = false → n.attributes.isReadOnly = false)
    (context : Context) (hcontext : context.ignoreReadOnly = opts.ignoreReadOnly)
    (retries attempt : Nat) :
    Keeps (answers listener) (m.Shrinks root opts.ignoreReadOnly)
      (removeRepeatedly opts context path attributes emptyIt retries attempt) := by
  have hremove : Keeps (answers listener) (m.Shrinks root opts.ignoreReadOnly)
      (Operation.attempt opts.transaction (.removeDirectory path)) :=
    keeps_attempt_removing hwf (c := .removeDirectory path) ⟨hbelow, n, hn, hwritable⟩
  induction retries generalizing context attempt with
  | zero =>
    unfold removeRepeatedly
    apply keeps_seq hempty
    apply keeps_bind hremove
    intro result _
    cases result with
    | ok _ => exact keeps_note
    | error e =>
      dsimp only
      split
      · exact keeps_pure trivial
      · exact keeps_fail
      · exact keeps_fail
  | succ retries ih =>
    unfold removeRepeatedly
    apply keeps_seq hempty
    apply keeps_bind hremove
    intro result _
    cases result with
    | ok _ => exact keeps_note
    | error e =>
      dsimp only
      split
      · exact keeps_pure trivial
      · exact keeps_fail
      · next hretry =>
        apply keeps_seq keeps_note
        split
        · split
          · exact keeps_seq keeps_pause (ih context hcontext (attempt + 1))
          · exact ih context hcontext (attempt + 1)
        · have hclears : opts.ignoreReadOnly = true :=
            hcontext.symm.trans (ignoreReadOnly_of_classify hretry)
          apply keeps_seq (keeps_clearReadOnly hwf hclears hbelow hn hcleared)
          exact ih { context with readOnly := false } hcontext (attempt + 1)

theorem keeps_deleteNode (levels : Nat) (continueIfMissing : Bool) (path : Path)
    (hbelow : root <+: path.components) :
    Keeps (answers listener) (m.Shrinks root opts.ignoreReadOnly)
      (deleteNode opts levels continueIfMissing path) := by
  induction levels generalizing continueIfMissing path with
  | zero => exact keeps_throw
  | succ levels ih =>
    have hquery : Keeps (answers listener) (m.Shrinks root opts.ignoreReadOnly)
        (Operation.attempt opts.transaction (.query path)) fun result =>
          ∀ info, result = .ok info → ∃ n, m.nodes.lookup path.components = some n ∧
            info.Recalls opts.ignoreReadOnly n := by
      apply keeps_query
      · intro m' hm'
        exact hm'.call hwf (c := .query path) trivial
      · intro m' n' info hm' hn' hdescribes
        obtain ⟨n, hn, hremains⟩ := hm'.nodes.remains _ _ hn'
        exact ⟨n, hn, hdescribes.recalls hremains⟩
    apply keeps_bind hquery
    intro result hresult
    cases result with
    | error e =>
      dsimp only
      split
      · exact keeps_note
      · exact keeps_fail
    | ok info =>
      obtain ⟨n, hn, hinfo⟩ := hresult info rfl
      dsimp only
      split
      · exact keeps_fail
      · -- A link is entered only if a volume was mounted on it when it was looked at.
        have hempty : Keeps (answers listener) (m.Shrinks root opts.ignoreReadOnly)
            (if (opts.recursive && (!info.isReparsePoint || info.isMountPoint)) = true then
              emptyDirectory opts (deleteNode opts levels true) path else pure ()) := by
          split
          · next hdescends =>
            apply keeps_emptyDirectory hwf (fun child hchild => ih true child hchild) hbelow hn
            intro hlink
            have hmount : info.isMountPoint = true := by
              simp only [Bool.and_eq_true, hinfo.isReparsePoint, hlink] at hdescends
              exact hdescends.2
            exact hinfo.isMountPoint hmount
          · exact keeps_pure trivial
        have hrest : Keeps (answers listener) (m.Shrinks root opts.ignoreReadOnly)
            (releaseReadOnly opts path info >>= fun _ => removeRepeatedly opts
              { requireEmpty := !opts.recursive && opts.requireEmptyIfNotRecursive
                continueIfMissing
                ignoreReadOnly := opts.ignoreReadOnly } path info.attributes
              (if (opts.recursive && (!info.isReparsePoint || info.isMountPoint)) = true then
                emptyDirectory opts (deleteNode opts levels true) path else pure ())
              (opts.retry.attempts - 1) 1) := by
          apply keeps_bind (keeps_releaseReadOnly hwf hbelow hn hinfo)
          intro _ hwritable
          exact keeps_removeRepeatedly hwf hempty hbelow hn hinfo.cleared hwritable _ rfl _ 1
        split
        · exact keeps_seq (keeps_unmount hwf hbelow) hrest
        · exact hrest

theorem keeps_deleteDirectory (levels : Nat) (root : Path) :
    Keeps (answers listener) (m.Shrinks root.components opts.ignoreReadOnly)
      (deleteDirectory levels opts root) := by
  apply keeps_bind keeps_resolve
  intro _ hroot
  apply keeps_seq keeps_note
  rw [hroot]
  exact keeps_deleteNode hwf levels _ root (List.prefix_refl _)

end Parts

/-- Whatever failures are scripted and however it ends, a delete leaves everything outside its root
as it is and adds nothing, and what is left at and below the root is what it was, but for a
read-only attribute or a mount that is gone. One that may not clear read-only attributes makes no
call to set attributes, and keeps read-only nodes and everything above them. No delete lists a link
that nothing was mounted on. -/
theorem delete_only_shrinks (m : Memory) (listener : Listener) (levels : Nat)
    (opts : DeleteOptions) (root : Path) (hwf : m.nodes.WellFormed) :
    m.Shrinks root.components opts.ignoreReadOnly
      (m.runs listener (deleteDirectory levels opts root)).memory :=
  keeps_runs (keeps_deleteDirectory hwf levels root) (.refl m)

/-- A delete without any attempt that is stopped by a read-only file, beside a link and below a
mounted directory. -/
theorem delete_only_shrinks_stopped :
    let m := ((((((new.addFile "/r/d/f" 3).addFile "/r/a" 4).addLink "/r/b" true).setReadOnly
      "/r/d/f").mount "/r").addFailure ⟨.deleteFile, "/r/a", .fileNotFound, some 1⟩)
    let opts : DeleteOptions := { recursive := true, retry := ⟨0, 10⟩ }
    m.Shrinks (Path.components "/r") false
      (m.runs {} (deleteDirectory m.levels opts "/r")).memory :=
  delete_only_shrinks _ _ _ { recursive := true, retry := ⟨0, 10⟩ } "/r" (by decide)

end Memory

end TreeOps
