import Mathlib.Algebra.GroupWithZero.Nat
import TreeOps.Proofs.Memory.History
import TreeOps.Proofs.Memory.Strikes
import TreeOps.Proofs.Removal.ReadOnly

/-!
# Failures that pass

A call below the root of a delete may fail for no reason in the nodes: what is there is reported
missing, or a directory that is empty is reported full. Such a failure changes none of the nodes,
and each time one strikes there is one strike less to come. `Wavers` are the answers of a file
system where all scripted failures pass. While a tree is removed under such answers it dwindles:
nodes go and attributes change, and what is left still lies in directories.
-/

namespace TreeOps

/-! ### Trees that dwindle -/

/-- What is left of a tree while it is removed at and below a place: nodes may have gone and
attributes changed there, and everything left still lies in a directory. -/
structure Tree.Dwindles (t t' : Tree) (root : Place) : Prop where
  outside : Tree.AgreeOutside (root <+: ·) t t'
  remains : ∀ place n', t'.lookup place = some n' →
    ∃ n, t.lookup place = some n ∧ n'.kind = n.kind ∧ n'.mounted = n.mounted
  regular : ∀ place bound, Regular (t.branch place) bound → Regular (t'.branch place) bound

namespace Tree.Dwindles

variable {t t' t'' : Tree} {root place : Place} {path : Path}

theorem refl (t : Tree) : t.Dwindles t root where
  outside := .refl t
  remains _ n hn := ⟨n, hn, rfl, rfl⟩
  regular _ _ h := h

theorem trans (h : t.Dwindles t' root) (h' : t'.Dwindles t'' root) : t.Dwindles t'' root where
  outside := h.outside.trans h'.outside
  remains place n'' hn'' := by
    obtain ⟨n', hn', hkind', hmounted'⟩ := h'.remains place n'' hn''
    obtain ⟨n, hn, hkind, hmounted⟩ := h.remains place n' hn'
    exact ⟨n, hn, hkind'.trans hkind, hmounted'.trans hmounted⟩
  regular place bound hview := h'.regular place bound (h.regular place bound hview)

theorem mono (h : t.Dwindles t' place) (hbelow : root <+: place) : t.Dwindles t' root where
  outside := h.outside.mono fun _ hp => hbelow.trans hp
  remains := h.remains
  regular := h.regular

theorem eq_none (h : t.Dwindles t' root) (hnone : t.lookup place = none) :
    t'.lookup place = none := by
  cases hl : t'.lookup place with
  | none => rfl
  | some n' =>
    obtain ⟨n, hn, -⟩ := h.remains place n' hl
    cases hnone.symm.trans hn

theorem unmounted (h : t.Dwindles t' root) (hclear : Memory.Unmounted (t.branch place)) :
    Memory.Unmounted (t'.branch place) := by
  intro way n' hn'
  obtain ⟨n, hn, -, hmounted⟩ := h.remains _ n' hn'
  rw [hmounted]
  exact hclear way n hn

/-- A tree stays regular if what remains still lies in what it lay in. -/
theorem regular_of_remains {bound : Nat}
    (hremains : ∀ place n', t'.lookup place = some n' →
      ∃ n, t.lookup place = some n ∧ n'.kind = n.kind)
    (hclosed : ∀ place c n', t'.lookup (place ++ [c]) = some n' → t.lookup place ≠ none →
      t'.lookup place ≠ none)
    (h : Regular (t.branch place) bound) : Regular (t'.branch place) bound where
  names way n' hn' := by
    obtain ⟨n, hn, -⟩ := hremains _ n' hn'
    exact h.names way n hn
  closed way c n' hn' := by
    obtain ⟨n, hn, -⟩ := hremains _ n' hn'
    obtain ⟨d, hd, hdirectory⟩ := h.closed way c n hn
    have hsome : t'.lookup (place ++ way) ≠ none := by
      apply hclosed _ c n'
      · rw [List.append_assoc]
        exact hn'
      · rw [show t.lookup (place ++ way) = some d from hd]
        simp
    obtain ⟨d', hd'⟩ := Option.ne_none_iff_exists'.mp hsome
    obtain ⟨d₀, hd₀, hkind⟩ := hremains _ d' hd'
    obtain rfl := Option.some.inj (hd₀.symm.trans hd)
    exact ⟨d', hd', hkind.trans hdirectory⟩
  shallow way n' hn' := by
    obtain ⟨n, hn, -⟩ := hremains _ n' hn'
    exact h.shallow way n hn

theorem modify (t : Tree) (path : Path) {f : Node → Node} (hkind : ∀ n, (f n).kind = n.kind)
    (hmounted : ∀ n, (f n).mounted = n.mounted) :
    t.Dwindles (t.modify path f) path.components := by
  have hremains (place : Place) (n' : Node) (hn' : (t.modify path f).lookup place = some n') :
      ∃ n, t.lookup place = some n ∧ n'.kind = n.kind ∧ n'.mounted = n.mounted := by
    rw [PathMap.lookup_modify] at hn'
    split at hn'
    · obtain ⟨n, hn, rfl⟩ := Option.map_eq_some_iff.mp hn'
      exact ⟨n, hn, hkind n, hmounted n⟩
    · exact ⟨n', hn', rfl, rfl⟩
  refine ⟨(agreeOutside_modify t path f).mono fun _ heq => heq ▸ List.prefix_refl _, hremains, ?_⟩
  intro place bound
  apply regular_of_remains
  · intro place n' hn'
    obtain ⟨n, hn, hk, -⟩ := hremains place n' hn'
    exact ⟨n, hn, hk⟩
  · intro place _ _ _ hsome
    rw [PathMap.lookup_modify]
    split
    · simpa using hsome
    · exact hsome

/-- A node goes in which nothing lies. -/
theorem erase (hempty : ∀ c, t.lookup (path.components ++ [c]) = none) :
    t.Dwindles (t.erase path) path.components := by
  have hremains (place : Place) (n' : Node) (hn' : (t.erase path).lookup place = some n') :
      t.lookup place = some n' := by
    rw [PathMap.lookup_erase] at hn'
    split at hn'
    · cases hn'
    · exact hn'
  refine ⟨(agreeOutside_erase t path).mono fun _ heq => heq ▸ List.prefix_refl _,
    fun place n' hn' => ⟨n', hremains place n' hn', rfl, rfl⟩, ?_⟩
  intro place bound
  apply regular_of_remains
  · intro place n' hn'
    exact ⟨n', hremains place n' hn', rfl⟩
  · intro place c n' hn' hsome
    rw [PathMap.lookup_erase]
    split
    · next heq =>
      have hchild := hremains _ n' hn'
      rw [← heq, hempty c] at hchild
      cases hchild
    · exact hsome

/-- Once the node at a place has gone, so has everything below it. -/
theorem without {bound : Nat} (h : t.Dwindles t' root) (hview : Regular (t.branch root) bound)
    (hgone : t'.lookup root = none) : t.Without t' root := by
  intro place
  split
  · next hplace =>
    obtain ⟨way, rfl⟩ := hplace
    cases hl : t'.lookup (root ++ way) with
    | none => rfl
    | some n =>
      by_cases hway : way = []
      · rw [hway, List.append_nil, hgone] at hl
        cases hl
      · obtain ⟨d, hd, -⟩ := (h.regular root bound hview).directory_above [] hl hway
        rw [PathMap.branch_nil, hgone] at hd
        cases hd
  · next hplace => exact h.outside place hplace

end Tree.Dwindles

/-- A directory with something in it cannot be removed. -/
theorem Tree.withoutDirectory_of_hasChildren {t : Tree} {path : Path} {n : Node}
    (hn : t.lookup path.components = some n) (hk : n.kind = .directory)
    (hchildren : t.hasChildren path = true) :
    t.withoutDirectory path = .error (NativeCode.directoryNotEmpty : NativeError) := by
  unfold withoutDirectory
  rw [node_eq_ok.mpr hn]
  simp [hk, hchildren, bind, Except.bind, throw, throwThe, MonadExceptOf.throw]

namespace Memory

open Removal Operation

/-! ### Failures that pass -/

/-- Whether the failure of a call passes: something strictly below the root is reported missing, or
a directory at or below the root is reported full. -/
def Passes (root : Place) (primitive : Primitive) (place : Place) (code : NativeCode) : Prop :=
  root <+: place ∧
    (primitive = .removeDirectory ∧ code = .directoryNotEmpty ∨
      place ≠ root ∧ code.isNotFound = true ∧
        primitive ∈ [Primitive.query, .list, .deleteFile, .removeDirectory])

instance (root : Place) (primitive : Primitive) (place : Place) (code : NativeCode) :
    Decidable (Passes root primitive place code) :=
  inferInstanceAs (Decidable (_ ∧ _))

/-- What a failure of a call other than the removal of a directory says. -/
theorem Passes.missing {root place : Place} {primitive : Primitive} {code : NativeCode}
    (h : Passes root primitive place code) (hne : primitive ≠ .removeDirectory) :
    place ≠ root ∧ code.isNotFound = true := by
  rcases h.2 with ⟨heq, -⟩ | ⟨hplace, hcode, -⟩
  · exact (hne heq).elim
  · exact ⟨hplace, hcode⟩

/-- Whether a scripted failure passes and strikes a finite number of times. -/
def IsTransient (root : Place) (f : Failure) : Prop :=
  Passes root f.primitive f.path.components f.code ∧ f.remaining.isSome = true

instance (root : Place) (f : Failure) : Decidable (IsTransient root f) :=
  inferInstanceAs (Decidable (_ ∧ _))

/-- How often some failures may still strike, if they do not strike for ever. -/
def strikes (failures : List Failure) : Nat := (failures.map fun f => f.remaining.getD 0).sum

/-- A failure that strikes passes, and has a strike less after that. -/
theorem strike_transient {root : Place} {failures : List Failure}
    (h : ∀ f ∈ failures, IsTransient root f) (primitive : Primitive) (path : Path) :
    (∀ f ∈ (strike primitive path failures).2, IsTransient root f) ∧
      match (strike primitive path failures).1 with
      | none => strikes (strike primitive path failures).2 = strikes failures
      | some code => Passes root primitive path.components code ∧
          strikes (strike primitive path failures).2 < strikes failures := by
  constructor
  · exact forall_strike h fun f _ hf => ⟨hf.1, (Option.isSome_map ..).trans hf.2⟩
  · rcases strike_cases primitive path failures with
      ⟨before, f, rest, rfl, -, hawaits, hstrike⟩ | ⟨-, hstrike⟩
    · obtain ⟨hpasses, hfinite⟩ := h f (by simp)
      obtain ⟨n, hn⟩ := hawaits.remaining.resolve_left (Option.ne_none_iff_isSome.mpr hfinite)
      rw [hstrike]
      refine ⟨hawaits.1 ▸ hawaits.components ▸ hpasses, ?_⟩
      simp only [strikes, List.map_append, List.map_cons, List.sum_append, List.sum_cons,
        Failure.used, hn, Option.map_some, Option.getD_some]
      omega
    · rw [hstrike]

/-! ### Answers while failures pass -/

/-- The nodes of a file system, and how often failures may still strike. -/
structure Disturbed where
  nodes : Tree
  strikes : Nat

/-- How a request may be answered as long as only passing failures strike: a call does to the nodes
what they tell, or fails, changes none of them and uses up a strike. -/
def Wavers (root : Place) : Answering Disturbed
  | .call _ c, s, a, s' =>
    a = (s.nodes.perform c).1 ∧ s' = { s with nodes := (s.nodes.perform c).2 } ∨
      ∃ code, Passes root c.primitive c.path.components code ∧
        a = .error (code : NativeError) ∧ s'.nodes = s.nodes ∧ s'.strikes < s.strikes
  | .resolve path, s, a, s' => a = path ∧ s' = s
  | .report _, s, _, s' => s' = s
  | .consult .., s, _, s' => s' = s
  | .pause _, s, _, s' => s' = s
  | .note _, s, _, s' => s' = s

section Rules

variable {root : Place} {s : Disturbed} {err : Halt → Disturbed → Prop} {tx : Option Transaction}

theorem wavering_attempt {c : Call} {ok : Except NativeError c.Result → Disturbed → Prop} :
    Ensures (Wavers root) (Operation.attempt tx c) s ok err ↔
      ok (s.nodes.perform c).1 { s with nodes := (s.nodes.perform c).2 } ∧
        ∀ code left, Passes root c.primitive c.path.components code → left < s.strikes →
          ok (.error (code : NativeError)) { s with strikes := left } := by
  rw [Operation.ensures_attempt]
  constructor
  · intro h
    refine ⟨h _ _ (.inl ⟨rfl, rfl⟩), fun code left hpasses hleft => ?_⟩
    exact h _ _ (.inr ⟨code, hpasses, rfl, rfl, hleft⟩)
  · rintro ⟨hperformed, hstruck⟩ a s' (⟨rfl, rfl⟩ | ⟨code, hpasses, rfl, hnodes, hleft⟩)
    · exact hperformed
    · have hs' : s' = { s with strikes := s'.strikes } := by rw [← hnodes]
      rw [hs']
      exact hstruck code _ hpasses hleft

theorem wavering_note {n : Note} {ok : Unit → Disturbed → Prop} :
    Ensures (Wavers root) (Operation.note n) s ok err ↔ ok () s := by
  rw [Operation.ensures_note]
  exact ⟨fun h => h () s rfl, by rintro h _ _ rfl; exact h⟩

theorem wavering_pause {milliseconds : Nat} {ok : Unit → Disturbed → Prop} :
    Ensures (Wavers root) (ExceptT.lift (Program.request (.pause milliseconds))) s ok err ↔
      ok () s := by
  rw [Operation.ensures_request]
  exact ⟨fun h => h () s rfl, by rintro h _ _ rfl; exact h⟩

theorem wavering_resolve {path : Path} {ok : Path → Disturbed → Prop} :
    Ensures (Wavers root) (Operation.resolve path) s ok err ↔ ok path s := by
  rw [Operation.ensures_resolve]
  constructor
  · intro h
    exact h path s ⟨rfl, rfl⟩
  · rintro h a s' ⟨ha, rfl⟩
    rw [ha]
    exact h

/-- A listing gives the entries that are there, or is struck. -/
theorem wavering_listEntries {dir : Path} {n : Node}
    {ok : Except NativeCode (List Entry) → Disturbed → Prop}
    (hn : s.nodes.lookup dir.components = some n) (hk : n.kind ≠ .file) :
    Ensures (Wavers root) (listEntries tx dir) s ok err ↔
      ok (.ok (s.nodes.entriesOf dir)) s ∧
        ∀ code left, Passes root .list dir.components code → left < s.strikes →
          ok (.error code) { s with strikes := left } := by
  have hlisted : (s.nodes.perform (.list dir)).1 =
      .ok ((s.nodes.children dir).map fun e => e.2.child e.1) :=
    Tree.listing_eq_ok.mpr ⟨n, hn, hk, rfl⟩
  unfold listEntries
  rw [Operation.ensures_bind, wavering_attempt, hlisted]
  refine and_congr ?_ (forall₄_congr fun code left _ _ => ?_)
  · simp only [Operation.ensures_pure, Tree.entriesIn_eq]
    rfl
  · simp only [Operation.ensures_bind, wavering_note, Operation.ensures_pure]

end Rules

/-- What the wavering answers ensure is true of a run on a file system where all failures pass. -/
theorem ends_runs_transient {m : Memory} {α : Type} {root : Place} (listener : Listener)
    (h : ∀ f ∈ m.failures, IsTransient root f) {p : Operation α}
    {ok : α → Disturbed → Prop} {err : Halt → Disturbed → Prop}
    (hp : Ensures (Wavers root) p ⟨m.nodes, strikes m.failures⟩ ok err) :
    Ends ok err (m.runs listener p).result
      ⟨(m.runs listener p).memory.nodes, strikes (m.runs listener p).memory.failures⟩ := by
  rw [runs_eq]
  let view (m : Memory) : Disturbed := ⟨m.nodes, strikes m.failures⟩
  refine Program.Ensures.run view (fun m => ∀ f ∈ m.failures, IsTransient root f)
    (fun r m hm => ?_) (p := p.run) (t := m) hp h
  cases r with
  | call tx c =>
    obtain ⟨hkept, hcount⟩ := strike_transient hm c.primitive c.path
    change (∀ f ∈ (m.call c).2.failures, IsTransient root f) ∧
      Wavers root (.call tx c) ⟨m.nodes, strikes m.failures⟩ (m.call c).1
        ⟨(m.call c).2.nodes, strikes (m.call c).2.failures⟩
    obtain ⟨hresult, hnodes, hfailures⟩ := m.call_eq c
    rw [hfailures]
    refine ⟨hkept, ?_⟩
    cases hstruck : (strike c.primitive c.path m.failures).1 with
    | none =>
      rw [hstruck] at hresult hnodes hcount
      exact .inl ⟨hresult, by rw [hnodes, hcount]⟩
    | some code =>
      rw [hstruck] at hresult hnodes hcount
      exact .inr ⟨code, hcount.1, hresult, hnodes, hcount.2⟩
  | resolve path => exact ⟨hm, rfl, rfl⟩
  | report progress => exact ⟨hm, rfl⟩
  | consult dir e => exact ⟨hm, rfl⟩
  | pause milliseconds => exact ⟨hm, rfl⟩
  | note n => exact ⟨hm, rfl⟩

end Memory

end TreeOps
