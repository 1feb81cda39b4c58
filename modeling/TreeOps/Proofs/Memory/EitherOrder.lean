import TreeOps.Proofs.Memory.Keeps
import TreeOps.Proofs.Memory.Scripted
import TreeOps.Proofs.Path.Topology
import TreeOps.Proofs.Program.EitherOrder

/-!
# Calls in either order

A call that looks at one entry or removes one reads the node at its path and what is directly below
it, changes nothing but that node, and uses up only failures that are scripted for its path. So two
such calls at places apart can be made in either order. The record of the calls shows the order, and
is all that does.
-/

namespace TreeOps

namespace PathMap

variable {α : Type} {m : PathMap α} {key dir : Path} {f : α → Option α}

theorem eq_of_entries {m m' : PathMap α} (h : m.entries = m'.entries) : m = m' := by
  cases m
  cases m'
  congr

/-- An entry with its value changed if it is the one at a path; it may be dropped. -/
def adjustEntry (key : Path) (f : α → Option α) (e : Path × α) : Option (Path × α) :=
  if e.1.same key then (f e.2).map fun value => (e.1, value) else some e

theorem adjustEntry_eq_some {e e' : Path × α} (h : adjustEntry key f e = some e') :
    e'.1 = e.1 := by
  unfold adjustEntry at h
  split at h
  · obtain ⟨value, -, rfl⟩ := Option.map_eq_some_iff.mp h
    rfl
  · rw [← Option.some.inj h]

/-- An entry that is passed over at one path is passed over after a change there. -/
theorem adjustEntry_cases (key : Path) (f : α → Option α) (e : Path × α) :
    adjustEntry key f e = some e ∨ e.1.components = key.components := by
  unfold adjustEntry
  by_cases hkey : e.1.components = key.components
  · exact .inr hkey
  · exact .inl (if_neg (mt Path.same_iff.mp hkey))

/-- Change the value at one path, or drop it. -/
def adjust (m : PathMap α) (key : Path) (f : α → Option α) : PathMap α where
  entries := m.entries.filterMap (adjustEntry key f)
  sorted := by
    refine m.sorted.filterMap _ fun a a' haa' b hb b' hb' => ?_
    rw [adjustEntry_eq_some hb, adjustEntry_eq_some hb']
    exact haa'

theorem adjust_some (m : PathMap α) (key : Path) : m.adjust key some = m := by
  have hsome : adjustEntry key some = (some : Path × α → _) := by
    funext e
    simp [adjustEntry]
  refine eq_of_entries ?_
  change m.entries.filterMap (adjustEntry key some) = m.entries
  rw [hsome, List.filterMap_some]

theorem erase_eq_adjust (m : PathMap α) (key : Path) :
    m.erase key = m.adjust key fun _ => none := by
  refine eq_of_entries ?_
  change m.entries.filter _ = m.entries.filterMap _
  rw [← List.filterMap_eq_filter]
  congr 1
  funext e
  cases h : e.1.same key <;> simp [adjustEntry, Option.guard, h]

theorem modify_eq_adjust (m : PathMap α) (key : Path) (g : α → α) :
    m.modify key g = m.adjust key fun value => some (g value) := by
  refine eq_of_entries ?_
  change m.entries.map _ = m.entries.filterMap _
  rw [← List.filterMap_eq_map]
  congr 1
  funext e
  cases h : e.1.same key <;> simp [adjustEntry, h]

/-- What is changed at two different paths does not depend on the order. -/
theorem adjust_comm {key' : Path} {g : α → Option α} (h : key.components ≠ key'.components) :
    (m.adjust key f).adjust key' g = (m.adjust key' g).adjust key f := by
  refine eq_of_entries ?_
  simp only [adjust, List.filterMap_filterMap]
  congr 1
  funext e
  by_cases hkey : e.1.components = key.components
  · have hkey' : e.1.components ≠ key'.components := hkey ▸ h
    cases hf : f e.2 <;> simp [adjustEntry, Path.same, hkey, hf, h]
  · by_cases hkey' : e.1.components = key'.components
    · cases hg : g e.2 <;> simp [adjustEntry, Path.same, hkey', hg, Ne.symm h]
    · simp [adjustEntry, Path.same, hkey, hkey']

/-- What a selection of entries passes over at a path it passes over after a change there. -/
theorem filter_adjust (select : Path → Bool)
    (h : ∀ p : Path, p.components = key.components → select p = false) :
    (m.adjust key f).entries.filter (fun e => select e.1) =
      m.entries.filter fun e => select e.1 := by
  change (m.entries.filterMap (adjustEntry key f)).filter _ = _
  rw [List.filter_filterMap, ← List.filterMap_eq_filter]
  congr 1
  funext e
  rcases adjustEntry_cases key f e with heq | hkey
  · rw [heq]
    cases hselect : select e.1 <;> simp [Option.guard, hselect]
  · cases hadjusted : adjustEntry key f e with
    | none => simp [Option.guard, h e.1 hkey]
    | some e' =>
      have hsame := adjustEntry_eq_some hadjusted
      simp [Option.guard, hsame, h e.1 hkey]

theorem lookup_adjust_of_ne {place : Place} (h : place ≠ key.components) :
    (m.adjust key f).lookup place = m.lookup place := by
  have hfilter := filter_adjust (m := m) (f := f) (fun p => p.components == place) fun p hp =>
    show (p.components == place) = false by simpa [hp] using h.symm
  unfold lookup
  rw [← List.head?_filter, ← List.head?_filter, hfilter]

/-- A directory has the same children when something changes that is not in it. -/
theorem children_adjust (h : ¬dir.components <+: key.components) :
    (m.adjust key f).children dir = m.children dir := by
  refine filter_adjust (fun p => p.parent.any (·.same dir)) fun p hp => ?_
  rw [← Bool.not_eq_true, Option.any_eq_true]
  rintro ⟨parent, hparent, hsame⟩
  obtain ⟨c, -, hcomponents⟩ := Path.components_of_parent_eq_some hparent
  rw [Path.same_iff.mp hsame, hp] at hcomponents
  exact h (hcomponents ▸ List.prefix_append _ _)

end PathMap

/-- A call that looks at one entry, or removes one or changes what hinders its removal. -/
def Call.IsSingle : Call → Prop
  | .list _ | .query _ | .removeDirectory _ | .deleteFile _ | .setAttributes .. | .unmount _ => True
  | .createDirectory _ | .move .. | .copy .. | .sameVolume .. => False

/-- What becomes of the node at the path of such a call. -/
def Call.effect : (c : Call) → Except NativeError c.Result → Node → Option Node
  | .removeDirectory _, .ok _ | .deleteFile _, .ok _ => fun _ => none
  | .setAttributes _ attributes, .ok _ => fun n => some (n.withAttributes attributes)
  | .unmount _, .ok _ => fun n => some { n with mounted := false }
  | _, _ => some

theorem Call.effect_error (c : Call) (e : NativeError) : c.effect (.error e) = some := by
  cases c <;> rfl

namespace Tree

variable {t t' : Tree} {c : Call}

/-- What such a call gives is told by the node at its path and what is directly below it. -/
theorem perform_fst_congr (hc : c.IsSingle)
    (hlookup : t'.lookup c.path.components = t.lookup c.path.components)
    (hchildren : t'.children c.path = t.children c.path) :
    (t'.perform c).1 = (t.perform c).1 := by
  cases c with
  | list dir =>
    change t'.lookup dir.components = t.lookup dir.components at hlookup
    change t'.children dir = t.children dir at hchildren
    simp only [perform, observe, listing, node, PathMap.find?_eq_lookup, hlookup, hchildren]
  | query path =>
    change t'.lookup path.components = t.lookup path.components at hlookup
    simp only [perform, observe, entry, node, PathMap.find?_eq_lookup, hlookup]
  | removeDirectory path =>
    change t'.lookup path.components = t.lookup path.components at hlookup
    change t'.children path = t.children path at hchildren
    simp only [perform, withoutDirectory, node, hasChildren, PathMap.find?_eq_lookup, hlookup,
      hchildren]
    cases t.lookup path.components with
    | none => rfl
    | some n =>
      obtain ⟨kind, _, _, _, mounted, _, _⟩ := n
      cases kind with
      | directory => cases (t.children path).isEmpty <;> cases mounted <;> rfl
      | file => rfl
      | link toDirectory => cases toDirectory <;> rfl
  | deleteFile path =>
    change t'.lookup path.components = t.lookup path.components at hlookup
    simp only [perform, withoutFile, node, PathMap.find?_eq_lookup, hlookup]
    cases t.lookup path.components with
    | none => rfl
    | some n =>
      simp only [bind, Except.bind]
      split <;> rfl
  | setAttributes path attributes =>
    change t'.lookup path.components = t.lookup path.components at hlookup
    simp only [perform, withAttributes, node, PathMap.find?_eq_lookup, hlookup]
    cases t.lookup path.components <;> rfl
  | unmount path =>
    change t'.lookup path.components = t.lookup path.components at hlookup
    have hmounted : t'.isMounted path = t.isMounted path := by
      rw [isMounted, isMounted, PathMap.find?_eq_lookup, PathMap.find?_eq_lookup, hlookup]
    simp only [perform, withUnmounted, hmounted]
    cases t.isMounted path <;> rfl
  | createDirectory | move | copy | sameVolume => exact hc.elim

/-- Such a call changes nothing but the node at its path. -/
theorem perform_snd_eq (hc : c.IsSingle) (t : Tree) :
    (t.perform c).2 = t.adjust c.path (c.effect (t.perform c).1) := by
  have hresult : ∀ result, (t.perform c).1 = result →
      (t.perform c).2 = t.adjust c.path (c.effect result) := by
    rintro (e | value) h
    · rw [perform_error h, Call.effect_error, PathMap.adjust_some]
    · cases c with
      | list | query => exact (PathMap.adjust_some t _).symm
      | removeDirectory path =>
        obtain ⟨-, -, -, -, herase⟩ := withoutDirectory_eq_ok.mp (update_ok h)
        exact herase.symm.trans (PathMap.erase_eq_adjust t path)
      | deleteFile path =>
        obtain ⟨-, -, -, -, herase⟩ := withoutFile_eq_ok.mp (update_ok h)
        exact herase.symm.trans (PathMap.erase_eq_adjust t path)
      | setAttributes path attributes =>
        obtain ⟨-, hmodify⟩ := withAttributes_eq_ok.mp (update_ok h)
        exact hmodify.symm.trans (PathMap.modify_eq_adjust t path _)
      | unmount path =>
        obtain ⟨-, hmodify⟩ := withUnmounted_eq_ok.mp (update_ok h)
        exact hmodify.symm.trans (PathMap.modify_eq_adjust t path _)
      | createDirectory | move | copy | sameVolume => exact hc.elim
  exact hresult _ rfl

end Tree

namespace Memory

/-! ### Failures -/

/-- Failures that are scripted for different paths strike independently of one another. -/
theorem strike_comm (primitive primitive' : Primitive) {path path' : Path}
    (h : path.components ≠ path'.components) (failures : List Failure) :
    (strike primitive path (strike primitive' path' failures).2).1 =
        (strike primitive path failures).1 ∧
      (strike primitive path (strike primitive' path' failures).2).2 =
        (strike primitive' path' (strike primitive path failures).2).2 := by
  induction failures with
  | nil => exact ⟨rfl, rfl⟩
  | cons f rest ih =>
    obtain ⟨hcode, hrest⟩ := ih
    by_cases hf : f.Awaits primitive path
    · -- Neither the failure nor what is left of it awaits the other call.
      have hother : ¬f.Awaits primitive' path' := fun hf' =>
        h (hf.components.symm.trans hf'.components)
      have hused : ¬f.used.Awaits primitive' path' := fun hf' =>
        h (hf.components.symm.trans hf'.components)
      simp only [strike_cons, hf, hother, hused, if_true, if_false, true_and]
    · by_cases hf' : f.Awaits primitive' path'
      · have hused : ¬f.used.Awaits primitive path := fun hf =>
          h (hf.components.symm.trans hf'.components)
        simp only [strike_cons, hf, hf', hused, if_true, if_false, true_and]
      · simp only [strike_cons, hf, hf', if_false, hcode, hrest, true_and]

/-! ### Calls -/

/-- What matters of a file system: the nodes and the failures still to strike. -/
def remains (m : Memory) : Tree × List Failure := (m.nodes, m.failures)

theorem remains_eq_iff {m m' : Memory} :
    m.remains = m'.remains ↔ m.nodes = m'.nodes ∧ m.failures = m'.failures :=
  Prod.ext_iff

theorem sees_call (c : Call) : Sees remains (Memory.call · c) := by
  intro m m' h
  obtain ⟨hnodes, hfailures⟩ := remains_eq_iff.mp h
  obtain ⟨hresult, htree, hleft⟩ := m.call_eq c
  obtain ⟨hresult', htree', hleft'⟩ := m'.call_eq c
  rw [← hfailures] at hresult' htree' hleft'
  rw [← hnodes] at hresult' htree'
  refine ⟨hresult.trans hresult'.symm, remains_eq_iff.mpr ⟨htree.trans htree'.symm, ?_⟩⟩
  exact hleft.trans hleft'.symm

/-- A call on a single entry changes nothing but the node at its path. -/
theorem nodes_call_eq {c : Call} (hc : c.IsSingle) (m : Memory) :
    (m.call c).2.nodes = m.nodes.adjust c.path (c.effect (m.call c).1) := by
  obtain ⟨hresult, htree, -⟩ := m.call_eq c
  rw [hresult, htree]
  cases (strike c.primitive c.path m.failures).1 with
  | some code => exact (c.effect_error _ ▸ PathMap.adjust_some m.nodes c.path).symm
  | none => exact Tree.perform_snd_eq hc m.nodes

/-- A call on a single entry has the same result after one on an entry apart from it. -/
theorem call_fst_eq {c c' : Call} (hc : c.IsSingle) (hc' : c'.IsSingle)
    (h : Apart c.path.components c'.path.components) (m : Memory) :
    ((m.call c').2.call c).1 = (m.call c).1 := by
  obtain ⟨hresult, -, -⟩ := m.call_eq c
  obtain ⟨hresult', -, -⟩ := (m.call c').2.call_eq c
  obtain ⟨-, -, hleft⟩ := m.call_eq c'
  have hne : c.path.components ≠ c'.path.components := fun heq => h.1 (heq ▸ List.prefix_refl _)
  have hcode := (strike_comm c.primitive c'.primitive hne m.failures).1
  have hperform : ((m.call c').2.nodes.perform c).1 = (m.nodes.perform c).1 := by
    rw [nodes_call_eq hc']
    exact Tree.perform_fst_congr hc (PathMap.lookup_adjust_of_ne hne) (PathMap.children_adjust h.1)
  rw [hresult, hresult', hleft, hcode, hperform]

/-- Calls on single entries apart can be made in either order. -/
theorem eitherOrder_call {c c' : Call} (hc : c.IsSingle) (hc' : c'.IsSingle)
    (h : Apart c.path.components c'.path.components) :
    EitherOrder remains (Memory.call · c) (Memory.call · c') where
  first := call_fst_eq hc hc' h
  second := call_fst_eq hc' hc h.symm
  state m := by
    have hne : c.path.components ≠ c'.path.components := fun heq => h.1 (heq ▸ List.prefix_refl _)
    refine remains_eq_iff.mpr ⟨?_, ?_⟩
    · calc ((m.call c).2.call c').2.nodes
          = (m.nodes.adjust c.path (c.effect (m.call c).1)).adjust c'.path
              (c'.effect (m.call c').1) := by
            rw [nodes_call_eq hc', nodes_call_eq hc, call_fst_eq hc' hc h.symm]
        _ = (m.nodes.adjust c'.path (c'.effect (m.call c').1)).adjust c.path
              (c.effect (m.call c).1) := PathMap.adjust_comm hne
        _ = ((m.call c').2.call c).2.nodes := by
            rw [nodes_call_eq hc, nodes_call_eq hc', call_fst_eq hc hc' h]
    · obtain ⟨-, -, hfirst⟩ := m.call_eq c
      obtain ⟨-, -, hfirst'⟩ := m.call_eq c'
      obtain ⟨-, -, hsecond⟩ := (m.call c).2.call_eq c'
      obtain ⟨-, -, hsecond'⟩ := (m.call c').2.call_eq c
      rw [hsecond, hsecond', hfirst, hfirst']
      exact (strike_comm _ _ hne m.failures).2.symm

/-! ### Requests of removals -/

theorem sees_handler (listener : Listener) (r : Request) :
    Sees remains (fileSystem.handler listener r) := by
  cases r with
  | call tx c => exact sees_call c
  | resolve | consult | report | pause | note => exact fun _ _ h => ⟨rfl, h⟩

/-- A step that leaves the state alone and has one result can be taken before or after any other. -/
theorem eitherOrder_of_idle {α β σ τ : Type} {view : σ → τ} {f : σ → α × σ} (g : σ → β × σ)
    {a : α} (h : ∀ s, f s = (a, s)) : EitherOrder view f g where
  first s := by rw [h, h]
  second s := by rw [h]
  state s := by rw [h, h]

/-- A removal makes calls on single entries below its root, and asks for what changes nothing. -/
theorem cases_of_removes {tx : Option Transaction} {root : Place} {r : Request}
    (listener : Listener) (h : r.Removes tx root) :
    (∃ tx' c, r = .call tx' c ∧ c.IsSingle ∧ root <+: c.path.components) ∨
      ∃ a, ∀ m, fileSystem.handler listener r m = (a, m) := by
  cases r with
  | call tx' c =>
    refine .inl ⟨tx', c, rfl, ?_⟩
    cases c with
    | list | query | removeDirectory | deleteFile | setAttributes | unmount => exact ⟨trivial, h.2⟩
    | createDirectory | move | copy | sameVolume => exact h.elim
  | resolve path => exact .inr ⟨path, fun _ => rfl⟩
  | pause | note => exact .inr ⟨(), fun _ => rfl⟩
  | consult | report => exact h.elim

/-- Removals at places apart make requests that can be made in either order. -/
theorem eitherOrder_of_removes {tx tx' : Option Transaction} {root root' : Place} {r r' : Request}
    (listener listener' : Listener) (h : Apart root root') (hr : r.Removes tx root)
    (hr' : r'.Removes tx' root') :
    EitherOrder remains (fileSystem.handler listener r) (fileSystem.handler listener' r') := by
  rcases cases_of_removes listener hr with ⟨tx₁, c, rfl, hc, hbelow⟩ | ⟨a, hidle⟩
  · rcases cases_of_removes listener' hr' with ⟨tx₂, c', rfl, hc', hbelow'⟩ | ⟨a', hidle'⟩
    · obtain ⟨way, hway⟩ := hbelow
      obtain ⟨way', hway'⟩ := hbelow'
      exact eitherOrder_call hc hc' (hway ▸ hway' ▸ h.append way way')
    · exact (eitherOrder_of_idle _ hidle').symm
  · exact eitherOrder_of_idle _ hidle

end Memory

end TreeOps
