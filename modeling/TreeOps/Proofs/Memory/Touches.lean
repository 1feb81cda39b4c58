import TreeOps.Proofs.Memory.Listing

/-!
# What operations leave alone

An operation touches some places if, whatever fails and however it ends, the nodes at all other
places are as before. This is found along the text of an operation: each primitive call touches the
places of its paths, and what is built from operations touches what they touch. The value of an
operation may decide what comes next, so a condition on the value goes with it.
-/

namespace TreeOps

/-- Two trees differ in no other than some places. -/
def Tree.AgreeOutside (places : Place → Prop) (t t' : Tree) : Prop :=
  ∀ place, ¬places place → t'.lookup place = t.lookup place

namespace Tree.AgreeOutside

variable {places places' : Place → Prop} {t t' t'' : Tree}

theorem refl (t : Tree) : AgreeOutside places t t := fun _ _ => rfl

theorem trans (h : AgreeOutside places t t') (h' : AgreeOutside places t' t'') :
    AgreeOutside places t t'' :=
  fun place hp => (h' place hp).trans (h place hp)

theorem mono (h : AgreeOutside places t t') (himp : ∀ place, places place → places' place) :
    AgreeOutside places' t t' :=
  fun place hp => h place fun hplace => hp (himp place hplace)

end Tree.AgreeOutside

/-- What changes only along one of two places apart leaves what is below the other as it is. -/
theorem Apart.lookup_eq {a b : Place} {t t' : Tree} (h : Apart a b)
    (hagree : Tree.AgreeOutside (fun place => b <+: place ∨ place <+: b) t t') (way : Place) :
    t'.lookup (a ++ way) = t.lookup (a ++ way) := by
  refine hagree (a ++ way) fun hp => ?_
  exact hp.elim (h.below way).2 (h.below way).1

/-- The places at which a call can change something. -/
def Call.Reaches : Call → Place → Prop
  | .list _, _ | .query _, _ | .sameVolume .., _ => False
  | .createDirectory path, place | .removeDirectory path, place | .deleteFile path, place
  | .setAttributes path _, place | .unmount path, place | .copy _ path _, place =>
    path.components = place
  | .move source destination _, place =>
    source.components <+: place ∨ destination.components <+: place

namespace Tree

variable {t : Tree} {path : Path}

theorem agreeOutside_insert (t : Tree) (path : Path) (n : Node) :
    AgreeOutside (path.components = ·) t (t.insert path n) := by
  intro place hne
  rw [PathMap.lookup_insert, if_neg hne]

theorem agreeOutside_erase (t : Tree) (path : Path) :
    AgreeOutside (path.components = ·) t (t.erase path) := by
  intro place hne
  rw [PathMap.lookup_erase, if_neg hne]

theorem agreeOutside_modify (t : Tree) (path : Path) (f : Node → Node) :
    AgreeOutside (path.components = ·) t (t.modify path f) := by
  intro place hne
  rw [PathMap.lookup_modify, if_neg hne]

theorem agreeOutside_relocate (t : Tree) (source destination : Path) :
    AgreeOutside (fun place => source.components <+: place ∨ destination.components <+: place) t
      (t.relocate source destination) := by
  intro place hne
  rw [not_or] at hne
  have hsource : source.components ≠ [] := by
    intro hnil
    rw [hnil] at hne
    exact hne.1 List.nil_prefix
  rw [lookup_relocate_of_not_below hsource hne.2, if_neg hne.1]

theorem agreeOutside_vacated {t' : Tree} {n : Node} {replace : Bool}
    (h : t.vacated n path replace = .ok t') : AgreeOutside (path.components = ·) t t' := by
  unfold vacated at h
  split at h
  · obtain rfl := Except.ok.inj h
    exact .refl t
  · repeat' split at h
    all_goals cases h
    exact agreeOutside_erase t path

theorem agreeOutside_perform (c : Call) (t : Tree) : AgreeOutside c.Reaches t (t.perform c).2 := by
  have update {c : Call} {result : Except NativeError Tree}
      (h : ∀ t', result = .ok t' → AgreeOutside c.Reaches t t') :
      AgreeOutside c.Reaches t (t.update result).2 :=
    update_keeps (P := AgreeOutside c.Reaches t) (.refl t) h
  cases c with
  | list dir => exact .refl t
  | query path => exact .refl t
  | sameVolume a b => exact .refl t
  | createDirectory path =>
    refine update (c := .createDirectory path) fun t' h => ?_
    obtain ⟨-, -, rfl⟩ := withDirectory_eq_ok.mp h
    exact agreeOutside_insert t path _
  | removeDirectory path =>
    refine update (c := .removeDirectory path) fun t' h => ?_
    obtain ⟨-, -, -, -, rfl⟩ := withoutDirectory_eq_ok.mp h
    exact agreeOutside_erase t path
  | deleteFile path =>
    refine update (c := .deleteFile path) fun t' h => ?_
    obtain ⟨-, -, -, -, rfl⟩ := withoutFile_eq_ok.mp h
    exact agreeOutside_erase t path
  | setAttributes path attributes =>
    refine update (c := .setAttributes path attributes) fun t' h => ?_
    obtain ⟨-, rfl⟩ := withAttributes_eq_ok.mp h
    exact agreeOutside_modify t path _
  | unmount path =>
    refine update (c := .unmount path) fun t' h => ?_
    obtain ⟨-, rfl⟩ := withUnmounted_eq_ok.mp h
    exact agreeOutside_modify t path _
  | move source destination replace =>
    refine update (c := .move source destination replace) fun t' h => ?_
    obtain ⟨n, -, -, -, -, v, hv, rfl⟩ := withMoved_eq_ok.mp h
    refine .trans ((agreeOutside_vacated hv).mono fun place he => .inr ?_)
      (agreeOutside_relocate v source destination)
    exact he ▸ List.prefix_refl _
  | copy source destination flags =>
    simp only [perform]
    cases h : t.withCopy source destination flags with
    | ok result =>
      obtain ⟨bytes, t'⟩ := result
      obtain ⟨n, -, -, -, parent, -, -, rfl⟩ := withCopy_eq_ok.mp h
      exact agreeOutside_insert t destination _
    | error e => exact .refl t

end Tree

namespace Memory

variable {α β : Type} {failing canceling : Prop} {places places' : Place → Prop}

/-- What may be answered without failures may be answered with them. -/
theorem Replies.weaken {r : Request} {s s' : Scene} {a : r.Answer}
    (h : Replies failing canceling r s a s') : Replies True True r s a s' := by
  cases r with
  | call tx c => exact h.imp_right fun h => ⟨trivial, h.2⟩
  | resolve path => exact h
  | report progress => exact ⟨fun _ => trivial, h.2⟩
  | consult dir e => exact h
  | pause milliseconds => exact h
  | note n => exact h

/-- Whatever fails and however it ends, an operation changes nothing outside of some places, and its
value meets a condition. -/
def Touches (places : Place → Prop) (p : Operation α) (value : α → Prop := fun _ => True) : Prop :=
  ∀ s, Operation.Ensures (Replies True True) p s
    (fun a s' => Tree.AgreeOutside places s.nodes s'.nodes ∧ value a)
    (fun _ s' => Tree.AgreeOutside places s.nodes s'.nodes)

theorem Touches.ensures {p : Operation α} {value : α → Prop} (h : Touches places p value)
    (s : Scene) : Operation.Ensures (Replies failing canceling) p s
      (fun a s' => Tree.AgreeOutside places s.nodes s'.nodes ∧ value a)
      (fun _ s' => Tree.AgreeOutside places s.nodes s'.nodes) :=
  Program.Ensures.weaken (fun _ _ _ _ => Replies.weaken) (h s)

theorem Touches.mono {p : Operation α} {value : α → Prop} (h : Touches places p value)
    (hplaces : ∀ place, places place → places' place) : Touches places' p value :=
  fun s => (h s).mono (fun _ _ ha => ⟨ha.1.mono hplaces, ha.2⟩) fun _ _ he => he.mono hplaces

theorem touches_pure {a : α} {value : α → Prop} (h : value a) : Touches places (pure a) value :=
  fun _ => Operation.ensures_pure.mpr ⟨.refl _, h⟩

theorem touches_throw {halt : Halt} {value : α → Prop} :
    Touches places (throw halt : Operation α) value :=
  fun _ => Operation.ensures_throw.mpr (.refl _)

theorem touches_fail {e : TreeError} {value : α → Prop} :
    Touches places (Operation.fail e : Operation α) value :=
  fun _ => Operation.ensures_fail.mpr (.refl _)

theorem touches_note {n : Note} : Touches places (Operation.note n) :=
  fun _ => ensures_note.mpr ⟨.refl _, trivial⟩

theorem touches_pause {milliseconds : Nat} :
    Touches places (ExceptT.lift (Program.request (.pause milliseconds))) :=
  fun _ => ensures_pause.mpr ⟨.refl _, trivial⟩

theorem touches_resolve {path : Path} : Touches places (Operation.resolve path) (· = path) :=
  fun _ => ensures_resolve.mpr ⟨.refl _, rfl⟩

theorem touches_bind {p : Operation α} {f : α → Operation β} {value : α → Prop}
    {value' : β → Prop} (h : Touches places p value)
    (hf : ∀ a, value a → Touches places (f a) value') : Touches places (p >>= f) value' := by
  intro s
  rw [Operation.ensures_bind]
  refine (h s).mono_ok fun a s' ha => ?_
  exact (hf a ha.2 s').mono (fun _ _ hb => ⟨ha.1.trans hb.1, hb.2⟩) fun _ _ he => ha.1.trans he

theorem touches_seq {p : Operation α} {q : Operation β} {value' : β → Prop}
    (h : Touches places p) (hq : Touches places q value') :
    Touches places (p >>= fun _ => q) value' := touches_bind h fun _ _ => hq

theorem touches_attempt {tx : Option Transaction} {c : Call} :
    Touches c.Reaches (Operation.attempt tx c) :=
  fun s => ensures_attempt.mpr
    ⟨fun _ _ => ⟨Tree.agreeOutside_perform c s.nodes, trivial⟩, fun _ _ => ⟨.refl _, trivial⟩⟩

theorem touches_perform {tx : Option Transaction} {c : Call} {error : NativeError → TreeError} :
    Touches c.Reaches (Operation.perform tx c error) :=
  fun s => ensures_perform.mpr
    ⟨fun _ _ => ⟨Tree.agreeOutside_perform c s.nodes, trivial⟩, fun _ _ => .refl _⟩

theorem touches_forM {f : β → Operation Unit} {l : List β} (h : ∀ b ∈ l, Touches places (f b)) :
    Touches places (l.forM f) := by
  intro s
  refine (Operation.ensures_forM (fun _ s' => Tree.AgreeOutside places s.nodes s'.nodes)
    (.refl _) fun before b after s' hl hinv => ?_).mono_ok fun _ _ h => ⟨h, trivial⟩
  exact (h b (by simp [hl]) s').mono (fun _ _ hb => hinv.trans hb.1) fun _ _ he => hinv.trans he

theorem touches_foldlM {f : α → β → Operation α} {l : List β} {a : α}
    (h : ∀ a, ∀ b ∈ l, Touches places (f a b)) : Touches places (l.foldlM f a) := by
  intro s
  refine (Operation.ensures_foldlM (fun _ _ s' => Tree.AgreeOutside places s.nodes s'.nodes)
    (.refl _) fun before b after a' s' hl hinv => ?_).mono_ok fun _ _ h => ⟨h, trivial⟩
  exact (h a' b (by simp [hl]) s').mono (fun _ _ hb => hinv.trans hb.1) fun _ _ he => hinv.trans he

/-! ### Listings -/

theorem touches_listEntries {tx : Option Transaction} {dir : Path} :
    Touches places (listEntries tx dir) fun result => ∀ entries, result = .ok entries →
      ∀ e ∈ entries, ∃ b, IsName b ∧ e.path.components = dir.components ++ [.name b] ∧
        e.name = Utf8.lossy b := by
  intro s
  refine ensures_listEntries.mpr ⟨fun n hn hk => ⟨.refl _, ?_⟩, fun e _ => ⟨.refl _, nofun⟩⟩
  rintro entries heq e he
  obtain rfl := Except.ok.inj heq
  obtain ⟨b, -, hname, hpath, htext, -⟩ := Tree.exists_of_mem_entriesOf he
  exact ⟨b, hname, hpath, htext⟩

theorem touches_childEntries {tx : Option Transaction} {dir : Path} :
    Touches places (childEntries tx dir) fun entries => ∀ e ∈ entries, ∃ b, IsName b ∧
      e.path.components = dir.components ++ [.name b] ∧ e.name = Utf8.lossy b := by
  refine touches_bind touches_listEntries fun result hresult => ?_
  cases result with
  | ok entries => exact touches_pure (hresult entries rfl)
  | error code => exact touches_fail

end Memory

end TreeOps
