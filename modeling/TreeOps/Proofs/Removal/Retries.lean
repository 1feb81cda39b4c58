import TreeOps.Proofs.Removal.Hollow
import TreeOps.Proofs.Removal.Refusals

/-!
# The bound on retries is exact

Where nothing is mounted and only refusals are scripted, the recursive delete of a directory
attempts the removal of each directory and link in it until it is no longer refused, and gives up
when a removal was refused as often as the policy allows. So it succeeds exactly if no directory or
link is refused that often, and makes one attempt more than there are refusals at each. Otherwise it
ends at the first one in post-order that is: what comes before has gone, and the rest still stands.

A directory that is attempted again has been emptied before, so nothing below it is attempted twice.
-/

namespace TreeOps

/-! ### Post-order in a tree -/

theorem PostOrder.asymm {a b : Place} (h : PostOrder a b) : ¬PostOrder b a := by
  rintro (⟨habove, hne⟩ | ⟨hnot, hlt⟩)
  · exact h.not_above habove
  · rcases h with ⟨hbelow, -⟩ | ⟨-, hlt'⟩
    · exact hnot hbelow
    · have hself : compare a a = .lt := Std.TransCmp.lt_trans hlt' hlt
      simp at hself

/-- Among what is at and below a place, that place comes last. -/
theorem postOrder_iff_ne {root place : Place} (h : root <+: place) :
    PostOrder place root ↔ place ≠ root := by
  constructor
  · exact PostOrder.ne
  · intro hne
    exact .inl ⟨h, hne⟩

namespace Tree

variable {t : Tree} {dir : Path}

/-- Whether a directory or a link to one is at a place. -/
def IsDirectoryLikeAt (t : Tree) (place : Place) : Prop :=
  ∃ n, t.lookup place = some n ∧ n.isDirectoryLike = true

theorem isDirectoryLikeAt_congr {t' : Tree} {place : Place}
    (h : t'.lookup place = t.lookup place) :
    t'.IsDirectoryLikeAt place ↔ t.IsDirectoryLikeAt place := by
  rw [IsDirectoryLikeAt, IsDirectoryLikeAt, h]

/-- What is at and below an entry comes before what is at and below a later one. -/
theorem postOrder_entries {before after : List Entry} {d e : Entry}
    (hl : t.entriesOf dir = before ++ e :: after) (hd : d ∈ before) {place place' : Place}
    (hplace : d.path.components <+: place) (hplace' : e.path.components <+: place') :
    PostOrder place place' := by
  obtain ⟨way, rfl⟩ := hplace
  obtain ⟨way', rfl⟩ := hplace'
  exact .inr ⟨((entriesOf_apart hl hd).append way way').1, compare_entries hl hd way way'⟩

/-- What is below a directory and comes before a place within an entry is within that entry or an
earlier one. -/
theorem entry_of_postOrder {before after : List Entry} {e : Entry} {bound : Nat}
    (hview : Regular (t.branch dir.components) bound)
    (hl : t.entriesOf dir = before ++ e :: after) {place stop : Place} {n : Node}
    (hn : t.lookup place = some n) (hbelow : dir.components <+: place)
    (hstop : e.path.components <+: stop) (h : PostOrder place stop) :
    (∃ d ∈ before, d.path.components <+: place) ∨ e.path.components <+: place := by
  obtain ⟨way, rfl⟩ := hbelow
  have he : e ∈ t.entriesOf dir := by simp [hl]
  have hway : way ≠ [] := by
    rintro rfl
    rw [List.append_nil] at h
    exact h.not_above ((prefix_of_mem_entriesOf he).trans hstop)
  obtain ⟨d, hd, hpre⟩ := exists_entry_above hview hn hway
  rw [hl] at hd
  rcases List.mem_append.mp hd with hd | hd
  · exact .inl ⟨d, hd, hpre⟩
  · rcases List.mem_cons.mp hd with rfl | hd
    · exact .inr hpre
    · obtain ⟨before', after', rfl⟩ := List.append_of_mem hd
      have hl' : t.entriesOf dir = (before ++ e :: before') ++ d :: after' := by simp [hl]
      exact absurd h (postOrder_entries hl' (by simp) hstop hpre).asymm

end Tree

namespace Memory

open Removal Operation

variable {t : Place → ℕ∞} {bound : Nat} {s s' s'' : Tried} {tx : Option Transaction} {path : Path}
  {n : Node} {opts : DeleteOptions} {region region' : Place → Prop}

theorem Prepared.isDirectoryLikeAt {t t' : Tree} {mounted : Bool}
    (h : Prepared t t' path n.kind mounted) (hn : t.lookup path.components = some n)
    (place : Place) : t'.IsDirectoryLikeAt place ↔ t.IsDirectoryLikeAt place := by
  by_cases heq : path.components = place
  · obtain ⟨n', hn', hkind, -⟩ := h.node
    have hlike : n'.isDirectoryLike = n.isDirectoryLike := by
      rw [Node.isDirectoryLike, Node.isDirectoryLike, hkind]
    simp [Tree.IsDirectoryLikeAt, ← heq, hn, hn', hlike]
  · exact Tree.isDirectoryLikeAt_congr (h.agree place heq)

theorem Prepared.unmounted {t t' : Tree} {kind : NodeKind} {mounted : Bool}
    (h : Prepared t t' path kind mounted) (hmounted : mounted = false)
    (hclear : Unmounted (t.branch path.components)) : Unmounted (t'.branch path.components) := by
  intro way m hm
  by_cases hway : way = []
  · obtain ⟨n', hn', -, hmounted'⟩ := h.node
    rw [hway, PathMap.branch_nil, hn'] at hm
    rw [← Option.some.inj hm, hmounted', hmounted]
  · rw [PathMap.branch, h.agree _ (by simpa using hway)] at hm
    exact hclear way m hm

/-! ### What the removal of a region comes to -/

/-- A region has been removed: each directory and link to one in it was refused less often than the
bound and then attempted once more, and everything else is as it was. -/
structure Relented (t : Place → ℕ∞) (bound : Nat) (region : Place → Prop) (s s' : Tried) :
    Prop where
  gone : ∀ place, region place → s'.nodes.lookup place = none
  attempts : ∀ place, region place → s.nodes.IsDirectoryLikeAt place →
    t place < bound ∧ s'.attempts place = t place + 1
  kept : ∀ place, ¬region place →
    s'.nodes.lookup place = s.nodes.lookup place ∧ s'.attempts place = s.attempts place

namespace Relented

theorem refl (s : Tried) : Relented t bound (fun _ => False) s s where
  gone _ h := h.elim
  attempts _ h := h.elim
  kept _ _ := ⟨rfl, rfl⟩

theorem eq_none (h : Relented t bound region s s') {place : Place}
    (hnone : s.nodes.lookup place = none) : s'.nodes.lookup place = none := by
  by_cases hplace : region place
  · exact h.gone place hplace
  · rw [(h.kept place hplace).1, hnone]

/-- One region after another that lies apart from it. -/
theorem append (h : Relented t bound region s s') (h' : Relented t bound region' s' s'')
    (hapart : ∀ place, region' place → ¬region place) :
    Relented t bound (fun place => region place ∨ region' place) s s'' where
  gone place hplace := by
    rcases hplace with hplace | hplace
    · exact h'.eq_none (h.gone place hplace)
    · exact h'.gone place hplace
  attempts place hplace hlike := by
    by_cases hplace' : region' place
    · have hkept := (h.kept place (hapart place hplace')).1
      exact h'.attempts place hplace' ((Tree.isDirectoryLikeAt_congr hkept).mpr hlike)
    · rw [(h'.kept place hplace').2]
      exact h.attempts place (hplace.resolve_right hplace') hlike
  kept place hplace := by
    obtain ⟨hnodes, hattempts⟩ := h.kept place fun hr => hplace (.inl hr)
    obtain ⟨hnodes', hattempts'⟩ := h'.kept place fun hr => hplace (.inr hr)
    exact ⟨hnodes'.trans hnodes, hattempts'.trans hattempts⟩

/-- A region grows by places where there is nothing. -/
theorem widen (h : Relented t bound region s s') (hsub : ∀ place, region place → region' place)
    (hnone : ∀ place, region' place → ¬region place → s.nodes.lookup place = none) :
    Relented t bound region' s s' where
  gone place hplace := by
    by_cases hin : region place
    · exact h.gone place hin
    · exact h.eq_none (hnone place hplace hin)
  attempts place hplace hlike := by
    by_cases hin : region place
    · exact h.attempts place hin hlike
    · obtain ⟨n, hn, -⟩ := hlike
      cases (hnone place hplace hin).symm.trans hn
  kept place hplace := h.kept place fun hin => hplace (hsub place hin)

/-- The attributes of what goes in the end do not matter. -/
theorem of_prepared (h : Relented t bound region s' s'')
    (hn : s.nodes.lookup path.components = some n) {mounted : Bool}
    (hprepared : Prepared s.nodes s'.nodes path n.kind mounted)
    (hattempts : s'.attempts = s.attempts) (hpath : region path.components) :
    Relented t bound region s s'' where
  gone := h.gone
  attempts place hplace hlike :=
    h.attempts place hplace ((hprepared.isDirectoryLikeAt hn place).mpr hlike)
  kept place hplace := by
    have hne : path.components ≠ place := by
      rintro rfl
      exact hplace hpath
    rw [← hprepared.agree place hne, ← hattempts]
    exact h.kept place hplace

/-- A directory goes after everything below it, at the attempt after the last that was refused. -/
theorem remove {k : Nat}
    (h : Relented t bound (fun place => path.components <+: place ∧ place ≠ path.components) s s')
    (hk : t path.components = k) (hlt : k < bound) :
    Relented t bound (path.components <+: ·) s
      (s'.withAttempts path.components (k + 1) (s'.nodes.erase path)) where
  gone place hplace := by
    change (s'.nodes.erase path).lookup place = none
    rw [PathMap.lookup_erase]
    split
    · rfl
    · next hne => exact h.gone place ⟨hplace, Ne.symm hne⟩
  attempts place hplace hlike := by
    by_cases heq : place = path.components
    · rw [heq, Tried.attempts_withAttempts_self, hk]
      exact ⟨by exact_mod_cast hlt, Nat.cast_succ k⟩
    · rw [Tried.attempts_withAttempts_of_ne _ heq]
      exact h.attempts place ⟨hplace, heq⟩ hlike
  kept place hplace := by
    have hne : path.components ≠ place := by
      rintro rfl
      exact hplace (List.prefix_refl _)
    rw [Tried.attempts_withAttempts_of_ne _ hne.symm]
    change (s'.nodes.erase path).lookup place = _ ∧ _
    rw [PathMap.lookup_erase, if_neg hne]
    exact h.kept place fun hbelow => hplace hbelow.1

end Relented

/-- The removal of what is at and below a place has got stuck at a directory or link that was
refused as often as the bound: what comes before it in post-order has gone, and everything else is
as it was, but for attributes at and above the stop. -/
structure Stuck (t : Place → ℕ∞) (bound : Nat) (root stop : Place) (s s' : Tried) : Prop where
  below : root <+: stop
  directory : s.nodes.IsDirectoryLikeAt stop
  refused : bound ≤ t stop
  attempts : s'.attempts stop = bound
  gone : ∀ place, root <+: place → PostOrder place stop → s'.nodes.lookup place = none
  before : ∀ place, root <+: place → PostOrder place stop → s.nodes.IsDirectoryLikeAt place →
    t place < bound ∧ s'.attempts place = t place + 1
  standing : ∀ place, place <+: stop →
    (s'.nodes.lookup place).map Node.kind = (s.nodes.lookup place).map Node.kind
  kept : ∀ place, ¬place <+: stop → ¬(root <+: place ∧ PostOrder place stop) →
    s'.nodes.lookup place = s.nodes.lookup place ∧ s'.attempts place = s.attempts place

namespace Stuck

variable {root stop : Place}

theorem eq_none (h : Stuck t bound root stop s s') {place : Place}
    (hnone : s.nodes.lookup place = none) : s'.nodes.lookup place = none := by
  by_cases habove : place <+: stop
  · have hkind := h.standing place habove
    rw [hnone] at hkind
    simpa using hkind
  · by_cases hbefore : root <+: place ∧ PostOrder place stop
    · exact h.gone place hbefore.1 hbefore.2
    · rw [(h.kept place habove hbefore).1, hnone]

/-- A directory that was emptied is refused once too often. -/
theorem self (hlike : s.nodes.IsDirectoryLikeAt root) (hrefused : bound ≤ t root)
    (h : Relented t bound (fun place => root <+: place ∧ place ≠ root) s s') :
    Stuck t bound root root s (s'.withAttempts root bound s'.nodes) where
  below := List.prefix_refl _
  directory := hlike
  refused := hrefused
  attempts := Tried.attempts_withAttempts_self ..
  gone place hplace hbefore := h.gone place ⟨hplace, hbefore.ne⟩
  before place hplace hbefore hlike := by
    rw [Tried.attempts_withAttempts_of_ne _ hbefore.ne]
    exact h.attempts place ⟨hplace, hbefore.ne⟩ hlike
  standing place habove := by
    have houtside : ¬(root <+: place ∧ place ≠ root) := fun hbelow =>
      hbelow.2 (habove.eq_of_length_le hbelow.1.length_le)
    exact congrArg _ (h.kept place houtside).1
  kept place habove houtside := by
    have hne : place ≠ root := fun heq => habove (heq ▸ List.prefix_refl _)
    rw [Tried.attempts_withAttempts_of_ne _ hne]
    exact h.kept place fun hbelow => houtside ⟨hbelow.1, (postOrder_iff_ne hbelow.1).mpr hne⟩

/-- Nothing is said of the attributes at the place itself. -/
theorem of_prepared (h : Stuck t bound path.components stop s' s'')
    (hn : s.nodes.lookup path.components = some n) {mounted : Bool}
    (hprepared : Prepared s.nodes s'.nodes path n.kind mounted)
    (hattempts : s'.attempts = s.attempts) : Stuck t bound path.components stop s s'' where
  below := h.below
  directory := (hprepared.isDirectoryLikeAt hn stop).mp h.directory
  refused := h.refused
  attempts := h.attempts
  gone := h.gone
  before place hplace hbefore hlike :=
    h.before place hplace hbefore ((hprepared.isDirectoryLikeAt hn place).mpr hlike)
  standing place habove := by
    rw [h.standing place habove]
    by_cases heq : path.components = place
    · obtain ⟨n', hn', hkind, -⟩ := hprepared.node
      rw [← heq, hn, hn', Option.map_some, Option.map_some, hkind]
    · rw [hprepared.agree place heq]
  kept place habove houtside := by
    have hne : path.components ≠ place := by
      rintro rfl
      exact habove h.below
    rw [← hprepared.agree place hne, ← hattempts]
    exact h.kept place habove houtside

/-- To get stuck within an entry, after the entries before it have gone, is to get stuck within the
directory. -/
theorem of_entry {before after : List Entry} {e : Entry} {levels : Nat}
    (h : Stuck t bound e.path.components stop s' s'')
    (hview : Regular (s.nodes.branch path.components) levels)
    (hl : s.nodes.entriesOf path = before ++ e :: after)
    (hgone : Relented t bound (fun place => ∃ d ∈ before, d.path.components <+: place) s s') :
    Stuck t bound path.components stop s s'' := by
  have hbelow {d : Entry} (hd : d ∈ s.nodes.entriesOf path) :
      path.components <+: d.path.components := Tree.prefix_of_mem_entriesOf hd
  have he : e ∈ s.nodes.entriesOf path := by simp [hl]
  -- What the entries before held comes before the stop in post-order, so nothing of it is above.
  have hearlier {place : Place} (hplace : ∃ d ∈ before, d.path.components <+: place) :
      PostOrder place stop := by
    obtain ⟨d, hd, hpre⟩ := hplace
    exact Tree.postOrder_entries hl hd hpre h.below
  have hsame {place : Place} (hplace : ¬PostOrder place stop) :
      s'.nodes.lookup place = s.nodes.lookup place ∧ s'.attempts place = s.attempts place :=
    hgone.kept place fun hd => hplace (hearlier hd)
  have hstop : s.nodes.IsDirectoryLikeAt stop := by
    have hself : ¬PostOrder stop stop := fun hp => hp.ne rfl
    exact (Tree.isDirectoryLikeAt_congr (hsame hself).1).mp h.directory
  constructor
  · exact (hbelow he).trans h.below
  · exact hstop
  · exact h.refused
  · exact h.attempts
  · intro place hplace hbefore
    cases hn : s.nodes.lookup place with
    | none => exact h.eq_none (hgone.eq_none hn)
    | some n =>
      rcases Tree.entry_of_postOrder hview hl hn hplace h.below hbefore with hd | he
      · exact h.eq_none (hgone.gone place hd)
      · exact h.gone place he hbefore
  · intro place hplace hbefore hlike
    obtain ⟨n, hn, -⟩ := id hlike
    by_cases hd : ∃ d ∈ before, d.path.components <+: place
    · have hnot : ¬e.path.components <+: place := by
        obtain ⟨d, hd, hpre⟩ := hd
        intro he
        have hself := Tree.postOrder_entries hl hd hpre he
        exact hself.ne rfl
      rw [(h.kept place hbefore.not_above fun he => hnot he.1).2]
      exact hgone.attempts place hd hlike
    · have he := (Tree.entry_of_postOrder hview hl hn hplace h.below hbefore).resolve_left hd
      exact h.before place he hbefore
        ((Tree.isDirectoryLikeAt_congr (hgone.kept place hd).1).mpr hlike)
  · intro place habove
    rw [h.standing place habove, (hsame fun hp => hp.not_above habove).1]
  · intro place habove houtside
    have hlater : ¬∃ d ∈ before, d.path.components <+: place := by
      rintro ⟨d, hd, hpre⟩
      have hmem : d ∈ s.nodes.entriesOf path := by simp [hl, hd]
      exact houtside ⟨(hbelow hmem).trans hpre, hearlier ⟨d, hd, hpre⟩⟩
    have hwithin : ¬(e.path.components <+: place ∧ PostOrder place stop) := fun hin =>
      houtside ⟨(hbelow he).trans hin.1, hin.2⟩
    obtain ⟨hnodes, hattempts⟩ := h.kept place habove hwithin
    obtain ⟨hnodes', hattempts'⟩ := hgone.kept place hlater
    exact ⟨hnodes.trans hnodes', hattempts.trans hattempts'⟩

end Stuck

/-! ### Attempting again -/

/-- A directory that is not mounted and has nothing in it, or a link to a directory. -/
structure Vacant (t : Tree) (place : Place) : Prop where
  node : ∃ n, t.lookup place = some n ∧ n.isDirectoryLike = true ∧ n.mounted = false
  empty : ∀ way, way ≠ [] → t.lookup (place ++ way) = none

/-- One attempt to remove a directory that was emptied, and what is done where it is made again. -/
theorem refusing_removal {context : Context} {note : Note}
    {again : NativeError → RetryAction → Operation Unit} {ok : Unit → Tried → Prop}
    {err : Halt → Tried → Prop} (hrequire : context.requireEmpty = false)
    (hvacant : Vacant s.nodes path.components)
    (hgives : t path.components ≤ s.attempts path.components →
      ok () (s.attempt path.components (s.nodes.erase path)))
    (hrefused : s.attempts path.components < t path.components →
      Ensures (Refuses t) (again (NativeCode.directoryNotEmpty : NativeError) .pause)
        (s.attempt path.components s.nodes) ok err) :
    Ensures (Refuses t) (Operation.attempt tx (.removeDirectory path) >>= fun result =>
      match result with
      | .ok () => Operation.note note
      | .error e =>
        match classify e.code context with
        | .success => pure ()
        | .fatal kind => Operation.fail (kind.error path e)
        | .retry action => again e action) s ok err := by
  obtain ⟨n, hn, hlike, hmounted⟩ := hvacant.node
  have hgoes := perform_removeDirectory hn hlike hmounted fun c => hvacant.empty [c] (by simp)
  have hfull : classify .directoryNotEmpty context = .retry .pause := by
    simp [classify, hrequire]
  rw [Operation.ensures_bind, refusing_removeDirectory, hgoes]
  constructor
  · intro hle
    exact refusing_note.mpr (hgives hle)
  · intro hlt
    dsimp only
    rw [hfull]
    exact hrefused hlt

/-- Once it is emptied, a directory is attempted until it is no longer refused, or as often as the
policy allows. What may halt the emptying may halt the removal. -/
theorem refusing_removeRepeatedly {emptyIt : Operation Unit} {context : Context}
    {attributes : Attributes} {retries attempt : Nat} {ok : Unit → Tried → Prop}
    {err : Halt → Tried → Prop} (hrequire : context.requireEmpty = false)
    (hbound : attempt + retries = bound)
    (hagain : ∀ s, Vacant s.nodes path.components →
      Ensures (Refuses t) emptyIt s (fun _ s' => s' = s) (fun _ _ => False))
    (hempty : Ensures (Refuses t) emptyIt s (fun _ s' => Vacant s'.nodes path.components ∧
      s'.attempts path.components + 1 = attempt ∧
      s'.attempts path.components ≤ t path.components ∧
      (∀ k : Nat, t path.components = k → k < bound →
        ok () (s'.withAttempts path.components (k + 1) (s'.nodes.erase path))) ∧
      (bound ≤ t path.components →
        err (.failed (.retryExhausted path bound .directoryNotEmpty))
          (s'.withAttempts path.components bound s'.nodes))) err) :
    Ensures (Refuses t) (removeRepeatedly opts context path attributes emptyIt retries attempt) s
      ok err := by
  induction retries generalizing s attempt with
  | zero =>
    unfold removeRepeatedly
    rw [Operation.ensures_bind]
    apply hempty.mono_ok
    rintro _ s' ⟨hvacant, hattempt, hle, hok, herr⟩
    apply refusing_removal hrequire hvacant
    · intro hge
      exact hok _ (le_antisymm hge hle) (by omega)
    · intro hlt
      have hlast : s'.attempts path.components + 1 = bound := by omega
      have hrefused : bound ≤ t path.components := by
        rw [← hlast]
        exact_mod_cast Order.add_one_le_of_lt hlt
      have hhalts := herr hrefused
      rw [← hbound, Nat.add_zero, ← hattempt] at hhalts
      rw [← hattempt]
      exact ensures_fail.mpr hhalts
  | succ retries ih =>
    unfold removeRepeatedly
    rw [Operation.ensures_bind]
    apply hempty.mono_ok
    rintro _ s' ⟨hvacant, hattempt, hle, hok, herr⟩
    apply refusing_removal hrequire hvacant
    · intro hge
      exact hok _ (le_antisymm hge hle) (by omega)
    · intro hlt
      have hnext : Ensures (Refuses t)
          (removeRepeatedly opts context path attributes emptyIt retries (attempt + 1))
          (s'.attempt path.components s'.nodes) ok err := by
        apply ih (by omega)
        apply (hagain (s'.attempt path.components s'.nodes) hvacant).mono
        · rintro _ s'' rfl
          rw [Tried.attempt, Tried.attempts_withAttempts_self]
          simp only [Tried.withAttempts_withAttempts]
          refine ⟨hvacant, by rw [hattempt], ?_, hok, herr⟩
          exact_mod_cast Order.add_one_le_of_lt hlt
        · intro _ _ h
          exact h.elim
      dsimp only
      rw [Operation.ensures_bind, refusing_note]
      split
      · rw [Operation.ensures_bind, refusing_pause]
        exact hnext
      · exact hnext

/-! ### Whole deletes -/

/-- A place below which nothing is mounted and no removal has been attempted, with a directory or a
link to one at it. -/
structure Untried (s : Tried) (path : Path) (levels : Nat) : Prop where
  regular : Regular (s.nodes.branch path.components) levels
  unmounted : Unmounted (s.nodes.branch path.components)
  untried : ∀ way, s.attempts (path.components ++ way) = 0
  directory : s.nodes.IsDirectoryLikeAt path.components

/-- What halts the removal of what is at and below a place, and what is left then. -/
def GivesUp (t : Place → ℕ∞) (bound : Nat) (root : Place) (s : Tried) (halt : Halt) (s' : Tried) :
    Prop :=
  ∃ stop : Path, halt = .failed (.retryExhausted stop bound .directoryNotEmpty) ∧
    Stuck t bound root stop.components s s'

/-- A removal of what is at and below a place, which is halted only where a directory or a link is
refused too often. -/
abbrev Insists (t : Place → ℕ∞) (bound : Nat) (p : Operation Unit) (s : Tried) (root : Place) :
    Prop :=
  Ensures (Refuses t) p s (fun _ s' => Relented t bound (root <+: ·) s s')
    (GivesUp t bound root s)

theorem insists_removeFile {attributes : Attributes}
    (hn : s.nodes.lookup path.components = some n) (hlike : ¬n.isDirectoryLike = true)
    (hattributes : attributes.isReadOnly = n.attributes.isReadOnly)
    (hbelow : ∀ way, way ≠ [] → s.nodes.lookup (path.components ++ way) = none) :
    Insists t bound (removeFile tx path attributes true) s path.components := by
  have hk : n.kind ≠ .directory := fun hk => hlike (Node.isDirectoryLike_of_directory hk)
  have hleaves : Leaves True (removeFile tx path attributes true) ⟨s.nodes, []⟩
      (s.nodes.Without · path.components) := leaves_removeFile hn hk hattributes hbelow
  apply (refusing_edits edits_removeFile hleaves).mono
  · rintro _ s' ⟨hwithout, hattempts⟩
    constructor
    · rintro place ⟨way, rfl⟩
      exact hwithout.gone way
    · rintro place ⟨way, rfl⟩ ⟨m, hm, hmlike⟩
      by_cases hway : way = []
      · rw [hway, List.append_nil, hn] at hm
        exact absurd (Option.some.inj hm ▸ hmlike) hlike
      · rw [hbelow way hway] at hm
        cases hm
    · intro place hplace
      exact ⟨hwithout.agreeOutside place hplace, by rw [hattempts]⟩
  · intro _ _ h
    exact h.elim

variable {levels : Nat} {deleteChild : Path → Operation Unit}

/-- The removal of one entry after others. -/
theorem insists_entry {before after : List Entry} {e : Entry}
    (hdelete : ∀ s path, Untried s path levels →
      Insists t bound (deleteChild path) s path.components)
    (hs : Untried s path (levels + 1)) (hl : s.nodes.entriesOf path = before ++ e :: after)
    (hgone : Relented t bound (fun place => ∃ d ∈ before, d.path.components <+: place) s s') :
    Insists t bound
      (if e.isDirectory = true then deleteChild e.path else removeFile tx e.path e.attributes true)
      s' e.path.components := by
  have hkept (place : Place) (hplace : ∀ d ∈ before, ¬d.path.components <+: place) :
      s'.nodes.lookup place = s.nodes.lookup place ∧ s'.attempts place = s.attempts place :=
    hgone.kept place fun ⟨d, hd, hpre⟩ => hplace d hd hpre
  obtain ⟨m, c, hsame, hm, hdescribes⟩ :=
    exists_node_of_entry hl fun place hplace => (hkept place hplace).1
  have hregular : Regular (s'.nodes.branch e.path.components) levels := by
    rw [hsame]
    exact hs.regular.below c
  rw [hdescribes.isDirectory]
  by_cases hlike : m.isDirectoryLike = true
  · rw [if_pos hlike]
    apply hdelete
    constructor
    · exact hregular
    · rw [hsame]
      intro way n hn
      exact hs.unmounted (c :: way) n hn
    · intro way
      rw [(hkept _ fun d hd => not_prefix_of_earlier hl hd way).2]
      obtain ⟨rest, hrest⟩ : path.components <+: e.path.components :=
        Tree.prefix_of_mem_entriesOf (show e ∈ s.nodes.entriesOf path by simp [hl])
      rw [← hrest, List.append_assoc]
      exact hs.untried _
    · exact ⟨m, hm, hlike⟩
  · rw [if_neg hlike]
    have hkind : m.kind ≠ .directory := fun hk => hlike (Node.isDirectoryLike_of_directory hk)
    apply insists_removeFile hm hlike
    · rw [hdescribes.attributes, Node.isReadOnly_shownAttributes]
    · intro way hway
      exact hregular.eq_none_below (by rw [PathMap.branch_nil]; exact hm) hkind hway

theorem refusing_emptyDirectory
    (hdelete : ∀ s path, Untried s path levels →
      Insists t bound (deleteChild path) s path.components)
    (hopts : opts.ignoreReadOnly = true) (hs : Untried s path (levels + 1))
    (hn : s.nodes.lookup path.components = some n) (hk : n.kind ≠ .file) :
    Ensures (Refuses t) (emptyDirectory opts deleteChild path) s
      (fun _ s' => Relented t bound
        (fun place => path.components <+: place ∧ place ≠ path.components) s s')
      (GivesUp t bound path.components s) := by
  unfold emptyDirectory
  rw [Operation.ensures_bind, refusing_listEntries hn hk, hopts]
  have hinit : Relented t bound (fun place => ∃ d ∈ ([] : List Entry), d.path.components <+: place)
      s s := (Relented.refl s).widen (fun _ h => h.elim) (by simp)
  apply (ensures_forM (fun done s' =>
    Relented t bound (fun place => ∃ d ∈ done, d.path.components <+: place) s s') hinit ?_).mono_ok
  · intro _ s' h
    apply h.widen
    · rintro place ⟨d, hd, hpre⟩
      obtain ⟨b, -, -, hpath, -⟩ := Tree.exists_of_mem_entriesOf hd
      rw [hpath] at hpre
      refine ⟨(List.prefix_append _ _).trans hpre, ?_⟩
      rintro rfl
      exact concat_not_prefix_self hpre
    · rintro place ⟨⟨way, rfl⟩, hne⟩ hnot
      cases hl : s.nodes.lookup (path.components ++ way) with
      | none => rfl
      | some m => exact absurd (Tree.exists_entry_above hs.regular hl (by simpa using hne)) hnot
  · intro before e after s' hl hgone
    apply (insists_entry hdelete hs hl hgone).mono
    · intro _ s'' he
      apply (hgone.append he _).widen
      · rintro place (⟨d, hd, hpre⟩ | hpre)
        · exact ⟨d, by simp [hd], hpre⟩
        · exact ⟨e, by simp, hpre⟩
      · rintro place ⟨d, hd, hpre⟩ hnot
        rcases List.mem_append.mp hd with hd | hd
        · exact absurd (.inl ⟨d, hd, hpre⟩) hnot
        · rw [List.mem_singleton.mp hd] at hpre
          exact absurd (.inr hpre) hnot
      · rintro place ⟨way, rfl⟩ ⟨d, hd, hpre⟩
        exact not_prefix_of_earlier hl hd way hpre
    · rintro halt s'' ⟨stop, hhalt, hstuck⟩
      exact ⟨stop, hhalt, hstuck.of_entry hs.regular hl hgone⟩

theorem refusing_emptyDirectory_vacant (hvacant : Vacant s.nodes path.components) :
    Ensures (Refuses t) (emptyDirectory opts deleteChild path) s (fun _ s' => s' = s)
      (fun _ _ => False) := by
  obtain ⟨n, hn, hlike, -⟩ := hvacant.node
  have hentries : s.nodes.entriesOf path = [] := by
    apply List.eq_nil_iff_forall_not_mem.mpr
    intro e he
    obtain ⟨b, m, hm, -⟩ := Tree.mem_entriesOf.mp he
    rw [hvacant.empty _ (by simp)] at hm
    cases hm
  have hk : n.kind ≠ .file := by
    intro hk
    simp [Node.isDirectoryLike, hk] at hlike
  unfold emptyDirectory
  rw [Operation.ensures_bind, refusing_listEntries hn hk, hentries]
  exact ensures_pure.mpr rfl

/-- A directory is emptied; a link is not entered, and nothing is below it. -/
theorem refusing_emptyIt {descends : Bool}
    (hdelete : ∀ s path, Untried s path levels →
      Insists t bound (deleteChild path) s path.components)
    (hopts : opts.ignoreReadOnly = true) (hs : Untried s path (levels + 1))
    (hn : s.nodes.lookup path.components = some n) (hlike : n.isDirectoryLike = true)
    (hdescends : descends = false → n.isLink = true) :
    Ensures (Refuses t)
      (if descends = true then emptyDirectory opts deleteChild path else pure ()) s
      (fun _ s' => Relented t bound
        (fun place => path.components <+: place ∧ place ≠ path.components) s s')
      (GivesUp t bound path.components s) := by
  split
  · apply refusing_emptyDirectory hdelete hopts hs hn
    intro hk
    simp [Node.isDirectoryLike, hk] at hlike
  · next hno =>
    have hlink := hdescends (by simpa using hno)
    have hkind : n.kind ≠ .directory := by
      intro hk
      rw [Node.isLink_of_directory hk] at hlink
      cases hlink
    apply ensures_pure.mpr
    apply (Relented.refl s).widen
    · intro _ h
      exact h.elim
    · rintro place ⟨⟨way, rfl⟩, hne⟩ -
      exact hs.regular.eq_none_below (by rw [PathMap.branch_nil, hn]) hkind (by simpa using hne)

/-- A directory or link that was emptied is vacant. -/
theorem Relented.vacant (hn : s.nodes.lookup path.components = some n)
    (hlike : n.isDirectoryLike = true) (hmounted : n.mounted = false)
    (h : Relented t bound (fun place => path.components <+: place ∧ place ≠ path.components) s s') :
    Vacant s'.nodes path.components where
  node := ⟨n, by rw [(h.kept _ (by simp)).1, hn], hlike, hmounted⟩
  empty way hway := h.gone _ ⟨List.prefix_append _ _, by simpa using hway⟩

theorem insists_deleteNode (hrecursive : opts.recursive = true)
    (hopts : opts.ignoreReadOnly = true) (hbound : max 1 opts.retry.attempts = bound)
    (continueIfMissing : Bool) (hs : Untried s path levels) :
    Insists t bound (deleteNode opts levels continueIfMissing path) s path.components := by
  induction levels generalizing continueIfMissing path s with
  | zero =>
    obtain ⟨n, hn, -⟩ := hs.directory
    exact absurd (hs.regular.bound_pos (by rw [PathMap.branch_nil, hn])) (Nat.lt_irrefl 0)
  | succ levels ih =>
    obtain ⟨n, hn, hlike⟩ := hs.directory
    have hmounted : n.mounted = false := hs.unmounted [] n (by rw [PathMap.branch_nil, hn])
    have hentry : s.nodes.perform (.query path) = (.ok ((n.child path).entryAt path), s.nodes) :=
      Prod.ext (Tree.entry_eq_ok.mpr ⟨n, hn, rfl⟩) rfl
    have hdescribes := n.describes_entryAt path
    unfold Insists deleteNode
    rw [Operation.ensures_bind, refusing_attempt (by simp [Call.primitive]), hentry]
    generalize (n.child path).entryAt path = info at hdescribes
    dsimp only
    rw [hdescribes.isDirectory, hlike, if_neg (by simp), hdescribes.isMountPoint, hmounted,
      if_neg (by simp), hrecursive, Operation.ensures_bind]
    have hleaves : Leaves True (releaseReadOnly opts path info) ⟨s.nodes, []⟩
        (Prepared s.nodes · path n.kind n.mounted) := leaves_releaseReadOnly hopts hn info
    apply (refusing_edits edits_releaseReadOnly hleaves).mono
    · rintro _ s' ⟨hprepared, hattempts⟩
      obtain ⟨n', hn', hkind, hmounted'⟩ := hprepared.node
      have hs' : Untried s' path (levels + 1) := by
        constructor
        · exact hprepared.regular hn hs.regular
        · exact hprepared.unmounted hmounted hs.unmounted
        · rw [hattempts]
          exact hs.untried
        · exact (hprepared.isDirectoryLikeAt hn _).mpr hs.directory
      have hlike' : n'.isDirectoryLike = true := by
        rw [← hlike, Node.isDirectoryLike, Node.isDirectoryLike, hkind]
      have hdescends : (true && (!info.isReparsePoint || false)) = false → n'.isLink = true := by
        rw [hdescribes.isReparsePoint, Node.isLink, Node.isLink, hkind]
        simp
      apply refusing_removeRepeatedly rfl (by omega : 1 + (opts.retry.attempts - 1) = bound)
      · intro s₁ hvacant
        split
        · exact refusing_emptyDirectory_vacant hvacant
        · exact ensures_pure.mpr rfl
      · apply (refusing_emptyIt (fun _ _ => ih true) hopts hs' hn' hlike' hdescends).mono
        · intro _ s₁ hemptied
          have hzero : s₁.attempts path.components = 0 := by
            rw [(hemptied.kept _ (by simp)).2]
            simpa using hs'.untried []
          refine ⟨hemptied.vacant hn' hlike' (hmounted'.trans hmounted), ?_, ?_, ?_, ?_⟩
          · rw [hzero]
          · rw [hzero]
            exact zero_le
          · intro k hk hlt
            have hrelented := hemptied.remove hk hlt
            exact hrelented.of_prepared hn hprepared hattempts (List.prefix_refl _)
          · intro hrefused
            have hstuck := Stuck.self hs'.directory hrefused hemptied
            exact ⟨path, rfl, hstuck.of_prepared hn hprepared hattempts⟩
        · rintro halt s₁ ⟨stop, hhalt, hstuck⟩
          exact ⟨stop, hhalt, hstuck.of_prepared hn hprepared hattempts⟩
    · intro _ _ h
      exact h.elim

theorem insists_deleteDirectory (hrecursive : opts.recursive = true)
    (hopts : opts.ignoreReadOnly = true) (hbound : max 1 opts.retry.attempts = bound)
    (hs : Untried s path levels) :
    Insists t bound (deleteDirectory levels opts path) s path.components := by
  unfold Insists deleteDirectory
  simp only [Operation.ensures_bind, refusing_resolve, refusing_note]
  exact insists_deleteNode hrecursive hopts hbound opts.continueIfMissing hs

/-- A delete gave up at the first directory or link in post-order that was refused as often as the
bound. What comes before it has gone, each directory and link after one attempt more than it was
refused; what lies above it is what it was, and all else is unchanged. -/
structure GaveUpAt (m m' : Memory) (bound : Nat) (root stop : Path) : Prop where
  below : root.components <+: stop.components
  directory : m.nodes.IsDirectoryLikeAt stop.components
  refused : bound ≤ refusals m.failures stop.components
  calls : m'.callCount .removeDirectory stop = m.callCount .removeDirectory stop + bound
  first : ∀ d : Path, root.components <+: d.components → m.nodes.IsDirectoryLikeAt d.components →
    PostOrder d.components stop.components → refusals m.failures d.components < bound ∧
      m'.callCount .removeDirectory d =
        m.callCount .removeDirectory d + refusals m.failures d.components + 1
  gone : ∀ place, root.components <+: place → PostOrder place stop.components →
    m'.nodes.lookup place = none
  standing : ∀ place, place <+: stop.components →
    (m'.nodes.lookup place).map Node.kind = (m.nodes.lookup place).map Node.kind
  kept : ∀ place, ¬place <+: stop.components →
    ¬(root.components <+: place ∧ PostOrder place stop.components) →
    m'.nodes.lookup place = m.nodes.lookup place

/-- Attempts that were made since another state add to those before. -/
theorem callCount_of_attempts {base m : Memory} {d : Path} {count : ℕ∞}
    (h : (triedSince base m).attempts d.components = count) (hpos : count ≠ 0) :
    m.callCount .removeDirectory d = base.callCount .removeDirectory d + count := by
  rw [← removals_eq_callCount, ← removals_eq_callCount, ← h]
  have hlt : (triedSince base m).attempts d.components ≠ 0 := by
    intro hzero
    rw [hzero] at h
    exact hpos h.symm
  have hsum : m.removals d.components =
      base.removals d.components + (triedSince base m).attempts d.components := by
    change m.removals d.components - base.removals d.components ≠ 0 at hlt
    change _ = _ + (m.removals d.components - base.removals d.components)
    omega
  rw [hsum, Nat.cast_add]

/-- What has been removed has gone, and each directory and link was called upon once more than it
was refused. -/
theorem removed_of_relented {m m' : Memory} {root : Place}
    (h : Relented (refusals m.failures) bound (root <+: ·) ⟨m.nodes, fun _ => 0⟩
      (triedSince m m')) :
    m.nodes.Without m'.nodes root ∧
      ∀ d : Path, root <+: d.components → m.nodes.IsDirectoryLikeAt d.components →
        m'.callCount .removeDirectory d =
          m.callCount .removeDirectory d + refusals m.failures d.components + 1 := by
  constructor
  · intro place
    split
    · next hplace => exact h.gone place hplace
    · next hplace => exact (h.kept place hplace).1
  · intro d hd hlike
    rw [callCount_of_attempts (h.attempts _ hd hlike).2 (by simp), add_assoc]

/-- Where the removal got stuck, the delete gave up. -/
theorem gaveUpAt_of_stuck {m m' : Memory} {root stop : Path} (hbound : bound ≠ 0)
    (h : Stuck (refusals m.failures) bound root.components stop.components
      ⟨m.nodes, fun _ => 0⟩ (triedSince m m')) :
    GaveUpAt m m' bound root stop where
  below := h.below
  directory := h.directory
  refused := h.refused
  calls := by
    have hcalls := callCount_of_attempts (congrArg Nat.cast h.attempts)
      (Nat.cast_ne_zero.mpr hbound : (bound : ℕ∞) ≠ 0)
    exact_mod_cast hcalls
  first d hd hlike hbefore := by
    obtain ⟨hlt, hattempts⟩ := h.before _ hd hbefore hlike
    rw [callCount_of_attempts hattempts (by simp), add_assoc]
    exact ⟨hlt, rfl⟩
  gone := h.gone
  standing := h.standing
  kept place habove houtside := (h.kept place habove houtside).1

/-- Where nothing is mounted and only refusals are scripted, a recursive delete of a directory that
may clear read-only attributes succeeds exactly if every directory and link at or below the root is
refused less often than the bound, and then attempts each once more than it is refused and removes
everything. Otherwise it gives up at the first one that is refused as often as the bound. -/
theorem delete_retries_exactly (m : Memory) (listener : Listener) (levels : Nat)
    (opts : DeleteOptions) (root : Path) (hwf : m.nodes.WellFormed)
    (hunmounted : ∀ e ∈ m.nodes.entries, e.2.mounted = false) (hlevels : m.nodes.levels ≤ levels)
    (hroot : m.nodes.IsDirectoryAt root.components) (hrecursive : opts.recursive = true)
    (hopts : opts.ignoreReadOnly = true) (hrefusals : ∀ f ∈ m.failures, IsRefusal f) :
    let run := m.runs listener (deleteDirectory levels opts root)
    let bound := max 1 opts.retry.attempts
    (run.result = .ok () ↔ ∀ place, root.components <+: place →
      m.nodes.IsDirectoryLikeAt place → refusals m.failures place < bound) ∧
    (run.result = .ok () → m.nodes.Without run.memory.nodes root.components ∧
      ∀ d : Path, root.components <+: d.components → m.nodes.IsDirectoryLikeAt d.components →
        run.memory.callCount .removeDirectory d =
          m.callCount .removeDirectory d + refusals m.failures d.components + 1) ∧
    (run.result ≠ .ok () →
      ∃ stop, run.result = .error (.failed (.retryExhausted stop bound .directoryNotEmpty)) ∧
        GaveUpAt m run.memory bound root stop) := by
  intro run bound
  have hview : Regular (m.nodes.branch root.components) levels :=
    hwf.regular hlevels (hwf.ne_nil_of_directory hroot)
  have hclear : Unmounted (m.nodes.branch root.components) := by
    intro way n hn
    obtain ⟨key, hkey, -⟩ := PathMap.lookup_eq_some_iff.mp hn
    exact hunmounted _ hkey
  obtain ⟨n, hn, hk⟩ := hroot
  have huntried : Untried ⟨m.nodes, fun _ => 0⟩ root levels :=
    ⟨hview, hclear, fun _ => rfl, n, hn, Node.isDirectoryLike_of_directory hk⟩
  have hends := ends_runs_refusing listener hrefusals
    (insists_deleteDirectory hrecursive hopts rfl huntried)
  change Ends _ _ run.result (triedSince m run.memory) at hends
  cases hresult : run.result with
  | ok _ =>
    rw [hresult] at hends
    refine ⟨⟨fun _ place hplace hlike => (hends.attempts place hplace hlike).1, fun _ => rfl⟩, ?_,
      fun hne => absurd rfl hne⟩
    intro _
    exact removed_of_relented hends
  | error halt =>
    rw [hresult] at hends
    obtain ⟨stop, rfl, hstuck⟩ := hends
    refine ⟨⟨fun hok => (nomatch hok), fun hall => ?_⟩, fun hok => (nomatch hok), fun _ => ?_⟩
    · have hlt := hall _ hstuck.below hstuck.directory
      exact absurd hstuck.refused hlt.not_ge
    · exact ⟨stop, rfl, gaveUpAt_of_stuck (by simp [bound]) hstuck⟩

/-- A directory gives in at the second attempt, and then the root never does. -/
theorem delete_retries_exactly_refused :
    let m : Memory := { (new.addFile "/r/a/f" 3).addLink "/r/l" true with
      failures := [⟨.removeDirectory, "/r/a", .directoryNotEmpty, some 1⟩,
        ⟨.removeDirectory, "/r", .directoryNotEmpty, none⟩] }
    let opts : DeleteOptions := { recursive := true, ignoreReadOnly := true, retry := ⟨2, 0⟩ }
    let run := m.runs {} (deleteDirectory m.levels opts "/r")
    ∃ stop, run.result = .error (.failed (.retryExhausted stop 2 .directoryNotEmpty)) ∧
      GaveUpAt m run.memory 2 "/r" stop := by
  intro m opts run
  obtain ⟨hiff, -, hgives⟩ := delete_retries_exactly m {} m.levels opts "/r" (by decide) (by decide)
    (Nat.le_refl _) ⟨_, rfl, rfl⟩ rfl rfl (by decide)
  apply hgives
  intro hok
  have hlt := hiff.mp hok (Path.components "/r") (List.prefix_refl _) ⟨_, rfl, rfl⟩
  have hforever : refusals m.failures (Path.components "/r") = ⊤ := by
    simp [m, refusals_cons]
  rw [hforever] at hlt
  exact absurd hlt not_top_lt

end Memory

end TreeOps
