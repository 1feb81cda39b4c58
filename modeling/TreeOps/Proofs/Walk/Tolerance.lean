import TreeOps.Proofs.Walk.Filters

/-!
# Tolerated errors

A walk that ends at the first directory that cannot be listed goes the way of one that skips such
directories, up to that directory: what is asked, the answers and the failures that are used up are
the same. So it yields a beginning of what the other one yields. What a walk skips is below a
directory whose listing failed, so without failures it yields all of this as well, in its place
among the rest.
-/

namespace TreeOps

variable {σ β : Type} {h : Handler σ}

/-- The same traversal without an error filter, with errors tolerated or not. -/
abbrev Traversal.tolerating (t : Traversal) (continueOnError : Bool) : Traversal :=
  { t with continueOnError, hasErrorFilter := false }

/-! ### Up to the first error -/

namespace Account

/-- What happens where a walk ends at an error. -/
def ended (dir : Path) (code : NativeCode) : List Happening :=
  [.asked ⟨.note (.endingWalk dir code), ()⟩, .yielded (.error (.listingFailed dir code))]

/-- A walk is the other one, or it ends with an error up to which the same happens in the other.
The other does not end with an error. -/
inductive Cuts : Account Ending σ → Account Ending σ → Prop
  | same {a : Account Ending σ} : a.value ≠ .stopped → Cuts a a
  | short {before : List Happening} {dir : Path} {code : NativeCode} {s : σ}
      {a : Account Ending σ} :
      a.value ≠ .stopped → before <+: a.happenings →
        Cuts ⟨before ++ ended dir code, .stopped, s⟩ a

namespace Cuts

variable {a a' : Account Ending σ}

theorem value_ne (hcuts : Cuts a a') : a'.value ≠ .stopped := by
  cases hcuts with
  | same hvalue => exact hvalue
  | short hvalue _ => exact hvalue

theorem after (hcuts : Cuts a a') (earlier : List Happening) :
    Cuts (a.after earlier) (a'.after earlier) := by
  cases hcuts with
  | same hvalue => exact .same hvalue
  | short hvalue hle =>
    rw [after_mk, ← List.append_assoc]
    exact .short hvalue ((List.prefix_append_right_inj earlier).mpr hle)

end Cuts

/-- One walk yields and asks a beginning of what another one does, and all of it without an error.
-/
structure Begins (a a' : Account Ending σ) (entries all : List Entry) (error : Option TreeError) :
    Prop where
  yielded : entries <+: all
  asked : a.asked <+: a'.asked
  eq_of_none : error = none → a = a' ∧ entries = all

theorem ok_injective {entries all : List Entry}
    (h : entries.map (Except.ok : Entry → Except TreeError Entry) = all.map .ok) :
    entries = all :=
  (List.map_inj_right fun _ _ => Except.ok.inj).mp h

theorem error_notMem_ok (e : TreeError) (entries : List Entry) :
    Except.error e ∉ entries.map Except.ok := by
  simp

/-- Items without an error are entries. -/
theorem items_eq_iff {entries all : List Entry} {error : Option TreeError} :
    entries.map .ok ++ (error.map .error).toList =
        all.map (Except.ok : Entry → Except TreeError Entry) ↔
      error = none ∧ entries = all := by
  constructor
  · intro hitems
    cases error with
    | none => exact ⟨rfl, ok_injective ((List.append_nil _).symm.trans hitems)⟩
    | some e => exact absurd (hitems ▸ by simp) (error_notMem_ok e all)
  · rintro ⟨rfl, rfl⟩
    exact List.append_nil _

theorem Tells.items_eq {a : Account Ending σ} {all : List Entry} (htold : a.Tells all none) :
    a.happenings.filterMap Happening.item? = all.map .ok :=
  htold.items.trans (List.append_nil _)

theorem Tells.sublist {a a' : Account Ending σ} {entries all : List Entry}
    (htold : a.Tells entries none) (htold' : a'.Tells all none)
    (hitems : List.Sublist (a.happenings.filterMap Happening.item?)
      (a'.happenings.filterMap Happening.item?)) : List.Sublist entries all := by
  rw [htold.items_eq, htold'.items_eq] at hitems
  obtain ⟨part, hpart, heq⟩ := List.sublist_map_iff.mp hitems
  obtain rfl := ok_injective heq
  exact hpart

theorem Cuts.begins {a a' : Account Ending σ} {entries all : List Entry} {error : Option TreeError}
    (hcuts : Cuts a a') (htold : a.Tells entries error) (htold' : a'.Tells all none) :
    a.Begins a' entries all error := by
  cases hcuts with
  | same hvalue =>
    obtain ⟨rfl, rfl⟩ := items_eq_iff.mp (htold.items.symm.trans htold'.items_eq)
    exact ⟨List.prefix_rfl, List.prefix_rfl, fun _ => ⟨rfl, rfl⟩⟩
  | @short before dir code s a hvalue hle =>
    have hitems := htold.items
    rw [List.filterMap_append] at hitems
    cases error with
    | none =>
      have hmem : Except.error (TreeError.listingFailed dir code) ∈ entries.map Except.ok := by
        rw [← List.append_nil (entries.map _)]
        exact hitems ▸ List.mem_append_right _ (List.mem_singleton_self _)
      exact absurd hmem (error_notMem_ok _ _)
    | some e =>
      obtain ⟨hbefore, -⟩ := List.append_inj' hitems rfl
      have hyielded := hle.filterMap Happening.item?
      rw [hbefore, htold'.items_eq] at hyielded
      obtain ⟨rest, hrest⟩ := hyielded
      obtain ⟨first, others, rfl, hfirst, -⟩ := List.map_eq_append_iff.mp hrest.symm
      obtain rfl := ok_injective hfirst
      refine ⟨List.prefix_append .., ?_, nofun⟩
      rw [asked, List.filterMap_append, List.filter_append]
      have hended : ((ended dir code).filterMap Happening.event?).filter (·.note?.isNone) = [] :=
        rfl
      rw [hended, List.append_nil]
      exact (hle.filterMap Happening.event?).filter _

end Account

/-- From every state, one generator is cut short by its first error. -/
def CutsShort (h : Handler σ) (strict tolerant : Generator Ending) : Prop :=
  ∀ s, (strict.run h s).Cuts (tolerant.run h s)

namespace CutsShort

variable {g g' : Generator Ending}

theorem through : CutsShort h (pure .through) (pure .through) := fun _ => .same nofun

theorem tooDeep : CutsShort h (pure .tooDeep) (pure .tooDeep) := fun _ => .same nofun

theorem lift (p : Program β) {f f' : β → Generator Ending} (hf : ∀ b, CutsShort h (f b) (f' b)) :
    CutsShort h (Generator.lift p >>= f) (Generator.lift p >>= f') := by
  intro s
  rw [Generator.run_bind, Generator.run_bind]
  exact (hf _ _).after _

theorem emit (e : Entry) (hg : CutsShort h g g') :
    CutsShort h (Generator.emit (.ok e) >>= fun _ => g)
      (Generator.emit (.ok e) >>= fun _ => g') := by
  intro s
  rw [Generator.run_bind, Generator.run_bind]
  exact (hg _).after _

/-- What comes behind what has been walked through. -/
theorem bind {f f' : Ending → Generator Ending} (hg : CutsShort h g g')
    (hthrough : CutsShort h (f .through) (f' .through)) (hstopped : f .stopped = pure .stopped)
    (hdeep : f .tooDeep = pure .tooDeep) (hdeep' : f' .tooDeep = pure .tooDeep) :
    CutsShort h (g >>= f) (g' >>= f') := by
  intro s
  have hcuts := hg s
  rw [Generator.run_bind, Generator.run_bind]
  generalize g.run h s = a at hcuts
  generalize g'.run h s = a' at hcuts
  cases hcuts with
  | same hvalue =>
    refine Account.Cuts.after ?_ _
    cases hending : a.value with
    | through => exact hthrough a.state
    | stopped => exact absurd hending hvalue
    | tooDeep =>
      rw [hdeep, hdeep']
      exact tooDeep a.state
  | short hvalue hle =>
    rw [hstopped, Generator.run_pure, Account.after_mk, List.append_nil]
    refine .short ?_ (hle.trans (List.prefix_append ..))
    cases hending : a'.value with
    | through => exact (hthrough a'.state).value_ne
    | stopped => exact absurd hending hvalue
    | tooDeep =>
      rw [hdeep']
      exact nofun

/-- An error ends one walk and is skipped by the other. -/
theorem unlisted (dir : Path) (code : NativeCode) :
    CutsShort h
      (Generator.lift (Program.note (.endingWalk dir code)) >>= fun _ =>
        Generator.emit (.error (.listingFailed dir code)) >>= fun _ => pure .stopped)
      (Generator.lift (Program.note (.skippingSubtree dir code)) >>= fun _ => pure .through) := by
  intro s
  have hthrough : Ending.through ≠ .stopped := nofun
  exact .short hthrough List.nil_prefix

end CutsShort

namespace Traversal

variable {t : Traversal}

theorem cutsShort_visitEach {below below' : Path → Generator Ending}
    (hbelow : ∀ dir, CutsShort h (below dir) (below' dir)) (entries : List Entry) :
    CutsShort h ((t.tolerating false).visitEach below entries)
      ((t.tolerating true).visitEach below' entries) := by
  induction entries with
  | nil => exact .through
  | cons e entries ih =>
    have hentry : CutsShort h ((t.tolerating false).visitEntry below e)
        ((t.tolerating true).visitEntry below' e) := by
      change CutsShort h (if t.enters e then below e.path else pure .through)
        (if t.enters e then below' e.path else pure .through)
      split
      · exact hbelow e.path
      · exact .through
    change CutsShort h (if t.yields e then _ else _) (if t.yields e then _ else _)
    split
    · exact .emit e (hentry.bind ih rfl rfl rfl)
    · exact hentry.bind ih rfl rfl rfl

/-- A walk that does not tolerate errors is cut short by its first error. -/
theorem cutsShort_visit (levels : Nat) (dir : Path) :
    CutsShort h ((t.tolerating false).visit levels dir) ((t.tolerating true).visit levels dir) := by
  induction levels generalizing dir with
  | zero => exact .tooDeep
  | succ levels ih =>
    refine .lift (Program.call t.transaction (.list dir)) fun listed => ?_
    cases listed with
    | ok children => exact cutsShort_visitEach ih _
    | error e => exact .unlisted dir e.code

end Traversal

/-- Where errors are tolerated, there is none. -/
theorem Traversal.exists_tells_tolerating {t : Traversal} {levels : Nat} {dir : Path} {s : σ}
    (hvalue : (((t.tolerating true).visit levels dir).run h s).value ≠ .tooDeep) :
    (((t.tolerating true).visit levels dir).run h s).value = .through ∧
      ∃ entries, (((t.tolerating true).visit levels dir).run h s).Tells entries none := by
  have hcuts : CutsShort h ((t.tolerating false).visit levels dir)
    ((t.tolerating true).visit levels dir) := cutsShort_visit levels dir
  obtain ⟨entries, error, htold⟩ := (t.tolerating true).exists_tells_visit levels dir s
  cases hending : (((t.tolerating true).visit levels dir).run h s).value with
  | through => exact ⟨rfl, entries, htold.through hending ▸ htold⟩
  | stopped => exact absurd hending (hcuts s).value_ne
  | tooDeep => exact absurd hending hvalue

/-! ### Later calls -/

namespace Walker

variable {w : Walker} {s : σ}

/-- A walker that has finished asks for nothing and stays as it is. -/
theorem next_of_finished (hfinished : w.finished = true) (attempts : Nat) :
    w.next (attempts + 1) = pure (.ended, w) := by
  rw [next, step, if_pos hfinished]
  rfl

/-- A walk that ended has finished. -/
theorem finished_of_collect {budget rounds : Nat} :
    let c := ((w.collect budget none rounds).run h s).1
    c.last = .ended → c.walker.finished = true := by
  induction rounds generalizing w s with
  | zero => exact nofun
  | succ rounds ih =>
    have hsome : (none : Option Nat) ≠ some 0 := nofun
    rw [collect_succ budget rounds hsome, Program.run_bind]
    have hstepped := stepped_next (h := h) budget w s
    generalize (w.next budget).run h s = r at hstepped
    obtain ⟨⟨turn, w₁⟩, s₁⟩ := r
    cases turn with
    | yielded item =>
      simp only [Program.run_bind]
      exact ih
    | moved => exact nofun
    | ended => exact hstepped.ended

end Walker

/-- The walker that is left when a walk has been drained has finished. -/
theorem Memory.finished_of_drained {t : Traversal} {listener : Listener} {budget rounds : Nat}
    {m : Memory} :
    let run := t.drained (fileSystem.handler listener) budget rounds m
    run.1.last = .ended → run.1.walker.finished = true := by
  rw [Traversal.drained, Program.runRecorded_eq, Program.run_bind]
  exact Walker.finished_of_collect

/-! ### Without failures -/

/-- From two states that are related, one generator yields a part of what the other one yields, if
that one walks through everything. -/
def Skips (h : Handler σ) (related : σ → σ → Prop) (part whole : Generator Ending) : Prop :=
  ∀ s s', related s s' → (whole.run h s').value = .through →
    (part.run h s).value = .through ∧ related (part.run h s).state (whole.run h s').state ∧
      List.Sublist ((part.run h s).happenings.filterMap Happening.item?)
        ((whole.run h s').happenings.filterMap Happening.item?)

namespace Skips

variable {related : σ → σ → Prop} {g g' : Generator Ending}

theorem through : Skips h related (pure .through) (pure .through) :=
  fun _ _ hrelated _ => ⟨rfl, hrelated, List.Sublist.refl _⟩

theorem tooDeep : Skips h related g (pure .tooDeep) := fun _ _ _ hthrough => nomatch hthrough

theorem emit (e : Entry) (hg : Skips h related g g') :
    Skips h related (Generator.emit (.ok e) >>= fun _ => g)
      (Generator.emit (.ok e) >>= fun _ => g') := by
  intro s s' hrelated hthrough
  obtain ⟨hvalue, hafter, hitems⟩ := hg s s' hrelated hthrough
  exact ⟨hvalue, hafter, hitems.cons_cons _⟩

/-- The second yields an entry that the first does not come to. -/
theorem emit_right (e : Entry) (hg : Skips h related g g') :
    Skips h related g (Generator.emit (.ok e) >>= fun _ => g') := by
  intro s s' hrelated hthrough
  obtain ⟨hvalue, hafter, hitems⟩ := hg s s' hrelated hthrough
  exact ⟨hvalue, hafter, hitems.cons _⟩

/-- What comes behind what has been walked through. -/
theorem bind {f f' : Ending → Generator Ending} (hg : Skips h related g g')
    (hf : Skips h related (f .through) (f' .through)) (hstopped : f' .stopped = pure .stopped)
    (hdeep : f' .tooDeep = pure .tooDeep) : Skips h related (g >>= f) (g' >>= f') := by
  intro s s' hrelated hthrough
  have hfirst := hg s s' hrelated
  rw [Generator.run_bind] at hthrough ⊢
  rw [Generator.run_bind]
  generalize g.run h s = a at hfirst
  generalize g'.run h s' = a' at hfirst hthrough
  obtain ⟨happenings', ending, s₁'⟩ := a'
  cases ending with
  | through =>
    obtain ⟨hvalue, hafter, hitems⟩ := hfirst rfl
    obtain ⟨hvalue', hafter', hitems'⟩ := hf a.state s₁' hafter hthrough
    rw [hvalue]
    refine ⟨hvalue', hafter', ?_⟩
    rw [Account.after, Account.after, List.filterMap_append, List.filterMap_append]
    exact hitems.append hitems'
  | stopped =>
    rw [hstopped] at hthrough
    cases hthrough
  | tooDeep =>
    rw [hdeep] at hthrough
    cases hthrough

/-- A directory below which nothing is walked. -/
theorem visitEach_right {t : Traversal} {below : Path → Generator Ending}
    (hbelow : ∀ dir, Skips h related (pure .through) (below dir)) (entries : List Entry) :
    Skips h related (pure .through) (t.visitEach below entries) := by
  induction entries with
  | nil => exact .through
  | cons e entries ih =>
    have hentry : Skips h related (pure .through) (t.visitEntry below e) := by
      unfold Traversal.visitEntry
      split
      · exact hbelow e.path
      · exact .through
    rw [Traversal.visitEach]
    split
    · exact .emit_right e (hentry.bind ih rfl rfl)
    · exact hentry.bind ih rfl rfl

theorem visitEach {t : Traversal} {below : Path → Generator Ending}
    (hbelow : ∀ dir, Skips h related (below dir) (below dir)) (entries : List Entry) :
    Skips h related (t.visitEach below entries) (t.visitEach below entries) := by
  induction entries with
  | nil => exact .through
  | cons e entries ih =>
    have hentry : Skips h related (t.visitEntry below e) (t.visitEntry below e) := by
      unfold Traversal.visitEntry
      split
      · exact hbelow e.path
      · exact .through
    rw [Traversal.visitEach]
    split
    · exact .emit e (hentry.bind ih rfl rfl)
    · exact hentry.bind ih rfl rfl

end Skips

namespace Memory

variable {m m' : Memory} {listener : Listener} {t : Traversal} {levels : Nat} {dir : Path}

/-- Two file systems with the same nodes, the second without failures. -/
structure Calms (m m' : Memory) : Prop where
  nodes : m.nodes = m'.nodes
  calm : m'.failures = []

theorem nodes_list (m : Memory) (dir : Path) : (m.call (.list dir)).2.nodes = m.nodes :=
  (m.nodes_call (.list dir)).elim id id

theorem Calms.list_right (hcalms : Calms m m') (dir : Path) :
    Calms m (m'.call (.list dir)).2 :=
  ⟨hcalms.nodes.trans (m'.nodes_list dir).symm, (call_of_no_failures hcalms.calm _).2⟩

theorem Calms.list_left (hcalms : Calms m m') (dir : Path) :
    Calms (m.call (.list dir)).2 m' :=
  ⟨(m.nodes_list dir).trans hcalms.nodes, hcalms.calm⟩

/-- A listing that does not fail is what it is without failures. -/
theorem Calms.listed (hcalms : Calms m m') {children : List Child}
    (hlisted : (m.call (.list dir)).1 = .ok children) :
    (m'.call (.list dir)).1 = .ok children := by
  rw [result_of_no_failures hcalms.calm, ← hcalms.nodes]
  exact perform_of_call_ok hlisted

/-- A directory is walked, or it is skipped. -/
theorem run_visit_tolerating (m : Memory) (listener : Listener) (t : Traversal) (levels : Nat)
    (dir : Path) :
    ((t.tolerating true).visit (levels + 1) dir).run (fileSystem.handler listener) m =
      (match (m.call (.list dir)).1 with
        | .ok children =>
          ((t.tolerating true).visitEach ((t.tolerating true).visit levels)
            (entriesIn dir children)).run (fileSystem.handler listener) (m.call (.list dir)).2
        | .error e =>
          ⟨[.asked ⟨.note (.skippingSubtree dir e.code), ()⟩], .through,
            (m.call (.list dir)).2⟩).after
        [.asked ⟨.call t.transaction (.list dir), (m.call (.list dir)).1⟩] := by
  change (Generator.run _ (match (m.call (.list dir)).1 with
    | .ok children => _
    | .error e => _) _).after [.asked ⟨.call t.transaction (.list dir), (m.call _).1⟩] = _
  cases (m.call (.list dir)).1 <;> rfl

/-- Nothing is yielded, where another walk goes below a directory. -/
theorem skips_subtree (listener : Listener) (t : Traversal) (levels : Nat) (dir : Path) :
    Skips (fileSystem.handler listener) Calms (pure .through)
      ((t.tolerating true).visit levels dir) := by
  induction levels generalizing dir with
  | zero => exact .tooDeep
  | succ levels ih =>
    intro m m' hcalms hthrough
    rw [run_visit_tolerating] at hthrough ⊢
    have hafter := hcalms.list_right dir
    cases hlisted : (m'.call (.list dir)).1 with
    | ok children =>
      rw [hlisted] at hthrough
      exact Skips.visitEach_right ih (entriesIn dir children) m _ hafter hthrough
    | error e => exact ⟨rfl, hafter, List.Sublist.refl _⟩

/-- A walk yields a part of what it yields without failures. -/
theorem skips_visit (listener : Listener) (t : Traversal) (levels : Nat) (dir : Path) :
    Skips (fileSystem.handler listener) Calms ((t.tolerating true).visit levels dir)
      ((t.tolerating true).visit levels dir) := by
  induction levels generalizing dir with
  | zero => exact .tooDeep
  | succ levels ih =>
    intro m m' hcalms hthrough
    cases hlisted : (m.call (.list dir)).1 with
    | ok children =>
      rw [run_visit_tolerating, hcalms.listed hlisted] at hthrough
      rw [run_visit_tolerating, run_visit_tolerating, hlisted, hcalms.listed hlisted]
      exact Skips.visitEach ih (entriesIn dir children) _ _
        ((hcalms.list_left dir).list_right dir) hthrough
    | error e =>
      obtain ⟨-, hafter, hitems⟩ := skips_subtree listener t (levels + 1) dir _ m'
        (hcalms.list_left dir) hthrough
      rw [run_visit_tolerating m, hlisted]
      exact ⟨rfl, hafter, hitems⟩

/-- From some bound on, a walk with errors tolerated or not is told by the recursion. -/
theorem exists_drains_tolerating (m : Memory) (listener : Listener) (t : Traversal)
    (continueOnError : Bool) :
    ∃ bound, ∀ levels, bound ≤ levels →
      let visited := ((t.withKinds.tolerating continueOnError).visit levels t.root).run
        (fileSystem.handler listener) m
      visited.value ≠ .tooDeep ∧
        ∀ entries error, visited.Tells entries error →
          ∀ budget rounds, levels ≤ budget → levels ≤ rounds →
            Drains
              ((t.tolerating continueOnError).drained (fileSystem.handler listener) budget rounds m)
              entries error visited.state (⟨.resolve t.root, t.root⟩ :: visited.asked) := by
  have hkinds : (t.tolerating continueOnError).withKinds =
      t.withKinds.tolerating continueOnError := by
    unfold Traversal.withKinds
    split <;> rfl
  obtain ⟨bound, hfollows⟩ := follows_start (t := t.tolerating continueOnError)
    (finiteBelow m listener _ t.root)
  rw [hkinds] at hfollows
  refine ⟨bound, fun levels hlevels => ⟨?_, fun entries error htold budget rounds hb hr => ?_⟩⟩
  · exact (hfollows levels levels levels hlevels hlevels hlevels).finishes
  · exact drains_of_follows
      (hfollows levels budget rounds hlevels (Nat.le_trans hlevels hb) (Nat.le_trans hlevels hr))
      htold

/-- Tolerating errors only adds entries. A walk that tolerates them yields no error. One that does
not yields entries and at most one error behind them, and is over then. Up to that error it asks
the same, with the same answers, and what it yields is a beginning of what the other one yields;
without an error the two are the same. Where no failures are scripted, what the tolerant walk yields
is yielded as well, in the same order. -/
theorem tolerance_only_adds (m : Memory) (listener : Listener) (t : Traversal) :
    ∃ entries error m₁ asked₁ tolerated m₂ asked₂ whole m₃ asked₃ bound,
      (∀ budget rounds, bound ≤ budget → bound ≤ rounds →
        let walk (continueOnError : Bool) (m : Memory) :=
          (t.tolerating continueOnError).drained (fileSystem.handler listener) budget rounds m
        Drains (walk false m) entries error m₁ asked₁ ∧
          (∀ attempts, (walk false m).1.walker.next (attempts + 1) =
            pure (.ended, (walk false m).1.walker)) ∧
          Drains (walk true m) tolerated none m₂ asked₂ ∧
          Drains (walk true { m with failures := [] }) whole none m₃ asked₃ ∧
          ((walk false m).1.items = (walk true m).1.items ↔ error = none)) ∧
        entries <+: tolerated ∧ asked₁ <+: asked₂ ∧ (error = none → m₁ = m₂ ∧ asked₁ = asked₂) ∧
        List.Sublist tolerated whole := by
  obtain ⟨bound₁, hstrict⟩ := exists_drains_tolerating m listener t false
  obtain ⟨bound₂, htolerant⟩ := exists_drains_tolerating m listener t true
  obtain ⟨bound₃, hspared⟩ := exists_drains_tolerating { m with failures := [] } listener t true
  let levels := max bound₁ (max bound₂ bound₃)
  let h := fileSystem.handler listener
  let strict := ((t.withKinds.tolerating false).visit levels t.root).run h m
  let tolerant := ((t.withKinds.tolerating true).visit levels t.root).run h m
  let spared := ((t.withKinds.tolerating true).visit levels t.root).run h { m with failures := [] }
  obtain ⟨-, hstrict⟩ := hstrict levels (by omega)
  obtain ⟨hfinishes, htolerant⟩ := htolerant levels (by omega)
  obtain ⟨hsparedFinishes, hspared⟩ := hspared levels (by omega)
  obtain ⟨entries, error, htold⟩ : ∃ entries error, strict.Tells entries error :=
    (t.withKinds.tolerating false).exists_tells_visit levels t.root m
  obtain ⟨-, tolerated, htolerated⟩ := Traversal.exists_tells_tolerating hfinishes
  obtain ⟨hthrough, whole, hwhole⟩ := Traversal.exists_tells_tolerating hsparedFinishes
  have hbegins : strict.Begins tolerant entries tolerated error :=
    (Traversal.cutsShort_visit levels t.root m).begins htold htolerated
  refine ⟨entries, error, strict.state, ⟨.resolve t.root, t.root⟩ :: strict.asked, tolerated,
    tolerant.state, ⟨.resolve t.root, t.root⟩ :: tolerant.asked, whole, spared.state,
    ⟨.resolve t.root, t.root⟩ :: spared.asked, levels, fun budget rounds hbudget hrounds => ?_,
    hbegins.yielded, (List.prefix_append_right_inj [_]).mpr hbegins.asked, fun hnone => ?_, ?_⟩
  · have hdrains₁ := hstrict entries error htold budget rounds hbudget hrounds
    have hdrains₂ := htolerant tolerated none htolerated budget rounds hbudget hrounds
    have hdrains₃ := hspared whole none hwhole budget rounds hbudget hrounds
    have hover := Walker.next_of_finished (finished_of_drained hdrains₁.ended)
    refine ⟨hdrains₁, hover, hdrains₂, hdrains₃, ?_⟩
    rw [hdrains₁.items, hdrains₂.items, Option.map_none, Option.toList_none, List.append_nil,
      Account.items_eq_iff]
    exact ⟨fun h => h.1, fun hnone => ⟨hnone, (hbegins.eq_of_none hnone).2⟩⟩
  · rw [(hbegins.eq_of_none hnone).1]
    exact ⟨rfl, rfl⟩
  · obtain ⟨-, -, hitems⟩ := skips_visit listener t.withKinds levels t.root m
      { m with failures := [] } ⟨rfl, rfl⟩ hthrough
    exact htolerated.sublist hwhole hitems

/-- One directory cannot be listed at the first attempt. -/
theorem tolerance_only_adds_counted :
    let m := ((new.addFile "/r/a/x" 1).addFile "/r/b/x" 1).addFailure
      ⟨.list, "/r/a", .accessDenied, some 1⟩
    let t : Traversal := { root := "/r", recursive := true }
    ∃ entries error m₁ asked₁ tolerated m₂ asked₂ whole m₃ asked₃ bound,
      (∀ budget rounds, bound ≤ budget → bound ≤ rounds →
        let walk (continueOnError : Bool) (m : Memory) :=
          (t.tolerating continueOnError).drained (fileSystem.handler {}) budget rounds m
        Drains (walk false m) entries error m₁ asked₁ ∧
          (∀ attempts, (walk false m).1.walker.next (attempts + 1) =
            pure (.ended, (walk false m).1.walker)) ∧
          Drains (walk true m) tolerated none m₂ asked₂ ∧
          Drains (walk true { m with failures := [] }) whole none m₃ asked₃ ∧
          ((walk false m).1.items = (walk true m).1.items ↔ error = none)) ∧
        entries <+: tolerated ∧ asked₁ <+: asked₂ ∧ (error = none → m₁ = m₂ ∧ asked₁ = asked₂) ∧
        List.Sublist tolerated whole :=
  tolerance_only_adds _ {} { root := "/r", recursive := true }

end Memory

end TreeOps
