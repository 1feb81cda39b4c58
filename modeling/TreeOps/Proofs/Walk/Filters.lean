import TreeOps.Proofs.Walk.Lazy

/-!
# Filters of a walk

The pattern and the kinds of entries that are asked for only take entries out of what is yielded.
By recursion this is plain: a filter decides whether an entry is yielded and nothing else, so two
walks through the same directories ask the same questions and get the same answers, and an error
that ends one of them ends the other. A walker that drops an entry steps on within one call, one
that yields it waits to be asked again; drained to the end the two have done the same.
-/

namespace TreeOps

variable {α β σ : Type} {h : Handler σ}

/-- Two stars on their own match every name. -/
theorem Pattern.accepts_twoStars (name : String) : Pattern.accepts "**" name = true := by
  have htokens : Pattern.tokens "**" = [.treeAbove] := by decide
  rw [Pattern.accepts, Pattern.matchTokens, htokens]
  rfl

namespace Happening

/-- Whether something still happens when only some entries are yielded. -/
def isKept (keep : Entry → Bool) : Happening → Bool
  | yielded (.ok e) => keep e
  | _ => true

@[simp] theorem filter_asked (keep : Entry → Bool) (events : List Event) :
    (events.map asked).filter (isKept keep) = events.map asked := by
  simp [List.filter_eq_self, isKept]

@[simp] theorem upTo_none (happenings : List Happening) : upTo none happenings = happenings := by
  induction happenings with
  | nil => rfl
  | cons happening rest ih => cases happening <;> simp [upTo, ih]

@[simp] theorem filterMap_event_filter (keep : Entry → Bool) (happenings : List Happening) :
    (happenings.filter (isKept keep)).filterMap event? = happenings.filterMap event? := by
  rw [List.filterMap_filter]
  congr 1
  funext happening
  cases happening with
  | asked event => rfl
  | yielded item => exact ite_self none

/-- What is yielded is what is left of the items. -/
theorem filterMap_item_filter (keep : Entry → Bool) (happenings : List Happening) :
    (happenings.filter (isKept keep)).filterMap item? =
      (happenings.filterMap item?).filter fun item => isKept keep (.yielded item) := by
  rw [List.filterMap_filter, List.filter_filterMap]
  congr 1
  funext happening
  cases happening with
  | asked event => rfl
  | yielded item => cases hkept : isKept keep (.yielded item) <;> simp [item?, Option.filter, hkept]

end Happening

namespace Account

/-- What is asked, without the notes that are left. -/
def asked (a : Account α σ) : List Event :=
  (a.happenings.filterMap Happening.event?).filter (·.note?.isNone)

/-- The same with only some of the entries yielded. -/
def filtered (keep : Entry → Bool) (a : Account α σ) : Account α σ :=
  { a with happenings := a.happenings.filter (Happening.isKept keep) }

@[simp] theorem after_nil (a : Account α σ) : a.after [] = a := rfl

@[simp] theorem filtered_after (keep : Entry → Bool) (before : List Happening) (a : Account α σ) :
    (a.after before).filtered keep =
      (a.filtered keep).after (before.filter (Happening.isKept keep)) := by
  simp [filtered, after]

/-- What is asked does not depend on what is yielded. -/
theorem asked_filtered (keep : Entry → Bool) (a : Account α σ) :
    (a.filtered keep).asked = a.asked := by
  rw [asked, filtered, Happening.filterMap_event_filter]
  rfl

end Account

/-- One generator does what another does, with only some of the entries yielded. -/
def Selects (h : Handler σ) (keep : Entry → Bool) (chosen whole : Generator α) : Prop :=
  ∀ s, chosen.run h s = (whole.run h s).filtered keep

namespace Selects

variable {keep : Entry → Bool}

theorem lift (p : Program α) : Selects h keep (Generator.lift p) (Generator.lift p) := by
  intro s
  rw [Generator.run_lift, Account.filtered, Happening.filter_asked]

theorem pure (a : α) : Selects h keep (Pure.pure a) (Pure.pure a) := lift (.done a)

theorem bind {chosen whole : Generator α} {f f' : α → Generator β}
    (hg : Selects h keep chosen whole) (hf : ∀ a, Selects h keep (f a) (f' a)) :
    Selects h keep (chosen >>= f) (whole >>= f') := by
  intro s
  rw [Generator.run_bind, Generator.run_bind, hg s, Account.filtered_after, hf _ _]
  rfl

/-- An error is never dropped. -/
theorem error (e : TreeError) :
    Selects h keep (Generator.emit (.error e)) (Generator.emit (.error e)) :=
  fun _ => rfl

/-- An entry is yielded if it is asked for. -/
theorem entry (e : Entry) {rest rest' : Generator α} (hrest : Selects h keep rest rest') :
    Selects h keep (if keep e then Generator.emit (.ok e) >>= fun _ => rest else rest)
      (Generator.emit (.ok e) >>= fun _ => rest') := by
  intro s
  rw [Generator.run_bind, Account.filtered_after]
  cases hkeep : keep e with
  | true =>
    rw [if_pos rfl, Generator.run_bind, hrest]
    simp [Happening.isKept, hkeep]
  | false =>
    rw [if_neg Bool.false_ne_true, hrest]
    simp [Happening.isKept, hkeep]

end Selects

namespace Traversal

/-- A traversal that yields other entries on the same way. -/
abbrev yielding (t : Traversal) (pattern : String) (files folders : Bool) : Traversal :=
  { t with pattern, includeFiles := files, includeFolders := folders }

variable {t : Traversal} {pattern : String} {files folders : Bool}

theorem selects_visitEach (hall : ∀ e, t.yields e = true) {below below' : Path → Generator Ending}
    (hbelow : ∀ dir, Selects h (t.yielding pattern files folders).yields (below dir) (below' dir))
    (entries : List Entry) :
    let u := t.yielding pattern files folders
    Selects h u.yields (u.visitEach below entries) (t.visitEach below' entries) := by
  intro u
  induction entries with
  | nil => exact .pure _
  | cons e entries ih =>
    rw [visitEach, visitEach, if_pos (hall e)]
    refine .entry e (.bind ?_ fun ending => ?_)
    · change Selects h _ (if t.enters e then below e.path else pure .through)
        (if t.enters e then below' e.path else pure .through)
      split
      · exact hbelow e.path
      · exact .pure _
    · cases ending with
      | through => exact ih
      | stopped => exact .pure _
      | tooDeep => exact .pure _

/-- A walk goes the same way whatever it yields. -/
theorem selects_visit (hall : ∀ e, t.yields e = true) (levels : Nat) (dir : Path) :
    let u := t.yielding pattern files folders
    Selects h u.yields (u.visit levels dir) (t.visit levels dir) := by
  intro u
  induction levels generalizing dir with
  | zero => exact .pure _
  | succ levels ih =>
    rw [visit, visit]
    refine .bind (.lift _) fun listed => ?_
    cases listed with
    | ok children => exact selects_visitEach hall ih _
    | error e =>
      refine .bind ?_ fun skipped => ?_
      · change Selects h _ (t.tolerated dir e) (t.tolerated dir e)
        rw [tolerated_eq_lift ⟨t, none, [], false⟩ dir e]
        exact .lift _
      · split
        · exact .bind (.lift _) fun _ => .pure _
        · exact .bind (.lift _) fun _ => .bind (.error _) fun _ => .pure _

end Traversal

/-! ### The error that ends a walk -/

/-- What is yielded: entries, and behind them the error that ended the walk, if one did. -/
structure Account.Tells (a : Account Ending σ) (entries : List Entry) (error : Option TreeError) :
    Prop where
  items : a.happenings.filterMap Happening.item? = entries.map .ok ++ (error.map .error).toList
  through : a.value = .through → error = none

namespace Account

variable {a : Account Ending σ} {entries : List Entry} {error : Option TreeError}

/-- Nothing was yielded, and no error either. -/
theorem tells_nothing {happenings : List Happening} {ending : Ending} {s : σ}
    (h : happenings.filterMap Happening.item? = []) :
    (Account.mk happenings ending s).Tells [] none :=
  ⟨h, fun _ => rfl⟩

/-- Entries that were yielded before come first. -/
theorem Tells.after (h : a.Tells entries error) {before : List Happening} (earlier : List Entry)
    (hbefore : before.filterMap Happening.item? = earlier.map .ok) :
    (a.after before).Tells (earlier ++ entries) error := by
  refine ⟨?_, h.through⟩
  rw [Account.after, List.filterMap_append, hbefore, h.items, List.map_append, List.append_assoc]

/-- Of the entries some are left, of the error nothing is taken away. -/
theorem Tells.filtered (h : a.Tells entries error) (keep : Entry → Bool) :
    (a.filtered keep).Tells (entries.filter keep) error := by
  refine ⟨?_, h.through⟩
  have hentries : (fun item => Happening.isKept keep (.yielded item)) ∘ Except.ok = keep := rfl
  rw [Account.filtered, Happening.filterMap_item_filter, h.items, List.filter_append,
    List.filter_map, hentries]
  cases error <;> rfl

end Account

namespace Traversal

variable {t : Traversal}

/-- What a program asks yields nothing. -/
theorem exists_tells_lift (p : Program β) {f : β → Generator Ending}
    (hf : ∀ b s, ∃ entries error, ((f b).run h s).Tells entries error) (s : σ) :
    ∃ entries error, ((Generator.lift p >>= f).run h s).Tells entries error := by
  rw [Generator.run_bind, Generator.run_lift]
  obtain ⟨entries, error, htold⟩ := hf (p.run h s).1 (p.run h s).2
  exact ⟨_, _, htold.after [] (Happening.filterMap_item_asked _)⟩

/-- What goes on only after everything has been walked through yields no second error. -/
theorem exists_tells_bind {g : Generator Ending} {f : Ending → Generator Ending} {s : σ}
    (hfirst : ∃ told error, (g.run h s).Tells told error)
    (hthen : ∀ s, ∃ told error, ((f .through).run h s).Tells told error)
    (hstopped : f .stopped = pure .stopped) (hdeep : f .tooDeep = pure .tooDeep) :
    ∃ told error, ((g >>= f).run h s).Tells told error := by
  obtain ⟨told, error, htold⟩ := hfirst
  rw [Generator.run_bind]
  generalize g.run h s = a at htold
  obtain ⟨happenings, ending, s'⟩ := a
  cases ending with
  | through =>
    obtain ⟨later, error', hlater⟩ := hthen s'
    obtain rfl := htold.through rfl
    exact ⟨_, _, hlater.after told (htold.items.trans (List.append_nil _))⟩
  | stopped => exact ⟨told, error, by simpa [hstopped] using htold⟩
  | tooDeep => exact ⟨told, error, by simpa [hdeep] using htold⟩

theorem exists_tells_emit {e : Entry} {g : Generator Ending} {s : σ}
    (h' : ∃ told error, (g.run h s).Tells told error) :
    ∃ told error, ((Generator.emit (.ok e) >>= fun _ => g).run h s).Tells told error := by
  obtain ⟨told, error, htold⟩ := h'
  have hyielded : [Happening.yielded (.ok e)].filterMap Happening.item? = [e].map .ok := rfl
  exact ⟨_, _, htold.after [e] hyielded⟩

theorem exists_tells_visitEach {below : Path → Generator Ending}
    (hbelow : ∀ dir s, ∃ entries error, ((below dir).run h s).Tells entries error)
    (entries : List Entry) (s : σ) :
    ∃ told error, ((t.visitEach below entries).run h s).Tells told error := by
  induction entries generalizing s with
  | nil => exact ⟨[], none, Account.tells_nothing rfl⟩
  | cons e entries ih =>
    have hentry : ∃ told error, ((t.visitEntry below e).run h s).Tells told error := by
      unfold visitEntry
      split
      · exact hbelow e.path s
      · exact ⟨[], none, Account.tells_nothing rfl⟩
    rw [visitEach]
    split
    · exact exists_tells_emit (exists_tells_bind hentry ih rfl rfl)
    · exact exists_tells_bind hentry ih rfl rfl

/-- A walk yields entries and at most one error, which is the last that it yields. -/
theorem exists_tells_visit (t : Traversal) (levels : Nat) (dir : Path) (s : σ) :
    ∃ entries error, ((t.visit levels dir).run h s).Tells entries error := by
  induction levels generalizing dir s with
  | zero => exact ⟨[], none, Account.tells_nothing rfl⟩
  | succ levels ih =>
    rw [visit]
    refine exists_tells_lift _ (fun listed s => ?_) s
    cases listed with
    | ok children => exact exists_tells_visitEach ih _ s
    | error e =>
      change ∃ entries error, (Generator.run h (t.tolerated dir e >>= _) s).Tells entries error
      rw [tolerated_eq_lift ⟨t, none, [], false⟩ dir e]
      refine exists_tells_lift _ (fun skipped s => ?_) s
      split
      · exact exists_tells_lift _ (fun _ _ => ⟨[], none, Account.tells_nothing rfl⟩) s
      · exact exists_tells_lift _ (fun _ _ => ⟨[], some _, rfl, by simp⟩) s

end Traversal

/-! ### Draining -/

/-- Draining a walker and collecting all of its items ends in one state. -/
theorem Walker.run_collect_none (budget rounds : Nat) (w : Walker) (s : σ) :
    ((w.collect budget none rounds).run h s).2 = ((w.drain budget rounds).run h s).state := by
  induction rounds generalizing w s with
  | zero => rfl
  | succ rounds ih =>
    have hsome : (none : Option Nat) ≠ some 0 := nofun
    rw [collect_succ budget rounds hsome, drain_succ, draw, Program.run_bind, Generator.run_bind,
      Generator.run_lift]
    generalize (w.next budget).run h s = r
    obtain ⟨⟨turn, w₁⟩, s₁⟩ := r
    cases turn with
    | yielded item => simpa [Program.run_bind, Account.after] using ih w₁ s₁
    | moved => rfl
    | ended => rfl

/-- A walk from its beginning until there is nothing more to yield, with a journal of all that is
asked. `budget` and `rounds` bound the steps to an item and the number of items. -/
def Traversal.drained (t : Traversal) (h : Handler σ) (budget rounds : Nat) (s : σ) :
    Walker.Collected × σ × List Event :=
  Program.runRecorded h (openWalk t >>= fun w => w.collect budget none rounds) s

/-- What becomes of a walk that is drained. The notes that it leaves are not looked at. -/
structure Drains (run : Walker.Collected × σ × List Event) (entries : List Entry)
    (error : Option TreeError) (s : σ) (asked : List Event) : Prop where
  ended : run.1.last = .ended
  items : run.1.items = entries.map .ok ++ (error.map .error).toList
  state : run.2.1 = s
  asked : run.2.2.filter (·.note?.isNone) = asked

namespace Memory

variable {m : Memory} {listener : Listener} {t : Traversal} {budget rounds : Nat}

/-- Drained, a walk does what the recursion does that it follows. -/
theorem drains_of_follows {visited : Account Ending Memory} {entries : List Entry}
    {error : Option TreeError}
    (hfollows : Follows (fileSystem.handler listener) (Walker.start t) m budget rounds visited)
    (htold : visited.Tells entries error) :
    Drains (t.drained (fileSystem.handler listener) budget rounds m) entries error visited.state
      (⟨.resolve t.root, t.root⟩ :: visited.asked) := by
  have hcollected := hfollows.collected none
  have hstate := Walker.run_collect_none (h := fileSystem.handler listener) budget rounds
    (Walker.start t) m
  have hopened : (openWalk t).run (fileSystem.handler listener) m = (Walker.start t, m) := rfl
  rw [Program.runRecorded_eq] at hcollected
  rw [Traversal.drained, Program.runRecorded_eq, Program.run_bind, Program.history_bind, hopened]
  refine ⟨hcollected.ends rfl, ?_, ?_, ?_⟩
  · rw [← htold.items, ← Happening.upTo_none visited.happenings]
    exact hcollected.items
  · rw [hstate, hfollows.drained]
  · have hjournal := hcollected.journal
    rw [Happening.upTo_none] at hjournal
    rw [List.map_append, List.filter_append, Account.asked, ← hjournal]
    rfl

/-- Drained, a walk does what a recursion does that yields everything, and yields what it asks for.
-/
theorem drains_of_follows_filtered {visited : Account Ending Memory} {entries : List Entry}
    {error : Option TreeError}
    (hfollows : Follows (fileSystem.handler listener) (Walker.start t) m budget rounds
      (visited.filtered t.withKinds.yields))
    (htold : visited.Tells entries error) :
    Drains (t.drained (fileSystem.handler listener) budget rounds m)
      (entries.filter t.withKinds.yields) error visited.state
      (⟨.resolve t.root, t.root⟩ :: visited.asked) := by
  have hdrains := drains_of_follows hfollows (htold.filtered _)
  rwa [Account.asked_filtered] at hdrains

/-- The walks that differ in what they yield follow one recursion. -/
theorem follows_yielding (m : Memory) (listener : Listener) {whole : Traversal}
    (hall : ∀ e, whole.yields e = true) (pattern : String) (files folders : Bool) :
    let h := fileSystem.handler listener
    let u := whole.yielding pattern files folders
    ∃ bound, ∀ levels budget rounds, bound ≤ levels → bound ≤ budget → bound ≤ rounds →
      Follows h (Walker.start u) m budget rounds
        (((whole.visit levels whole.root).run h m).filtered u.withKinds.yields) := by
  intro h u
  obtain ⟨files', folders', hkinds⟩ :
      ∃ files' folders', u.withKinds = whole.yielding pattern files' folders' := by
    unfold Traversal.withKinds
    split <;> exact ⟨_, _, rfl⟩
  obtain ⟨bound, hbound⟩ := follows_start (finiteBelow m listener u.withKinds u.root)
  refine ⟨bound, fun levels budget rounds hlevels hbudget hrounds => ?_⟩
  have hfollows := hbound levels budget rounds hlevels hbudget hrounds
  rw [hkinds] at hfollows ⊢
  rwa [Traversal.selects_visit hall] at hfollows

/-- The pattern and the kinds of entries that are asked for choose among the entries of the walk
that yields everything. They change no call on the file system, no question to the error filter,
no failure that is used up and not the error that ends the walk. -/
theorem filters_choose_among_yielded (m : Memory) (listener : Listener) (t : Traversal)
    (pattern : String) (files folders : Bool) (everything : String)
    (heverything : ∀ name, Pattern.accepts everything name = true) :
    let u := t.yielding pattern files folders
    let whole := t.yielding everything true true
    ∃ entries error m' asked bound, ∀ budget rounds, bound ≤ budget → bound ≤ rounds →
      let drained (t : Traversal) := t.drained (fileSystem.handler listener) budget rounds m
      Drains (drained whole) entries error m' asked ∧
        Drains (drained t) (entries.filter t.withKinds.yields) error m' asked ∧
        Drains (drained u) (entries.filter u.withKinds.yields) error m' asked := by
  intro u whole
  have hall : ∀ e, whole.yields e = true := by
    intro e
    rw [Traversal.yields, heverything]
    simp [whole]
  obtain ⟨bound₁, hwhole⟩ := follows_yielding m listener hall everything true true
  obtain ⟨bound₂, ht⟩ := follows_yielding m listener hall t.pattern t.includeFiles t.includeFolders
  obtain ⟨bound₃, hu⟩ := follows_yielding m listener hall pattern files folders
  let levels := max bound₁ (max bound₂ bound₃)
  let visited := (whole.visit levels whole.root).run (fileSystem.handler listener) m
  obtain ⟨entries, error, htold⟩ : ∃ entries error, visited.Tells entries error :=
    whole.exists_tells_visit levels whole.root m
  have hentries : entries.filter whole.withKinds.yields = entries :=
    List.filter_eq_self.mpr fun e _ => hall e
  refine ⟨entries, error, visited.state, ⟨.resolve t.root, t.root⟩ :: visited.asked, levels,
    fun budget rounds hbudget hrounds => ⟨?_, ?_, ?_⟩⟩
  · have hdrains := drains_of_follows_filtered
      (hwhole levels budget rounds (by omega) (by omega) (by omega)) htold
    rw [← hentries]
    exact hdrains
  · exact drains_of_follows_filtered
      (ht levels budget rounds (by omega) (by omega) (by omega)) htold
  · exact drains_of_follows_filtered
      (hu levels budget rounds (by omega) (by omega) (by omega)) htold

/-- One directory cannot be listed, which ends both walks; of what comes before it one yields the
files whose names end in `x`, the other the directories. -/
theorem filters_choose_among_yielded_failing :
    let m := (((new.addFile "/r/a/x" 1).addFile "/r/a/y" 1).addFile "/r/b/x" 1).addFailure
      ⟨.list, "/r/b", .accessDenied, none⟩
    let t : Traversal := { root := "/r", recursive := true, pattern := "*x", includeFiles := true }
    let u := t.yielding "*" false true
    let whole := t.yielding "**" true true
    (∀ name, Pattern.accepts "**" name = true) ∧
      ∃ entries error m' asked bound, ∀ budget rounds, bound ≤ budget → bound ≤ rounds →
        let drained (t : Traversal) := t.drained (fileSystem.handler {}) budget rounds m
        Drains (drained whole) entries error m' asked ∧
          Drains (drained t) (entries.filter t.withKinds.yields) error m' asked ∧
          Drains (drained u) (entries.filter u.withKinds.yields) error m' asked :=
  ⟨Pattern.accepts_twoStars,
    filters_choose_among_yielded _ {}
      { root := "/r", recursive := true, pattern := "*x", includeFiles := true } "*" false true "**"
      Pattern.accepts_twoStars⟩

end Memory

end TreeOps
