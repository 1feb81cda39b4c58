import TreeOps.Proofs.Memory.Keeps
import TreeOps.Proofs.Walk.Recursive

/-!
# The walker is the recursion

A walker keeps the directory to be listed next and the listings that are partly used up. That is
all of a walk by recursion that is still to come: the directory, and the calls that wait for it. So
a walker takes its steps to where the recursion comes out of the directory, with the stack as it
was, and does on the way what the recursion does. This holds for every handler, whatever it answers
and however its state changes, as long as the listings form a finite tree.

A consumer that stops early has seen a beginning of this and nothing more: a directory is listed
only when an item is asked for after its own.
-/

namespace TreeOps

/-- The requests that a walk makes below its root. -/
def Traversal.Requests (t : Traversal) : Request → Prop
  | .call tx c => tx = t.transaction ∧ ∃ dir, c = .list dir
  | .consult .. | .note _ => True
  | _ => False

/-- The states that a walk can come to. -/
inductive Meets {σ : Type} (h : Handler σ) (t : Traversal) (s : σ) : σ → Prop
  | start : Meets h t s s
  | after {s' : σ} (r : Request) : Meets h t s s' → t.Requests r → Meets h t s (h r s').2

/-- Below a directory the listings form a finite tree, whenever they are made during a walk. -/
inductive FiniteBelow {σ : Type} (h : Handler σ) (t : Traversal) (s : σ) : Path → Prop
  | intro {dir : Path}
      (listed : ∀ s' children, Meets h t s s' →
        (h (.call t.transaction (.list dir)) s').1 = .ok children →
        ∀ e ∈ entriesIn dir children, t.enters e = true → FiniteBelow h t s e.path) :
      FiniteBelow h t s dir

/-- What a turn yields. -/
def Turn.told : Turn → List Happening
  | .yielded item => [.yielded item]
  | _ => []

namespace Program

variable {α σ : Type}

/-- What happens in the run of a program. -/
def happenings (h : Handler σ) (p : Program α) (s : σ) : List Happening :=
  ((p.history h s).map Prod.fst).map .asked

end Program

namespace Walker

variable {σ : Type} {h : Handler σ} {s s' s'' : σ} {w w' w'' : Walker}

/-- Some number of steps leads from one walker to another. -/
inductive Reaches (h : Handler σ) : Walker → σ → List Happening → Walker → σ → Prop
  | here {w : Walker} {s : σ} : Reaches h w s [] w s
  | step {w w' w'' : Walker} {s s' s'' : σ} {turn : Turn} {before rest : List Happening}
      (hhappenings : w.step.happenings h s = before)
      (hrun : w.step.run h s = ((turn, w'), s')) (hrest : Reaches h w' s' rest w'' s'') :
      Reaches h w s (before ++ turn.told ++ rest) w'' s''

theorem Reaches.trans {before rest : List Happening} (hfirst : Reaches h w s before w' s')
    (hrest : Reaches h w' s' rest w'' s'') : Reaches h w s (before ++ rest) w'' s'' := by
  induction hfirst with
  | here => exact hrest
  | step hhappenings hrun _ ih =>
    rw [List.append_assoc]
    exact .step hhappenings hrun (ih hrest)

/-- A walker that has finished stays as it is. -/
theorem Reaches.of_finished {happenings : List Happening} (hreach : Reaches h w s happenings w' s')
    (hfinished : w.finished = true) : happenings = [] ∧ w' = w ∧ s' = s := by
  induction hreach with
  | here => exact ⟨rfl, rfl, rfl⟩
  | step hhappenings hrun _ ih =>
    rw [Walker.step, if_pos hfinished] at hhappenings hrun
    cases hhappenings
    cases hrun
    exact ih hfinished

end Walker

/-! ### Below one directory -/

variable {σ : Type} {h : Handler σ} {t : Traversal} {s₀ s s' : σ}

/-- How a walker stands when the recursion has come out of a directory. -/
def Ending.Leaves (t : Traversal) (stack : List (List Entry)) : Ending → Walker → Prop
  | .through, w => w = ⟨t, none, stack, false⟩
  | .stopped, w => w.finished = true
  | .tooDeep, _ => False

/-- With enough levels a recursion does what a walker does from where it stands, on any stack. -/
def Matches (h : Handler σ) (t : Traversal) (s₀ : σ) (recursion : Nat → Generator Ending)
    (walker : List (List Entry) → Walker) (s : σ) : Prop :=
  ∃ happenings ending s', Meets h t s₀ s' ∧
    (∃ bound, ∀ levels, bound ≤ levels →
      (recursion levels).run h s = ⟨happenings, ending, s'⟩) ∧
    ∀ stack, ∃ w, Walker.Reaches h (walker stack) s happenings w s' ∧ ending.Leaves t stack w

/-- The walker asks about an error what the recursion asks. -/
theorem tolerated_eq_lift (w : Walker) (dir : Path) (e : NativeError) :
    w.traversal.tolerated dir e = Generator.lift (w.tolerates dir e) := by
  unfold Traversal.tolerated Walker.tolerates
  split
  · rfl
  · split <;> rfl

theorem meets_tolerates {w : Walker} {dir : Path} {e : NativeError} (hmet : Meets h t s₀ s) :
    Meets h t s₀ ((w.tolerates dir e).run h s).2 := by
  unfold Walker.tolerates
  split
  · exact hmet
  · split
    · exact hmet.after (.consult dir e) trivial
    · exact hmet

namespace Matches

/-- The walker of entries that are to be taken, on top of a stack. -/
abbrev taking (t : Traversal) (entries : List Entry) (stack : List (List Entry)) : Walker :=
  ⟨t, none, entries :: stack, false⟩

variable {recursion rest : Nat → Generator Ending} {walker walker' : List (List Entry) → Walker}

theorem through (hmet : Meets h t s₀ s) :
    Matches h t s₀ (fun _ => pure .through) (fun stack => ⟨t, none, stack, false⟩) s :=
  ⟨[], .through, s, hmet, ⟨0, fun _ _ => rfl⟩, fun _ => ⟨_, .here, rfl⟩⟩

/-- Levels that a recursion has used up may be left out. -/
theorem deeper (hmatch : Matches h t s₀ (fun levels => recursion (levels + 1)) walker s) :
    Matches h t s₀ recursion walker s := by
  obtain ⟨happenings, ending, s', hmet, ⟨bound, hbound⟩, hwalker⟩ := hmatch
  refine ⟨happenings, ending, s', hmet, ⟨bound + 1, ?_⟩, hwalker⟩
  intro levels hlevels
  obtain ⟨levels, rfl⟩ := Nat.exists_eq_add_of_le' (Nat.le_of_add_left_le hlevels)
  exact hbound levels (Nat.le_of_add_le_add_right hlevels)

theorem stopped (hmet : Meets h t s₀ s) :
    Matches h t s₀ (fun _ => pure .stopped) (fun stack => ⟨t, none, stack, true⟩) s :=
  ⟨[], .stopped, s, hmet, ⟨0, fun _ _ => rfl⟩, fun _ => ⟨_, .here, rfl⟩⟩

/-- Take one step first. -/
theorem step (turn : Turn) (before : List Happening) {recursion' : Nat → Generator Ending}
    (hstep : ∀ stack, (walker' stack).step.happenings h s = before ∧
      (walker' stack).step.run h s = ((turn, walker stack), s'))
    (hrun : ∀ levels, (recursion' levels).run h s =
      ((recursion levels).run h s').after (before ++ turn.told))
    (hmatch : Matches h t s₀ recursion walker s') : Matches h t s₀ recursion' walker' s := by
  obtain ⟨happenings, ending, s'', hmet, ⟨bound, hbound⟩, hwalker⟩ := hmatch
  refine ⟨before ++ turn.told ++ happenings, ending, s'', hmet, ⟨bound, ?_⟩, ?_⟩
  · intro levels hlevels
    rw [hrun, hbound levels hlevels, Account.after_mk]
  · intro stack
    obtain ⟨w, hreach, hleaves⟩ := hwalker stack
    obtain ⟨hhappenings, hturn⟩ := hstep stack
    exact ⟨w, .step hhappenings hturn hreach, hleaves⟩

/-- Go on with further entries, unless the walk is over. -/
theorem andThen {entries : List Entry} (hfirst : Matches h t s₀ recursion walker s)
    (hrest : ∀ s', Meets h t s₀ s' → Matches h t s₀ rest (taking t entries) s') :
    Matches h t s₀
      (fun levels => do
        match ← recursion levels with
        | .through => rest levels
        | ending => return ending)
      (fun stack => walker (entries :: stack)) s := by
  obtain ⟨happenings, ending, s', hmet, ⟨bound, hbound⟩, hwalker⟩ := hfirst
  cases ending with
  | through =>
    obtain ⟨happenings', ending, s'', hmet', ⟨bound', hbound'⟩, hwalker'⟩ := hrest s' hmet
    refine ⟨happenings ++ happenings', ending, s'', hmet', ⟨max bound bound', ?_⟩, ?_⟩
    · intro levels hlevels
      rw [Generator.run_bind, hbound levels (by omega), hbound' levels (by omega),
        Account.after_mk]
    · intro stack
      obtain ⟨w, hreach, rfl⟩ := hwalker (entries :: stack)
      obtain ⟨w', hreach', hleaves⟩ := hwalker' stack
      exact ⟨w', hreach.trans hreach', hleaves⟩
  | stopped =>
    refine ⟨happenings, .stopped, s', hmet, ⟨bound, ?_⟩, ?_⟩
    · intro levels hlevels
      rw [Generator.run_bind, hbound levels hlevels]
      exact congrArg (Account.mk · _ _) (List.append_nil _)
    · intro stack
      exact hwalker (entries :: stack)
  | tooDeep =>
    obtain ⟨w, -, hleaves⟩ := hwalker []
    exact hleaves.elim

/-- The entries of a listing are taken in turn. -/
theorem visitEach (below : Nat → Path → Generator Ending) (entries : List Entry)
    (hbelow : ∀ e ∈ entries, t.enters e = true → ∀ s, Meets h t s₀ s →
      Matches h t s₀ (below · e.path) (fun stack => ⟨t, some e.path, stack, false⟩) s)
    (hmet : Meets h t s₀ s) :
    Matches h t s₀ (fun levels => t.visitEach (below levels) entries) (taking t entries) s := by
  induction entries generalizing s with
  | nil =>
    exact (through hmet).step .moved [] (fun stack => ⟨rfl, rfl⟩)
      fun levels => rfl
  | cons e entries ih =>
    have hrest : ∀ s', Meets h t s₀ s' →
        Matches h t s₀ (fun levels => t.visitEach (below levels) entries) (taking t entries) s' :=
      fun s' => ih fun d hd => hbelow d (List.mem_cons_of_mem e hd)
    have hfirst : Matches h t s₀ (fun levels => t.visitEntry (below levels) e)
        (fun stack => ⟨t, if t.enters e then some e.path else none, stack, false⟩) s := by
      by_cases henters : t.enters e = true
      · simp only [Traversal.visitEntry, if_pos henters]
        exact hbelow e List.mem_cons_self henters s hmet
      · simp only [Traversal.visitEntry, if_neg henters]
        exact through hmet
    refine (hfirst.andThen hrest).step (if t.yields e then .yielded (.ok e) else .moved) []
      (fun stack => ⟨rfl, rfl⟩) ?_
    intro levels
    rw [Traversal.visitEach]
    cases t.yields e <;> rfl

/-- A directory that cannot be listed is skipped or ends the walk. -/
theorem unlisted {dir : Path} {e : NativeError}
    (herror : (h (.call t.transaction (.list dir)) s).1 = .error e) (hmet : Meets h t s₀ s) :
    Matches h t s₀ (fun levels => t.visit (levels + 1) dir)
      (fun stack => ⟨t, some dir, stack, false⟩) s := by
  have hmet₁ := hmet.after (.call t.transaction (.list dir)) ⟨rfl, dir, rfl⟩
  obtain ⟨asking, hasking⟩ : ∃ asking : Program Bool, ∀ stack,
      Walker.tolerates ⟨t, none, stack, false⟩ dir e = asking :=
    ⟨Walker.tolerates ⟨t, none, [], false⟩ dir e, fun _ => rfl⟩
  have htolerated : t.tolerated dir e = Generator.lift asking := by
    rw [← hasking [], ← tolerated_eq_lift]
  have hmet₂ := hasking [] ▸ meets_tolerates hmet₁
  let before (n : Note) : List Happening :=
    .asked ⟨.call t.transaction (.list dir), .error e⟩ ::
      (asking.happenings h (h (.call t.transaction (.list dir)) s).2 ++ [.asked ⟨.note n, ()⟩])
  cases htolerant : (asking.run h (h (.call t.transaction (.list dir)) s).2).1 with
  | true =>
    have hmet₃ := hmet₂.after (.note (.skippingSubtree dir e.code)) trivial
    refine (through hmet₃).step .moved (before (.skippingSubtree dir e.code))
      (fun stack => ⟨?_, ?_⟩) fun levels => ?_
    · simp [Walker.step, Walker.descend, Program.happenings, Program.call, Program.note,
        Program.request, herror, hasking, htolerant, Program.history_bind, before]
    · simp [Walker.step, Walker.descend, Program.call, Program.note, Program.request, herror,
        hasking, htolerant, Program.run_bind]
    · simp [Traversal.visit, Program.happenings, Program.call, Program.note, Program.request,
        herror, htolerated, htolerant, Turn.told, before]
  | false =>
    have hmet₃ := hmet₂.after (.note (.endingWalk dir e.code)) trivial
    refine (stopped hmet₃).step (.yielded (.error (.listingFailed dir e.code)))
      (before (.endingWalk dir e.code)) (fun stack => ⟨?_, ?_⟩) fun levels => ?_
    · simp [Walker.step, Walker.descend, Program.happenings, Program.call, Program.note,
        Program.request, herror, hasking, htolerant, Program.history_bind, before]
    · simp [Walker.step, Walker.descend, Program.call, Program.note, Program.request, herror,
        hasking, htolerant, Program.run_bind]
    · simp [Traversal.visit, Program.happenings, Program.call, Program.note, Program.request,
        herror, htolerated, htolerant, Turn.told, before]

/-- What is below a directory is walked. -/
theorem visit {dir : Path} (hfinite : FiniteBelow h t s₀ dir) (hmet : Meets h t s₀ s) :
    Matches h t s₀ (t.visit · dir) (fun stack => ⟨t, some dir, stack, false⟩) s := by
  induction hfinite generalizing s with
  | @intro dir listed ih =>
    apply deeper
    cases hanswer : (h (.call t.transaction (.list dir)) s).1 with
    | ok children =>
      have hbelow := visitEach t.visit (entriesIn dir children)
        (fun e he henters s' hmet' => ih s children hmet hanswer e he henters hmet')
        (hmet.after (.call t.transaction (.list dir)) ⟨rfl, dir, rfl⟩)
      refine hbelow.step .moved [.asked ⟨.call t.transaction (.list dir), .ok children⟩]
        (fun stack => ?_) fun levels => ?_
      · simp [Walker.step, Walker.descend, Program.happenings, Program.call, Program.request,
          hanswer, taking]
      · simp [Traversal.visit, Program.call, Program.request, hanswer, Turn.told]
    | error e => exact unlisted hanswer hmet

end Matches

/-! ### Draining -/

namespace Walker

variable {w w' : Walker}

/-- What every step of a walker leaves. -/
structure Stepped (w : Walker) (r : Turn × Walker) : Prop where
  traversal : r.2.traversal = w.traversal
  ended : r.1 = .ended → r.2.finished = true
  /-- A directory that is entered is still to be listed when it is yielded. -/
  pending : ∀ e, r.1 = .yielded (.ok e) → w.traversal.enters e = true → r.2.pending = some e.path

theorem stepped_descend (w : Walker) (dir : Path) (s : σ) :
    Stepped w ((w.descend dir).run h s).1 := by
  unfold descend
  simp only [Program.run_bind]
  cases ((Program.call w.traversal.transaction (.list dir)).run h s).1 with
  | ok children => exact ⟨rfl, nofun, nofun⟩
  | error e =>
    simp only [Program.run_bind]
    split <;> exact ⟨rfl, nofun, nofun⟩

theorem stepped_takeEntry (w : Walker) : Stepped w w.takeEntry := by
  unfold takeEntry
  split
  · exact ⟨rfl, fun _ => rfl, nofun⟩
  · exact ⟨rfl, nofun, nofun⟩
  · next e entries rest _ =>
    refine ⟨rfl, ?_, ?_⟩
    · cases w.traversal.yields e <;> exact nofun
    · intro e' hyielded henters
      cases hyields : w.traversal.yields e with
      | true =>
        simp only [hyields, if_true, Turn.yielded.injEq, Except.ok.injEq] at hyielded
        subst hyielded
        exact if_pos henters
      | false => simp [hyields] at hyielded

theorem stepped_step (w : Walker) (s : σ) : Stepped w (w.step.run h s).1 := by
  unfold Walker.step
  split
  · next hfinished => exact ⟨rfl, fun _ => hfinished, nofun⟩
  · split
    · exact stepped_descend w _ s
    · exact stepped_takeEntry w

theorem stepped_next (budget : Nat) (w : Walker) (s : σ) :
    Stepped w ((w.next budget).run h s).1 := by
  induction budget generalizing w s with
  | zero => exact ⟨rfl, nofun, nofun⟩
  | succ budget ih =>
    have hstepped := stepped_step (h := h) w s
    rw [next, Program.run_bind]
    generalize w.step.run h s = r at hstepped
    obtain ⟨⟨turn, w₁⟩, s₁⟩ := r
    cases turn with
    | moved =>
      have hrest := ih w₁ s₁
      have htraversal : w₁.traversal = w.traversal := hstepped.traversal
      exact ⟨hrest.traversal.trans htraversal, hrest.ended, htraversal ▸ hrest.pending⟩
    | yielded item => exact hstepped
    | ended => exact hstepped

/-- Whether a walker has nothing more to do. -/
def IsOver (w : Walker) : Prop := w.finished = true ∨ w.pending = none ∧ w.stack = []

theorem step_of_isOver (hover : w.IsOver) :
    w.step = pure (.ended, { w with finished := true }) := by
  unfold Walker.step
  split
  · next hfinished => rw [← hfinished]
  · next hfinished =>
    obtain ⟨hpending, hstack⟩ := hover.resolve_left hfinished
    simp only [hpending, takeEntry, hstack]

/-- Take the item that a first attempt brings, and then the others. -/
def draw (budget rounds : Nat) (first : Program (Turn × Walker)) : Generator Turn := do
  match ← Generator.lift first with
  | (.yielded item, w) =>
    Generator.emit item
    w.drain budget rounds
  | (turn, _) => return turn

theorem drain_succ (budget rounds : Nat) (w : Walker) :
    w.drain budget (rounds + 1) = draw budget rounds (w.next budget) := rfl

theorem run_draw_step (budget rounds attempts : Nat) {turn : Turn} {before : List Happening}
    (hhappenings : w.step.happenings h s = before)
    (hrun : w.step.run h s = ((turn, w'), s')) :
    (draw budget rounds (w.next (attempts + 1))).run h s =
      (match turn with
      | .yielded _ => (w'.drain budget rounds).run h s'
      | .moved => (draw budget rounds (w'.next attempts)).run h s'
      | .ended => ⟨[], .ended, s'⟩).after (before ++ turn.told) := by
  subst hhappenings
  cases turn <;>
    simp [draw, next, Program.happenings, Program.run_bind, Program.history_bind, hrun, Turn.told]

/-- A walker that reaches an end is drained on the way. -/
theorem Reaches.drain {happenings : List Happening} (hreach : Reaches h w s happenings w' s')
    (hover : w'.IsOver) :
    ∃ bound, ∀ attempts budget rounds, bound ≤ attempts → bound ≤ budget → bound ≤ rounds →
      (draw budget rounds (w.next attempts)).run h s = ⟨happenings, .ended, s'⟩ := by
  induction hreach with
  | @here w s =>
    refine ⟨1, fun attempts budget rounds hattempts _ _ => ?_⟩
    obtain ⟨attempts, rfl⟩ := Nat.exists_eq_add_of_le' hattempts
    have hstep := step_of_isOver hover
    rw [run_draw_step budget rounds attempts (by rw [hstep]) (by rw [hstep])]
    rfl
  | @step w w₁ w' s s₁ s' turn before rest hhappenings hrun hrest ih =>
    obtain ⟨bound, hbound⟩ := ih hover
    refine ⟨bound + 1, fun attempts budget rounds hattempts hbudget hrounds => ?_⟩
    obtain ⟨attempts, rfl⟩ := Nat.exists_eq_add_of_le' (Nat.le_of_add_left_le hattempts)
    obtain ⟨rounds, rfl⟩ := Nat.exists_eq_add_of_le' (Nat.le_of_add_left_le hrounds)
    rw [run_draw_step budget (rounds + 1) attempts hhappenings hrun]
    cases turn with
    | yielded item =>
      simp only [drain_succ, hbound budget budget rounds (by omega) (by omega) (by omega),
        Account.after_mk]
    | moved =>
      simp only [hbound attempts budget (rounds + 1) (by omega) (by omega) (by omega),
        Account.after_mk]
    | ended =>
      have hstepped := stepped_step (h := h) w s
      rw [hrun] at hstepped
      obtain ⟨rfl, -, rfl⟩ := hrest.of_finished (hstepped.ended rfl)
      rfl

/-! ### Stopping early -/

/-- What a consumer gets that takes at most `count` items, of a walk that makes everything happen.
-/
structure Collects (count : Option Nat) (happenings : List Happening) (journal : List Event)
    (c : Collected) : Prop where
  items : c.items = (Happening.upTo count happenings).filterMap Happening.item?
  journal : journal = (Happening.upTo count happenings).filterMap Happening.event?
  ends : count = none → c.last = .ended

theorem collect_zero (budget : Nat) (count : Option Nat) (w : Walker) :
    w.collect budget count 0 = pure ⟨[], .moved, w⟩ := by
  cases count with
  | none => rfl
  | some count => cases count <;> rfl

theorem collect_succ (budget rounds : Nat) {count : Option Nat} (hcount : count ≠ some 0)
    (w : Walker) :
    w.collect budget count (rounds + 1) = do
      match ← w.next budget with
      | (.yielded item, w) =>
        let c ← w.collect budget (count.map (· - 1)) rounds
        return { c with items := item :: c.items }
      | (turn, w) => return ⟨[], turn, w⟩ := by
  cases count with
  | none => rfl
  | some count =>
    cases count with
    | zero => exact absurd rfl hcount
    | succ count => rfl

/-- An item is collected before those that come later. -/
theorem Collects.yielded {count : Option Nat} (hcount : count ≠ some 0) (events : List Event)
    (item : Except TreeError Entry) {happenings : List Happening} {journal : List Event}
    {c : Collected} (h : Collects (count.map (· - 1)) happenings journal c) :
    Collects count (events.map .asked ++ [.yielded item] ++ happenings) (events ++ journal)
      { c with items := item :: c.items } := by
  have hupTo : Happening.upTo count (events.map .asked ++ [.yielded item] ++ happenings) =
      events.map .asked ++ .yielded item :: Happening.upTo (count.map (· - 1)) happenings := by
    rw [List.append_assoc, Happening.upTo_asked hcount, List.singleton_append,
      Happening.upTo_yielded hcount]
  refine ⟨?_, ?_, ?_⟩
  · rw [hupTo, List.filterMap_append, Happening.filterMap_item_asked]
    exact congrArg (item :: ·) h.items
  · rw [hupTo, List.filterMap_append, Happening.filterMap_event_asked]
    exact congrArg (events ++ ·) h.journal
  · rintro rfl
    exact h.ends rfl

/-- Nothing is collected from a walk that is over. -/
theorem collects_ended {count : Option Nat} (hcount : count ≠ some 0) (events : List Event)
    (w : Walker) : Collects count (events.map .asked) events ⟨[], .ended, w⟩ := by
  have hupTo := Happening.upTo_asked hcount events []
  rw [Happening.upTo_nil, List.append_nil] at hupTo
  refine ⟨?_, ?_, fun _ => rfl⟩
  · rw [hupTo, Happening.filterMap_item_asked]
  · rw [hupTo, Happening.filterMap_event_asked]

/-- What a drained walker makes happen is collected up to the item that is asked for. -/
theorem collects_of_drain {budget rounds : Nat} {happenings : List Happening} (count : Option Nat)
    (hdrain : (w.drain budget rounds).run h s = ⟨happenings, .ended, s'⟩) :
    let collecting := w.collect budget count rounds
    Collects count happenings ((collecting.history h s).map Prod.fst) (collecting.run h s).1 := by
  induction rounds generalizing w s count happenings with
  | zero => cases hdrain
  | succ rounds ih =>
    by_cases hcount : count = some 0
    · subst hcount
      exact ⟨by simp [collect], by simp [collect], nofun⟩
    · rw [drain_succ, draw] at hdrain
      simp only [Generator.run_bind, Generator.run_lift] at hdrain
      simp only [collect_succ budget rounds hcount, Program.history_bind, Program.run_bind]
      generalize (w.next budget).run h s = r at hdrain ⊢
      generalize (w.next budget).history h s = events at hdrain ⊢
      obtain ⟨⟨turn, w₁⟩, s₁⟩ := r
      cases turn with
      | yielded item =>
        simp only [Generator.run_bind, Generator.run_emit, Account.after_after] at hdrain
        generalize hrest : (w₁.drain budget rounds).run h s₁ = account at hdrain
        obtain ⟨happenings', turn, s₂⟩ := account
        obtain ⟨rfl, rfl, rfl⟩ := Account.mk.inj hdrain
        simp only [Program.history_bind, Program.run_bind, Program.pure_eq, Program.history_done,
          List.append_nil, List.map_append]
        exact .yielded hcount (events.map Prod.fst) item (ih (count.map (· - 1)) hrest)
      | moved => cases hdrain
      | ended =>
        simp only [Generator.run_pure, Account.after_mk, List.append_nil] at hdrain
        obtain ⟨rfl, -, -⟩ := Account.mk.inj hdrain
        simp only [Program.pure_eq, Program.history_done, List.append_nil]
        exact collects_ended hcount (events.map Prod.fst) w₁

/-- The directory of the last entry that a consumer asks for is still to be listed. -/
theorem pending_collect (budget rounds : Nat) (count : Option Nat) (w : Walker) (s : σ)
    {e : Entry} :
    let c := ((w.collect budget count rounds).run h s).1
    (count = some 0 → c.walker = w) ∧
      (count = some c.items.length → c.items.getLast? = some (.ok e) →
        w.traversal.enters e = true → c.walker.pending = some e.path) := by
  induction rounds generalizing w s count with
  | zero =>
    rw [collect_zero]
    exact ⟨fun _ => rfl, nofun⟩
  | succ rounds ih =>
    by_cases hcount : count = some 0
    · subst hcount
      exact ⟨fun _ => rfl, nofun⟩
    · refine ⟨fun h => absurd h hcount, ?_⟩
      simp only [collect_succ budget rounds hcount, Program.run_bind]
      have hstepped := stepped_next (h := h) budget w s
      generalize (w.next budget).run h s = r at hstepped
      obtain ⟨⟨turn, w₁⟩, s₁⟩ := r
      cases turn with
      | yielded item =>
        simp only [Program.run_bind]
        obtain ⟨hstays, hpending⟩ := ih (count.map (· - 1)) w₁ s₁
        generalize (w₁.collect budget (count.map (· - 1)) rounds).run h s₁ = rest
          at hstays hpending ⊢
        intro hlength hlast henters
        simp only [Program.pure_eq, Program.run_done, List.length_cons] at hlength hlast ⊢
        subst hlength
        simp only [Option.map_some, Nat.add_sub_cancel] at hstays hpending
        cases hitems : rest.1.items with
        | nil =>
          rw [hitems, List.getLast?_singleton, Option.some.injEq] at hlast
          rw [hstays (by rw [hitems]; rfl)]
          exact hstepped.pending e (congrArg _ hlast) henters
        | cons item' items =>
          rw [List.getLast?_cons, hitems] at hlast
          have htraversal : w₁.traversal = w.traversal := hstepped.traversal
          exact hpending trivial (by rw [hitems, ← hlast]; rfl) (htraversal ▸ henters)
      | moved => exact nofun
      | ended => exact nofun

end Walker

/-! ### Walks -/

/-- A walker follows the recursion: drained it does the same in the same order, and whoever takes
only some items has seen the recursion up to the last of them. -/
structure Follows (h : Handler σ) (w : Walker) (s : σ) (budget rounds : Nat)
    (visited : Account Ending σ) : Prop where
  finishes : visited.value ≠ .tooDeep
  drained : (w.drain budget rounds).run h s = ⟨visited.happenings, .ended, visited.state⟩
  collected : ∀ count,
    let run := (w.collect budget count rounds).runRecorded h s
    Walker.Collects count visited.happenings run.2.2 run.1
  /-- The directory of the last entry asked for is still to be listed. -/
  pending : ∀ count e,
    let run := (w.collect budget count rounds).runRecorded h s
    count = some run.1.items.length → run.1.items.getLast? = some (.ok e) →
      w.traversal.enters e = true → run.1.walker.pending = some e.path

theorem follows_start (hfinite : FiniteBelow h t.withKinds s t.root) :
    ∃ bound, ∀ levels budget rounds, bound ≤ levels → bound ≤ budget → bound ≤ rounds →
      Follows h (Walker.start t) s budget rounds ((t.withKinds.visit levels t.root).run h s) := by
  obtain ⟨happenings, ending, s', -, ⟨bound, hbound⟩, hwalker⟩ := Matches.visit hfinite .start
  obtain ⟨w, hreach, hleaves⟩ := hwalker []
  have hover : w.IsOver := by
    cases ending with
    | through =>
      obtain rfl := hleaves
      exact .inr ⟨rfl, rfl⟩
    | stopped => exact .inl hleaves
    | tooDeep => exact hleaves.elim
  obtain ⟨bound', hbound'⟩ := hreach.drain hover
  refine ⟨max bound (bound' + 1), fun levels budget rounds hlevels hbudget hrounds => ?_⟩
  rw [hbound levels (by omega)]
  have hdrained : ((Walker.start t).drain budget rounds).run h s = ⟨happenings, .ended, s'⟩ := by
    have hsome : 1 ≤ rounds := by omega
    obtain ⟨rounds, rfl⟩ := Nat.exists_eq_add_of_le' hsome
    exact hbound' budget budget rounds (by omega) (by omega) (by omega)
  refine ⟨?_, hdrained, fun count => ?_, fun count e => ?_⟩
  · rintro rfl
    exact hleaves
  · rw [Program.runRecorded_eq]
    exact Walker.collects_of_drain count hdrained
  · rw [Program.runRecorded_eq]
    exact (Walker.pending_collect budget rounds count _ s).2

/-- If the listings below the root form a finite tree, the walk follows the recursion, whatever is
asked for, whatever cannot be listed, and whatever the error filter answers. -/
theorem walker_follows_recursion (h : Handler σ) (t : Traversal) (s : σ)
    (hfinite :
      let opened := (openWalk t).run h s
      FiniteBelow h opened.1.traversal opened.2 opened.1.traversal.root) :
    ∃ bound, ∀ levels budget rounds, bound ≤ levels → bound ≤ budget → bound ≤ rounds →
      let root := (h (.resolve t.root) s).1
      let opened := (openWalk t).run h s
      Follows h opened.1 opened.2 budget rounds
        (({ t with root }.withKinds.visit levels root).run h opened.2) := by
  have hroot : ∀ t : Traversal, t.withKinds.root = t.root := by
    intro t
    unfold Traversal.withKinds
    split <;> rfl
  apply follows_start (t := { t with root := (h (.resolve t.root) s).1 })
  exact hroot { t with root := (h (.resolve t.root) s).1 } ▸ hfinite

namespace Memory

variable {listener : Listener} {m m' : Memory}

/-- A walk changes no node. -/
theorem nodes_of_meets (hmeets : Meets (fileSystem.handler listener) t m m') :
    m'.nodes = m.nodes := by
  induction hmeets with
  | start => rfl
  | @after m' r _ hrequest ih =>
    cases r with
    | call tx c =>
      obtain ⟨-, dir, rfl⟩ := hrequest
      rcases m'.nodes_call (.list dir) with hnodes | hnodes
      · exact hnodes.trans ih
      · exact hnodes.trans ih
    | consult dir e => exact ih
    | note n => exact ih
    | resolve path => exact hrequest.elim
    | report progress => exact hrequest.elim
    | pause milliseconds => exact hrequest.elim

/-- What is listed has a node, and its entries lead further down. -/
theorem deeper_of_listed {dir : Path} {children : List Child} {e : Entry}
    (hlisted : (m.call (.list dir)).1 = .ok children) (he : e ∈ entriesIn dir children) :
    dir.components.length < m.nodes.levels ∧
      dir.components.length < e.path.components.length := by
  have hlisting : m.nodes.listing dir = .ok children := perform_of_call_ok hlisted
  obtain ⟨n, hn, -, -⟩ := Tree.listing_eq_ok.mp hlisting
  exact ⟨Tree.length_lt_levels hn, Tree.deeper_of_mem_entriesIn hlisting he⟩

/-- The listings of a tree are finite, also where links are followed. -/
theorem finiteBelow (m : Memory) (listener : Listener) (t : Traversal) (dir : Path) :
    FiniteBelow (fileSystem.handler listener) t m dir := by
  obtain ⟨deep, hdeep⟩ : ∃ deep, m.nodes.levels ≤ dir.components.length + deep :=
    ⟨_, Nat.le_add_left ..⟩
  induction deep generalizing dir with
  | zero =>
    refine .intro fun m' children hmeets hlisted e he _ => ?_
    rw [← nodes_of_meets hmeets] at hdeep
    obtain ⟨hlt, -⟩ := deeper_of_listed hlisted he
    omega
  | succ deep ih =>
    refine .intro fun m' children hmeets hlisted e he _ => ih e.path ?_
    obtain ⟨-, hdeeper⟩ := deeper_of_listed hlisted he
    omega

/-- Some directories of a walk cannot be listed, and the error filter accepts one of the failures.
-/
theorem walker_follows_recursion_failing :
    let m := ((((new.addFile "/r/a/x" 1).addFile "/r/b/y" 1).addFile "/r/c/z" 1).addFailure
      ⟨.list, "/r/a", .accessDenied, none⟩).addFailure ⟨.list, "/r/c", .accessDenied, none⟩
    let h := fileSystem.handler { accepts := fun dir _ => dir.same "/r/a" }
    let t : Traversal := { root := "/r", recursive := true, hasErrorFilter := true }
    FiniteBelow h t.withKinds m t.root ∧
      ∃ bound, ∀ levels budget rounds, bound ≤ levels → bound ≤ budget → bound ≤ rounds →
        Follows h (Walker.start t) m budget rounds ((t.withKinds.visit levels t.root).run h m) :=
  ⟨finiteBelow _ _ _ _,
    walker_follows_recursion _ { root := "/r", recursive := true, hasErrorFilter := true } _
      (finiteBelow _ _ _ _)⟩

end Memory

end TreeOps
