import TreeOps.Proofs.Program.History
import TreeOps.Walk

/-!
# Walks by recursion

A generator is a computation that also yields items along the way. With it a walk can be written as
it is explained: list the directory, then take its entries in turn, yield each one that is asked for
and go on into each one that is entered before the next. Draining a walker is a generator as well,
so the two can be compared by everything that they do, in order.
-/

namespace TreeOps

/-- A computation that asks for things and yields entries or an error on its way. -/
inductive Generator (α : Type) : Type where
  | done (value : α)
  | ask (request : Request) (next : request.Answer → Generator α)
  | yield (item : Except TreeError Entry) (rest : Generator α)

/-- One thing that a generator does. -/
inductive Happening where
  | asked (event : Event)
  | yielded (item : Except TreeError Entry)

namespace Happening

/-- The event of a request. -/
def event? : Happening → Option Event
  | asked event => some event
  | yielded _ => none

/-- The item that is yielded. -/
def item? : Happening → Option (Except TreeError Entry)
  | asked _ => none
  | yielded item => some item

/-- What has happened when a given number of items are yielded; everything if there are fewer, or
if no number is given. -/
def upTo : Option Nat → List Happening → List Happening
  | _, [] => []
  | some 0, _ :: _ => []
  | count, asked event :: rest => asked event :: upTo count rest
  | count, yielded item :: rest => yielded item :: upTo (count.map (· - 1)) rest

@[simp] theorem upTo_nil (count : Option Nat) : upTo count [] = [] := rfl

@[simp] theorem upTo_zero (happenings : List Happening) : upTo (some 0) happenings = [] := by
  cases happenings <;> rfl

theorem upTo_yielded {count : Option Nat} (hcount : count ≠ some 0)
    (item : Except TreeError Entry) (rest : List Happening) :
    upTo count (yielded item :: rest) = yielded item :: upTo (count.map (· - 1)) rest := by
  rw [upTo]
  exact hcount

theorem upTo_asked {count : Option Nat} (hcount : count ≠ some 0) (events : List Event)
    (rest : List Happening) :
    upTo count (events.map asked ++ rest) = events.map asked ++ upTo count rest := by
  induction events with
  | nil => rfl
  | cons event events ih =>
    rw [List.map_cons, List.cons_append, List.cons_append, upTo, ih]
    exact hcount

@[simp] theorem filterMap_item_asked (events : List Event) :
    (events.map asked).filterMap item? = [] := by
  simp [item?]

@[simp] theorem filterMap_event_asked (events : List Event) :
    (events.map asked).filterMap event? = events := by
  rw [List.filterMap_map]
  exact List.filterMap_some

end Happening

/-- What a run of a generator comes to. -/
structure Account (α σ : Type) where
  happenings : List Happening
  value : α
  state : σ

namespace Account

variable {α σ : Type}

/-- The same with something that happened before. -/
def after (before : List Happening) (a : Account α σ) : Account α σ :=
  { a with happenings := before ++ a.happenings }

@[simp] theorem after_after (b b' : List Happening) (a : Account α σ) :
    (a.after b').after b = a.after (b ++ b') := by
  simp only [after, List.append_assoc]

@[simp] theorem after_mk (b b' : List Happening) (a : α) (s : σ) :
    (Account.mk b' a s).after b = ⟨b ++ b', a, s⟩ := rfl

end Account

namespace Generator

variable {α β σ : Type} {h : Handler σ}

/-- Go on with the value of a generator. -/
def bind : Generator α → (α → Generator β) → Generator β
  | done value, f => f value
  | ask request next, f => ask request fun answer => (next answer).bind f
  | yield item rest, f => yield item (rest.bind f)

instance : Monad Generator where
  pure := done
  bind := bind

/-- Ask what a program asks. -/
def lift : Program α → Generator α
  | .done value => done value
  | .ask request next => ask request fun answer => lift (next answer)

/-- Yield one item. -/
def emit (item : Except TreeError Entry) : Generator Unit := yield item (done ())

/-- Run a generator against a handler. -/
def run (h : Handler σ) : Generator α → σ → Account α σ
  | done value, s => ⟨[], value, s⟩
  | ask request next, s =>
    ((next (h request s).1).run h (h request s).2).after [.asked ⟨request, (h request s).1⟩]
  | yield item rest, s => (rest.run h s).after [.yielded item]

@[simp] theorem run_pure (a : α) (s : σ) : (pure a : Generator α).run h s = ⟨[], a, s⟩ := rfl

@[simp] theorem run_emit (item : Except TreeError Entry) (s : σ) :
    (emit item).run h s = ⟨[.yielded item], (), s⟩ := rfl

@[simp] theorem run_bind (g : Generator α) (f : α → Generator β) (s : σ) :
    (g >>= f).run h s =
      ((f (g.run h s).value).run h (g.run h s).state).after (g.run h s).happenings := by
  induction g generalizing s with
  | done a => rfl
  | ask r k ih => exact (congrArg _ (ih _ _)).trans (Account.after_after ..)
  | yield item rest ih => exact (congrArg _ (ih _)).trans (Account.after_after ..)

@[simp] theorem run_lift (p : Program α) (s : σ) :
    (lift p).run h s =
      ⟨((p.history h s).map Prod.fst).map .asked, (p.run h s).1, (p.run h s).2⟩ := by
  induction p generalizing s with
  | done a => rfl
  | ask r k ih => exact congrArg _ (ih _ _)

end Generator

/-- How a walk comes out of a directory. -/
inductive Ending where
  /-- Everything below was walked or skipped. -/
  | through
  /-- An error ended the walk. -/
  | stopped
  /-- The tree nests deeper than the walk was allowed to follow. -/
  | tooDeep
deriving DecidableEq, Repr

namespace Traversal

/-- Whether a directory that could not be listed is skipped. The error filter is asked only when
errors are not tolerated anyway. -/
def tolerated (t : Traversal) (dir : Path) (e : NativeError) : Generator Bool :=
  if t.continueOnError then pure true
  else if t.hasErrorFilter then Generator.lift (Program.request (.consult dir e))
  else pure false

/-- Go on below an entry, if it is entered. -/
def visitEntry (t : Traversal) (below : Path → Generator Ending) (e : Entry) : Generator Ending :=
  if t.enters e then below e.path else pure .through

/-- Take entries in turn: yield each one that is asked for, and go on below it before the next. -/
def visitEach (t : Traversal) (below : Path → Generator Ending) : List Entry → Generator Ending
  | [] => pure .through
  | e :: entries => do
    if t.yields e then Generator.emit (.ok e)
    match ← t.visitEntry below e with
    | .through => visitEach t below entries
    | ending => return ending

/-- Walk what is below a directory. -/
def visit (t : Traversal) : Nat → Path → Generator Ending
  | 0, _ => pure .tooDeep
  | levels + 1, dir => do
    match ← Generator.lift (Program.call t.transaction (.list dir)) with
    | .ok children => visitEach t (visit t levels) (entriesIn dir children)
    | .error e =>
      if ← t.tolerated dir e then
        Generator.lift (Program.note (.skippingSubtree dir e.code))
        return .through
      else
        Generator.lift (Program.note (.endingWalk dir e.code))
        Generator.emit (.error (.listingFailed dir e.code))
        return .stopped

end Traversal

/-- Take items from a walk until it is over. -/
def Walker.drain (budget : Nat) : Nat → Walker → Generator Turn
  | 0, _ => pure .moved
  | rounds + 1, w => do
    match ← Generator.lift (w.next budget) with
    | (.yielded item, w) =>
      Generator.emit item
      w.drain budget rounds
    | (turn, _) => return turn

end TreeOps
