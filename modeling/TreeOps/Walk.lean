import TreeOps.Pattern.Match
import TreeOps.Program.Basic
import TreeOps.Text.Quoted

/-!
# Walking a tree

A walk yields the entries below a root, a directory before anything below it. It is lazy: a
directory is listed once, when the walk reaches it. The pattern and the kinds of entries asked for
decide what is yielded, never which directories are entered. A directory that cannot be listed is
skipped when errors are tolerated or the error filter accepts the error, and otherwise ends the
walk.

The walker keeps the directory to be listed next and a stack of listings that are partly used up.
One `step` does one thing; `next` steps until there is something to yield.

Specification: §4.1, `walk`, `count_entries` and `is_empty_dir`.
-/

namespace TreeOps

/-- What to walk, and what to yield. -/
structure Traversal where
  root : Path
  transaction : Option Transaction := none
  pattern : String := "*"
  recursive : Bool := false
  includeFiles : Bool := false
  includeFolders : Bool := false
  /-- Do not enter links to directories. -/
  skipReparsePoints : Bool := true
  /-- Skip every directory that cannot be listed. -/
  continueOnError : Bool := false
  /-- Ask about a directory that cannot be listed. -/
  hasErrorFilter : Bool := false
deriving DecidableEq, Repr

namespace Traversal

/-- Neither kind of entry asked for means both. -/
def withKinds (t : Traversal) : Traversal :=
  if t.includeFiles || t.includeFolders then t
  else { t with includeFiles := true, includeFolders := true }

/-- Whether the walk yields an entry. -/
def yields (t : Traversal) (e : Entry) : Bool :=
  (if e.isDirectory then t.includeFolders else t.includeFiles) && Pattern.accepts t.pattern e.name

/-- Whether the walk goes on into an entry. -/
def enters (t : Traversal) (e : Entry) : Bool :=
  e.isDirectory && t.recursive && (!e.isReparsePoint || !t.skipReparsePoints)

/-- The fields of a traversal on one line. -/
def describe (t : Traversal) : String :=
  let transaction := match t.transaction with
    | none => "None"
    | some tx => "Some(TransactionContext \x7b raw: " ++ toString tx.raw.toNat ++ " \x7d)"
  "TraversalRequest \x7b root_path: " ++ Text.quotedBytes t.root.bytes
    ++ ", transaction: " ++ transaction
    ++ ", search_pattern: " ++ Text.quoted t.pattern
    ++ ", recursive: " ++ toString t.recursive
    ++ ", include_files: " ++ toString t.includeFiles
    ++ ", include_folders: " ++ toString t.includeFolders
    ++ ", skip_reparse_points: " ++ toString t.skipReparsePoints
    ++ ", continue_on_error: " ++ toString t.continueOnError
    ++ ", error_filter: " ++ toString t.hasErrorFilter ++ " \x7d"

end Traversal

/-- The entries of a listing of `dir`, in its order and without the directory itself and its parent.
-/
def entriesIn (dir : Path) (children : List Child) : List Entry :=
  (children.filter fun c => !c.isDots).map (·.entryIn dir)

/-- A walk that is under way. -/
structure Walker where
  traversal : Traversal
  /-- The directory to be listed next; its entries come before those on the stack. -/
  pending : Option Path
  /-- What is left of the listings on the way to the current entry, innermost first. -/
  stack : List (List Entry)
  finished : Bool
deriving DecidableEq, Repr

/-- What one step of a walk brings. -/
inductive Turn where
  | yielded (item : Except TreeError Entry)
  | moved
  | ended

namespace Walker

/-- A walk that starts at the root of the traversal as it is given. -/
def start (t : Traversal) : Walker where
  traversal := t.withKinds
  pending := some t.root
  stack := []
  finished := false

/-- Whether a directory that could not be listed is skipped. -/
def tolerates (w : Walker) (dir : Path) (e : NativeError) : Program Bool :=
  if w.traversal.continueOnError then pure true
  else if w.traversal.hasErrorFilter then Program.request (.consult dir e)
  else pure false

/-- List a directory. -/
def descend (w : Walker) (dir : Path) : Program (Turn × Walker) := do
  let w := { w with pending := none }
  match ← Program.call w.traversal.transaction (.list dir) with
  | .ok children => return (.moved, { w with stack := entriesIn dir children :: w.stack })
  | .error e =>
    if ← w.tolerates dir e then
      Program.note (.skippingSubtree dir e.code)
      return (.moved, w)
    else
      Program.note (.endingWalk dir e.code)
      return (.yielded (.error (.listingFailed dir e.code)), { w with finished := true })

/-- Take the next entry off the stack. -/
def takeEntry (w : Walker) : Turn × Walker :=
  match w.stack with
  | [] => (.ended, { w with finished := true })
  | [] :: rest => (.moved, { w with stack := rest })
  | (e :: entries) :: rest =>
    let pending := if w.traversal.enters e then some e.path else none
    (if w.traversal.yields e then .yielded (.ok e) else .moved,
      { w with stack := entries :: rest, pending })

/-- One step of a walk. -/
def step (w : Walker) : Program (Turn × Walker) :=
  if w.finished then pure (.ended, w)
  else
    match w.pending with
    | some dir => w.descend dir
    | none => pure w.takeEntry

/-- Step until the walk yields something or ends, `budget` times at most. The turn `moved` means
that the budget did not suffice. -/
def next : Nat → Walker → Program (Turn × Walker)
  | 0, w => pure (.moved, w)
  | budget + 1, w => do
    match ← w.step with
    | (.moved, w) => next budget w
    | result => return result

/-- What a walk has yielded, and how it stopped. -/
structure Collected where
  items : List (Except TreeError Entry)
  /-- The last turn: `ended` when the walk is over. -/
  last : Turn
  walker : Walker

/-- The next items of a walk: at most `count` of them if a count is given. -/
def collect (budget : Nat) : Option Nat → Nat → Walker → Program Collected
  | some 0, _, w => pure ⟨[], .moved, w⟩
  | _, 0, w => pure ⟨[], .moved, w⟩
  | count, rounds + 1, w => do
    match ← next budget w with
    | (.yielded item, w) =>
      let c ← collect budget (count.map (· - 1)) rounds w
      return { c with items := item :: c.items }
    | (turn, w) => return ⟨[], turn, w⟩

end Walker

/-- Begin a walk at the canonical form of its root. -/
def openWalk (t : Traversal) : Program Walker := do
  let root ← Program.resolve t.root
  Program.note (.startingWalk root t.pattern t.recursive)
  return Walker.start { t with root }

/-- The number of entries that a walk yields, or its first error. `budget` bounds the steps to each
entry, `rounds` the number of entries. -/
def countEntries (budget rounds : Nat) (t : Traversal) : Operation Nat := do
  let w ← ExceptT.lift (openWalk t)
  let c ← ExceptT.lift (w.collect budget none rounds)
  match c.items.find? fun item => item matches .error _ with
  | some (.error e) => Operation.fail e
  | _ =>
    match c.last with
    | .ended => return c.items.length
    | _ => throw .tooDeep

/-- The children of a directory for an operation that works through the tree, or the code of the
failure to list it. A name that holds a separator is no name of a child and is left out. -/
def listEntries (tx : Option Transaction) (dir : Path) :
    Operation (Except NativeCode (List Entry)) := do
  match ← Operation.attempt tx (.list dir) with
  | .ok children =>
    return .ok (entriesIn dir (children.filter fun c => !c.name.contains separator))
  | .error e =>
    Operation.note (.endingWalk dir e.code)
    return .error e.code

/-- The children of a directory that has to be listed. -/
def childEntries (tx : Option Transaction) (dir : Path) : Operation (List Entry) := do
  match ← listEntries tx dir with
  | .ok entries => return entries
  | .error code => Operation.fail (.listingFailed dir code)

/-- Whether a directory has no children. -/
def isEmptyDirectory (tx : Option Transaction) (dir : Path) : Operation Bool := do
  let children ← Operation.perform tx (.list dir) (.ofNative dir "list directory")
  return children.all Child.isDots

end TreeOps
