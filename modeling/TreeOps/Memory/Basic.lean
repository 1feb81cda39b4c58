import TreeOps.Path.Map
import TreeOps.Program.Call

/-!
# A file system in memory

The nodes of the tree are kept in path order. Failures can be scripted for a primitive and a path,
parts of the tree can be put on volumes of their own, directories can be marked as mount points, and
every primitive call is recorded.

Specification: §8, the file system that its properties are tested with.
-/

namespace TreeOps

/-- What a node is. -/
inductive NodeKind where
  | directory
  | file
  | link (toDirectory : Bool)
deriving DecidableEq, Repr

/-- One node of the tree. -/
structure Node where
  kind : NodeKind
  attributes : Attributes := .empty
  size : UInt64 := 0
  volume : Nat := 0
  mounted : Bool := false
  /-- What a node is does not follow from its attributes. -/
  neutral : attributes.isNeutral = true := by decide
  /-- A directory has no size of its own. -/
  sizeless : kind = .directory → size = 0 := by simp
deriving DecidableEq, Repr

namespace Node

/-- A new directory. -/
def directory : Node := { kind := .directory }

/-- A new file of some size. -/
def file (size : UInt64) : Node := { kind := .file, size }

/-- A new link to a directory or to something else. -/
def link (toDirectory : Bool) : Node := { kind := .link toDirectory }

/-- Whether a node is a link. -/
def isLink (n : Node) : Bool :=
  match n.kind with
  | .link _ => true
  | _ => false

/-- Whether a listing shows a node as a directory: it is one, or a link to one. -/
def isDirectoryLike (n : Node) : Bool :=
  match n.kind with
  | .directory | .link true => true
  | _ => false

/-- The attributes that a listing shows. -/
def shownAttributes (n : Node) : Attributes :=
  match n.kind with
  | .directory => n.attributes.union .directory
  | .file => n.attributes
  | .link true => (n.attributes.union .directory).union .reparsePoint
  | .link false => n.attributes.union .reparsePoint

/-- A node as a listing of its directory reports it. -/
def child (n : Node) (path : Path) : Child where
  name := path.fileName.getD path.bytes
  attributes := n.shownAttributes
  size := n.size
  isReparsePoint := n.isLink
  isMountPoint := n.mounted

/-- A node with the read-only flag. -/
def withReadOnly (n : Node) : Node :=
  { n with
    attributes := n.attributes.union .readOnly
    neutral := Attributes.isNeutral_union_readOnly n.neutral }

/-- A node with other attributes, as far as they do not tell what it is. -/
def withAttributes (n : Node) (attributes : Attributes) : Node :=
  { n with attributes := attributes.neutral, neutral := Attributes.isNeutral_neutral _ }

theorem contains_directory_shownAttributes (n : Node) :
    n.shownAttributes.contains .directory = n.isDirectoryLike := by
  have h := n.attributes.and_eq_zero_of_isNeutral Attributes.directory.bits n.neutral rfl
  simp only [shownAttributes, isDirectoryLike, Attributes.contains]
  cases n.kind with
  | directory => simp only [Attributes.union_and, h]; rfl
  | file => simp only [h]; rfl
  | link toDirectory => cases toDirectory <;> simp only [Attributes.union_and, h] <;> rfl

theorem isReadOnly_shownAttributes (n : Node) :
    n.shownAttributes.isReadOnly = n.attributes.isReadOnly := by
  have union_kind (a : Attributes) : (a.union .directory).isReadOnly = a.isReadOnly ∧
      (a.union .reparsePoint).isReadOnly = a.isReadOnly := by
    simp only [Attributes.isReadOnly, Attributes.contains, Attributes.union_and]
    constructor <;> congr 1 <;> exact UInt32.or_zero
  unfold shownAttributes
  split <;> simp only [union_kind]

end Node

/-- The nodes of a file system, by path. -/
abbrev Tree := PathMap Node

namespace Tree

/-- The volume of the directory that a path lies in. -/
def volumeAbove (t : Tree) (path : Path) : Nat :=
  match path.parent.bind t.find? with
  | some n => n.volume
  | none => 0

/-- Put a new node at a path, on the volume of its directory. -/
def place (t : Tree) (path : Path) (n : Node) : Tree :=
  t.insert path { n with volume := t.volumeAbove path }

/-- Whether some node lies directly below a path. -/
def hasChildren (t : Tree) (path : Path) : Bool := !(t.children path).isEmpty

/-- Whether a volume is mounted at a path. -/
def isMounted (t : Tree) (path : Path) : Bool :=
  match t.find? path with
  | some n => n.mounted
  | none => false

/-- A number of levels that no nesting of directories exceeds. -/
def levels (t : Tree) : Nat :=
  (t.keys.map fun p => p.components.length).foldl max 0 + 2

end Tree

/-- A scripted failure. -/
structure Failure where
  primitive : Primitive
  path : Path
  code : NativeCode
  /-- How often it still strikes; for ever if there is no number. -/
  remaining : Option Nat
deriving DecidableEq, Repr

/-- The state of a file system in memory. -/
structure Memory where
  nodes : Tree
  failures : List Failure := []
  /-- The primitive calls made so far, latest first. -/
  calls : List (Primitive × Path) := []

namespace Memory

/-- A file system that holds the root directory alone. -/
def new : Memory where
  nodes := PathMap.empty.insert .root .directory

/-- Put a new node at a path, on the volume of its directory. -/
def place (m : Memory) (path : Path) (n : Node) : Memory :=
  { m with nodes := m.nodes.place path n }

/-- Whether something is at a path. -/
def contains (m : Memory) (path : Path) : Bool := m.nodes.contains path

/-- Add a directory and its missing ancestors. -/
def addDirectory (m : Memory) (path : Path) : Memory :=
  (path.ancestors.takeWhile fun p => !m.contains p).foldr (fun p m => m.place p .directory) m

/-- The tree with the directory for a path to lie in. -/
def addParent (m : Memory) (path : Path) : Memory :=
  match path.parent with
  | some parent => m.addDirectory parent
  | none => m

/-- Add a file. -/
def addFile (m : Memory) (path : Path) (size : UInt64) : Memory :=
  (m.addParent path).place path (.file size)

/-- Add a link to a directory or to something else. -/
def addLink (m : Memory) (path : Path) (toDirectory : Bool) : Memory :=
  (m.addParent path).place path (.link toDirectory)

/-- Make a node read-only. -/
def setReadOnly (m : Memory) (path : Path) : Memory :=
  { m with nodes := m.nodes.modify path Node.withReadOnly }

/-- Put a path and everything below it on a volume. -/
def setVolume (m : Memory) (path : Path) (volume : Nat) : Memory :=
  { m with
    nodes := m.nodes.mapValues fun p n => if p.startsWith path then { n with volume } else n }

/-- Mark a node as a mount point. -/
def mount (m : Memory) (path : Path) : Memory :=
  { m with nodes := m.nodes.modify path fun n => { n with mounted := true } }

/-- Script a failure. -/
def addFailure (m : Memory) (f : Failure) : Memory :=
  { m with failures := m.failures ++ [f] }

/-- Whether a volume is mounted at a path. -/
def isMounted (m : Memory) (path : Path) : Bool := m.nodes.isMounted path

/-- The size of the node at a path. -/
def sizeOf? (m : Memory) (path : Path) : Option UInt64 := (m.nodes.find? path).map Node.size

/-- The number of calls of a primitive on a path. -/
def callCount (m : Memory) (primitive : Primitive) (path : Path) : Nat :=
  m.calls.countP fun (p, q) => p == primitive && q.same path

/-- The number of calls of a primitive on any path. -/
def totalCalls (m : Memory) (primitive : Primitive) : Nat :=
  m.calls.countP fun (p, _) => p == primitive

/-- A number of levels that no nesting of directories exceeds. -/
def levels (m : Memory) : Nat := m.nodes.levels

end Memory

end TreeOps
