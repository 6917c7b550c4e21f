import ApiReference.Project.Layout

namespace ApiReference

/-! The search path: the directories in which modules are found, the one mounted last first. -/

structure SearchPath where
  entries : List Path := []
deriving DecidableEq, Inhabited

namespace SearchPath

def isEmpty (search : SearchPath) : Bool := search.entries.isEmpty

def contains (search : SearchPath) (path : Path) : Bool := search.entries.any (·.same path)

def mount (search : SearchPath) (path : Path) : SearchPath := ⟨path :: search.entries⟩

/-- Removes the first entry that is the same path. -/
def release (search : SearchPath) (path : Path) : SearchPath :=
  ⟨search.entries.eraseP (·.same path)⟩

/-- Whether a file lies below one of the entries. -/
def reaches (search : SearchPath) (file : Path) : Bool :=
  search.entries.any fun entry => Path.startsWith entry file

/-- Does `work` while the project is mounted. The mount is released whatever comes out. -/
def withProject {α : Type} (root : Path) (packageDir : String)
    (work : SearchPath → Except Failure α × SearchPath) (search : SearchPath) :
    Except Failure α × SearchPath :=
  match Project.mountPoint root packageDir with
  | .error failure => (.error failure, search)
  | .ok point =>
      let (result, after) := work (search.mount point)
      (result, after.release point)

end SearchPath

/-- A search path together with its mounts, numbered in the order in which they were made.
A released mount leaves its number behind. -/
structure Mounts where
  search : SearchPath := {}
  guards : List (Option Path) := []
deriving DecidableEq, Inhabited

namespace Mounts

def mount (mounts : Mounts) (path : Path) : Mounts :=
  ⟨mounts.search.mount path, mounts.guards ++ [some path]⟩

def mountProject (mounts : Mounts) (root : Path) (packageDir : String) :
    Except Failure (Path × Mounts) := do
  let point ← Project.mountPoint root packageDir
  return (point, mounts.mount point)

/-- Releases a mount by its number and says whether it was still there. -/
def release (mounts : Mounts) (index : Nat) : Bool × Mounts :=
  match mounts.guards[index]? with
  | some (some path) => (true, ⟨mounts.search.release path, mounts.guards.set index none⟩)
  | _ => (false, mounts)

end Mounts

end ApiReference
