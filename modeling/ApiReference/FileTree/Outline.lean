import ApiReference.FileTree.Basic

namespace ApiReference

/-! The outline of a directory: all that it holds, in the order of names. -/

/-- A line of an outline: a directory, or a file with its text. -/
inductive OutlineEntry where
  | directory (name : String)
  | file (name text : String)
deriving DecidableEq

namespace Node

mutual

/-- What is below a node; `above` is put before all names. -/
def outline (above : String) : Node → List OutlineEntry
  | .file _ => []
  | .directory entries => outlineEntries above entries

def outlineEntries (above : String) : List (String × Node) → List OutlineEntry
  | [] => []
  | (name, .file text) :: rest => .file (above ++ name) text :: outlineEntries above rest
  | (name, node) :: rest =>
      .directory (above ++ name ++ "/") :: outline (above ++ name ++ "/") node ++
        outlineEntries above rest

end

end Node

end ApiReference
