import ApiReference.FileTree.Node

namespace ApiReference

/-! The difference between two file trees, as the changes that turn one into the other. -/

/-- A change at a location. -/
inductive Change where
  | remove (location : Node.Location)
  | makeDirectory (location : Node.Location)
  | writeFile (location : Node.Location) (text : String)

namespace Node

/-- The names that only the first entries have. -/
def removals (location : Location) (before after : Entries) : List Change :=
  (before.filter fun entry => (after.lookup entry.1).isNone).map fun entry =>
    .remove (location ++ [entry.1])

mutual

/-- The changes at and below a location. What changes its kind is removed first. -/
def changes (location : Location) (before : Option Node) : Node → List Change
  | .file text =>
      match before with
      | some (.file known) => if known = text then [] else [.writeFile location text]
      | some (.directory _) => [.remove location, .writeFile location text]
      | none => [.writeFile location text]
  | .directory entries =>
      match before with
      | some (.directory known) =>
          removals location known entries ++ changesIn location known entries
      | some (.file _) =>
          .remove location :: .makeDirectory location :: changesIn location [] entries
      | none => .makeDirectory location :: changesIn location [] entries

def changesIn (location : Location) (before : Entries) : List (String × Node) → List Change
  | [] => []
  | (name, node) :: rest =>
      changes (location ++ [name]) (before.lookup name) node ++ changesIn location before rest

end

end Node

end ApiReference
