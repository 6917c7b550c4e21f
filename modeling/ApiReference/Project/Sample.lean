import ApiReference.Project.Build
import ApiReference.Symbols.Encoding
import ApiReference.Symbols.Sample

namespace ApiReference.Sample

/-! The sample project as files. -/

/-- Writes the package and the page beside it, and gives the path of the package. -/
def writeSources (root : Path) : FileWork Path := do
  let package := Project.resolve root packageDir
  FileWork.createDirectories (package.push "package1")
  FileWork.createDirectories (package.push "package2")
  for (file, text) in sources do
    FileWork.write (root.push file) text
  return package

/-- Writes the sources and the symbols file. -/
def writeProject (root : Path) : FileWork Path := do
  let package ← writeSources root
  FileWork.write (root.push defaultSymbolsFile) table.render
  return package

end ApiReference.Sample
