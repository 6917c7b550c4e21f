import ApiReference.Docstring.Basic
import ApiReference.Text.Markup
import ApiReference.Symbols.Decoding
import ApiReference.Symbols.Encoding
import ApiReference.Symbols.Sample
import ApiReference.Model.Inspection
import ApiReference.SearchPath
import ApiReference.Site.Rendering
import ApiReference.Command.Run
import ApiReference.FileTree.Outline
import ApiReference.Project.Sample
import ApiReference.Main
import ApiReference.Proofs.Docstring.Layout
import ApiReference.Proofs.Model.Lineage
import ApiReference.Proofs.Model.Reproducibility
import ApiReference.Proofs.Symbols.RoundTrip
import ApiReference.Proofs.Text.Line
import ApiReference.Proofs.Docstring.HyphenList
import ApiReference.Proofs.Docstring.RoundTrip
import ApiReference.Proofs.FileTree.View
import ApiReference.Proofs.FileTree.Work
import ApiReference.Proofs.Path.Push
import ApiReference.Proofs.FileTree.Steps
import ApiReference.Proofs.Site.Address
import ApiReference.Proofs.FileTree.Growth
import ApiReference.Proofs.Publication.Steps
import ApiReference.Proofs.Publication.Survival
import ApiReference.Proofs.Publication.Effect
import ApiReference.Proofs.Project.FailedBuild
import ApiReference.Proofs.SearchPath
import ApiReference.Proofs.Path.Parts
import ApiReference.Proofs.FileTree.WellFormed
import ApiReference.Proofs.Failure
import ApiReference.Proofs.Project.Enumeration
import ApiReference.Proofs.Site.Rendering
import ApiReference.Proofs.Site.Pages
import ApiReference.Proofs.FileTree.Overlay
import ApiReference.Proofs.FileTree.Success
import ApiReference.Proofs.Publication.Success
import ApiReference.Proofs.Publication.Replacement
import ApiReference.Proofs.Publication.Repetition
import ApiReference.Proofs.Project.Rebuild
import ApiReference.Proofs.Site.Completeness
import ApiReference.Proofs.Site.Places
import ApiReference.Proofs.Site.Contents
import ApiReference.Proofs.Site.Navigation
import ApiReference.Proofs.Site.Inheritance
import ApiReference.Proofs.Publication.Addresses
import ApiReference.Proofs.Symbols.Assembly
import ApiReference.Proofs.Json.Variant
import ApiReference.Proofs.Symbols.Variant
import ApiReference.Proofs.Settings.Line
import ApiReference.Proofs.Text.Casing
import ApiReference.Proofs.Text.Replacement
import ApiReference.Proofs.Settings.Extent
import ApiReference.Proofs.Settings.Draft
import ApiReference.Proofs.Text.Joined
import ApiReference.Proofs.Docstring.Grouping
import ApiReference.Proofs.Docstring.Tidy
import ApiReference.Proofs.Docstring.Rewriting
import ApiReference.Proofs.Text.Margin
import ApiReference.Proofs.Docstring.Indentation
import ApiReference.Proofs.Ranking
import ApiReference.Proofs.Model.MemberOrder
import ApiReference.Proofs.Model.Selection
import ApiReference.Proofs.Model.ConstructorSignature
import ApiReference.Proofs.Text.Bytes
import ApiReference.Proofs.Model.Findings
import ApiReference.Proofs.Project.SourceAddress
import ApiReference.Proofs.Listing.Signals
import ApiReference.Proofs.Listing.Colours
import ApiReference.Proofs.Text.Bars
import ApiReference.Proofs.Site.Tables
import ApiReference.Proofs.Site.Rows
import ApiReference.Proofs.Project.Directories
import ApiReference.Proofs.Command.Grammar
