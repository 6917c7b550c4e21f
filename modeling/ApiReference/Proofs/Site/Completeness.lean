import ApiReference.Proofs.Site.Pages
import ApiReference.Publication
import Mathlib.Control.Lawful

namespace ApiReference

/-! A site is rendered without failure and published without a gap. -/

namespace Publication

open FileWork

/-- Writes a page, whatever its text. -/
def store (directory : Path) (page : Page) : FileWork Path := do
  let path := directory.join page.location
  createParent path
  write path page.text
  return path

/-- Publishing that does not look at what the pages hold. -/
def storeAll (directory : Path) (pages : List Page) : FileWork (List Path) := do
  prepare directory
  pages.mapM (store directory)

variable (directory : Path)

theorem save_of_filled {page : Page} (filled : page.isBlank = false) :
    save directory page = some <$> store directory page := by
  simp [save, store, filled]

theorem mapM_save_of_filled {pages : List Page} (filled : ∀ page ∈ pages, page.isBlank = false) :
    pages.mapM (save directory) = List.map some <$> pages.mapM (store directory) := by
  induction pages with
  | nil => simp
  | cons page rest ih =>
      have rested := ih fun other member => filled other (List.mem_cons_of_mem _ member)
      rw [List.mapM_cons, List.mapM_cons, save_of_filled directory (filled page List.mem_cons_self), rested]
      simp

theorem publish_of_filled {pages : List Page} (filled : ∀ page ∈ pages, page.isBlank = false) :
    publish directory pages = storeAll directory pages := by
  rw [publish, storeAll, mapM_save_of_filled directory filled]
  simp [List.filterMap_map]

end Publication

namespace SiteContext

/-- Rendering gives all pages of a site, whatever the texts in its models. Each page is made of templates
that are in the catalogue and get a value for each of their slots, and a template that is filled is the
sequence of its pieces with the values as they are. No page is blank, so publishing them leaves none out. -/
theorem pages_complete (context : SiteContext) (models : List ModuleModel) :
    ∃ pages, context.pages models = .ok pages ∧
      pages = (context.sheets models).map Sheet.page ∧
      (∀ sheet ∈ context.sheets models, ∀ name slots, Layout.filled name slots ∈ sheet.layout.nodes →
        ∃ template, Template.find? name = some template ∧
          (∀ slot, Piece.slot slot ∈ template → ∃ part, (slot, part) ∈ slots ∧
            (Layout.values slots).lookup slot = some part.text) ∧
          Template.render name (Layout.values slots) =
            .ok (String.join (template.map (Template.pieceText (Layout.values slots))))) ∧
      (∀ page ∈ pages, page.isBlank = false) ∧
      ∀ directory, Publication.publish directory pages = Publication.storeAll directory pages := by
  have filled : ∀ page ∈ (context.sheets models).map Sheet.page, page.isBlank = false := fun page =>
    filled_of_mem_pages (context.pages_eq models)
  refine ⟨_, context.pages_eq models, rfl, ?_, filled, fun directory => Publication.publish_of_filled directory filled⟩
  intro sheet listed name slots used
  obtain ⟨draft, _, rfl⟩ := List.mem_map.mp listed
  have taken := context.sheet_supplied draft _ used
  obtain ⟨template, found, distinct, same⟩ := Template.takes_iff.mp taken
  refine ⟨template, found, ?_, ?_⟩
  · intro slot needed
    obtain ⟨⟨_, part⟩, member, rfl⟩ := List.mem_map.mp ((same slot).mp needed)
    exact ⟨part, member, Layout.lookup_values distinct member⟩
  · rw [Template.render_of_takes ((Layout.values_map_fst slots).symm ▸ taken), Template.insert, found]
    rfl

end SiteContext

end ApiReference
