import ApiReference.Failure
import Mathlib.Data.List.Forall2

namespace ApiReference.Failure

/-! Work that fails at its first failure. -/

variable {ε α β : Type}

theorem bind_eq_ok {work : Except ε α} {next : α → Except ε β} {value : β}
    (done : work >>= next = .ok value) : ∃ found, work = .ok found ∧ next found = .ok value := by
  cases work with
  | error failure => cases done
  | ok found => exact ⟨found, rfl, done⟩

/-- Work that agrees in what is looked at goes on alike, if all that follows goes by what is looked at. -/
theorem map_bind_congr {γ δ : Type} {first second : Except ε α} {look : α → γ} (same : first.map look = second.map look)
    {next : α → Except ε β} {shown : β → δ}
    (alike : ∀ found other, look found = look other → (next found).map shown = (next other).map shown) :
    (first >>= next).map shown = (second >>= next).map shown := by
  cases first with
  | error failure =>
      cases second with
      | error other =>
          cases same
          rfl
      | ok other => cases same
  | ok found =>
      cases second with
      | error failure => cases same
      | ok other => exact alike found other (Except.ok.inj same)

theorem mapM_eq_ok {step : α → Except ε β} {items : List α} {values : List β}
    (done : items.mapM step = .ok values) : List.Forall₂ (fun item value => step item = .ok value) items values := by
  induction items generalizing values with
  | nil =>
      cases done
      exact .nil
  | cons item rest ih =>
      rw [List.mapM_cons] at done
      obtain ⟨first, stepped, done⟩ := bind_eq_ok done
      obtain ⟨others, rested, ended⟩ := bind_eq_ok done
      cases ended
      exact .cons stepped (ih rested)

theorem exists_of_mem_mapM {step : α → Except ε β} {items : List α} {values : List β} (done : items.mapM step = .ok values)
    {value : β} (member : value ∈ values) : ∃ item ∈ items, step item = .ok value := by
  have related := mapM_eq_ok done
  clear done
  induction related with
  | nil => cases member
  | cons stepped _ ih =>
      rcases List.mem_cons.mp member with rfl | member
      · exact ⟨_, List.mem_cons_self, stepped⟩
      · obtain ⟨item, listed, found⟩ := ih member
        exact ⟨item, List.mem_cons_of_mem _ listed, found⟩

theorem mapM_exists {step : α → Except ε β} {items : List α} (each : ∀ item ∈ items, ∃ value, step item = .ok value) :
    ∃ values, items.mapM step = .ok values := by
  induction items with
  | nil => exact ⟨[], rfl⟩
  | cons item rest ih =>
      obtain ⟨value, stepped⟩ := each item List.mem_cons_self
      obtain ⟨values, rested⟩ := ih fun other member => each other (List.mem_cons_of_mem _ member)
      exact ⟨value :: values, by rw [List.mapM_cons, stepped, rested]; rfl⟩

theorem mapM_congr {first second : α → Except ε β} {items : List α} (same : ∀ item ∈ items, first item = second item) :
    items.mapM first = items.mapM second := by
  induction items with
  | nil => rfl
  | cons item rest ih =>
      rw [List.mapM_cons, List.mapM_cons, same item List.mem_cons_self,
        ih fun other member => same other (List.mem_cons_of_mem _ member)]

/-- What fails first decides. -/
theorem mapM_eq_error_of_first {step : α → Except ε β} {front back : List α} {item : α} {failure : ε}
    (fine : ∀ earlier ∈ front, ∃ value, step earlier = .ok value) (failed : step item = .error failure) :
    (front ++ item :: back).mapM step = .error failure := by
  induction front with
  | nil => rw [List.nil_append, List.mapM_cons, failed]; rfl
  | cons earlier rest ih =>
      obtain ⟨value, stepped⟩ := fine earlier List.mem_cons_self
      rw [List.cons_append, List.mapM_cons, stepped, ih fun other member => fine other (List.mem_cons_of_mem _ member)]
      rfl

theorem exists_of_mapM_eq_error {step : α → Except ε β} {items : List α} {failure : ε}
    (failed : items.mapM step = .error failure) : ∃ item ∈ items, step item = .error failure := by
  induction items with
  | nil => cases failed
  | cons item rest ih =>
      rw [List.mapM_cons] at failed
      cases stepped : step item with
      | error cause =>
          rw [stepped] at failed
          cases failed
          exact ⟨item, List.mem_cons_self, stepped⟩
      | ok value =>
          cases rested : rest.mapM step with
          | error cause =>
              rw [stepped, rested] at failed
              cases failed
              obtain ⟨other, member, found⟩ := ih rested
              exact ⟨other, List.mem_cons_of_mem _ member, found⟩
          | ok values =>
              rw [stepped, rested] at failed
              cases failed

end ApiReference.Failure
