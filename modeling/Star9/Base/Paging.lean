import Mathlib

/-!
# Reading a list in pages

A server packs the items of a list into pages of a bounded size, and its client
asks for the next page after what it has, until a page is empty. An item may fail
to be packed at all. What the client ends up with does not depend on how the items
fall into pages: it is the list up to the first item that no page has room for.
-/
namespace Base

variable {ε α : Type} (size : α → Nat) (budget : Nat)

/-- The items that fit after those in use, up to the first that does not. -/
def page : Nat → List (Except ε α) → Except ε (List α)
  | _, [] => .ok []
  | _, .error e :: _ => .error e
  | used, .ok a :: items =>
    if budget < used + size a then .ok [] else (page (used + size a) items).map (a :: ·)

/-- The items up to the first that is too large for a page of its own. -/
def fitting : List (Except ε α) → Except ε (List α)
  | [] => .ok []
  | .error e :: _ => .error e
  | .ok a :: items => if budget < size a then .ok [] else (fitting items).map (a :: ·)

variable {size budget} {items : List (Except ε α)} {used : Nat}

/-- What a page that starts with an item that can be packed holds. -/
theorem page_cons {a : α} {p : List α} (h : page size budget used (.ok a :: items) = .ok p) :
    (budget < used + size a ∧ p = []) ∨
    (used + size a ≤ budget ∧ ∃ rest, page size budget (used + size a) items = .ok rest ∧ p = a :: rest) := by
  rw [page] at h
  split at h
  case isTrue hfull =>
    cases h
    exact Or.inl ⟨hfull, rfl⟩
  case isFalse hfull =>
    cases hrest : page size budget (used + size a) items with
    | error e =>
      rw [hrest] at h
      cases h
    | ok rest =>
      rw [hrest] at h
      cases h
      exact Or.inr ⟨by omega, rest, rfl, rfl⟩

theorem page_length {p : List α} (h : page size budget used items = .ok p) : p.length ≤ items.length := by
  induction items generalizing used p with
  | nil =>
    cases h
    exact le_rfl
  | cons item items ih =>
    cases item with
    | error e => cases h
    | ok a =>
      rcases page_cons h with ⟨-, rfl⟩ | ⟨-, rest, hrest, rfl⟩
      · exact Nat.zero_le _
      · simpa using ih hrest

theorem page_size {p : List α} (h : page size budget used items = .ok p) (hused : used ≤ budget) :
    used + (p.map size).sum ≤ budget := by
  induction items generalizing used p with
  | nil =>
    cases h
    simpa using hused
  | cons item items ih =>
    cases item with
    | error e => cases h
    | ok a =>
      rcases page_cons h with ⟨-, rfl⟩ | ⟨hfit, rest, hrest, rfl⟩
      · simpa using hused
      · have hsum := ih hrest hfit
        simp only [List.map_cons, List.sum_cons]
        omega

/-- The page is a first part of the items. -/
theorem page_take {p : List α} (h : page size budget used items = .ok p) : items.take p.length = p.map .ok := by
  induction items generalizing used p with
  | nil =>
    cases h
    rfl
  | cons item items ih =>
    cases item with
    | error e => cases h
    | ok a =>
      rcases page_cons h with ⟨-, rfl⟩ | ⟨-, rest, hrest, rfl⟩
      · rfl
      · rw [List.length_cons, List.take_succ_cons, ih hrest, List.map_cons]

/-- A page that fails meets the item that the whole listing fails at. -/
theorem fitting_of_page_error {e : ε} (h : page size budget used items = .error e) :
    fitting size budget items = .error e := by
  induction items generalizing used with
  | nil => cases h
  | cons item items ih =>
    cases item with
    | error e' => exact h
    | ok a =>
      rw [page] at h
      split at h
      · cases h
      · cases hrest : page size budget (used + size a) items with
        | error e' =>
          rw [hrest] at h
          cases h
          rw [fitting, if_neg (by omega), ih hrest]
          rfl
        | ok rest =>
          rw [hrest] at h
          cases h

/-- A page is a first part of the listing, and the rest of it comes after the page. -/
theorem fitting_of_page {p : List α} (h : page size budget used items = .ok p) :
    fitting size budget items = (fitting size budget (items.drop p.length)).map (p ++ ·) := by
  induction items generalizing used p with
  | nil =>
    cases h
    rfl
  | cons item items ih =>
    cases item with
    | error e => cases h
    | ok a =>
      rcases page_cons h with ⟨-, rfl⟩ | ⟨hfit, rest, hrest, rfl⟩
      · rw [List.length_nil, List.drop_zero]
        cases fitting size budget (.ok a :: items) <;> rfl
      · rw [fitting, if_neg (by omega), ih hrest, List.length_cons, List.drop_succ_cons]
        cases fitting size budget (items.drop rest.length) <;> rfl

/-- An empty page means the end, or an item that is too large. -/
theorem fitting_of_page_nil (h : page size budget 0 items = .ok []) : fitting size budget items = .ok [] := by
  cases items with
  | nil => rfl
  | cons item items =>
    cases item with
    | error e => cases h
    | ok a =>
      rcases page_cons h with ⟨hfull, -⟩ | ⟨-, rest, -, hcons⟩
      · rw [fitting, if_pos (by omega)]
      · cases hcons

end Base
