import Mathlib.Data.Set.Defs
import Script.Library
import Script.Proofs.Value.Promotion

/-!
# The numbers of functions

Functions are told apart by number, and two runs number the functions they make from where each of
them starts. To compare the values of the two, the functions of both are given numbers in one range:
those that the runs share keep theirs, those that only one of them knew before go apart from each
other, and those that the runs make get the same numbers in order.
-/

namespace Script

namespace Value

variable {ρ : Nat → Nat}

/-- A function of this number is the value or is in it. -/
inductive Mentions (id : Nat) : Value → Prop
  | function {f : UserFunction} (h : f.id = id) : Mentions id (.function f)
  | item {items : List Value} {item : Value} (hmem : item ∈ items) (h : Mentions id item) :
    Mentions id (.list items)

theorem renumber_of_plain {value : Value} (hlist : value.typeOf ≠ .list)
    (hfunction : ∀ f, value ≠ .function f) : value.renumber ρ = value := by
  cases value with
  | list items => exact absurd rfl hlist
  | function f => exact absurd rfl (hfunction f)
  | _ => simp only [renumber]

theorem renumber_eq_self {value : Value} (h : ∀ id, value.Mentions id → ρ id = id) :
    value.renumber ρ = value := by
  induction value using list_induction with
  | hlist items ih =>
    have hitems : items.map (renumber ρ) = items.map id :=
      List.map_congr_left fun item hmem => ih item hmem fun id hid => h id (.item hmem hid)
    rw [renumber, renumberItems_eq_map, hitems, List.map_id]
  | hother value hlist =>
    by_cases hfunction : ∃ f, value = .function f
    · obtain ⟨f, rfl⟩ := hfunction
      rw [renumber, UserFunction.renumber, h f.id (.function rfl)]
    · exact renumber_of_plain hlist fun f hf => hfunction ⟨f, hf⟩

/-- Values that two maps of the numbers take to the same value differ as the numbers do. -/
theorem eq_renumber {ρ₁ ρ₂ : Nat → Nat} (hρ : ∀ id id', ρ₁ id = ρ₂ id' → id' = ρ id)
    {value value' : Value} (h : value.renumber ρ₁ = value'.renumber ρ₂) :
    value' = value.renumber ρ := by
  induction value using list_induction generalizing value' with
  | hlist items ih =>
    cases value' with
    | list items' =>
      simp only [renumber, renumberItems_eq_map, list.injEq] at h ⊢
      induction items generalizing items' with
      | nil => exact List.map_eq_nil_iff.1 h.symm
      | cons item items ihs =>
        cases items' with
        | nil => cases h
        | cons item' items' =>
          rw [List.forall_mem_cons] at ih
          rw [List.map_cons, List.map_cons, List.cons.injEq] at h
          rw [List.map_cons, ih.1 h.1, ihs ih.2 items' h.2]
    | _ => simp [renumber] at h
  | hother value hlist =>
    cases value with
    | list items => exact absurd rfl hlist
    | function f =>
      cases value' with
      | function f' =>
        simp only [renumber, function.injEq, UserFunction.renumber, UserFunction.mk.injEq] at h ⊢
        obtain ⟨hid, hrest⟩ := h
        have hid' := hρ _ _ hid
        cases f'
        simp_all
      | _ => simp [renumber] at h
    | _ =>
      simp only [renumber] at h ⊢
      cases value' with
      | list _ | function _ => cases h.trans (by rw [renumber])
      | _ => exact (h.trans (by simp only [renumber])).symm

end Value

/-- The numbers of the functions in the exports of a library. -/
def Library.numbers (library : Library) : Set Nat :=
  { id | ∃ module exports, library.module? module = some exports ∧
    ∃ entry ∈ exports, entry.2.Mentions id }

/-! ### Two runs -/

/-- The number in a run that had made `size'` functions before, for the number in one that had made
`size`. -/
def shift (size size' id : Nat) : Nat :=
  if id < size then id else id - size + size'

open Classical in
/-- The number in a range for two runs, of which one is on the left and one is on the right. The
shared ones are smaller than `room`, as are all that were given before, and there are three times as
many old ones then. -/
noncomputable def apart (shared : Set Nat) (room : Nat) (right : Bool) (size id : Nat) : Nat :=
  if id < size then
    if id ∈ shared then id else room + 2 * id + right.toNat
  else 3 * room + (id - size)

section

variable {shared : Set Nat} {room size size' : Nat} {right : Bool}

theorem apart_cases (shared : Set Nat) (room : Nat) (right : Bool) (size id : Nat) :
    (id < size ∧ id ∈ shared ∧ apart shared room right size id = id) ∨
    (id < size ∧ id ∉ shared ∧ apart shared room right size id = room + 2 * id + right.toNat) ∨
    (size ≤ id ∧ apart shared room right size id = 3 * room + (id - size)) := by
  unfold apart
  split
  · next hlt =>
    split
    · next hshared => exact .inl ⟨hlt, hshared, rfl⟩
    · next hshared => exact .inr (.inl ⟨hlt, hshared, rfl⟩)
  · next hge => exact .inr (.inr ⟨Nat.le_of_not_lt hge, rfl⟩)

theorem apart_lt {id : Nat} (hsize : size ≤ room) (hlt : id < size) :
    apart shared room right size id < 3 * room := by
  have hright := right.toNat_le
  have hcases := apart_cases shared room right size id
  omega

theorem apart_injective (hsize : size ≤ room) : (apart shared room right size).Injective := by
  intro id id' h
  have hright := right.toNat_le
  have hcases := apart_cases shared room right size id
  have hcases' := apart_cases shared room right size id'
  omega

/-- On the left and on the right only shared and new functions have the same number. -/
theorem eq_shift_of_apart (hsize : size ≤ room) (hsize' : size' ≤ room) {id id' : Nat}
    (h : apart shared room false size id = apart shared room true size' id') :
    id' = shift size size' id := by
  have hcases := apart_cases shared room false size id
  have hcases' := apart_cases shared room true size' id'
  simp only [Bool.toNat_false, Bool.toNat_true] at hcases hcases'
  unfold shift
  split <;> omega

end

end Script
