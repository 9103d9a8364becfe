import Script.Scope.Arena

/-!
# Slots and free numbers

What the operations of an arena do to its slots, said through `get?` alone. An arena is tidy when
its free list holds exactly the numbers of the dead slots, each once: then a new scope never takes
the number of a live one. Every operation keeps an arena tidy, also where it is called with a number
that is not live.
-/

namespace Script.Arena

/-- The free numbers are those of the dead slots, each once. -/
structure Tidy (a : Arena) : Prop where
  nodup : a.free.Nodup
  mem_free : ∀ id, id ∈ a.free ↔ id < a.slots.size ∧ a.get? id = none

theorem isLive_iff {a : Arena} {id : ScopeId} : a.isLive id ↔ ∃ scope, a.get? id = some scope := by
  rw [isLive, Option.isSome_iff_exists]

theorem lt_size_of_get? {a : Arena} {id : ScopeId} {scope : Scope} (h : a.get? id = some scope) :
    id < a.slots.size := by
  apply Nat.lt_of_not_le
  intro hge
  rw [get?, Array.getElem?_eq_none hge] at h
  cases h

private theorem get?_setIfInBounds (slots : Array (Option Scope)) (free free' : List ScopeId)
    {id : ScopeId} (slot : Option Scope) (other : ScopeId) (h : id < slots.size) :
    get? ⟨slots.setIfInBounds id slot, free⟩ other =
      if other = id then slot else get? ⟨slots, free'⟩ other := by
  unfold get?
  rw [Array.getElem?_setIfInBounds]
  by_cases hid : id = other
  · subst hid
    simp [h]
  · rw [if_neg hid, if_neg (Ne.symm hid)]

/-! ### Creating a scope -/

theorem get?_create_self {a : Arena} (h : a.Tidy) (parent : Option ScopeId) :
    a.get? (a.create parent).1 = none := by
  cases hfree : a.free with
  | nil =>
    simp only [create, hfree, get?]
    rw [Array.getElem?_eq_none (Nat.le_refl _)]
    rfl
  | cons id free =>
    simp only [create, hfree]
    exact ((h.mem_free id).1 (by simp [hfree])).2

theorem get?_create {a : Arena} (h : a.Tidy) (parent : Option ScopeId) (other : ScopeId) :
    (a.create parent).2.get? other =
      if other = (a.create parent).1 then some (.empty parent) else a.get? other := by
  cases hfree : a.free with
  | nil =>
    simp only [create, hfree, get?]
    rw [Array.getElem?_push]
    split <;> rfl
  | cons id free =>
    simp only [create, hfree]
    exact get?_setIfInBounds _ _ _ _ _ ((h.mem_free id).1 (by simp [hfree])).1

theorem Tidy.create {a : Arena} (h : a.Tidy) (parent : Option ScopeId) :
    (a.create parent).2.Tidy := by
  have hget := get?_create h parent
  cases hfree : a.free with
  | nil =>
    simp only [Arena.create, hfree] at hget ⊢
    refine ⟨hfree ▸ h.nodup, ?_⟩
    intro id
    have hmem := h.mem_free id
    rw [hget, Array.size_push]
    simp only [hfree, List.not_mem_nil, false_iff, not_and] at hmem ⊢
    intro hlt
    split
    · simp
    · next hne => exact hmem (Nat.lt_of_le_of_ne (Nat.le_of_lt_succ hlt) hne)
  | cons free rest =>
    have hnodup := h.nodup
    rw [hfree, List.nodup_cons] at hnodup
    simp only [Arena.create, hfree] at hget ⊢
    refine ⟨hnodup.2, ?_⟩
    intro id
    have hmem := h.mem_free id
    rw [hget, Array.size_setIfInBounds]
    rw [hfree, List.mem_cons] at hmem
    by_cases hid : id = free
    · subst hid
      simp [hnodup.1]
    · simp only [hid, false_or, if_false] at hmem ⊢
      exact hmem

/-! ### Releasing a scope -/

theorem get?_release (a : Arena) (id other : ScopeId) :
    (a.release id).get? other = if other = id then none else a.get? other := by
  rw [release]
  split
  · next hlive =>
    obtain ⟨scope, hscope⟩ := isLive_iff.1 hlive
    exact get?_setIfInBounds _ _ a.free _ _ (lt_size_of_get? hscope)
  · next hdead =>
    split
    · next hid =>
      rw [hid]
      simpa [isLive] using hdead
    · rfl

theorem Tidy.release {a : Arena} (h : a.Tidy) (id : ScopeId) : (a.release id).Tidy := by
  have hget := get?_release a id
  unfold Arena.release at hget ⊢
  split
  · next hlive =>
    rw [if_pos hlive] at hget
    obtain ⟨scope, hscope⟩ := isLive_iff.1 hlive
    have hlt := lt_size_of_get? hscope
    have hnot : id ∉ a.free := fun hmem => by
      simp [((h.mem_free id).1 hmem).2] at hscope
    refine ⟨List.nodup_cons.2 ⟨hnot, h.nodup⟩, ?_⟩
    intro other
    rw [hget, Array.size_setIfInBounds, List.mem_cons, h.mem_free other]
    by_cases hid : other = id
    · subst hid
      simp [hlt]
    · simp [hid]
  · exact h

/-! ### Changing a scope -/

theorem get?_set {a : Arena} {id : ScopeId} (h : a.isLive id) (scope : Scope) (other : ScopeId) :
    (a.set id scope).get? other = if other = id then some scope else a.get? other := by
  obtain ⟨old, hold⟩ := isLive_iff.1 h
  exact get?_setIfInBounds _ _ a.free _ _ (lt_size_of_get? hold)

theorem Tidy.set {a : Arena} (h : a.Tidy) {id : ScopeId} (hlive : a.isLive id) (scope : Scope) :
    (a.set id scope).Tidy := by
  refine ⟨h.nodup, ?_⟩
  intro other
  have hmem := h.mem_free other
  rw [get?_set hlive]
  simp only [Arena.set, Array.size_setIfInBounds] at hmem ⊢
  rw [hmem]
  split
  · next hid =>
    obtain ⟨old, hold⟩ := isLive_iff.1 hlive
    simp [hid, hold]
  · rfl

/-! ### Empty arenas -/

@[simp]
theorem get?_empty (id : ScopeId) : empty.get? id = none := by
  simp [get?, empty]

theorem tidy_empty : empty.Tidy := ⟨List.nodup_nil, fun id => by simp [empty]⟩

theorem tidy_withRoot : withRoot.Tidy := tidy_empty.create none

end Script.Arena
