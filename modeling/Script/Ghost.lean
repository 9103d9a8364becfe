/-!
# Ghosts

A ghost is a value that a program carries along only to be reasoned about. It is known by the
proposition that says which value it is, so nothing of it is left when the program runs, and nothing
that runs can depend on it.
-/

namespace Script

structure Ghost (α : Type) where
  /-- Holds of one value alone, the one that the ghost stands for. -/
  is : α → Prop
  unique : ∃ a, ∀ b, is b ↔ b = a

namespace Ghost

@[inline]
def of (a : α) : Ghost α := ⟨(· = a), a, fun _ => .rfl⟩

instance [Inhabited α] : Inhabited (Ghost α) := ⟨of default⟩

@[inline]
def map (f : α → β) (g : Ghost α) : Ghost β where
  is b := ∃ a, g.is a ∧ b = f a
  unique := by
    obtain ⟨a, ha⟩ := g.unique
    refine ⟨f a, fun b => ⟨fun ⟨a', h, hb⟩ => ?_, fun hb => ⟨a, (ha a).2 rfl, hb⟩⟩⟩
    rw [hb, (ha a').1 h]

@[inline]
def map₂ (f : α → β → γ) (g : Ghost α) (h : Ghost β) : Ghost γ where
  is c := ∃ a b, g.is a ∧ h.is b ∧ c = f a b
  unique := by
    obtain ⟨a, ha⟩ := g.unique
    obtain ⟨b, hb⟩ := h.unique
    refine ⟨f a b, fun c => ⟨fun ⟨a', b', hga, hhb, hc⟩ => ?_,
      fun hc => ⟨a, b, (ha a).2 rfl, (hb b).2 rfl, hc⟩⟩⟩
    rw [hc, (ha a').1 hga, (hb b').1 hhb]

/-- The value that a ghost stands for. -/
noncomputable def value (g : Ghost α) : α := g.unique.choose

theorem is_iff (g : Ghost α) (a : α) : g.is a ↔ a = g.value :=
  g.unique.choose_spec a

@[simp]
theorem value_of (a : α) : (of a).value = a :=
  (((of a).is_iff a).1 rfl).symm

@[simp]
theorem value_map (f : α → β) (g : Ghost α) : (g.map f).value = f g.value :=
  (((g.map f).is_iff (f g.value)).1 ⟨g.value, (g.is_iff _).2 rfl, rfl⟩).symm

@[simp]
theorem value_map₂ (f : α → β → γ) (g : Ghost α) (h : Ghost β) :
    (map₂ f g h).value = f g.value h.value :=
  (((map₂ f g h).is_iff (f g.value h.value)).1
    ⟨g.value, h.value, (g.is_iff _).2 rfl, (h.is_iff _).2 rfl, rfl⟩).symm

end Ghost

end Script
