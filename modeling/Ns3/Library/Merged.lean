import Mathlib

/-!
# Classes that are merged

A list of pairs, each joining two elements, partitions a type: two elements are in one class when a
chain of pairs connects them. One more pair merges two classes, and `merged_cons_iff` says which
elements that connects; an element of no pair is alone in its class.
-/

/-- The pairs of `l` connect `a` and `b`. -/
def Merged {α : Type*} (l : List (α × α)) (a b : α) : Prop :=
  Relation.EqvGen (fun a b ↦ (a, b) ∈ l) a b

section Merged

variable {α : Type*} {l : List (α × α)} {a b c x y : α}

theorem Merged.refl (a : α) : Merged l a a := Relation.EqvGen.refl a

theorem Merged.symm (h : Merged l a b) : Merged l b a := Relation.EqvGen.symm _ _ h

theorem Merged.trans (hab : Merged l a b) (hbc : Merged l b c) : Merged l a c :=
  Relation.EqvGen.trans _ _ _ hab hbc

theorem Merged.of_mem (h : (a, b) ∈ l) : Merged l a b := Relation.EqvGen.rel _ _ h

theorem Merged.cons (h : Merged l a b) (e : α × α) : Merged (e :: l) a b :=
  Relation.EqvGen.mono (fun _ _ hmem ↦ List.mem_cons_of_mem e hmem) _ _ h

theorem Merged.eq_or_mem (h : Merged l a b) :
    a = b ∨ (∃ c, (a, c) ∈ l ∨ (c, a) ∈ l) ∧ ∃ c, (b, c) ∈ l ∨ (c, b) ∈ l := by
  induction h with
  | rel a b hab => exact .inr ⟨⟨b, .inl hab⟩, a, .inr hab⟩
  | refl a => exact .inl rfl
  | symm a b _ ih =>
    rcases ih with rfl | ⟨ha, hb⟩
    · exact .inl rfl
    · exact .inr ⟨hb, ha⟩
  | trans a b c _ _ ihab ihbc =>
    rcases ihab with rfl | ⟨ha, hb⟩
    · exact ihbc
    rcases ihbc with rfl | ⟨-, hc⟩
    · exact .inr ⟨ha, hb⟩
    · exact .inr ⟨ha, hc⟩

/-- **One more pair merges the classes of its elements.** -/
theorem merged_cons_iff : Merged ((x, y) :: l) a b ↔
    Merged l a b ∨ (Merged l a x ∧ Merged l y b) ∨ (Merged l a y ∧ Merged l x b) := by
  constructor
  · intro h
    induction h with
    | rel a b hab =>
      rcases List.mem_cons.mp hab with heq | hab
      · obtain ⟨rfl, rfl⟩ := Prod.mk.inj heq
        exact .inr (.inl ⟨.refl _, .refl _⟩)
      · exact .inl (.of_mem hab)
    | refl a => exact .inl (.refl a)
    | symm a b _ ih =>
      rcases ih with h | ⟨h1, h2⟩ | ⟨h1, h2⟩
      · exact .inl h.symm
      · exact .inr (.inr ⟨h2.symm, h1.symm⟩)
      · exact .inr (.inl ⟨h2.symm, h1.symm⟩)
    | trans a b c _ _ ihab ihbc =>
      rcases ihab with h | ⟨h1, h2⟩ | ⟨h1, h2⟩ <;> rcases ihbc with k | ⟨k1, k2⟩ | ⟨k1, k2⟩
      · exact .inl (h.trans k)
      · exact .inr (.inl ⟨h.trans k1, k2⟩)
      · exact .inr (.inr ⟨h.trans k1, k2⟩)
      · exact .inr (.inl ⟨h1, h2.trans k⟩)
      · exact .inr (.inl ⟨h1, k2⟩)
      · exact .inl (h1.trans k2)
      · exact .inr (.inr ⟨h1, h2.trans k⟩)
      · exact .inl (h1.trans k2)
      · exact .inr (.inr ⟨h1, k2⟩)
  · have hxy : Merged ((x, y) :: l) x y := .of_mem List.mem_cons_self
    rintro (h | ⟨h1, h2⟩ | ⟨h1, h2⟩)
    · exact h.cons _
    · exact ((h1.cons _).trans hxy).trans (h2.cons _)
    · exact ((h1.cons _).trans hxy.symm).trans (h2.cons _)

end Merged
