import Mathlib.Data.List.Chain

/-! Histories in which what opens and what closes take turns, and the first entry opens. Whether something is open is
    read off the last entry. -/

namespace Alternation
variable {α : Type*} (closes : α → Prop)

structure Alternates (l : List α) : Prop where
  first : ∀ x ∈ l.head?, ¬closes x
  chain : l.IsChain fun x y => closes x ↔ ¬closes y

/-- Nothing is open at the end. -/
def Closed (l : List α) : Prop := ∀ x ∈ l.getLast?, closes x

theorem alternates_nil : Alternates closes [] := ⟨fun _ h => absurd h (by simp), .nil⟩

theorem closed_nil : Closed closes [] := fun _ h => absurd h (by simp)

variable {closes} {l : List α} {x : α}

theorem closed_concat : Closed closes (l ++ [x]) ↔ closes x := by simp [Closed]

/-- An entry that closes what is open, or opens where nothing is. -/
theorem Alternates.concat (h : Alternates closes l) (hx : closes x ↔ ¬Closed closes l) :
    Alternates closes (l ++ [x]) := by
  rcases l.eq_nil_or_concat' with rfl | ⟨l, y, rfl⟩
  · refine ⟨fun y hy => ?_, List.IsChain.singleton x⟩
    obtain rfl : x = y := by simpa using hy
    exact fun hcloses => hx.mp hcloses (closed_nil closes)
  · rw [closed_concat] at hx
    refine ⟨fun z hz => h.first z ?_, List.isChain_append.mpr ⟨h.chain, .singleton x, fun z hz w hw => ?_⟩⟩
    · simpa using hz
    · obtain rfl : y = z := by simpa using hz
      obtain rfl : x = w := by simpa using hw
      rw [hx, not_not]

end Alternation
