/-!
Counting steps up to a limit.
-/

namespace Formula

structure Guard where
  limit : Nat
  count : Nat
deriving DecidableEq, Repr

namespace Guard

def new (limit : Nat) : Guard := ⟨limit, 0⟩

/-- One more step, unless the limit is reached. -/
def tick? (g : Guard) : Option Guard := if g.count < g.limit then some ⟨g.limit, g.count + 1⟩ else none

def refusal (g : Guard) : String := "limit of " ++ toString g.limit ++ " exceeded"

theorem tick?_eq_none_iff (g : Guard) : g.tick? = none ↔ g.limit ≤ g.count := by
  simp [tick?]

theorem tick?_eq_some_iff {g g' : Guard} :
    g.tick? = some g' ↔ g.count < g.limit ∧ g' = ⟨g.limit, g.count + 1⟩ := by
  rw [tick?]
  split
  · next h => simp [h, eq_comm]
  · next h => simp [h]

theorem remaining_lt {g g' : Guard} (h : g.tick? = some g') :
    g'.limit - g'.count < g.limit - g.count := by
  unfold tick? at h
  split at h
  · cases h
    simp only
    omega
  · cases h

end Guard

end Formula
