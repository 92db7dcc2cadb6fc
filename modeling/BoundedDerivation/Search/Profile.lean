/-! A measure for searches. Work is counted separately at each depth, and a profile gets smaller
when a count falls while no count at a lesser depth changes, whatever becomes of the deeper ones. -/
namespace BoundedDerivation.Search

/-- Counts of pending work by depth, of which those up to `bound` matter. -/
structure Profile (bound : Nat) where
  count : Nat → Nat

namespace Profile

def Fewer (bound : Nat) (f g : Nat → Nat) : Prop :=
  ∃ d ≤ bound, f d < g d ∧ ∀ e < d, f e = g e

/-- The first count, and the counts of one level deeper. -/
def split (f : Nat → Nat) : Nat × (Nat → Nat) := (f 0, fun d => f (d + 1))

theorem fewer_zero {f g : Nat → Nat} (h : Fewer 0 f g) : f 0 < g 0 := by
  obtain ⟨d, hd, hlt, -⟩ := h
  obtain rfl := Nat.le_zero.mp hd
  exact hlt

theorem fewer_succ {bound : Nat} {f g : Nat → Nat} (h : Fewer (bound + 1) f g) :
    f 0 < g 0 ∨ f 0 = g 0 ∧ Fewer bound (fun d => f (d + 1)) (fun d => g (d + 1)) := by
  obtain ⟨d, hd, hlt, heq⟩ := h
  cases d with
  | zero => exact .inl hlt
  | succ d =>
    exact .inr ⟨heq 0 (Nat.succ_pos d), d, Nat.le_of_succ_le_succ hd, hlt,
      fun e he => heq (e + 1) (Nat.succ_lt_succ he)⟩

/-- Comparing profiles is comparing the first counts, and if these are equal the profiles of what is
below them. -/
theorem fewer_wf (bound : Nat) : WellFounded (Fewer bound) := by
  induction bound with
  | zero =>
    exact Subrelation.wf fewer_zero (InvImage.wf (fun f : Nat → Nat => f 0) Nat.lt_wfRel.wf)
  | succ bound ih =>
    have lex : WellFounded (Prod.Lex (· < ·) (Fewer bound)) :=
      (Prod.lex ⟨_, Nat.lt_wfRel.wf⟩ ⟨_, ih⟩).wf
    have sub : ∀ {f g}, Fewer (bound + 1) f g →
        InvImage (Prod.Lex (· < ·) (Fewer bound)) split f g := fun h =>
      Prod.lex_def.mpr (fewer_succ h)
    exact Subrelation.wf sub (InvImage.wf split lex)

instance (bound : Nat) : WellFoundedRelation (Profile bound) where
  rel f g := Fewer bound f.count g.count
  wf := InvImage.wf count (fewer_wf bound)

end Profile
end BoundedDerivation.Search
