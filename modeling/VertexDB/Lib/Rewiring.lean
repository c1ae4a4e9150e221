import Mathlib

/-!
# Rewired graphs without endless paths

When every path of a graph ends and the edges out of some nodes are changed, every path still
ends, provided that no path leads from a changed node back to one.
-/

namespace Rewiring

open Relation

variable {α : Type} {edge edge' : α → α → Prop}

/-- Every path from the node ends. -/
def Ends (edge : α → α → Prop) (a : α) : Prop := Acc (flip edge) a

theorem ends_of_step {a : α} (h : ∀ b, edge a b → Ends edge b) : Ends edge a := ⟨a, h⟩

theorem Ends.step {a b : α} (h : Ends edge a) (hstep : edge a b) : Ends edge b := h.inv hstep

/-- A node that a path leads back to has an endless path. -/
theorem not_ends_of_transGen {a : α} (h : TransGen edge a a) : ¬ Ends edge a := by
  intro hends
  have hacc : Acc (TransGen (flip edge)) a := hends.transGen
  have hcycle : TransGen (flip edge) a a := transGen_swap.2 h
  clear h hends
  induction hacc with
  | intro a _ ih => exact ih a hcycle hcycle

/-- Away from the changed nodes paths are those of before. -/
theorem Ends.away {changed : α → Prop} (hkept : ∀ a b, ¬ changed a → edge' a b → edge a b)
    {a : α} (h : Ends edge a) (haway : ∀ b, ReflTransGen edge' a b → ¬ changed b) :
    Ends edge' a := by
  induction h with
  | intro a _ ih =>
    refine ends_of_step fun b hab => ?_
    refine ih b (hkept a b (haway a .refl) hab) fun c hbc => haway c ?_
    exact .head hab hbc

/-- **Every path still ends** after a change of nodes that no path leads back to. -/
theorem Ends.rewired (changed : α → Prop) (hkept : ∀ a b, ¬ changed a → edge' a b → edge a b)
    (hreturn : ∀ a b, changed a → TransGen edge' a b → ¬ changed b) (h : ∀ a, Ends edge a) (a : α) :
    Ends edge' a := by
  have hends := h a
  induction hends with
  | intro a _ ih =>
    refine ends_of_step fun b hab => ?_
    by_cases ha : changed a
    · exact (h b).away hkept fun c hbc => hreturn a c ha (.head' hab hbc)
    · exact ih b (hkept a b ha hab)

end Rewiring
