import Overseer.Proofs.Duty

/-!
# Duties and what stands above them

What a duty relies on is often the duty right above it: the work that is done for it just now.

    Stacked R above [d₁, d₂, …]  =  R above d₁, R (some d₁) d₂, …

Steps change a few duties at the top, so the rest keeps what it relies on.
-/

namespace Overseer.Supervisor

/-- Each duty is related to the one above it; the first one is below `above`. -/
def Stacked (R : Option Duty → Duty → Prop) : Option Duty → List Duty → Prop
  | _, [] => True
  | above, d :: D => R above d ∧ Stacked R (some d) D

variable {R R' : Option Duty → Duty → Prop} {above : Option Duty} {D : List Duty}

theorem Stacked.mono (hs : Stacked R above D) (hr : ∀ a, ∀ d ∈ D, R a d → R' a d) :
    Stacked R' above D := by
  induction D generalizing above with
  | nil => trivial
  | cons d D ih =>
    obtain ⟨hd, hrest⟩ := hs
    exact ⟨hr above d List.mem_cons_self hd,
      ih hrest fun a d' hm => hr a d' (List.mem_cons_of_mem _ hm)⟩

/-- Only the first duty has seen what was above change. -/
theorem Stacked.retop {a a' : Option Duty} (hs : Stacked R a D) (hr : ∀ d ∈ D, R a d → R a' d) :
    Stacked R a' D := by
  cases D with
  | nil => trivial
  | cons d D => exact ⟨hr d List.mem_cons_self hs.1, hs.2⟩

end Overseer.Supervisor
