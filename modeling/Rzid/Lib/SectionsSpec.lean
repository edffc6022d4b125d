import Rzid.Lib.Sections

/-!
# Specifications of objects

What the calls of an object are for, apart from how their sections do it: in each abstract
state, the calls that may be made, with their answers and the states that they may leave
(`Spec`). An object refines a specification if each of its calls, made on its own, is one
that the specification allows (`Refines`).

Then a sequential order of calls, which accounts for a history of the object by
`Reachable.linearization`, is one that the specification allows (`Refines.linearization`):
the clients cannot tell the object from its specification.
-/

namespace Sections

variable {σ R O A : Type*}

/-- The calls that may be made in a state, with an answer and a state after them. -/
abbrev Spec (R O A : Type*) := R → O → A → R → Prop

/-- The calls `order`, the latest first, may be made one after the other from `r`, with these
    answers, and leave `r'`. -/
inductive Spec.Legal (spec : Spec R O A) (r : R) : List (Entry O A) → R → Prop
  | nil : Legal spec r [] r
  | cons {order r' r''} (e : Entry O A) (h : Legal spec r order r')
    (he : spec r' e.op e.answer r'') : Legal spec r (e :: order) r''

/-- The calls of an object, made in states with the invariant `inv`, are calls that the
    specification allows in the states that `abs` makes of them. -/
structure Refines (obj : Object σ O A) (spec : Spec R O A) (abs : σ → R) (inv : σ → Prop) :
    Prop where
  keeps {s : σ} (o : O) (h : inv s) : inv (obj.apply o s).1
  meets {s : σ} (o : O) (h : inv s) : spec (abs s) o (obj.apply o s).2 (abs (obj.apply o s).1)

namespace Refines

variable {obj : Object σ O A} {spec : Spec R O A} {abs : σ → R} {inv : σ → Prop} {s s' : σ}
  {order : List (Entry O A)} {c : Config σ O A}

/-- An order of calls of the object is one that the specification allows. -/
theorem legal (href : Refines obj spec abs inv) (hs : inv s) (h : Legal obj s order s') :
    inv s' ∧ spec.Legal (abs s) order (abs s') := by
  induction h with
  | nil => exact ⟨hs, .nil⟩
  | cons id o _ ih => exact ⟨href.keeps o ih.1, .cons _ ih.2 (href.meets o ih.1)⟩

/-- A history of the object is accounted for by an order of calls that the specification
    allows; and once no section is under way, the state stands for what they leave. -/
theorem linearization (href : Refines obj spec abs inv) (hs : inv s) (h : Reachable obj s c) :
    ∃ order r, Linearization obj s c.history order ∧ spec.Legal (abs s) order r ∧
      ((∀ id o code, c.phase id ≠ .holding o code) → abs c.state = r) := by
  obtain ⟨order, s', hlinear, hlegal, hstate⟩ := h.linearization
  exact ⟨order, abs s', hlinear, (href.legal hs hlegal).2, fun hnone => congrArg abs (hstate hnone)⟩

end Refines

end Sections
