import Mathlib

/-!
# Overlays

Layers that each set some keys, applied one over the other. What a key holds in the end depends on
what lay below only where no layer sets it.
-/
namespace PrtsMcp.Overlays

variable {κ α : Type*}

/-- The keys that a layer does not set keep what they have. -/
def overlay (base : κ → α) (layer : κ → Option α) : κ → α := fun k => (layer k).getD (base k)

/-- The layers in the order of the list. -/
def overlayAll (base : κ → α) (layers : List (κ → Option α)) : κ → α := layers.foldl overlay base

variable {base other : κ → α} {layers more : List (κ → Option α)} {k : κ}

@[simp]
theorem overlayAll_nil : overlayAll base [] = base := rfl

@[simp]
theorem overlayAll_cons (layer : κ → Option α) :
    overlayAll base (layer :: layers) = overlayAll (overlay base layer) layers := rfl

theorem overlayAll_append :
    overlayAll base (layers ++ more) = overlayAll (overlayAll base layers) more :=
  List.foldl_append

theorem overlay_of_some {layer : κ → Option α} {a : α} (h : layer k = some a) :
    overlay base layer k = a := by
  rw [overlay, h, Option.getD_some]

theorem overlay_of_none {layer : κ → Option α} (h : layer k = none) :
    overlay base layer k = base k := by
  rw [overlay, h, Option.getD_none]

theorem overlayAll_of_untouched (h : ∀ layer ∈ layers, layer k = none) :
    overlayAll base layers k = base k := by
  induction layers generalizing base with
  | nil => rfl
  | cons layer layers ih =>
    rw [overlayAll_cons, ih fun l hl => h l (List.mem_cons_of_mem _ hl),
      overlay_of_none (h layer List.mem_cons_self)]

/-- A key shows the last layer that sets it. -/
theorem overlayAll_eq_findSome? :
    overlayAll base layers k = (layers.reverse.findSome? fun layer => layer k).getD (base k) := by
  induction layers generalizing base with
  | nil => rfl
  | cons layer layers ih =>
    rw [overlayAll_cons, ih, List.reverse_cons, List.findSome?_append]
    cases layers.reverse.findSome? fun layer => layer k with
    | some a => rfl
    | none => cases hlayer : layer k <;> simp [overlay, hlayer]

/-- Over two bases a key ends alike exactly if a layer sets it or it starts alike. -/
theorem overlayAll_eq_iff :
    overlayAll base layers k = overlayAll other layers k ↔
      (∃ layer ∈ layers, (layer k).isSome) ∨ base k = other k := by
  induction layers generalizing base other with
  | nil => simp
  | cons layer layers ih =>
    rw [overlayAll_cons, overlayAll_cons, ih]
    cases hlayer : layer k with
    | none => simp [hlayer, overlay_of_none hlayer]
    | some a => simp [hlayer, overlay_of_some hlayer]

/-- A key that a layer sets does not show the base. -/
theorem overlayAll_of_touched (h : ∃ layer ∈ layers, (layer k).isSome) :
    overlayAll base layers k = overlayAll other layers k :=
  overlayAll_eq_iff.mpr (.inl h)

end PrtsMcp.Overlays
