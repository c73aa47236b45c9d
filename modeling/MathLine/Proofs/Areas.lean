import Mathlib.Algebra.Order.Field.Rat
import Mathlib.Tactic.Linarith
import Mathlib.Tactic.NormNum.OfScientific
import Mathlib.Tactic.Ring
import MathLine.Geometry.Box

set_option autoImplicit false

/-!
# Areas

Rational numbers are scalars with which geometry is exact.  This module says over them what
boxes and rules cover: an area, given by its four edges.  A rule is an area without height.

`Area.Within` and `Area.Apart` compare areas.  Both are kept when areas are measured from
outside the frame that they stand in (`Within.inFrame`), as long as the frame does not scale
by a negative factor, and areas within two that are apart are apart (`Apart.mono`).
-/

namespace MathLine.Geometry

/-- Rational numbers, with which geometry is exact. -/
instance : Scalar ℚ where
  zero := 0
  one := 1
  two := 2
  larger := max

@[simp] theorem scalar_zero : (Scalar.zero : ℚ) = 0 := rfl

@[simp] theorem scalar_one : (Scalar.one : ℚ) = 1 := rfl

@[simp] theorem scalar_two : (Scalar.two : ℚ) = 2 := rfl

@[simp] theorem scalar_larger (a b : ℚ) : Scalar.larger a b = max a b := rfl

/-- No length and no factor is negative. -/
structure Metrics.Nonneg (m : Metrics ℚ) : Prop where
  charWidth : 0 ≤ m.charWidth
  charHeight : 0 ≤ m.charHeight
  charDepth : 0 ≤ m.charDepth
  emptyWidth : 0 ≤ m.emptyWidth
  operatorSpace : 0 ≤ m.operatorSpace
  bracketWidth : 0 ≤ m.bracketWidth
  bracketJut : 0 ≤ m.bracketJut
  bracketPadding : 0 ≤ m.bracketPadding
  loweredScale : 0 ≤ m.loweredScale
  raisedScale : 0 ≤ m.raisedScale
  scriptMiddle : 0 ≤ m.scriptMiddle
  radicalWidth : 0 ≤ m.radicalWidth
  radicalGap : 0 ≤ m.radicalGap
  radicalJut : 0 ≤ m.radicalJut
  radicalTopPadding : 0 ≤ m.radicalTopPadding
  radicalRightPadding : 0 ≤ m.radicalRightPadding
  fractionScale : 0 ≤ m.fractionScale
  numeratorGap : 0 ≤ m.numeratorGap
  denominatorGap : 0 ≤ m.denominatorGap
  fractionJut : 0 ≤ m.fractionJut
  fractionSidePadding : 0 ≤ m.fractionSidePadding
  fractionTopPadding : 0 ≤ m.fractionTopPadding
  fractionBottomPadding : 0 ≤ m.fractionBottomPadding

theorem Metrics.nonneg_standard : (Metrics.standard : Metrics ℚ).Nonneg := by
  constructor <;> norm_num [Metrics.standard]

/-! ## Areas -/

/-- The part of the page between four edges.  The vertical axis points down. -/
structure Area where
  left : ℚ
  top : ℚ
  right : ℚ
  bottom : ℚ

namespace Area

/-- The area as it is measured outside the frame `f`. -/
def inFrame (f : Frame ℚ) (a : Area) : Area where
  left := f.x + f.scale * a.left
  top := f.y + f.scale * a.top
  right := f.x + f.scale * a.right
  bottom := f.y + f.scale * a.bottom

/-- The point `(x, y)` lies in the area and on none of its edges. -/
structure HasInside (a : Area) (x y : ℚ) : Prop where
  left : a.left < x
  right : x < a.right
  top : a.top < y
  bottom : y < a.bottom

/-- No edge of `a` is outside `b`. -/
structure Within (a b : Area) : Prop where
  left : b.left ≤ a.left
  top : b.top ≤ a.top
  right : a.right ≤ b.right
  bottom : a.bottom ≤ b.bottom

/-- The area `a` ends before `b` begins, from left to right. -/
def Before (a b : Area) : Prop := a.right ≤ b.left

/-- The area `a` ends before `b` begins, from top to bottom. -/
def Above (a b : Area) : Prop := a.bottom ≤ b.top

/-- One of the two areas is beside or above the other. -/
def Apart (a b : Area) : Prop := a.Before b ∨ b.Before a ∨ a.Above b ∨ b.Above a

variable {a b c d : Area} {f : Frame ℚ}

@[refl] theorem Within.refl (a : Area) : a.Within a :=
  ⟨le_refl _, le_refl _, le_refl _, le_refl _⟩

@[trans] theorem Within.trans (hab : a.Within b) (hbc : b.Within c) : a.Within c where
  left := hbc.left.trans hab.left
  top := hbc.top.trans hab.top
  right := hab.right.trans hbc.right
  bottom := hab.bottom.trans hbc.bottom

theorem Within.inFrame (hscale : 0 ≤ f.scale) (h : a.Within b) :
    (a.inFrame f).Within (b.inFrame f) where
  left := add_le_add_right (mul_le_mul_of_nonneg_left h.left hscale) _
  top := add_le_add_right (mul_le_mul_of_nonneg_left h.top hscale) _
  right := add_le_add_right (mul_le_mul_of_nonneg_left h.right hscale) _
  bottom := add_le_add_right (mul_le_mul_of_nonneg_left h.bottom hscale) _

theorem Before.inFrame (hscale : 0 ≤ f.scale) (h : a.Before b) :
    (a.inFrame f).Before (b.inFrame f) :=
  add_le_add_right (mul_le_mul_of_nonneg_left h hscale) _

theorem Above.inFrame (hscale : 0 ≤ f.scale) (h : a.Above b) :
    (a.inFrame f).Above (b.inFrame f) :=
  add_le_add_right (mul_le_mul_of_nonneg_left h hscale) _

theorem Before.mono (h : c.Before d) (hac : a.Within c) (hbd : b.Within d) : a.Before b :=
  (hac.right.trans h).trans hbd.left

theorem Above.mono (h : c.Above d) (hac : a.Within c) (hbd : b.Within d) : a.Above b :=
  (hac.bottom.trans h).trans hbd.top

theorem Apart.symm (h : a.Apart b) : b.Apart a := by
  obtain h | h | h | h := h
  · exact .inr (.inl h)
  · exact .inl h
  · exact .inr (.inr (.inr h))
  · exact .inr (.inr (.inl h))

/-- What lies within areas that are apart is apart. -/
theorem Apart.mono (h : c.Apart d) (hac : a.Within c) (hbd : b.Within d) : a.Apart b := by
  obtain h | h | h | h := h
  · exact .inl (h.mono hac hbd)
  · exact .inr (.inl (h.mono hbd hac))
  · exact .inr (.inr (.inl (h.mono hac hbd)))
  · exact .inr (.inr (.inr (h.mono hbd hac)))

/-- A point inside one of two areas that are apart is not between the edges of the other. -/
theorem Apart.not_hasInside (h : a.Apart b) {x y : ℚ} (ha : a.HasInside x y)
    (hleft : b.left ≤ x) (hright : x ≤ b.right) (htop : b.top ≤ y) (hbottom : y ≤ b.bottom) :
    False := by
  obtain h | h | h | h := h
  · exact absurd (h.trans hleft) (not_le.2 ha.right)
  · exact absurd (hright.trans h) (not_le.2 ha.left)
  · exact absurd (h.trans htop) (not_le.2 ha.bottom)
  · exact absurd (hbottom.trans h) (not_le.2 ha.top)

end Area

/-! ## Boxes, rules and frames -/

/-- The frame `g`, which stands in the frame `f`, as it is outside `f`. -/
def Frame.comp (f g : Frame ℚ) : Frame ℚ :=
  ⟨f.x + f.scale * g.x, f.y + f.scale * g.y, g.scale * f.scale⟩

/-- Moving a frame to the right keeps its scale. -/
theorem Frame.scale_comp_shift (f : Frame ℚ) (distance : ℚ) :
    (f.comp ⟨distance, 0, 1⟩).scale = f.scale :=
  one_mul f.scale

@[simp] theorem Frame.comp_origin (f : Frame ℚ) : f.comp Frame.origin = f := by
  simp [comp, origin]

namespace Box

/-- What a box covers. -/
def area (b : Box ℚ) : Area := ⟨b.left, b.top, b.right, b.bottom⟩

theorem frame_inFrame (f : Frame ℚ) (b : Box ℚ) : (b.inFrame f).frame = f.comp b.frame := rfl

/-- Frames that stand in each other make one frame. -/
theorem inFrame_comp (f g : Frame ℚ) (b : Box ℚ) :
    b.inFrame (f.comp g) = (b.inFrame g).inFrame f := by
  simp only [inFrame, scaleBy, Frame.comp, mk.injEq]
  refine ⟨?_, ?_, ?_, ?_, ?_, ?_⟩ <;> ring

theorem area_inFrame (f : Frame ℚ) (b : Box ℚ) : (b.inFrame f).area = b.area.inFrame f := by
  simp only [area, Area.inFrame, left, top, right, bottom, inFrame, scaleBy, Area.mk.injEq]
  refine ⟨trivial, ?_, ?_, ?_⟩ <;> ring

/-! A box that stands at the origin with scale one. -/

section Unplaced

variable {b : Box ℚ} (h : b.IsUnplaced)
include h

theorem IsUnplaced.x : b.x = 0 := congrArg Frame.x h

theorem IsUnplaced.y : b.y = 0 := congrArg Frame.y h

theorem IsUnplaced.scale : b.scale = 1 := congrArg Frame.scale h

/-- What stands in the box stands in the frame that the box is put into. -/
theorem IsUnplaced.frame_inFrame (f : Frame ℚ) : (b.inFrame f).frame = f := by
  rw [Box.frame_inFrame, h, Frame.comp_origin]

end Unplaced

/-- A union covers its first box. -/
theorem within_union_left (a b : Box ℚ) : a.area.Within (a.union b).area where
  left := le_refl a.x
  top := sub_le_sub_left (le_max_right _ _) a.y
  right := add_le_add_right (le_max_right _ _) a.x
  bottom := add_le_add_right (le_max_right _ _) a.y

/-- A union covers its second box if that does not begin before the first. -/
theorem within_union_right {a b : Box ℚ} (ha : a.IsUnplaced) (hb : 0 ≤ b.x) :
    b.area.Within (a.union b).area := by
  have hwidth : b.width + b.x ≤ (a.union b).width := le_max_left _ _
  have hheight : b.height - b.y ≤ (a.union b).height := le_max_left _ _
  have hdepth : b.depth + b.y ≤ (a.union b).depth := le_max_left _ _
  have hx : (a.union b).x = 0 := ha.x
  have hy : (a.union b).y = 0 := ha.y
  constructor <;> simp only [area, left, top, right, bottom, hx, hy] <;> linarith

end Box

namespace Rule

/-- What a rule covers: an area without height. -/
def area (r : Rule ℚ) : Area := ⟨r.left, r.y, r.right, r.y⟩

theorem area_inFrame (f : Frame ℚ) (r : Rule ℚ) : (r.inFrame f).area = r.area.inFrame f := rfl

end Rule

end MathLine.Geometry
