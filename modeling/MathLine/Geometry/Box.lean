import MathLine.Geometry.Metrics
import MathLine.Geometry.Scalar

set_option autoImplicit false

/-!
# Geometry: boxes, rules and frames

A box is measured from a point on its baseline at its left edge: a height above the
baseline, a depth below it, and a width to the right.  The vertical axis points down.
A rule is a horizontal line.

A frame says where the origin of a box or row lies and how far it is scaled.  Boxes
and rules are first measured in the frame of what they stand in; `Box.inFrame` and
`Rule.inFrame` turn such measures into those of the frame around it.
-/

namespace MathLine.Geometry

/-- A box on a baseline.  `scale` is the size of what is in it. -/
structure Box (K : Type) where
  x : K
  y : K
  width : K
  height : K
  depth : K
  scale : K
  deriving Repr, Inhabited

/-- A horizontal line. -/
structure Rule (K : Type) where
  left : K
  right : K
  y : K
  deriving Repr, Inhabited

/-- The place of an origin, and a scale. -/
structure Frame (K : Type) where
  x : K
  y : K
  scale : K
  deriving Repr, Inhabited

variable {K : Type} [Scalar K]

namespace Frame

/-- The frame that changes nothing. -/
def origin : Frame K := ⟨Scalar.zero, Scalar.zero, Scalar.one⟩

end Frame

namespace Box

/-- The box at the origin with the given extent. -/
def ofExtent (width height depth : K) : Box K :=
  ⟨Scalar.zero, Scalar.zero, width, height, depth, Scalar.one⟩

/-- The box of a line before anything is put into it: no width, and the height and
depth of a character. -/
def line (m : Metrics K) : Box K := ofExtent Scalar.zero m.charHeight m.charDepth

/-- The left edge. -/
def left (b : Box K) : K := b.x

/-- The upper edge. -/
def top (b : Box K) : K := b.y - b.height

/-- The right edge. -/
def right (b : Box K) : K := b.x + b.width

/-- The lower edge. -/
def bottom (b : Box K) : K := b.y + b.depth

/-- The frame in which the content of a box is measured. -/
def frame (b : Box K) : Frame K := ⟨b.x, b.y, b.scale⟩

/-- The box shrunk or enlarged where it stands. -/
def scaleBy (s : K) (b : Box K) : Box K :=
  { b with
    width := b.width * s
    height := b.height * s
    depth := b.depth * s
    scale := b.scale * s }

/-- The box, measured in the frame `f`, as it is measured outside `f`. -/
def inFrame (f : Frame K) (b : Box K) : Box K :=
  { b.scaleBy f.scale with
    x := f.x + f.scale * b.x
    y := f.y + f.scale * b.y }

/-- The box `b`, which stands at the origin with scale one, widened, heightened and
deepened so that `other` fits into it. -/
def union (b other : Box K) : Box K :=
  { b with
    width := Scalar.larger (other.width + other.x) b.width
    height := Scalar.larger (other.height - other.y) b.height
    depth := Scalar.larger (other.depth + other.y) b.depth }

/-- A box stands at the origin with scale one. -/
def IsUnplaced (b : Box K) : Prop := b.frame = Frame.origin

theorem isUnplaced_line (m : Metrics K) : (line m).IsUnplaced := rfl

/-- A union stands where its first box does. -/
@[simp] theorem frame_union (b other : Box K) : (b.union other).frame = b.frame := rfl

end Box

namespace Rule

/-- The rule, measured in the frame `f`, as it is measured outside `f`. -/
def inFrame (f : Frame K) (r : Rule K) : Rule K :=
  ⟨f.x + f.scale * r.left, f.x + f.scale * r.right, f.y + f.scale * r.y⟩

end Rule

end MathLine.Geometry
