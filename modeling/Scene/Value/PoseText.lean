/-
Poses as text: `x y z roll pitch yaw`, the angles in radians.

The rotation is written by its three angles, so what is read back is the
rotation built from them and not the quaternion that was written.  No zero is
written with a sign.
-/
import Scene.Space.Pose
import Scene.Value.Tuple

namespace Scene.Pose

/-- Read a pose from six numbers. -/
def ofString (text : String) : Except ValueError (Pose Float) :=
  (readTuple "pose" 6 text).map fun v => .ofEuler ⟨v[0], v[1], v[2]⟩ ⟨v[3], v[4], v[5]⟩

/-- A zero without its sign, and every other number as it is. -/
def unsignedZero (x : Float) : Float := if x == 0 then 0 else x

/-- The position and the three angles. -/
def text (p : Pose Float) : String :=
  let a := p.angles
  textOfTuple <|
    [p.position.x, p.position.y, p.position.z, a.x, a.y, a.z].map unsignedZero

end Scene.Pose
