import Dyx3.Spray.NextBoundary

/-!
Past the end of a stroke: what `make_decision` wants at and beyond the station where the drive away starts.

The station of the seam belongs to both runs. A foot at the end of the stroke is on MARK, and its closing boundary
is not strictly beyond it.
-/

namespace Dyx3.Spray

noncomputable section

open Lib Geometry

variable {V : Type*} [Vertex V]

end

end Dyx3.Spray
