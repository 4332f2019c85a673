/-! # Drawing options

The optional layers of the picture, each on or off.
-/
namespace ClonePlot

inductive Overlay
  /-- Separators where the directory changes. -/
  | gaps
  /-- Separators between all files. -/
  | boundaries
  | directoryBoxes
  | noCloneRegions
  | labels
  deriving DecidableEq, Repr

structure DrawOptions where
  gaps : Bool := true
  boundaries : Bool := false
  directoryBoxes : Bool := true
  noCloneRegions : Bool := true
  labels : Bool := true
  deriving DecidableEq, Repr, Inhabited

def DrawOptions.toggle (o : DrawOptions) : Overlay → DrawOptions
  | .gaps => { o with gaps := !o.gaps }
  | .boundaries => { o with boundaries := !o.boundaries }
  | .directoryBoxes => { o with directoryBoxes := !o.directoryBoxes }
  | .noCloneRegions => { o with noCloneRegions := !o.noCloneRegions }
  | .labels => { o with labels := !o.labels }

end ClonePlot
