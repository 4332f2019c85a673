/-! # Warnings

What is reported although the work goes on.
-/
namespace ClonePlot

inductive Warning
  | configRefused
  | colorIgnored (slot value : String)
  | drawingAreaRejected (multiplier : Nat) (reason : String)
  | queueFull (id : Nat) (name : String)
  deriving DecidableEq, Repr

def Warning.text : Warning → String
  | configRefused => "config config_parse_failed_using_defaults"
  | colorIgnored slot value => s!"config invalid_color_ignored color={slot} value={value}"
  | drawingAreaRejected multiplier reason =>
    s!"view.rebuild resize_drawing_area_rejected multiplier={multiplier} error={reason}"
  | queueFull id name => s!"events.bus selection_queue_full id=src#{id} name={name}"

end ClonePlot
