import ClonePlot.Bus
import ClonePlot.Canvas
import ClonePlot.Canvas.Line
import ClonePlot.Canvas.Shape
import ClonePlot.Change
import ClonePlot.Clone
import ClonePlot.Color
import ClonePlot.CommandLine
import ClonePlot.Config
import ClonePlot.Corpus
import ClonePlot.Directory
import ClonePlot.Directory.Box
import ClonePlot.Directory.Tree
import ClonePlot.Font
import ClonePlot.Frontier
import ClonePlot.Gesture
import ClonePlot.Image
import ClonePlot.Image.Bmp
import ClonePlot.Image.Bytes
import ClonePlot.Image.Png
import ClonePlot.IndexSet
import ClonePlot.Json.Number
import ClonePlot.Json.Printer
import ClonePlot.Json.Reader
import ClonePlot.Json.Text
import ClonePlot.Json.Token
import ClonePlot.Json.Value
import ClonePlot.Layout
import ClonePlot.Main
import ClonePlot.Mapper
import ClonePlot.Metric
import ClonePlot.Model
import ClonePlot.Options
import ClonePlot.Overflow
import ClonePlot.Palette
import ClonePlot.Path
import ClonePlot.Point
import ClonePlot.Proofs.Bus.Delivery
import ClonePlot.Proofs.Bus.Pruning
import ClonePlot.Proofs.Bus.Register
import ClonePlot.Proofs.Bus.Telemetry
import ClonePlot.Proofs.Canvas.Area
import ClonePlot.Proofs.Canvas.Crop
import ClonePlot.Proofs.Canvas.Effect
import ClonePlot.Proofs.Canvas.Line
import ClonePlot.Proofs.Canvas.Reflection
import ClonePlot.Proofs.Canvas.Straight
import ClonePlot.Proofs.Color
import ClonePlot.Proofs.Directory.Box
import ClonePlot.Proofs.Directory.Edge
import ClonePlot.Proofs.Directory.Label
import ClonePlot.Proofs.Directory.Neighbor
import ClonePlot.Proofs.Directory.Nesting
import ClonePlot.Proofs.Directory.Run
import ClonePlot.Proofs.Directory.Shared
import ClonePlot.Proofs.Directory.Tree
import ClonePlot.Proofs.Directory.Walk
import ClonePlot.Proofs.Frontier
import ClonePlot.Proofs.Gesture
import ClonePlot.Proofs.Gesture.Extent
import ClonePlot.Proofs.Gesture.Growth
import ClonePlot.Proofs.Gesture.Innermost
import ClonePlot.Proofs.Gesture.Picking
import ClonePlot.Proofs.Gesture.Reflection
import ClonePlot.Proofs.Gesture.Region
import ClonePlot.Proofs.IndexSet.Growth
import ClonePlot.Proofs.IndexSet.Runs
import ClonePlot.Proofs.Layout
import ClonePlot.Proofs.Layout.Lookup
import ClonePlot.Proofs.Mapper
import ClonePlot.Proofs.Mapper.Word
import ClonePlot.Proofs.Model.Count
import ClonePlot.Proofs.Model.Listing
import ClonePlot.Proofs.Model.Rows
import ClonePlot.Proofs.Model.Total
import ClonePlot.Proofs.Model.Validation
import ClonePlot.Proofs.Rebuild
import ClonePlot.Proofs.Scene.Effect
import ClonePlot.Proofs.Scene.Gap
import ClonePlot.Proofs.Scene.Highlight
import ClonePlot.Proofs.Scene.Label
import ClonePlot.Proofs.Scene.Marker
import ClonePlot.Proofs.Scene.Pill
import ClonePlot.Proofs.Scene.Reflection
import ClonePlot.Proofs.Scene.Shade
import ClonePlot.Proofs.Scene.Span
import ClonePlot.Proofs.Scene.Stacking
import ClonePlot.Proofs.View.Accounting
import ClonePlot.Proofs.View.Contentless
import ClonePlot.Proofs.View.Freshness
import ClonePlot.Proofs.View.Listing
import ClonePlot.Proofs.View.Message
import ClonePlot.Proofs.View.Mirror
import ClonePlot.Proofs.View.Probe
import ClonePlot.Proofs.View.Refusal
import ClonePlot.Proofs.View.Selected
import ClonePlot.Proofs.View.Validity
import ClonePlot.Ramp
import ClonePlot.Rebuild
import ClonePlot.Report
import ClonePlot.Scene
import ClonePlot.Scene.Label
import ClonePlot.Scene.Marker
import ClonePlot.Selection
import ClonePlot.Settings
import ClonePlot.Text.Blank
import ClonePlot.Text.Hex
import ClonePlot.Text.Integer
import ClonePlot.Text.Split
import ClonePlot.Toml.Moment
import ClonePlot.Toml.Number
import ClonePlot.Toml.Reader
import ClonePlot.Toml.Table
import ClonePlot.Toml.Text
import ClonePlot.Toml.Value
import ClonePlot.View
import ClonePlot.View.Linked
import ClonePlot.Warning
