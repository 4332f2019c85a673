import ClonePlot.Bus
import ClonePlot.View

/-! # Views on a bus

A view may be attached to a selection bus. It then tells the bus about its own gestures,
and takes over what its siblings select when it polls. `act` is one step of such a view.
-/
namespace ClonePlot

structure LinkedView where
  view : View
  subscription : Option Nat := none

inductive Action
  | updateModel (model : Model) (table : Option MetricTable)
  | resize (width height : Nat)
  | resizeDrawingArea (multiplier : Nat)
  | setMetric (metric : Option String)
  | setOptions (options : DrawOptions)
  | toggle (overlay : Overlay)
  | setPalette (palette : Palette)
  | click (p : Point)
  | beginDrag (p : Point)
  | dragTo (p : Point)
  | endDrag (p : Point)
  | selectRect (r : PixelRect)
  | clearSelection
  /-- Subscribes to the bus the view is on, or to another one. -/
  | attach (other : Option Bus := none)
  | poll
  /-- An event that reaches the view other than by its subscription. -/
  | receive (event : Event)
  | frame

inductive Reply
  | done
  | rejected (reason : DrawSizeTooLarge)
  | selected (selection : DragSelection)
  | attached (serial : Nat)
  | polled (count : Nat)
  /-- A sum was refused; nothing follows. -/
  | stopped (cause : Overflow)

structure Outcome where
  linked : LinkedView
  bus : Bus
  reply : Reply := .done
  warnings : List Warning := []
  /-- The bus the view was on before, if it is on another one now. -/
  left : Option Bus := none

structure RectOutcome where
  view : View
  told : List Change := []
  reply : Reply

/-- Selects a rectangle in `view`. Siblings are told of its region last; where that has no
end, they know the files and classes already. -/
def RectOutcome.of (before view : View) (r : PixelRect) : RectOutcome :=
  match view.selectRect r with
  | .error e => { view := before, reply := .stopped e }
  | .ok (d, after) =>
    match after.mapper.region? r d with
    | .error e => ⟨after, after.rectChanges, .stopped e⟩
    | .ok region => ⟨after, after.rectChanges ++ region.toList, .selected d⟩

namespace LinkedView

def ofSettings (settings : Settings) : LinkedView := { view := .ofSettings settings }

def subscriberName : String := "scatter_plot"

def id? (v : LinkedView) : Option Nat := v.subscription.map Subscriber.idOf

def post (source : Nat) : List Change → Bus → Bus × List Warning
  | [], bus => (bus, [])
  | change :: rest, bus =>
    let event : Event := ⟨source, change⟩
    let (after, warnings) := post source rest (bus.publish event)
    (after, bus.missed event ++ warnings)

/-- The view after a gesture, its changes published if it is attached. -/
def tell (v : LinkedView) (bus : Bus) (view : View) (changes : List Change)
    (reply : Reply := .done) : Outcome :=
  match v.id? with
  | none => { linked := { v with view }, bus, reply }
  | some id =>
    let (bus, warnings) := post id changes bus
    { linked := { v with view }, bus, reply, warnings }

def apply (v : LinkedView) (event : Event) : LinkedView :=
  if v.id? = some event.source then v else { v with view := v.view.receive event.change }

def leave (v : LinkedView) (bus : Bus) : Bus := v.subscription.elim bus bus.drop

/-- Subscribes first and then leaves, be it the same bus. -/
def attach (v : LinkedView) (bus : Bus) (other : Option Bus) : Outcome :=
  let (serial, joined) := (other.getD bus).subscribe subscriberName
  { linked := { v with subscription := some serial },
    bus := if other.isNone then v.leave joined else joined,
    reply := .attached serial,
    left := other.map fun _ => v.leave bus }

def poll (v : LinkedView) (bus : Bus) : Outcome :=
  match v.subscription with
  | none => { linked := v, bus, reply := .polled 0 }
  | some serial =>
    let (events, bus) := bus.drain serial
    { linked := events.foldl apply v, bus, reply := .polled events.length }

/-- The view after an action that may have drawn a picture. -/
def draw (v : LinkedView) (bus : Bus) (view : View) : Outcome :=
  let reply := match view.scene.check with
    | .error e => if view.counters.rebuilds = v.view.counters.rebuilds then .done else .stopped e
    | .ok _ => .done
  { linked := { v with view }, bus, reply }

def resizeDrawingArea (v : LinkedView) (bus : Bus) (multiplier : Nat) : Outcome :=
  match v.view.resizeDrawingArea multiplier with
  | .ok view => v.draw bus view
  | .error e =>
    { linked := v, bus, reply := .rejected e,
      warnings := [.drawingAreaRejected multiplier e.message] }

def selectRect (v : LinkedView) (bus : Bus) (view : View) (r : PixelRect) : Outcome :=
  let o := RectOutcome.of v.view view r
  v.tell bus o.view o.told o.reply

/-- One step, with the bus the view is on if it is attached. -/
def act (v : LinkedView) (bus : Bus) : Action → Outcome
  | .updateModel model table => v.draw bus (v.view.updateModel model table)
  | .resize width height => v.draw bus (v.view.resize width height)
  | .resizeDrawingArea multiplier => v.resizeDrawingArea bus multiplier
  | .setMetric metric => v.draw bus (v.view.setMetric metric)
  | .setOptions options => v.draw bus (v.view.setOptions options)
  | .toggle overlay => v.draw bus (v.view.toggle overlay)
  | .setPalette palette => v.draw bus (v.view.setPalette palette)
  | .click p =>
    let view := v.view.click p
    v.tell bus view [view.filesChange]
  | .beginDrag p => { linked := { v with view := v.view.beginDrag p }, bus }
  | .dragTo p => { linked := { v with view := v.view.dragTo p }, bus }
  | .endDrag p => v.selectRect bus v.view.dropDrag (v.view.endRect p)
  | .selectRect r => v.selectRect bus v.view r
  | .clearSelection =>
    let view := v.view.clearSelection
    v.tell bus view [view.filesChange]
  | .attach other => v.attach bus other
  | .poll => v.poll bus
  | .receive event => { linked := v.apply event, bus }
  | .frame => v.draw bus v.view.flush

end LinkedView

inductive Signal
  | resize (width height : Nat)
  | pointerDown (p : Point)
  | pointerDrag (p : Point)
  | pointerUp (p : Point)
  | pointerClick (p : Point)
  | resizeDrawingArea (multiplier : Nat)
  | setMetric (metric : Option String)
  | toggle (overlay : Overlay)
  | clearSelection
  | selection (event : Event)
  | shutdown

/-- What a view does about a signal; at shutdown nothing, and the window closes. -/
def Signal.action? : Signal → Option Action
  | resize width height => some (.resize width height)
  | pointerDown p => some (.beginDrag p)
  | pointerDrag p => some (.dragTo p)
  | pointerUp p => some (.endDrag p)
  | pointerClick p => some (.click p)
  | resizeDrawingArea multiplier => some (.resizeDrawingArea multiplier)
  | setMetric metric => some (.setMetric metric)
  | toggle overlay => some (.toggle overlay)
  | clearSelection => some .clearSelection
  | selection event => some (.receive event)
  | shutdown => none

end ClonePlot
