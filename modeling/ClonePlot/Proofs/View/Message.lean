import ClonePlot.Proofs.Bus.Delivery
import ClonePlot.Proofs.View.Selected

/-! # What a gesture tells siblings

A gesture publishes few enough changes to fit into an empty queue, so a sibling that polls takes
over all of them, in order. Files come first, classes only if there are any.
-/
namespace ClonePlot

namespace Subscriber

/-- Events from elsewhere that fit into the queue all stay there. -/
theorem foldl_hear {s : Subscriber} {source : Nat} {changes : List Change} (hid : s.id ≠ source)
    (hroom : s.queue.length + changes.length ≤ queueCapacity) :
    changes.foldl (fun s change => s.hear ⟨source, change⟩) s =
      { s with queue := s.queue ++ changes.map (Event.mk source) } := by
  induction changes generalizing s with
  | nil => simp
  | cons change rest ih =>
    rw [List.length_cons] at hroom
    have hhear : s.hear ⟨source, change⟩ = { s with queue := s.queue ++ [⟨source, change⟩] } :=
      if_pos ⟨hid, by omega⟩
    have hroom' : (s.queue ++ [(⟨source, change⟩ : Event)]).length + rest.length ≤
        queueCapacity := by
      rw [List.length_append, List.length_singleton]
      omega
    have hrest := ih (s := { s with queue := s.queue ++ [⟨source, change⟩] }) hid hroom'
    rw [List.foldl_cons, hhear, hrest, List.map_cons, List.append_assoc]
    rfl

end Subscriber

namespace LinkedView

theorem find?_post (source serial : Nat) (changes : List Change) (bus : Bus) :
    (post source changes bus).1.find? serial = (bus.find? serial).map fun s =>
      changes.foldl (fun s change => s.hear ⟨source, change⟩) s := by
  induction changes generalizing bus with
  | nil => exact Option.map_id'.symm
  | cons change rest ih =>
    have hpost : (post source (change :: rest) bus).1 =
        (post source rest (bus.publish ⟨source, change⟩)).1 := rfl
    rw [hpost, ih, Bus.find?_publish, Option.map_map]
    rfl

theorem foldl_apply {v : LinkedView} {source : Nat} (h : v.id? ≠ some source)
    (changes : List Change) :
    (changes.map (Event.mk source)).foldl apply v =
      { v with view := changes.foldl View.receive v.view } := by
  induction changes generalizing v with
  | nil => rfl
  | cons change rest ih =>
    have happly : v.apply ⟨source, change⟩ = { v with view := v.view.receive change } := if_neg h
    have hrest := ih (v := { v with view := v.view.receive change }) h
    rw [List.map_cons, List.foldl_cons, happly, hrest]
    rfl

/-- A view that polls after each gesture of a sibling takes over all it was told. -/
theorem poll_post {v : LinkedView} {serial source : Nat} {bus : Bus} {s : Subscriber}
    {changes : List Change} (hserial : v.subscription = some serial)
    (hsource : Subscriber.idOf serial ≠ source) (hs : bus.find? serial = some s)
    (hempty : s.queue = []) (hroom : changes.length ≤ queueCapacity) :
    (v.poll (post source changes bus).1).linked =
        { v with view := changes.foldl View.receive v.view } ∧
      ∃ t, (v.poll (post source changes bus).1).bus.find? serial = some t ∧ t.queue = [] := by
  have hid : s.id ≠ source := by
    rw [Subscriber.id, (Bus.live_of_find? hs).1]
    exact hsource
  have hpost : (post source changes bus).1.find? serial =
      some { s with queue := changes.map (Event.mk source) } := by
    rw [find?_post, hs, Option.map_some, Subscriber.foldl_hear hid (by simpa [hempty] using hroom),
      hempty, List.nil_append]
  have hv : v.id? ≠ some source := by
    rw [id?, hserial]
    exact fun h => hsource (Option.some.inj h)
  have hpoll : v.poll (post source changes bus).1 =
      { linked := ((post source changes bus).1.queue serial).foldl apply v,
        bus := ((post source changes bus).1.drain serial).2,
        reply := .polled ((post source changes bus).1.queue serial).length } := by
    unfold poll
    rw [hserial]
    rfl
  rw [hpoll, Bus.queue_eq hpost]
  exact ⟨foldl_apply hv changes, _, Bus.find?_drain hpost, rfl⟩

end LinkedView

inductive Gesture
  | click (p : Point)
  | beginDrag (p : Point)
  | dragTo (p : Point)
  | endDrag (p : Point)
  | selectRect (r : PixelRect)
  | clear

namespace Gesture

def action : Gesture → Action
  | click p => .click p
  | beginDrag p => .beginDrag p
  | dragTo p => .dragTo p
  | endDrag p => .endDrag p
  | selectRect r => .selectRect r
  | clear => .clearSelection

def after (v : View) : Gesture → View
  | click p => v.click p
  | beginDrag p => v.beginDrag p
  | dragTo p => v.dragTo p
  | endDrag p => (RectOutcome.of v v.dropDrag (v.endRect p)).view
  | selectRect r => (RectOutcome.of v v r).view
  | clear => v.clearSelection

def told (v : View) : Gesture → List Change
  | click p => [(v.click p).filesChange]
  | beginDrag _ | dragTo _ => []
  | endDrag p => (RectOutcome.of v v.dropDrag (v.endRect p)).told
  | selectRect r => (RectOutcome.of v v r).told
  | clear => [v.clearSelection.filesChange]

theorem length_rectChanges_le (v : View) : v.rectChanges.length ≤ 2 := by
  unfold View.rectChanges
  split <;> simp

theorem length_rectOutcome_told_le (before view : View) (r : PixelRect) :
    (RectOutcome.of before view r).told.length ≤ 3 := by
  unfold RectOutcome.of
  split
  · exact Nat.zero_le 3
  · rename_i after _
    have hchanges := length_rectChanges_le after
    split
    · exact Nat.le_succ_of_le hchanges
    · rename_i region _
      have hregion : region.toList.length ≤ 1 := Option.length_toList_le
      rw [List.length_append]
      omega

theorem length_told_le (v : View) (g : Gesture) : (g.told v).length ≤ 3 := by
  cases g with
  | endDrag p => exact length_rectOutcome_told_le _ _ _
  | selectRect r => exact length_rectOutcome_told_le _ _ _
  | _ => simp [told]

theorem act_action {v : LinkedView} {serial : Nat} (h : v.subscription = some serial) (bus : Bus)
    (g : Gesture) : (v.act bus g.action).linked = { v with view := g.after v.view } ∧
      (v.act bus g.action).bus =
        (LinkedView.post (Subscriber.idOf serial) (g.told v.view) bus).1 := by
  have htell (view : View) (changes : List Change) (reply : Reply) :
      (v.tell bus view changes reply).linked = { v with view } ∧
        (v.tell bus view changes reply).bus =
          (LinkedView.post (Subscriber.idOf serial) changes bus).1 := by
    have hid : v.id? = some (Subscriber.idOf serial) := by rw [LinkedView.id?, h]; rfl
    unfold LinkedView.tell
    rw [hid]
    exact ⟨rfl, rfl⟩
  cases g with
  | beginDrag p => exact ⟨rfl, rfl⟩
  | dragTo p => exact ⟨rfl, rfl⟩
  | _ => exact htell _ _ _

theorem dragTo_keeps (v : View) (p : Point) :
    (v.dragTo p).model = v.model ∧ (v.dragTo p).selection = v.selection := by
  obtain heq | ⟨drag, heq⟩ := v.dragTo_eq p
  · rw [heq]
    exact ⟨rfl, rfl⟩
  · rw [heq]
    exact ⟨rfl, rfl⟩

theorem model_after (v : View) (g : Gesture) : (g.after v).model = v.model := by
  cases g with
  | dragTo p => exact (dragTo_keeps v p).1
  | endDrag p =>
    exact RectOutcome.preserves (P := (·.model = v.model)) rfl fun _ _ => View.model_of_selectRect
  | selectRect r =>
    exact RectOutcome.preserves (P := (·.model = v.model)) rfl fun _ _ => View.model_of_selectRect
  | _ => rfl

theorem inside_after {v : View} (h : v.Placed) (hin : v.selection.Inside v.model) (g : Gesture) :
    (g.after v).selection.Inside v.model := by
  cases g with
  | click p => exact View.inside_click h p
  | beginDrag p => exact hin
  | dragTo p =>
    rw [after, (dragTo_keeps v p).2]
    exact hin
  | endDrag p =>
    exact RectOutcome.preserves (P := (·.selection.Inside v.model)) hin
      fun _ _ => View.inside_of_selectRect h.dropDrag
  | selectRect r =>
    exact RectOutcome.preserves (P := (·.selection.Inside v.model)) hin
      fun _ _ => View.inside_of_selectRect h
  | clear => exact .of_isEmpty rfl v.model

/-- A receiver that hears of a gesture shows the files selected then, and the classes if
there are any. -/
theorem shows_told {v w : View} {heard : IndexSet} (hv : v.Placed)
    (hw : w.Shows v.model v.selection.files heard) (hheard : ∀ k ∈ heard, k ∈ v.model.classes)
    (hagree : v.selection.classes = ∅ ∨ heard = v.selection.classes) (g : Gesture) :
    ((g.told v).foldl View.receive w).Shows v.model (g.after v).selection.files
      (View.latest heard (g.after v).selection.classes) := by
  have hsame := View.latest_eq_heard hagree
  cases g with
  | click p =>
    exact hw.receive_files (IndexSet.ofList_toList _) (View.inside_click hv p).files hheard
  | beginDrag p =>
    rw [after, View.beginDrag]
    exact hsame.symm ▸ hw
  | dragTo p =>
    rw [after, (dragTo_keeps v p).2, hsame]
    exact hw
  | endDrag p => exact hw.hear_rect hv.dropDrag rfl hheard hagree _
  | selectRect r => exact hw.hear_rect hv rfl hheard hagree r
  | clear =>
    refine hw.receive_files (IndexSet.ofList_toList _) (fun i hi => ?_) hheard
    exact absurd hi (IndexSet.not_mem_empty i)

end Gesture
end ClonePlot
