import ClonePlot.Proofs.View.Message

/-! # Siblings that mirror a selection

One view makes gestures, another one of the same model polls after each of them. The files
selected are then the same in both. Classes are told only when there are any, so the receiver
keeps those it last heard of when the sender has none any more.
-/
namespace ClonePlot

structure Siblings where
  sender : LinkedView
  receiver : LinkedView
  bus : Bus

namespace Siblings

def sent (s : Siblings) : Selection := s.sender.view.selection

def received (s : Siblings) : Selection := s.receiver.view.selection

/-- The sender makes a gesture, then the receiver polls. -/
def step (s : Siblings) (g : Gesture) : Siblings :=
  let told := s.sender.act s.bus g.action
  let heard := s.receiver.act told.bus .poll
  ⟨told.linked, heard.linked, heard.bus⟩

def run (s : Siblings) (gestures : List Gesture) : Siblings := gestures.foldl step s

/-- Both are attached, under different names, and nothing waits for the receiver. -/
def Attached (s : Siblings) : Prop :=
  ∃ source serial subscriber, s.sender.subscription = some source ∧
    s.receiver.subscription = some serial ∧ Subscriber.idOf serial ≠ Subscriber.idOf source ∧
    s.bus.find? serial = some subscriber ∧ subscriber.queue = []

/-- The sender's selected files are shown by both; the receiver has last heard of some classes,
which are the sender's unless that has none. -/
structure Joined (s : Siblings) (heard : IndexSet) : Prop where
  sender : s.sender.view.Current
  inside : s.sent.Inside s.sender.view.model
  receiver : s.receiver.view.Shows s.sender.view.model s.sent.files heard
  classes : ∀ k ∈ heard, k ∈ s.sender.view.model.classes
  agree : s.sent.classes = ∅ ∨ heard = s.sent.classes
  attached : s.Attached

/-- The gesture changes the sender's view, what it tells the receiver's; both stay attached. -/
theorem step_eq {s : Siblings} (h : s.Attached) (g : Gesture) :
    (s.step g).sender = { s.sender with view := g.after s.sender.view } ∧
      (s.step g).receiver =
        { s.receiver with view := (g.told s.sender.view).foldl View.receive s.receiver.view } ∧
      (s.step g).Attached := by
  obtain ⟨source, serial, subscriber, hsource, hserial, hne, hfind, hempty⟩ := h
  obtain ⟨hsender, hbus⟩ := Gesture.act_action hsource s.bus g
  have hroom : (g.told s.sender.view).length ≤ queueCapacity :=
    Nat.le_trans (Gesture.length_told_le _ g) (by decide)
  obtain ⟨hreceiver, waiting, hwaiting, hnothing⟩ :=
    LinkedView.poll_post hserial hne hfind hempty hroom
  rw [← hbus] at hreceiver hwaiting
  refine ⟨hsender, hreceiver, source, serial, waiting, ?_, ?_, hne, hwaiting, hnothing⟩
  · rw [step, hsender]
    exact hsource
  · rw [step, LinkedView.act, hreceiver]
    exact hserial

theorem Joined.step {s : Siblings} {heard : IndexSet} (h : s.Joined heard) (g : Gesture) :
    (s.step g).Joined (View.latest heard (s.step g).sent.classes) := by
  obtain ⟨hsender, hreceiver, hattached⟩ := step_eq h.attached g
  have hsent : (s.step g).sent = (g.after s.sender.view).selection := by
    rw [sent, hsender]
  have hmodel : (s.step g).sender.view.model = s.sender.view.model := by
    rw [hsender]
    exact Gesture.model_after s.sender.view g
  have hinside := Gesture.inside_after h.sender.placed h.inside g
  rw [hsent]
  refine ⟨LinkedView.current_act h.sender s.bus g.action, ?_, ?_, ?_, ?_, hattached⟩
  · rw [hsent, hmodel]
    exact hinside
  · rw [hsent, hmodel, hreceiver]
    exact Gesture.shows_told h.sender.placed h.receiver h.classes h.agree g
  · rw [hmodel]
    intro k hk
    rcases View.mem_latest hk with hk | hk
    · exact h.classes k hk
    · exact hinside.classes k hk
  · rw [hsent]
    exact View.latest_eq_now _ _

/-- What the receiver has heard of after a run is nothing exactly if the sender never had any
classes selected. -/
theorem Joined.run {s : Siblings} (h : s.Joined ∅) (hnone : s.sent.classes = ∅)
    (gestures : List Gesture) : ∃ heard, (s.run gestures).Joined heard ∧ (heard = ∅ ↔
      ∀ made, made <+: gestures → (s.run made).sent.classes = ∅) := by
  induction gestures using List.reverseRecOn with
  | nil =>
    refine ⟨∅, h, fun _ made hmade => ?_, fun _ => rfl⟩
    rw [List.prefix_nil.mp hmade]
    exact hnone
  | append_singleton gestures g ih =>
    obtain ⟨heard, hjoined, hiff⟩ := ih
    have hrun : s.run (gestures ++ [g]) = (s.run gestures).step g := List.foldl_concat ..
    rw [hrun]
    refine ⟨_, hjoined.step g, ?_⟩
    rw [View.latest_eq_empty_iff, hiff, ← hrun]
    constructor
    · rintro ⟨hlast, hbefore⟩ made hmade
      rcases List.prefix_concat_iff.mp hmade with rfl | hmade
      · exact hlast
      · exact hbefore made hmade
    · intro hall
      refine ⟨hall _ List.prefix_rfl, fun made hmade => ?_⟩
      exact hall made (hmade.trans (List.prefix_append _ _))

/-- Two views that show the same model with nothing selected, attached to one bus. Anything may
have been done to them before. -/
structure Fresh (s : Siblings) : Prop where
  sender : ∃ settings calls, s.sender = (LinkedView.ofSettings settings).run calls
  receiver : ∃ settings calls, s.receiver = (LinkedView.ofSettings settings).run calls
  model : s.receiver.view.model = s.sender.view.model
  sender_empty : s.sent.isEmpty
  receiver_empty : s.received.isEmpty
  attached : s.Attached

theorem Fresh.joined {s : Siblings} (h : s.Fresh) : s.Joined ∅ ∧ s.sent.classes = ∅ := by
  obtain ⟨settings, calls, hsender⟩ := h.sender
  obtain ⟨settings', calls', hreceiver⟩ := h.receiver
  have hcurrent : s.sender.view.Current :=
    hsender ▸ LinkedView.current_run (View.current_ofSettings settings) calls
  have hcurrent' : s.receiver.view.Current :=
    hreceiver ▸ LinkedView.current_run (View.current_ofSettings settings') calls'
  have hempty := Selection.isEmpty_iff.mp h.sender_empty
  have hempty' := Selection.isEmpty_iff.mp h.receiver_empty
  refine ⟨⟨hcurrent, .of_isEmpty h.sender_empty _, ?_, ?_, .inl hempty.2, h.attached⟩, hempty.2⟩
  · exact ⟨h.model, hcurrent'.placed.known.trans (congrArg Model.classes h.model),
      hempty'.1.trans hempty.1.symm, hempty'.2⟩
  · exact fun k hk => absurd hk (IndexSet.not_mem_empty k)

/-- Two views of a file whose halves are clones of each other. -/
def halves : Siblings :=
  let bus := (Bus.empty.subscribe LinkedView.subscriberName).2
  let loaded : Bus × LinkedView.Call := (bus, .act (.updateModel .halves none))
  { sender := (LinkedView.ofSettings { baseSize := 8 }).run [loaded, (.empty, .act .attach)],
    receiver := (LinkedView.ofSettings { baseSize := 8 }).run [loaded, (bus, .act .attach)],
    bus := (bus.subscribe LinkedView.subscriberName).2 }

theorem fresh_halves : halves.Fresh where
  sender := ⟨_, _, rfl⟩
  receiver := ⟨_, _, rfl⟩
  model := rfl
  sender_empty := rfl
  receiver_empty := rfl
  attached := ⟨0, 1, { serial := 1, name := LinkedView.subscriberName }, rfl, rfl, by decide, rfl,
    rfl⟩

def whole : PixelRect := { x0 := 0, y0 := 0, x1 := 7, y1 := 7 }

theorem mem_classes_whole : 7 ∈ (halves.run [.selectRect whole]).sent.classes := by
  obtain ⟨d, after, hselect, hp⟩ := View.selectRect_halves (v := halves.sender.view) rfl rfl
    (r := whole) rfl
  have hsent : (halves.run [.selectRect whole]).sent = after.selection :=
    congrArg View.selection (LinkedView.view_act_selectRect hselect halves.bus)
  rw [hsent]
  exact View.mem_classes_of_selectRect hselect hp

/-- After every poll the selected files agree; the selected classes agree exactly if the sender
has some, or has had none at any time. -/
theorem mirrored_iff {s : Siblings} (h : s.Fresh) (gestures : List Gesture) :
    (s.run gestures).received.files = (s.run gestures).sent.files ∧
      ((s.run gestures).received.classes = (s.run gestures).sent.classes ↔
        (s.run gestures).sent.classes ≠ ∅ ∨
          ∀ made, made <+: gestures → (s.run made).sent.classes = ∅) := by
  obtain ⟨hjoined, hnone⟩ := h.joined
  obtain ⟨heard, hrun, hiff⟩ := hjoined.run hnone gestures
  have hclasses : (s.run gestures).received.classes = heard := hrun.receiver.classes
  refine ⟨hrun.receiver.files, ?_⟩
  rw [hclasses, ← hiff]
  constructor
  · intro heq
    by_cases hsent : (s.run gestures).sent.classes = ∅
    · exact .inr (heq.trans hsent)
    · exact .inl hsent
  · rintro (hsome | hnothing)
    · exact hrun.agree.resolve_left hsome
    · rcases hrun.agree with hsent | heq
      · exact hnothing.trans hsent.symm
      · exact heq

/-- Classes that the sender has selected are selected in the receiver. -/
theorem mirrored_whole : halves.Fresh ∧
    (halves.run [.selectRect whole]).received.classes =
      (halves.run [.selectRect whole]).sent.classes := by
  have hmirrored := mirrored_iff fresh_halves [.selectRect whole]
  refine ⟨fresh_halves, hmirrored.2.mpr (.inl fun hnone => ?_)⟩
  exact IndexSet.not_mem_empty 7 (hnone ▸ mem_classes_whole)

/-- Clearing the selection leaves the receiver with classes that the sender no longer has. -/
theorem classes_stay_after_clear : halves.Fresh ∧
    (halves.run [.selectRect whole, .clear]).sent.classes = ∅ ∧
    7 ∈ (halves.run [.selectRect whole, .clear]).received.classes := by
  have hshown := ((fresh_halves.joined.1.step (.selectRect whole)).step .clear).receiver.classes
  have hselected : (halves.step (.selectRect whole)).sent.classes.isEmpty = false := by
    refine Bool.eq_false_iff.mpr fun hnone => ?_
    exact IndexSet.not_mem_empty 7 ((IndexSet.isEmpty_iff _).mp hnone ▸ mem_classes_whole)
  have hheard : View.latest ∅ (halves.step (.selectRect whole)).sent.classes =
      (halves.step (.selectRect whole)).sent.classes := by
    rw [View.latest, hselected]
    rfl
  refine ⟨fresh_halves, rfl, ?_⟩
  rw [hheard] at hshown
  exact hshown ▸ mem_classes_whole

end Siblings
end ClonePlot
