import ClonePlot.Bus

/-! # Exact delivery

A history of a bus is a list of operations, made through whatever handles in whatever order.
Along a history a live subscription receives exactly what is published while its queue has
room, in order and without its own events. Nothing is said about the other subscribers: each
queue evolves as if it were alone on the bus.
-/
namespace ClonePlot
namespace Subscriber

/-- A live subscriber after an event. -/
def hear (e : Event) (s : Subscriber) : Subscriber :=
  if s.id ≠ e.source ∧ s.queue.length < queueCapacity then { s with queue := s.queue ++ [e] } else s

@[simp] theorem serial_hear (e : Event) (s : Subscriber) : (s.hear e).serial = s.serial := by
  unfold hear
  split <;> rfl

@[simp] theorem live_hear (e : Event) (s : Subscriber) : (s.hear e).live = s.live := by
  unfold hear
  split <;> rfl

theorem deliver?_of_live {e : Event} {s : Subscriber} (h : s.live) :
    s.deliver? e = some (s.hear e) := by
  unfold deliver? delivery hear
  by_cases hid : s.id = e.source
  · simp [hid]
  · by_cases hroom : s.queue.length < queueCapacity <;> simp [hid, h, hroom]

/-- A dropped subscriber stays only as the sender of the event. -/
theorem deliver?_of_not_live {e : Event} {s : Subscriber} (h : ¬ s.live) :
    s.deliver? e = if s.id = e.source then some s else none := by
  unfold deliver? delivery
  by_cases hid : s.id = e.source <;> simp [hid, h]

/-- No event changes the number of a subscriber or revives it. -/
theorem same_of_deliver? {e : Event} {s t : Subscriber} (h : s.deliver? e = some t) :
    t.serial = s.serial ∧ t.live = s.live := by
  by_cases hs : s.live
  · rw [deliver?_of_live hs, Option.some.injEq] at h
    subst t
    exact ⟨serial_hear e s, live_hear e s⟩
  · rw [deliver?_of_not_live hs] at h
    split at h
    · cases h
      exact ⟨rfl, rfl⟩
    · cases h

end Subscriber

namespace Bus

def isLive (serial : Nat) (s : Subscriber) : Bool := s.serial = serial && s.live

theorem find?_eq (bus : Bus) (serial : Nat) :
    bus.find? serial = bus.subscribers.find? (isLive serial) := rfl

theorem live_of_find? {bus : Bus} {serial : Nat} {s : Subscriber} (h : bus.find? serial = some s) :
    s.serial = serial ∧ s.live := by
  have hs := List.find?_some h
  simpa using hs

/-- An event reaches a live subscription whatever the others are; none is removed. -/
theorem find?_publish (bus : Bus) (serial : Nat) (e : Event) :
    (bus.publish e).find? serial = (bus.find? serial).map (Subscriber.hear e) := by
  simp only [find?_eq, publish]
  induction bus.subscribers with
  | nil => rfl
  | cons s rest ih =>
    cases hd : s.deliver? e with
    | none =>
      have hs : ¬ s.live := by
        intro hs
        rw [Subscriber.deliver?_of_live hs] at hd
        cases hd
      rw [List.filterMap_cons_none hd, ih, List.find?_cons_of_neg (by simp [isLive, hs])]
    | some t =>
      obtain ⟨hserial, hlive⟩ := Subscriber.same_of_deliver? hd
      have hsame : isLive serial t = isLive serial s := by simp [isLive, hserial, hlive]
      rw [List.filterMap_cons_some hd]
      by_cases hs : isLive serial s
      · have hl : s.live := by simpa [isLive] using (Bool.and_eq_true_iff.mp hs).2
        have ht : t = s.hear e := by
          rw [Subscriber.deliver?_of_live hl] at hd
          exact (Option.some.inj hd).symm
        rw [List.find?_cons_of_pos (hsame.trans hs), List.find?_cons_of_pos hs, ht]
        rfl
      · rw [List.find?_cons_of_neg (by simpa [hsame] using hs), List.find?_cons_of_neg hs, ih]

theorem find?_subscribe {bus : Bus} {serial : Nat} {s : Subscriber} (name : String)
    (h : bus.find? serial = some s) : (bus.subscribe name).2.find? serial = some s := by
  simp only [find?_eq, subscribe] at h ⊢
  rw [List.find?_append, h]
  rfl

theorem find?_update {bus : Bus} {serial : Nat} {f : Subscriber → Subscriber}
    (hserial : ∀ s, (f s).serial = s.serial) (hlive : ∀ s, (f s).live = s.live) :
    (bus.update serial f).find? serial = (bus.find? serial).map f := by
  have hp : (isLive serial ∘ fun s => if s.serial = serial then f s else s) = isLive serial := by
    funext s
    by_cases h : s.serial = serial <;> simp [isLive, h, hserial, hlive]
  simp only [find?_eq, update, List.find?_map, hp]
  cases hs : bus.subscribers.find? (isLive serial) with
  | none => rfl
  | some s => simp [(live_of_find? hs).1]

theorem find?_update_other {bus : Bus} {serial other : Nat} {f : Subscriber → Subscriber}
    (hserial : ∀ s, (f s).serial = s.serial) (hne : serial ≠ other) :
    (bus.update other f).find? serial = bus.find? serial := by
  have hp : (isLive serial ∘ fun s => if s.serial = other then f s else s) = isLive serial := by
    funext s
    by_cases h : s.serial = other
    · have hs : other ≠ serial := fun h => hne h.symm
      simp [isLive, h, hserial, hs]
    · simp [h]
  simp only [find?_eq, update, List.find?_map, hp]
  cases hs : bus.subscribers.find? (isLive serial) with
  | none => rfl
  | some s =>
    have hne : s.serial ≠ other := (live_of_find? hs).1 ▸ hne
    simp [hne]

theorem queue_eq {bus : Bus} {serial : Nat} {s : Subscriber} (h : bus.find? serial = some s) :
    bus.queue serial = s.queue := by simp [queue, h]

theorem find?_drain {bus : Bus} {serial : Nat} {s : Subscriber} (h : bus.find? serial = some s) :
    (bus.drain serial).2.find? serial = some { s with queue := [] } :=
  (find?_update (by intro; rfl) (by intro; rfl)).trans (by rw [h]; rfl)

/-- What is done to a bus through any of its handles and subscriptions. -/
inductive Operation
  | subscribe (name : String)
  | publish (event : Event)
  | receive (serial : Nat)
  | drain (serial : Nat)
  | drop (serial : Nat)
  deriving DecidableEq

def step (bus : Bus) : Operation → Bus
  | .subscribe name => (bus.subscribe name).2
  | .publish e => bus.publish e
  | .receive serial => (bus.receive serial).2
  | .drain serial => (bus.drain serial).2
  | .drop serial => bus.drop serial

def run (bus : Bus) (ops : List Operation) : Bus := ops.foldl step bus

def handed (bus : Bus) (serial : Nat) : Operation → List Event
  | .receive other => if other = serial then (bus.receive serial).1.toList else []
  | .drain other => if other = serial then (bus.drain serial).1 else []
  | _ => []

def received (serial : Nat) : Bus → List Operation → List Event
  | _, [] => []
  | bus, op :: ops => bus.handed serial op ++ received serial (bus.step op) ops

/-- An event published by the operation, with the number of events then waiting for the
subscription. -/
def offered (bus : Bus) (serial : Nat) : Operation → List (Event × Nat)
  | .publish e => [(e, (bus.queue serial).length)]
  | _ => []

def published (serial : Nat) : Bus → List Operation → List (Event × Nat)
  | _, [] => []
  | bus, op :: ops => bus.offered serial op ++ published serial (bus.step op) ops

/-- The sender is another one, and the queue was not full. -/
def admits (serial : Nat) (offer : Event × Nat) : Bool :=
  offer.1.source ≠ Subscriber.idOf serial && offer.2 < queueCapacity

theorem admits_iff {serial : Nat} {e : Event} {waiting : Nat} :
    admits serial (e, waiting) ↔ e.source ≠ Subscriber.idOf serial ∧ waiting < queueCapacity := by
  simp [admits]

/-- The events a subscription is owed for a history. -/
def due (serial : Nat) (bus : Bus) (ops : List Operation) : List Event :=
  ((published serial bus ops).filter (admits serial)).map Prod.fst

/-- What one operation hands over and leaves waiting is what waited and what came. -/
theorem find?_step {bus : Bus} {serial : Nat} {s : Subscriber} {op : Operation}
    (h : bus.find? serial = some s) (hop : op ≠ .drop serial) :
    ∃ t, (bus.step op).find? serial = some t ∧ bus.handed serial op ++ t.queue =
      s.queue ++ ((bus.offered serial op).filter (admits serial)).map Prod.fst := by
  cases op with
  | subscribe name => exact ⟨s, find?_subscribe name h, by simp [handed, offered]⟩
  | publish e =>
    refine ⟨s.hear e, by rw [step, find?_publish, h, Option.map_some], ?_⟩
    have hid : s.id = Subscriber.idOf serial := congrArg Subscriber.idOf (live_of_find? h).1
    have hroom : s.id ≠ e.source ∧ s.queue.length < queueCapacity ↔
        admits serial (e, s.queue.length) := by
      rw [hid, admits_iff]
      exact ⟨fun hc => ⟨hc.1.symm, hc.2⟩, fun hc => ⟨hc.1.symm, hc.2⟩⟩
    simp only [handed, offered, queue_eq h, Subscriber.hear, hroom, List.nil_append]
    by_cases hc : admits serial (e, s.queue.length) <;> simp [hc]
  | receive other =>
    by_cases ho : other = serial
    · subst other
      refine ⟨{ s with queue := s.queue.tail }, ?_, ?_⟩
      · exact (find?_update (by intro; rfl) (by intro; rfl)).trans (by rw [h]; rfl)
      · cases hq : s.queue <;> simp [handed, receive, offered, queue_eq h, hq]
    · refine ⟨s, ?_, by simp [handed, offered, ho]⟩
      exact (find?_update_other (by intro; rfl) (Ne.symm ho)).trans h
  | drain other =>
    by_cases ho : other = serial
    · subst other
      exact ⟨{ s with queue := [] }, find?_drain h, by simp [handed, drain, offered, queue_eq h]⟩
    · refine ⟨s, ?_, by simp [handed, offered, ho]⟩
      exact (find?_update_other (by intro; rfl) (Ne.symm ho)).trans h
  | drop other =>
    have ho : serial ≠ other := fun ho => hop (ho ▸ rfl)
    exact ⟨s, (find?_update_other (by intro; rfl) ho).trans h, by simp [handed, offered]⟩

/-- A subscription that is not dropped stays on the bus and is owed nothing at any time. -/
theorem find?_run {bus : Bus} {serial : Nat} {s : Subscriber} {ops : List Operation}
    (h : bus.find? serial = some s) (hops : .drop serial ∉ ops) :
    ∃ t, (bus.run ops).find? serial = some t ∧
      received serial bus ops ++ t.queue = s.queue ++ due serial bus ops := by
  induction ops generalizing bus s with
  | nil => exact ⟨s, h, by simp [received, due, published]⟩
  | cons op ops ih =>
    rw [List.mem_cons, not_or] at hops
    obtain ⟨hop, hops⟩ := hops
    obtain ⟨t, ht, hone⟩ := find?_step h (Ne.symm hop)
    obtain ⟨u, hu, hrest⟩ := ih ht hops
    refine ⟨u, hu, ?_⟩
    calc received serial bus (op :: ops) ++ u.queue
        = bus.handed serial op ++ (received serial (bus.step op) ops ++ u.queue) := by
          rw [received, List.append_assoc]
      _ = (bus.handed serial op ++ t.queue) ++ due serial (bus.step op) ops := by
          rw [hrest, List.append_assoc]
      _ = s.queue ++ due serial bus (op :: ops) := by
          rw [hone, due, due, published, List.filter_append, List.map_append, List.append_assoc]

def Numbered (bus : Bus) : Prop := ∀ s ∈ bus.subscribers, s.serial < bus.serials

theorem numbered_empty : Numbered empty := fun _ hs => by cases hs

theorem Numbered.update {bus : Bus} (h : bus.Numbered) (serial : Nat) {f : Subscriber → Subscriber}
    (hf : ∀ s, (f s).serial = s.serial) : (bus.update serial f).Numbered := by
  intro s hs
  obtain ⟨t, ht, rfl⟩ := List.mem_map.mp hs
  have hs := h t ht
  dsimp only [Bus.update]
  split
  · rwa [hf]
  · exact hs

theorem Numbered.step {bus : Bus} (h : bus.Numbered) (op : Operation) : (bus.step op).Numbered := by
  cases op with
  | subscribe name =>
    intro s hs
    rcases List.mem_append.mp hs with hs | hs
    · exact Nat.lt_succ_of_lt (h s hs)
    · cases List.mem_singleton.mp hs
      exact Nat.lt_succ_self _
  | publish e =>
    intro s hs
    obtain ⟨t, ht, hd⟩ := List.mem_filterMap.mp hs
    rw [(Subscriber.same_of_deliver? hd).1]
    exact h t ht
  | receive serial => exact h.update serial fun _ => rfl
  | drain serial => exact h.update serial fun _ => rfl
  | drop serial => exact h.update serial fun _ => rfl

theorem Numbered.run {bus : Bus} (h : bus.Numbered) (ops : List Operation) :
    (bus.run ops).Numbered := by
  induction ops generalizing bus with
  | nil => exact h
  | cons op ops ih => exact ih (h.step op)

theorem find?_new {bus : Bus} (h : bus.Numbered) (name : String) :
    (bus.subscribe name).2.find? bus.serials = some { serial := bus.serials, name } := by
  have hold : bus.subscribers.find? (isLive bus.serials) = none := by
    refine List.find?_eq_none.mpr fun s hs hlive => ?_
    have hlt := h s hs
    simp only [isLive, Bool.and_eq_true, decide_eq_true_eq] at hlive
    omega
  rw [find?_eq, subscribe, List.find?_append, hold]
  simp [isLive]

/-- For a subscription made at any point of any history and not dropped since, what it has
received and what waits for it are together the events published since then, in order, except
its own and those that met a full queue; and it is still on the bus. -/
theorem received_append_queue_eq_due (before after : List Operation) (name : String)
    (hlive : .drop (empty.run before).serials ∉ after) :
    let serial := (empty.run before).serials
    let bus := ((empty.run before).subscribe name).2
    received serial bus after ++ (bus.run after).queue serial = due serial bus after ∧
      ((bus.run after).find? serial).isSome := by
  have hnew := find?_new (numbered_empty.run before) name
  obtain ⟨t, ht, heq⟩ := find?_run hnew hlive
  refine ⟨?_, by rw [ht]; rfl⟩
  rw [queue_eq ht, heq]
  rfl

/-- A subscriber that reads one of three events, the second one its own. -/
theorem received_append_queue_eq_due_two :
    .drop 0 ∉ [Operation.subscribe "table", .publish ⟨1, .files [3]⟩, .publish ⟨0, .files [4]⟩,
      .receive 0, .publish ⟨1, .files []⟩] ∧
    received 0 (empty.subscribe "plot").2 [.subscribe "table", .publish ⟨1, .files [3]⟩,
      .publish ⟨0, .files [4]⟩, .receive 0, .publish ⟨1, .files []⟩] = [⟨1, .files [3]⟩] ∧
    due 0 (empty.subscribe "plot").2 [.subscribe "table", .publish ⟨1, .files [3]⟩,
      .publish ⟨0, .files [4]⟩, .receive 0, .publish ⟨1, .files []⟩] =
        [⟨1, .files [3]⟩, ⟨1, .files []⟩] := by
  have hlive : .drop 0 ∉ [Operation.subscribe "table", .publish ⟨1, .files [3]⟩,
    .publish ⟨0, .files [4]⟩, .receive 0, .publish ⟨1, .files []⟩] := by decide
  have h := received_append_queue_eq_due [] _ "plot" hlive
  exact ⟨hlive, by decide, h.1.symm.trans (by decide)⟩

end Bus
end ClonePlot
