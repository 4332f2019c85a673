import Mathlib.Data.List.Induction
import Mathlib.Data.List.Nodup
import ClonePlot.Proofs.Bus.Delivery

/-! # The register of subscriptions

A register is kept beside a bus from its history alone: how many subscriptions have been made, and
which of them have not been dropped. On every bus that a history can reach the live subscribers are
those in the register, the others have been dropped, subscribers stand in the order in which they
subscribed, and no queue holds more than its capacity.
-/
namespace ClonePlot
namespace Bus

structure Register where
  made : Nat := 0
  /-- The subscriptions that have not been dropped, oldest first. -/
  held : List Nat := []
  deriving DecidableEq

namespace Register

def note (r : Register) : Operation → Register
  | .subscribe _ => { made := r.made + 1, held := r.held ++ [r.made] }
  | .drop serial => { r with held := r.held.filter (· ≠ serial) }
  | .publish _ | .receive _ | .drain _ => r

def ofHistory (ops : List Operation) : Register := ops.foldl note {}

@[simp] theorem ofHistory_concat (ops : List Operation) (op : Operation) :
    ofHistory (ops ++ [op]) = (ofHistory ops).note op := by simp [ofHistory]

end Register

variable {bus : Bus} {r : Register} {op : Operation} {s t : Subscriber} {e : Event} {n : Nat}

@[simp] theorem run_concat (bus : Bus) (ops : List Operation) (op : Operation) :
    bus.run (ops ++ [op]) = (bus.run ops).step op := by simp [run]

def liveSerials (bus : Bus) : List Nat :=
  (bus.subscribers.filter (·.live)).map Subscriber.serial

@[simp] theorem liveSerials_publish (bus : Bus) (e : Event) :
    (bus.publish e).liveSerials = bus.liveSerials := by
  unfold liveSerials publish
  induction bus.subscribers with
  | nil => rfl
  | cons s rest ih =>
    by_cases hlive : s.live
    · rw [List.filterMap_cons_some (Subscriber.deliver?_of_live hlive)]
      simpa [hlive] using ih
    · by_cases hid : s.id = e.source
      · rw [List.filterMap_cons_some ((Subscriber.deliver?_of_not_live hlive).trans (if_pos hid))]
        simpa [hlive] using ih
      · rw [List.filterMap_cons_none ((Subscriber.deliver?_of_not_live hlive).trans (if_neg hid))]
        simpa [hlive] using ih

@[simp] theorem liveSerials_subscribe (bus : Bus) (name : String) :
    (bus.subscribe name).2.liveSerials = bus.liveSerials ++ [bus.serials] := by
  simp [liveSerials, subscribe]

section

variable {f : Subscriber → Subscriber} (hserial : ∀ s, (f s).serial = s.serial)
include hserial

theorem serial_updated (serial : Nat) (s : Subscriber) :
    (if s.serial = serial then f s else s).serial = s.serial := by
  split <;> simp [hserial]

theorem map_serial_update (bus : Bus) (serial : Nat) :
    (bus.update serial f).subscribers.map Subscriber.serial =
      bus.subscribers.map Subscriber.serial := by
  simp [update, Function.comp_def, serial_updated hserial]

variable (hlive : ∀ s, (f s).live = s.live)
include hlive

omit hserial in
theorem live_updated (serial : Nat) (s : Subscriber) :
    (if s.serial = serial then f s else s).live = s.live := by
  split <;> simp [hlive]

theorem liveSerials_update (bus : Bus) (serial : Nat) :
    (bus.update serial f).liveSerials = bus.liveSerials := by
  unfold liveSerials update
  induction bus.subscribers with
  | nil => rfl
  | cons s rest ih =>
    by_cases hs : s.live <;>
      simpa [serial_updated hserial, live_updated hlive, hs] using ih

end

@[simp] theorem liveSerials_drop (bus : Bus) (serial : Nat) :
    (bus.drop serial).liveSerials = bus.liveSerials.filter (· ≠ serial) := by
  unfold liveSerials drop update
  induction bus.subscribers with
  | nil => rfl
  | cons s rest ih =>
    by_cases hs : s.serial = serial <;> by_cases hlive : s.live <;> simp_all

theorem sublist_serials_publish (bus : Bus) (e : Event) :
    ((bus.publish e).subscribers.map Subscriber.serial).Sublist
      (bus.subscribers.map Subscriber.serial) := by
  unfold publish
  induction bus.subscribers with
  | nil => exact .slnil
  | cons s rest ih =>
    cases hd : s.deliver? e with
    | none =>
      rw [List.filterMap_cons_none hd]
      exact ih.cons _
    | some t =>
      rw [List.filterMap_cons_some hd, List.map_cons, (Subscriber.same_of_deliver? hd).1]
      exact ih.cons_cons _

theorem length_queue_of_deliver? (h : s.deliver? e = some t)
    (hs : s.queue.length ≤ queueCapacity) : t.queue.length ≤ queueCapacity := by
  by_cases hlive : s.live
  · rw [Subscriber.deliver?_of_live hlive, Option.some.injEq] at h
    subst t
    unfold Subscriber.hear
    split
    · rename_i hroom
      simpa using Nat.succ_le_of_lt hroom.2
    · exact hs
  · rw [Subscriber.deliver?_of_not_live hlive] at h
    split at h <;> cases h
    exact hs

/-- What a register says of its bus, and the order and room that every bus keeps to. -/
structure Registered (bus : Bus) (r : Register) : Prop where
  serials_eq : bus.serials = r.made
  live_eq : bus.liveSerials = r.held
  numbered : bus.Numbered
  ordered : (bus.subscribers.map Subscriber.serial).Pairwise (· < ·)
  room : ∀ s ∈ bus.subscribers, s.queue.length ≤ queueCapacity

theorem registered_empty : empty.Registered {} where
  serials_eq := rfl
  live_eq := rfl
  numbered := numbered_empty
  ordered := .nil
  room := fun _ hs => by cases hs

namespace Registered

theorem subscribe (h : bus.Registered r) (name : String) :
    (bus.subscribe name).2.Registered (r.note (.subscribe name)) where
  serials_eq := congrArg (· + 1) h.serials_eq
  live_eq := by rw [liveSerials_subscribe, h.live_eq, h.serials_eq]; rfl
  numbered := h.numbered.step (.subscribe name)
  ordered := by
    simp only [Bus.subscribe, List.map_append, List.map_cons, List.map_nil]
    refine List.pairwise_append.mpr ⟨h.ordered, List.pairwise_singleton _ _, ?_⟩
    intro a ha b hb
    obtain ⟨s, hs, rfl⟩ := List.mem_map.mp ha
    rw [List.mem_singleton.mp hb]
    exact h.numbered s hs
  room := by
    intro s hs
    rcases List.mem_append.mp hs with hs | hs
    · exact h.room s hs
    · rw [List.mem_singleton.mp hs]
      exact Nat.zero_le _

theorem publish (h : bus.Registered r) (e : Event) : (bus.publish e).Registered r where
  serials_eq := h.serials_eq
  live_eq := (liveSerials_publish bus e).trans h.live_eq
  numbered := h.numbered.step (.publish e)
  ordered := h.ordered.sublist (sublist_serials_publish bus e)
  room := by
    intro t ht
    obtain ⟨s, hs, hd⟩ := List.mem_filterMap.mp ht
    exact length_queue_of_deliver? hd (h.room s hs)

theorem update {f : Subscriber → Subscriber} {serial : Nat} {held : List Nat}
    (h : bus.Registered r) (hserial : ∀ s, (f s).serial = s.serial)
    (hqueue : ∀ s, (f s).queue.length ≤ s.queue.length)
    (hheld : (bus.update serial f).liveSerials = held) :
    (bus.update serial f).Registered { r with held := held } where
  serials_eq := h.serials_eq
  live_eq := hheld
  numbered := h.numbered.update serial hserial
  ordered := by
    rw [map_serial_update hserial]
    exact h.ordered
  room := by
    intro t ht
    obtain ⟨s, hs, rfl⟩ := List.mem_map.mp ht
    by_cases hs' : s.serial = serial
    · rw [if_pos hs']
      exact Nat.le_trans (hqueue s) (h.room s hs)
    · rw [if_neg hs']
      exact h.room s hs

theorem step (h : bus.Registered r) (op : Operation) : (bus.step op).Registered (r.note op) := by
  cases op with
  | subscribe name => exact h.subscribe name
  | publish e => exact h.publish e
  | receive serial =>
    refine h.update (fun _ => rfl) (fun s => ?_) ?_
    · simp
    · exact (liveSerials_update (by intro; rfl) (by intro; rfl) bus serial).trans h.live_eq
  | drain serial =>
    refine h.update (fun _ => rfl) (fun s => ?_) ?_
    · simp
    · exact (liveSerials_update (by intro; rfl) (by intro; rfl) bus serial).trans h.live_eq
  | drop serial =>
    refine h.update (fun _ => rfl) (fun s => Nat.le_refl _) ?_
    exact (liveSerials_drop bus serial).trans (by rw [h.live_eq])

theorem run (ops : List Operation) : (empty.run ops).Registered (Register.ofHistory ops) := by
  induction ops using List.reverseRecOn with
  | nil => exact registered_empty
  | append_singleton ops op ih =>
    rw [run_concat, Register.ofHistory_concat]
    exact ih.step op

theorem nodup_serials (h : bus.Registered r) : (bus.subscribers.map Subscriber.serial).Nodup :=
  h.ordered.imp Nat.ne_of_lt

theorem eq_of_serial_eq (h : bus.Registered r) (hs : s ∈ bus.subscribers)
    (ht : t ∈ bus.subscribers) (hst : s.serial = t.serial) : s = t :=
  List.inj_on_of_nodup_map h.nodup_serials hs ht hst

theorem mem_held_iff (h : bus.Registered r) :
    n ∈ r.held ↔ ∃ s ∈ bus.subscribers, s.live ∧ s.serial = n := by
  rw [← h.live_eq, liveSerials, List.mem_map]
  simp only [List.mem_filter, and_assoc]

theorem live_iff (h : bus.Registered r) (hs : s ∈ bus.subscribers) :
    s.live ↔ s.serial ∈ r.held := by
  rw [h.mem_held_iff]
  constructor
  · exact fun hlive => ⟨s, hs, hlive, rfl⟩
  · rintro ⟨t, ht, hlive, hst⟩
    exact h.eq_of_serial_eq hs ht hst.symm ▸ hlive

end Registered

end Bus
end ClonePlot
