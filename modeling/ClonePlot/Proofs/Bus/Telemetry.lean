import ClonePlot.Proofs.Bus.Register

/-! # Telemetry

An entry of the bus meets one of four fates when an event is published, and which one it was shows
on the bus afterwards: the event waits for it, it sent the event itself, it has no room, or it is
gone. The counters grow by the number of entries with each fate, and only entries of dropped
subscriptions go.
-/
namespace ClonePlot
namespace Subscriber

variable {s : Subscriber} {e : Event}

theorem delivery_eq_echo_iff : s.delivery e = .echo ↔ s.id = e.source := by
  by_cases hid : s.id = e.source <;> by_cases hlive : s.live <;>
    by_cases hroom : s.queue.length < queueCapacity <;> simp [delivery, hid, hlive, hroom]

theorem delivery_eq_gone_iff : s.delivery e = .gone ↔ s.id ≠ e.source ∧ ¬s.live := by
  by_cases hid : s.id = e.source <;> by_cases hlive : s.live <;>
    by_cases hroom : s.queue.length < queueCapacity <;> simp [delivery, hid, hlive, hroom]

theorem delivery_eq_full_iff : s.delivery e = .full ↔
    s.id ≠ e.source ∧ s.live ∧ queueCapacity ≤ s.queue.length := by
  by_cases hid : s.id = e.source <;> by_cases hlive : s.live <;> simp [delivery, hid, hlive]

def push (e : Event) (s : Subscriber) : Subscriber := { s with queue := s.queue ++ [e] }

theorem push_ne (e : Event) (s : Subscriber) : s ≠ s.push e := by
  intro h
  have hlength := congrArg (fun t => t.queue.length) h
  simp [push] at hlength

theorem deliver?_eq_some_push_iff : s.deliver? e = some (s.push e) ↔ s.delivery e = .queued := by
  have hne := s.push_ne e
  unfold deliver?
  cases s.delivery e with
  | echo => simpa using hne
  | queued => simp [push]
  | full => simpa using hne
  | gone => simp

theorem deliver?_eq_none_iff : s.deliver? e = none ↔ s.delivery e = .gone := by
  unfold deliver?
  cases s.delivery e <;> simp

theorem deliver?_of_echo_or_full (h : s.delivery e = .echo ∨ s.delivery e = .full) :
    s.deliver? e = some s := by
  unfold deliver?
  rcases h with h | h <;> rw [h]

theorem perm_filter_delivery (subscribers : List Subscriber) (e : Event) :
    (subscribers.filter (·.delivery e = .queued) ++ subscribers.filter (·.delivery e = .echo) ++
      subscribers.filter (·.delivery e = .full) ++ subscribers.filter (·.delivery e = .gone)).Perm
        subscribers := by
  refine List.perm_iff_count.mpr fun s => ?_
  have hcount (d : Delivery) : (subscribers.filter (·.delivery e = d)).count s =
      if s.delivery e = d then subscribers.count s else 0 := by
    split
    · exact List.count_filter (by simpa)
    · exact List.count_eq_zero.mpr fun hs => by simp_all [List.mem_filter]
  simp only [List.count_append, hcount]
  cases s.delivery e <;> simp

end Subscriber

namespace Bus

variable {bus : Bus} {r : Register} {s : Subscriber} {e : Event}

theorem mem_publish_iff {t : Subscriber} :
    t ∈ (bus.publish e).subscribers ↔ ∃ s ∈ bus.subscribers, s.deliver? e = some t :=
  List.mem_filterMap

theorem subscriberCount_publish_add (bus : Bus) (e : Event) :
    (bus.publish e).subscriberCount + bus.count e .gone = bus.subscriberCount := by
  have hgone : bus.count e .gone = bus.subscribers.countP fun s => ¬(s.deliver? e).isSome :=
    List.countP_congr fun s _ => by simp [← Subscriber.deliver?_eq_none_iff]
  rw [hgone, subscriberCount, publish, List.length_filterMap_eq_countP]
  exact (List.length_eq_countP_add_countP _).symm

theorem idOf_eq_self {serial : Nat} (h : serial < UInt32.size) : Subscriber.idOf serial = serial :=
  Nat.mod_eq_of_lt h

namespace Registered

theorem delivered_iff (h : bus.Registered r) (hs : s ∈ bus.subscribers) :
    s.push e ∈ (bus.publish e).subscribers ↔ s.delivery e = .queued := by
  rw [mem_publish_iff, ← Subscriber.deliver?_eq_some_push_iff]
  constructor
  · rintro ⟨t, ht, hd⟩
    have hst : s = t := h.eq_of_serial_eq hs ht (Subscriber.same_of_deliver? hd).1
    exact hst ▸ hd
  · exact fun hd => ⟨s, hs, hd⟩

theorem pruned_iff (h : bus.Registered r) (hs : s ∈ bus.subscribers) :
    s.serial ∉ (bus.publish e).subscribers.map Subscriber.serial ↔ s.delivery e = .gone := by
  rw [← Subscriber.deliver?_eq_none_iff, List.mem_map]
  constructor
  · intro hgone
    cases hd : s.deliver? e with
    | none => rfl
    | some t =>
      exact absurd ⟨t, mem_publish_iff.mpr ⟨s, hs, hd⟩, (Subscriber.same_of_deliver? hd).1⟩ hgone
  · rintro hd ⟨t, ht, hserial⟩
    obtain ⟨u, hu, hut⟩ := mem_publish_iff.mp ht
    have hsu : s = u :=
      h.eq_of_serial_eq hs hu (hserial.symm.trans (Subscriber.same_of_deliver? hut).1)
    rw [← hsu, hd] at hut
    cases hut

theorem failed_iff (h : bus.Registered r) (hs : s ∈ bus.subscribers) :
    s.id ≠ e.source ∧ s.serial ∈ r.held ∧ s.queue.length = queueCapacity ↔
      s.delivery e = .full := by
  rw [Subscriber.delivery_eq_full_iff, h.live_iff hs]
  refine and_congr_right' (and_congr_right' ?_)
  exact ⟨fun hfull => Nat.le_of_eq hfull.symm, Nat.le_antisymm (h.room s hs)⟩

theorem nodup_ids (h : bus.Registered r) (hmade : r.made < UInt32.size) :
    (bus.subscribers.map Subscriber.id).Nodup := by
  have hword : ∀ s ∈ bus.subscribers, s.id = s.serial := fun s hs =>
    idOf_eq_self (Nat.lt_trans (h.numbered s hs) (h.serials_eq ▸ hmade))
  rw [List.map_congr_left hword]
  exact h.nodup_serials

theorem length_echoes_le (h : bus.Registered r) (hmade : r.made < UInt32.size) (source : Nat) :
    (bus.subscribers.filter fun s => s.id = source).length ≤ 1 := by
  have hcount := List.nodup_iff_count_le_one.mp (h.nodup_ids hmade) source
  rw [List.count, List.countP_map] at hcount
  rw [← List.countP_eq_length_filter]
  exact Nat.le_trans (Nat.le_of_eq (List.countP_congr fun s _ => by simp)) hcount

end Registered

/-- For every history with fewer than `2 ^ 32` subscriptions, the entries of the bus fall into
those that the event reaches, at most one that sent it, those whose queues are full, and those that
go. The counters grow by these numbers whatever they were before, and none that goes belongs to a
subscription that is held. -/
theorem publish_balanced (ops : List Operation) (e : Event) (t : Telemetry)
    (hmade : (Register.ofHistory ops).made < UInt32.size) :
    let r := Register.ofHistory ops
    let bus := empty.run ops
    let after := bus.publish e
    let delivered := bus.subscribers.filter fun s => s.push e ∈ after.subscribers
    let echoes := bus.subscribers.filter fun s => s.id = e.source
    let failed := bus.subscribers.filter fun s =>
      s.id ≠ e.source ∧ s.serial ∈ r.held ∧ s.queue.length = queueCapacity
    let pruned := bus.subscribers.filter fun s =>
      s.serial ∉ after.subscribers.map Subscriber.serial
    (delivered ++ echoes ++ failed ++ pruned).Perm bus.subscribers ∧ bus.subscribers.Nodup ∧
      (∀ s ∈ echoes ++ failed, s ∈ after.subscribers) ∧ echoes.length ≤ 1 ∧
      t.publish bus e =
        { published := t.published + 1,
          delivered := t.delivered + .ofNat delivered.length,
          echoes := t.echoes + .ofNat echoes.length,
          failures := t.failures + .ofNat failed.length } ∧
      bus.audience e = delivered.length ∧
      after.subscriberCount + pruned.length = bus.subscriberCount ∧
      ∀ s ∈ pruned, s.serial ∉ r.held := by
  intro r bus after delivered echoes failed pruned
  have h : bus.Registered r := .run ops
  have hdelivered : delivered = bus.subscribers.filter (·.delivery e = .queued) :=
    List.filter_congr fun s hs => decide_eq_decide.mpr (h.delivered_iff hs)
  have hechoes : echoes = bus.subscribers.filter (·.delivery e = .echo) :=
    List.filter_congr fun s _ => decide_eq_decide.mpr Subscriber.delivery_eq_echo_iff.symm
  have hfailed : failed = bus.subscribers.filter (·.delivery e = .full) :=
    List.filter_congr fun s hs => decide_eq_decide.mpr (h.failed_iff hs)
  have hpruned : pruned = bus.subscribers.filter (·.delivery e = .gone) :=
    List.filter_congr fun s hs => decide_eq_decide.mpr (h.pruned_iff hs)
  have hcount (d : Subscriber.Delivery) :
      bus.count e d = (bus.subscribers.filter (·.delivery e = d)).length :=
    List.countP_eq_length_filter
  refine ⟨?_, h.nodup_serials.of_map, ?_, h.length_echoes_le hmade e.source, ?_, ?_, ?_, ?_⟩
  · rw [hdelivered, hechoes, hfailed, hpruned]
    exact Subscriber.perm_filter_delivery _ e
  · intro s hs
    rw [hechoes, hfailed, List.mem_append, List.mem_filter, List.mem_filter, ← and_or_left] at hs
    refine mem_publish_iff.mpr ⟨s, hs.1, Subscriber.deliver?_of_echo_or_full ?_⟩
    simpa using hs.2
  · rw [hdelivered, hechoes, hfailed, ← hcount, ← hcount, ← hcount]
    rfl
  · rw [hdelivered, ← hcount]
    rfl
  · rw [hpruned, ← hcount]
    exact subscriberCount_publish_add bus e
  · intro s hs
    have hbus : s ∈ bus.subscribers := List.mem_of_mem_filter hs
    rw [hpruned, List.mem_filter, decide_eq_true_eq, Subscriber.delivery_eq_gone_iff,
      h.live_iff hbus] at hs
    exact hs.2.2

/-- Three subscriptions, of which one sends, one never reads and one is dropped; a fourth one comes
when the queue of the second is full. -/
def crowded : List Operation :=
  [.subscribe "plot", .subscribe "table", .subscribe "panes"] ++
    List.replicate queueCapacity (.publish ⟨0, .files [1]⟩) ++ [.drop 2, .subscribe "list"]

/-- Each fate befalls one entry. -/
theorem publish_balanced_crowded :
    let bus := empty.run crowded
    let after := bus.publish ⟨0, .files [2]⟩
    (Register.ofHistory crowded).made < UInt32.size ∧
      Telemetry.publish ⟨256, 512, 256, 0⟩ bus ⟨0, .files [2]⟩ = ⟨257, 513, 257, 1⟩ ∧
      bus.audience ⟨0, .files [2]⟩ = 1 ∧ after.subscriberCount + 1 = 4 := by
  intro bus after
  have hmade : (Register.ofHistory crowded).made < UInt32.size := by decide +kernel
  obtain ⟨-, -, -, -, htelemetry, haudience, hcount, -⟩ :=
    publish_balanced crowded ⟨0, .files [2]⟩ ⟨256, 512, 256, 0⟩ hmade
  refine ⟨hmade, htelemetry.trans ?_, haudience.trans ?_, ?_⟩
  · decide +kernel
  · decide +kernel
  · refine Eq.trans ?_ (hcount.trans ?_)
    · decide +kernel
    · decide +kernel

end Bus
end ClonePlot
