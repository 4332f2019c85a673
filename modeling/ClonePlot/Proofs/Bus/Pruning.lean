import ClonePlot.Proofs.Bus.Telemetry

/-! # Dropped subscriptions

An event removes the entries of dropped subscriptions, except that the entry of its own sender is
passed over before anything is seen of its queue. So a dropped subscription stays on the bus as
long as every event since then carries its id, and the bus counts exactly those besides the
subscriptions that are held.
-/
namespace ClonePlot
namespace Bus

variable {bus : Bus} {r : Register} {e : Event} {n : Nat} {ops : List Operation}

/-- A dropped subscription of number `n` is still on the bus. -/
def Lost (bus : Bus) (n : Nat) : Prop := ∃ s ∈ bus.subscribers, ¬s.live ∧ s.serial = n

/-- Subscription `n` has been dropped, and every event since then carried its id. -/
def Lingers (ops : List Operation) (n : Nat) : Prop :=
  ∃ before after, ops = before ++ .drop n :: after ∧ n ∈ (Register.ofHistory before).held ∧
    ∀ e, .publish e ∈ after → e.source = Subscriber.idOf n

theorem lost_publish :
    (bus.publish e).Lost n ↔ bus.Lost n ∧ e.source = Subscriber.idOf n := by
  constructor
  · rintro ⟨t, ht, hlive, rfl⟩
    obtain ⟨s, hs, hd⟩ := mem_publish_iff.mp ht
    obtain ⟨hserial, hsame⟩ := Subscriber.same_of_deliver? hd
    rw [hsame] at hlive
    rw [Subscriber.deliver?_of_not_live hlive] at hd
    split at hd
    · rename_i hid
      exact ⟨⟨s, hs, hlive, hserial.symm⟩, hid.symm.trans (congrArg Subscriber.idOf hserial.symm)⟩
    · cases hd
  · rintro ⟨⟨s, hs, hlive, rfl⟩, hid⟩
    have hstays := (Subscriber.deliver?_of_not_live hlive).trans (if_pos hid.symm)
    exact ⟨s, mem_publish_iff.mpr ⟨s, hs, hstays⟩, hlive, rfl⟩

theorem lost_subscribe (name : String) : (bus.subscribe name).2.Lost n ↔ bus.Lost n := by
  simp [Lost, subscribe, or_and_right, exists_or]

theorem lost_update {f : Subscriber → Subscriber} {serial : Nat}
    (hserial : ∀ s, (f s).serial = s.serial) (hlive : ∀ s, (f s).live = s.live) :
    (bus.update serial f).Lost n ↔ bus.Lost n := by
  simp [Lost, update, serial_updated hserial, live_updated hlive]

theorem lost_drop (h : bus.Registered r) (serial : Nat) :
    (bus.drop serial).Lost n ↔ bus.Lost n ∨ serial = n ∧ n ∈ r.held := by
  have hserial := serial_updated (f := fun s => { s with live := false }) (fun _ => rfl) serial
  have hlive (s : Subscriber) : (if s.serial = serial then { s with live := false } else s).live =
      (s.live && s.serial ≠ serial) := by
    by_cases hs : s.serial = serial <;> simp [hs]
  simp only [Lost, drop, update, List.mem_map, exists_exists_and_eq_and, hserial, hlive,
    h.mem_held_iff]
  constructor
  · rintro ⟨s, hs, hgone, rfl⟩
    by_cases hbefore : s.live
    · have hdropped : s.serial = serial := by simpa [hbefore] using hgone
      exact .inr ⟨hdropped.symm, s, hs, hbefore, rfl⟩
    · exact .inl ⟨s, hs, hbefore, rfl⟩
  · rintro (⟨s, hs, hgone, rfl⟩ | ⟨rfl, s, hs, -, rfl⟩)
    · exact ⟨s, hs, by simp [hgone], rfl⟩
    · exact ⟨s, hs, by simp, rfl⟩

theorem lingers_concat {op : Operation} : Lingers (ops ++ [op]) n ↔
    (Lingers ops n ∧ ∀ e, op = .publish e → e.source = Subscriber.idOf n) ∨
      op = .drop n ∧ n ∈ (Register.ofHistory ops).held := by
  constructor
  · rintro ⟨before, after, hops, hheld, hafter⟩
    rcases List.eq_nil_or_concat after with rfl | ⟨after, last, rfl⟩
    · obtain ⟨rfl, hop⟩ := List.append_inj' hops rfl
      exact .inr ⟨List.singleton_inj.mp hop, hheld⟩
    · rw [List.concat_eq_append, ← List.cons_append, ← List.append_assoc] at hops
      obtain ⟨rfl, hop⟩ := List.append_inj' hops rfl
      rw [List.concat_eq_append] at hafter
      refine .inl ⟨⟨before, after, rfl, hheld, fun e he => hafter e ?_⟩, fun e he => hafter e ?_⟩
      · exact List.mem_append_left _ he
      · rw [← List.singleton_inj.mp hop, he]
        exact List.mem_append_right _ List.mem_cons_self
  · rintro (⟨⟨before, after, rfl, hheld, hafter⟩, hop⟩ | ⟨rfl, hheld⟩)
    · refine ⟨before, after ++ [op], by simp, hheld, fun e he => ?_⟩
      rcases List.mem_append.mp he with he | he
      · exact hafter e he
      · exact hop e (List.mem_singleton.mp he).symm
    · exact ⟨ops, [], rfl, hheld, fun _ he => absurd he List.not_mem_nil⟩

theorem lost_run_iff (ops : List Operation) (n : Nat) :
    (empty.run ops).Lost n ↔ Lingers ops n := by
  induction ops using List.reverseRecOn with
  | nil =>
    refine iff_of_false ?_ ?_
    · rintro ⟨s, hs, -⟩
      cases hs
    · rintro ⟨before, after, hops, -⟩
      simp at hops
  | append_singleton ops op ih =>
    rw [run_concat, lingers_concat, ← ih]
    cases op with
    | subscribe name => simpa [step] using lost_subscribe name
    | publish e => simpa [step] using lost_publish
    | receive serial => simpa [step, receive] using lost_update (by intro; rfl) (by intro; rfl)
    | drain serial => simpa [step, drain] using lost_update (by intro; rfl) (by intro; rfl)
    | drop serial => simpa [step] using lost_drop (.run ops) serial

theorem subscriberCount_eq (h : bus.Registered r) :
    bus.subscriberCount = r.held.length + bus.subscribers.countP fun s => ¬s.live := by
  rw [← h.live_eq, liveSerials, List.length_map, ← List.countP_eq_length_filter]
  exact List.length_eq_countP_add_countP _

/-- After an event the bus counts the subscriptions that are held exactly if none lingers. It never
counts fewer, and one more at most, as only the sender of the event can linger. -/
theorem subscriberCount_eq_held_iff (ops : List Operation) (e : Event) :
    let r := Register.ofHistory ops
    let after := (empty.run ops).publish e
    (after.subscriberCount = r.held.length ↔ ¬∃ n, Lingers (ops ++ [.publish e]) n) ∧
      r.held.length ≤ after.subscriberCount ∧
      (r.made < UInt32.size → after.subscriberCount ≤ r.held.length + 1) := by
  intro r after
  have h : after.Registered r := (Registered.run ops).publish e
  have hlost (n : Nat) : Lingers (ops ++ [.publish e]) n ↔ after.Lost n := by
    rw [← lost_run_iff, run_concat]
    rfl
  have hnone : (∃ n, after.Lost n) ↔ 0 < after.subscribers.countP fun s => ¬s.live := by
    simp [Lost, List.countP_pos_iff]
  rw [subscriberCount_eq h]
  simp only [hlost, hnone]
  refine ⟨by omega, by omega, fun hmade => ?_⟩
  have hsender := h.length_echoes_le hmade e.source
  rw [← List.countP_eq_length_filter] at hsender
  refine Nat.add_le_add_left (Nat.le_trans (List.countP_mono_left fun s hs hgone => ?_) hsender) _
  have hids := (lost_publish.mp ⟨s, hs, by simpa using hgone, rfl⟩).2
  exact decide_eq_true hids.symm

/-- One dropped subscription goes with the first event, the other one sends the second. -/
theorem subscriberCount_eq_held_iff_parted :
    let ops : List Operation := [.subscribe "plot", .subscribe "table", .drop 0,
      .publish ⟨1, .files [3]⟩, .drop 1]
    let e : Event := ⟨1, .files []⟩
    (Register.ofHistory ops).made < UInt32.size ∧ (∃ n, Lingers (ops ++ [.publish e]) n) ∧
      ((empty.run ops).publish e).subscriberCount ≤ 1 := by
  intro ops e
  have hmade : (Register.ofHistory ops).made < UInt32.size := by decide
  obtain ⟨hcount, -, hone⟩ := subscriberCount_eq_held_iff ops e
  exact ⟨hmade, not_not.mp (hcount.not.mp (by decide)), hone hmade⟩

/-- The sender of an event has been dropped before it, and is still counted. -/
theorem dropped_sender_counted :
    let ops : List Operation := [.subscribe "plot", .drop 0]
    (Register.ofHistory ops).held = [] ∧
      ((empty.run ops).publish ⟨0, .files []⟩).subscriberCount = 1 := by
  decide

end Bus
end ClonePlot
