import PipelineEngine.Subscription.Router

/-!
# What receivers of a channel get

A channel counts what is sent, and each receiver has a place in that count.  What waits for a
receiver are the deliveries between its place and the end, as far as they are kept.  So a
receiver that has room for one more delivery gets the next one, behind all that waits already.

* `Channel.WellFormed`, `Router.Reached.wellFormed`: no receiver is ahead of what was sent.
* `Channel.pending_send`, `pending_receive`: what waits for a receiver after a delivery, and
  after a receiver took what waited for it.
* `Router.HasRoomFor`: a receiver that has lost nothing and loses nothing by the next delivery.
* `Router.pending_hand`, `pending_receive`: the same for the receivers of a router.
-/

namespace PipelineEngine

namespace Channel

variable {c : Channel} {capacity number other : Nat} {d : Delivery}

/-- A channel keeps some of what was sent, as far as its capacity goes, and no receiver has got
more than that. -/
structure WellFormed (c : Channel) (capacity : Nat) : Prop where
  kept_le_sent : c.kept.length ≤ c.sent
  kept_le : c.kept.length ≤ keeps capacity
  seen_le : ∀ entry ∈ c.receivers, entry.2 ≤ c.sent

/-- The receiver has joined and has lost nothing, and one more delivery can wait for it. -/
structure HasRoomFor (c : Channel) (capacity number : Nat) : Prop where
  joined : (c.receivers.lookup number).isSome = true
  lost : (c.pending number).1 = 0
  room : (c.pending number).2.length < keeps capacity

/-- Whatever its capacity, a channel has room for a delivery at first. -/
theorem keeps_pos (capacity : Nat) : 0 < keeps capacity :=
  Nat.pos_of_isPowerOfTwo (Nat.isPowerOfTwo_nextPowerOfTwo _)

theorem wellFormed_empty (capacity : Nat) : Channel.empty.WellFormed capacity :=
  ⟨Nat.le_refl _, Nat.zero_le _, by simp [empty]⟩

theorem WellFormed.join (h : c.WellFormed capacity) (number : Nat) :
    (c.join number).WellFormed capacity := by
  refine ⟨h.kept_le_sent, h.kept_le, List.forall_mem_append.2 ⟨h.seen_le, ?_⟩⟩
  exact List.forall_mem_singleton.2 (Nat.le_refl _)

theorem WellFormed.leave (h : c.WellFormed capacity) (number : Nat) :
    (c.leave number).WellFormed capacity :=
  ⟨h.kept_le_sent, h.kept_le, fun entry hentry => h.seen_le entry (List.mem_filter.1 hentry).1⟩

theorem WellFormed.send (h : c.WellFormed capacity) (d : Delivery) :
    (c.send capacity d).WellFormed capacity := by
  have hsent := h.kept_le_sent
  unfold Channel.send
  split
  · exact h
  · refine ⟨?_, ?_, fun entry hentry => Nat.le_succ_of_le (h.seen_le entry hentry)⟩ <;>
      simp only [List.length_drop, List.length_append, List.length_singleton] <;> omega

theorem WellFormed.receive (h : c.WellFormed capacity) (number : Nat) :
    (c.receive number).2.WellFormed capacity := by
  refine ⟨h.kept_le_sent, h.kept_le, ?_⟩
  intro entry hentry
  obtain ⟨⟨other, seen⟩, hother, rfl⟩ := List.mem_map.1 hentry
  dsimp only
  split
  · exact Nat.le_refl _
  · exact h.seen_le _ hother

/-! ## What waits for a receiver -/

theorem pending_of_lookup {seen : Nat} (h : c.receivers.lookup number = some seen) :
    c.pending number =
      (c.sent - c.kept.length - seen, c.kept.drop (seen - (c.sent - c.kept.length))) := by
  simp only [pending, h]

theorem seen_le_of_lookup (hc : c.WellFormed capacity) {seen : Nat}
    (h : c.receivers.lookup number = some seen) : seen ≤ c.sent := by
  obtain ⟨before, after, heq, -⟩ := List.lookup_eq_some_iff.1 h
  exact hc.seen_le (number, seen) (heq ▸ List.mem_append_right before List.mem_cons_self)

theorem receivers_send : (c.send capacity d).receivers = c.receivers := by
  unfold send
  split <;> rfl

/-- A receiver with room gets the next delivery, behind all that waits for it. -/
theorem pending_send (hc : c.WellFormed capacity) (h : c.HasRoomFor capacity number)
    (d : Delivery) :
    (c.send capacity d).pending number = (0, (c.pending number).2 ++ [d]) := by
  obtain ⟨seen, hseen⟩ := Option.isSome_iff_exists.1 h.joined
  have hlookup : (c.send capacity d).receivers.lookup number = some seen := by
    rw [receivers_send, hseen]
  have hlost := h.lost
  have hroom := h.room
  rw [pending_of_lookup hlookup, pending_of_lookup hseen]
  rw [pending_of_lookup hseen] at hlost hroom
  have hsent := hc.kept_le_sent
  have hkept := hc.kept_le
  have hle := seen_le_of_lookup hc hseen
  have hreceivers : c.receivers.isEmpty = false := by
    cases hnil : c.receivers with
    | nil => simp [hnil] at hseen
    | cons entry rest => rfl
  simp only [List.length_drop] at hroom
  simp only [send, hreceivers, Bool.false_eq_true, if_false, List.drop_drop, List.length_drop,
    List.length_append, List.length_singleton, Prod.mk.injEq]
  -- Both before and after, what waits starts at the receiver's place in the count.
  refine ⟨by omega, ?_⟩
  rw [← List.drop_append_of_le_length (by omega)]
  congr 1
  omega

theorem lookup_receive :
    (c.receive number).2.receivers.lookup other =
      if other = number then (c.receivers.lookup other).map fun _ => c.sent
      else c.receivers.lookup other := by
  unfold receive
  dsimp only
  induction c.receivers with
  | nil => simp
  | cons entry rest ih =>
    obtain ⟨n, seen⟩ := entry
    rw [List.map_cons]
    by_cases hother : other = n
    · subst hother
      by_cases hn : other = number <;> simp [hn]
    · have hbeq : (other == n) = false := beq_false_of_ne hother
      by_cases hn : n = number
      · have hne : other ≠ number := hn ▸ hother
        simp only [hn, if_true, List.lookup_cons, beq_false_of_ne hne, ih]
      · simp only [hn, if_false, List.lookup_cons, hbeq, ih]

/-- Nothing waits any more for a receiver that took what waited; for the others all does. -/
theorem pending_receive (hc : c.WellFormed capacity)
    (hjoined : (c.receivers.lookup other).isSome = true) :
    (c.receive number).2.pending other = if other = number then (0, []) else c.pending other := by
  obtain ⟨seen, hseen⟩ := Option.isSome_iff_exists.1 hjoined
  have hlookup : (c.receive number).2.receivers.lookup other = _ := lookup_receive
  rw [hseen] at hlookup
  by_cases hother : other = number
  · rw [if_pos hother] at hlookup ⊢
    rw [pending_of_lookup hlookup]
    have hsent := hc.kept_le_sent
    show (c.sent - c.kept.length - c.sent, c.kept.drop (c.sent - (c.sent - c.kept.length))) = _
    rw [List.drop_eq_nil_of_le (by omega), Nat.sub_eq_zero_of_le (Nat.sub_le _ _)]
  · rw [if_neg hother] at hlookup ⊢
    rw [pending_of_lookup hlookup, pending_of_lookup hseen]
    rfl

end Channel

namespace Router

variable {r r' : Router} {receiver : Receiver} {endpoint : String} {d : Delivery}

/-! ## The channels of a router -/

theorem channel_withChannel (r : Router) (endpoint other : String) (c : Channel) :
    (r.withChannel endpoint c).channel other = if other = endpoint then c else r.channel other := by
  unfold withChannel channel
  rw [Fields.get?_insert]
  split <;> rfl

/-- A delivery goes to the channel of its endpoint. -/
theorem channel_hand :
    (r.hand d).2.channel endpoint =
      if endpoint = d.endpoint then (r.channel endpoint).send r.capacity d
      else r.channel endpoint := by
  show (r.withChannel d.endpoint _).channel endpoint = _
  rw [channel_withChannel]
  split
  · rename_i h
    rw [h]
  · rfl

/-- A receiver takes what waits for it in the channel of its endpoint. -/
theorem channel_receive :
    (r.receive receiver).2.channel endpoint =
      if endpoint = receiver.endpoint then ((r.channel endpoint).receive receiver.number).2
      else r.channel endpoint := by
  show (r.withChannel receiver.endpoint _).channel endpoint = _
  rw [channel_withChannel]
  split
  · rename_i h
    rw [h]
    rfl
  · rfl

/-- All channels are well formed. -/
def WellFormed (r : Router) : Prop := ∀ endpoint, (r.channel endpoint).WellFormed r.capacity

theorem WellFormed.withChannel (h : r.WellFormed) {c : Channel} (hc : c.WellFormed r.capacity) :
    (r.withChannel endpoint c).WellFormed := by
  intro other
  rw [channel_withChannel]
  split
  · exact hc
  · exact h other

theorem WellFormed.hand (h : r.WellFormed) (d : Delivery) : (r.hand d).2.WellFormed :=
  h.withChannel ((h d.endpoint).send d)

theorem WellFormed.receive (h : r.WellFormed) (receiver : Receiver) :
    (r.receive receiver).2.WellFormed :=
  h.withChannel ((h receiver.endpoint).receive receiver.number)

/-- What can become of a router. -/
inductive Reached : Router → Prop
  | ofCapacity (capacity : Nat) : Reached (ofCapacity capacity)
  | subscribe {r r' : Router} {receiver : Receiver} {endpoint : String} {m : Model} (hr : Reached r)
      (h : r.subscribe m endpoint = .ok (receiver, r')) :
    Reached r'
  | unsubscribe {r : Router} (hr : Reached r) (receiver : Receiver) :
    Reached (r.unsubscribe receiver)
  | receive {r : Router} (hr : Reached r) (receiver : Receiver) : Reached (r.receive receiver).2
  | hand {r : Router} (hr : Reached r) (d : Delivery) : Reached (r.hand d).2

theorem Reached.wellFormed (h : r.Reached) : r.WellFormed := by
  induction h with
  | ofCapacity capacity => exact fun _ => Channel.wellFormed_empty capacity
  | @subscribe r r' receiver endpoint m _ h ih =>
    unfold Router.subscribe at h
    split at h
    · cases h
    · split at h
      · cases h
        exact ih.withChannel ((ih endpoint).join r.issued)
      · cases h
  | unsubscribe _ receiver ih => exact ih.withChannel ((ih receiver.endpoint).leave receiver.number)
  | receive _ receiver ih => exact ih.receive receiver
  | hand _ d ih => exact ih.hand d

/-! ## What waits for a receiver -/

/-- What waits for a receiver: the number of deliveries that it has lost, and those that it
gets. -/
def pending (r : Router) (receiver : Receiver) : Nat × List Delivery :=
  (r.channel receiver.endpoint).pending receiver.number

/-- The receiver has subscribed and has not unsubscribed. -/
def Serves (r : Router) (receiver : Receiver) : Prop :=
  ((r.channel receiver.endpoint).receivers.lookup receiver.number).isSome = true

/-- The receiver has subscribed and has lost nothing, and one more delivery can wait for it. -/
structure HasRoomFor (r : Router) (receiver : Receiver) : Prop where
  serves : r.Serves receiver
  lost : (r.pending receiver).1 = 0
  room : (r.pending receiver).2.length < Channel.keeps r.capacity

theorem subscribers_hand : (r.hand d).2.subscribers endpoint = r.subscribers endpoint := by
  unfold subscribers
  rw [channel_hand]
  split
  · rw [Channel.receivers_send]
  · rfl

theorem subscribers_receive :
    (r.receive receiver).2.subscribers endpoint = r.subscribers endpoint := by
  unfold subscribers
  rw [channel_receive]
  split
  · exact List.length_map _
  · rfl

theorem Serves.hand (h : r.Serves receiver) (d : Delivery) : (r.hand d).2.Serves receiver := by
  unfold Serves at *
  rw [channel_hand]
  split
  · rwa [Channel.receivers_send]
  · exact h

theorem Serves.receive (h : r.Serves receiver) (other : Receiver) :
    (r.receive other).2.Serves receiver := by
  unfold Serves at *
  rw [channel_receive]
  split
  · rw [Channel.lookup_receive]
    split
    · rwa [Option.isSome_map]
    · exact h
  · exact h

/-- A delivery for another endpoint changes nothing for a receiver. -/
theorem pending_hand_of_ne (h : receiver.endpoint ≠ d.endpoint) :
    (r.hand d).2.pending receiver = r.pending receiver := by
  unfold pending
  rw [channel_hand, if_neg h]

/-- A receiver with room gets a delivery for its endpoint, behind all that waits for it. -/
theorem pending_hand (hr : r.WellFormed) (h : r.HasRoomFor receiver)
    (hendpoint : receiver.endpoint = d.endpoint) :
    (r.hand d).2.pending receiver = (0, (r.pending receiver).2 ++ [d]) := by
  unfold pending
  rw [channel_hand, if_pos hendpoint]
  exact Channel.pending_send (hr receiver.endpoint) ⟨h.serves, h.lost, h.room⟩ d

/-- A receiver that takes what waits for it leaves the others what waits for them. -/
theorem pending_receive (hr : r.WellFormed) (h : r.Serves receiver) (other : Receiver) :
    (r.receive other).2.pending receiver =
      if receiver = other then (0, []) else r.pending receiver := by
  obtain ⟨endpoint, number⟩ := receiver
  obtain ⟨endpoint', number'⟩ := other
  unfold pending
  simp only [channel_receive, Receiver.mk.injEq]
  by_cases hendpoint : endpoint = endpoint'
  · simp only [hendpoint, if_true, true_and]
    exact Channel.pending_receive (hr endpoint') (hendpoint ▸ h)
  · simp only [hendpoint, if_false, false_and]

end Router

end PipelineEngine
