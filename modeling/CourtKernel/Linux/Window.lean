import CourtKernel.Linux.Ring
import Mathlib.Data.Nat.ModEq

/-!
# The window of unread messages

Messages are numbered from zero in the order of their publication.  With `P` messages published
and `C` of them consumed, the ring holds the messages `C, …, P - 1`, message `k` in the slot
`(k mod 2^64) mod capacity`.

* `Steady cap n` — slots of messages below `n` are where plain counters would put them: no counter
  has wrapped, or the capacity divides `2^64`.
* `slot_disjoint` — messages less than one capacity apart lie in different slots.
* `Window ring P C` — the header counters are `P` and `C` modulo `2^64` and the lengths of the unread
  messages are good; `contents` lists their payloads.
* `Window.agree` — the window is in the bytes of the unread slots, and in no others.
* `Window.scribble`, `Window.publish`, `Window.consume` — the three ways a window changes;
  `Window.append` is the first two together.
* `full_iff`, `empty_iff` — what the wrapping comparisons of the source decide.
-/

namespace CourtKernel

/-- Counters have not wrapped below `n`, or a wrap does not matter. -/
def Steady (cap n : Nat) : Prop := n ≤ 2 ^ 64 ∨ cap ∣ 2 ^ 64

theorem Steady.mono {cap n n' : Nat} (h : Steady cap n) (hn : n' ≤ n) : Steady cap n' := by
  rcases h with h | h
  · exact Or.inl (by omega)
  · exact Or.inr h

/-- Messages less than one capacity apart have different slot numbers. -/
theorem slot_ne {cap i j : Nat} (hs : Steady cap (j + 1)) (hlt : i < j) (hwin : j < i + cap) :
    i % 2 ^ 64 % cap ≠ j % 2 ^ 64 % cap := by
  intro he
  have hmod : i % cap = j % cap := by
    rcases hs with hs | hs
    · rw [Nat.mod_eq_of_lt (show i < 2 ^ 64 by omega), Nat.mod_eq_of_lt (show j < 2 ^ 64 by omega)]
        at he
      exact he
    · rw [Nat.mod_mod_of_dvd _ hs, Nat.mod_mod_of_dvd _ hs] at he
      exact he
  have hdvd : cap ∣ j - i := (Nat.modEq_iff_dvd' (by omega)).1 hmod
  have hle := Nat.le_of_dvd (by omega) hdvd
  omega

namespace SharedRing

variable {ring : SharedRing} {P C : Nat}

/-- Offset of the slot of message `k`. -/
def slotOf (ring : SharedRing) (k : Nat) : Nat :=
  HEADER_LEN + k % 2 ^ 64 % ring.header.capacity.toNat * slotStride ring.header.slotSize

/-- `slot_ptr` of a counter is the slot of the message it counts. -/
theorem slotPtr_eq_slotOf {c : UInt64} {k : Nat} (hc : c.toNat = k % 2 ^ 64) :
    ring.slotPtr (c % ring.header.capacity.toUInt64) = ring.slotOf k := by
  rw [slotPtr, slotOf, UInt64.toNat_mod, hc, UInt32.toNat_toUInt64]

/-- Different slot numbers have disjoint bytes. -/
theorem slot_disjoint {i j a b : Nat}
    (h : i % 2 ^ 64 % ring.header.capacity.toNat ≠ j % 2 ^ 64 % ring.header.capacity.toNat)
    (ha : a < slotStride ring.header.slotSize) (hb : b < slotStride ring.header.slotSize) :
    ring.slotOf i + a ≠ ring.slotOf j + b := by
  unfold slotOf
  generalize i % 2 ^ 64 % ring.header.capacity.toNat = x at h
  generalize j % 2 ^ 64 % ring.header.capacity.toNat = y at h
  generalize slotStride ring.header.slotSize = stride at ha hb
  rcases Nat.lt_or_gt_of_ne h with h | h
  · have := Nat.mul_le_mul_right stride (Nat.succ_le_of_lt h)
    rw [Nat.succ_mul] at this
    omega
  · have := Nat.mul_le_mul_right stride (Nat.succ_le_of_lt h)
    rw [Nat.succ_mul] at this
    omega

/-- The ring after `P` messages were published and `C` consumed. -/
structure Window (ring : SharedRing) (P C : Nat) : Prop where
  producer : ring.header.producer.toNat = P % 2 ^ 64
  consumer : ring.header.consumer.toNat = C % 2 ^ 64
  le : C ≤ P
  room : P ≤ C + ring.header.capacity.toNat
  lens : ∀ j, C ≤ j → j < P → lenAt ring.bytes (ring.slotOf j) ≤ ring.header.slotSize.toNat

/-- The payloads of the messages `C, …, P - 1`. -/
def contents (ring : SharedRing) (P C : Nat) : List Payload :=
  (List.range (P - C)).map fun i => payloadAt ring.bytes (ring.slotOf (C + i))

@[simp] theorem length_contents : (ring.contents P C).length = P - C := by
  simp [contents]

/-- An unused ring. -/
structure Fresh (ring : SharedRing) : Prop where
  capacity : 0 < ring.header.capacity.toNat
  producer : ring.header.producer = 0
  consumer : ring.header.consumer = 0

theorem fresh_create {capacity slotSize : UInt32} (h : create capacity slotSize = .ok ring)
    (hcap : 1 ≤ capacity.toNat) :
    ring.Fresh ∧ ring.header.capacity = capacity ∧ ring.header.slotSize = slotSize := by
  unfold create at h
  split at h
  · cases h
  · obtain rfl := Except.ok.inj h
    exact ⟨⟨hcap, rfl, rfl⟩, rfl, rfl⟩

theorem Fresh.window (hf : ring.Fresh) : ring.Window 0 0 := by
  refine ⟨?_, ?_, Nat.le_refl _, Nat.zero_le _, fun j _ hj => absurd hj (Nat.not_lt_zero j)⟩
  · rw [hf.producer]; rfl
  · rw [hf.consumer]; rfl

/-! ## Comparisons of wrapping counters -/

/-- `producer.wrapping_sub(consumer) >= capacity`, when `C'` is what the consumer counter was. -/
theorem full_iff {own peer : UInt64} {C' : Nat} (ho : own.toNat = P % 2 ^ 64)
    (hp : peer.toNat = C' % 2 ^ 64) (hle : C' ≤ P) (hroom : P ≤ C' + ring.header.capacity.toNat) :
    own - peer ≥ ring.header.capacity.toUInt64 ↔ P = C' + ring.header.capacity.toNat := by
  have hcap := ring.header.capacity.toNat_lt
  rw [ge_iff_le, UInt64.le_iff_toNat_le, UInt64.toNat_sub, UInt32.toNat_toUInt64, ho, hp]
  omega

/-- `consumer == producer`, when `P'` is what the producer counter was. -/
theorem empty_iff {own peer : UInt64} {P' : Nat} (ho : own.toNat = C % 2 ^ 64)
    (hp : peer.toNat = P' % 2 ^ 64) (hle : C ≤ P')
    (hroom : P' ≤ C + ring.header.capacity.toNat) : own = peer ↔ C = P' := by
  have hcap := ring.header.capacity.toNat_lt
  rw [← UInt64.toNat_inj, ho, hp]
  omega

theorem toNat_add_one {c : UInt64} {k : Nat} (h : c.toNat = k % 2 ^ 64) :
    (c + 1).toNat = (k + 1) % 2 ^ 64 := by
  rw [UInt64.toNat_add, h]
  simp

/-! ## Changes of the window -/

/-- Bytes in the slot of the next message are in no unread slot. -/
theorem apart (hs : Steady ring.header.capacity.toNat (P + 1))
    (hroom : P < C + ring.header.capacity.toNat) {j a b : Nat} (h1 : C ≤ j) (h2 : j < P)
    (ha : a < slotStride ring.header.slotSize) (hb : b < slotStride ring.header.slotSize) :
    ring.slotOf j + a ≠ ring.slotOf P + b :=
  slot_disjoint (slot_ne hs h2 (by omega)) ha hb

/-- The record of a payload that fits a slot changes no byte outside it. -/
theorem write_record_apart {m : Memory} {off : Nat} {size : UInt32} {payload : Payload}
    (hlen : payload.length ≤ size.toNat) {i : Nat} (hi : ∀ b, b < slotStride size → i ≠ off + b) :
    m.write off (record payload) i = m i := by
  rcases Nat.lt_or_ge i off with hlt | hge
  · exact Memory.write_of_lt hlt
  · refine Memory.write_of_ge ?_
    rw [length_record]
    unfold slotStride at hi
    by_contra hin
    exact hi (i - off) (by omega) (by omega)

namespace Window

/-- The window and its contents are in the bytes of the unread slots. -/
theorem agree (h : Window ring P C) {m : Memory}
    (hm : ∀ j, C ≤ j → j < P → ∀ i, i < slotStride ring.header.slotSize →
      ring.bytes (ring.slotOf j + i) = m (ring.slotOf j + i)) :
    Window { ring with bytes := m } P C ∧
      contents { ring with bytes := m } P C = ring.contents P C := by
  have hsame : ∀ j, C ≤ j → j < P →
      lenAt ring.bytes (ring.slotOf j) = lenAt m (ring.slotOf j) ∧
      payloadAt ring.bytes (ring.slotOf j) = payloadAt m (ring.slotOf j) :=
    fun j h1 h2 => payloadAt_congr (hm j h1 h2) (h.lens j h1 h2)
  refine ⟨⟨h.producer, h.consumer, h.le, h.room, fun j h1 h2 => ?_⟩, ?_⟩
  · show lenAt m (ring.slotOf j) ≤ _
    rw [← (hsame j h1 h2).1]
    exact h.lens j h1 h2
  · refine List.map_congr_left fun i hi => ?_
    have hi := List.mem_range.1 hi
    exact (hsame (C + i) (by omega) (by omega)).2.symm

/-- Writing into the slot of the next message keeps the window and its contents. -/
theorem scribble (h : Window ring P C) (hs : Steady ring.header.capacity.toNat (P + 1))
    (hroom : P < C + ring.header.capacity.toNat) {m : Memory}
    (hm : ∀ i, (∀ b, b < slotStride ring.header.slotSize → i ≠ ring.slotOf P + b) →
      m i = ring.bytes i) :
    Window { ring with bytes := m } P C ∧
      contents { ring with bytes := m } P C = ring.contents P C :=
  h.agree fun _ h1 h2 _ hi => (hm _ fun _ hb => apart hs hroom h1 h2 hi hb).symm

/-- Publishing the message whose record is in its slot. -/
theorem publish (h : Window ring P C) (hroom : P < C + ring.header.capacity.toNat)
    {payload : Payload} (hlen : payload.length ≤ ring.header.slotSize.toNat)
    (hrec : ring.bytes.read (ring.slotOf P) (record payload).length = record payload) :
    let ring' := { ring with header := { ring.header with producer := ring.header.producer + 1 } }
    Window ring' (P + 1) C ∧ ring'.contents (P + 1) C = ring.contents P C ++ [payload] := by
  have hslot := ring.header.slotSize.toNat_lt
  obtain ⟨hl, hp⟩ := payloadAt_record hrec (by omega)
  refine ⟨⟨toNat_add_one h.producer, h.consumer, by have := h.le; omega, ?_, fun j h1 h2 => ?_⟩, ?_⟩
  · show P + 1 ≤ C + ring.header.capacity.toNat
    omega
  · show lenAt ring.bytes (ring.slotOf j) ≤ _
    by_cases hj : j = P
    · rw [hj, hl]
      exact hlen
    · exact h.lens j h1 (by omega)
  · have hle := h.le
    have hn : P + 1 - C = P - C + 1 := by omega
    have hlast : C + (P - C) = P := by omega
    show (List.range (P + 1 - C)).map (fun i => payloadAt ring.bytes (ring.slotOf (C + i))) = _
    rw [hn, List.range_succ, List.map_append, List.map_singleton, hlast, hp]
    rfl

/-- Writing the record of the next message into its slot and publishing it. -/
theorem append (h : Window ring P C) (hs : Steady ring.header.capacity.toNat (P + 1))
    (hroom : P < C + ring.header.capacity.toNat) {payload : Payload}
    (hlen : payload.length ≤ ring.header.slotSize.toNat) :
    let ring' := { ring with
      bytes := ring.bytes.write (ring.slotOf P) (record payload)
      header := { ring.header with producer := ring.header.producer + 1 } }
    Window ring' (P + 1) C ∧ ring'.contents (P + 1) C = ring.contents P C ++ [payload] := by
  obtain ⟨hw, hc⟩ := h.scribble hs hroom fun i hi => write_record_apart hlen hi
  have hpub := hw.publish hroom hlen Memory.read_write_self
  rw [hc] at hpub
  exact hpub

/-- Consuming the oldest message. -/
theorem consume (h : Window ring P C) (hne : C < P) :
    let ring' := { ring with header := { ring.header with consumer := ring.header.consumer + 1 } }
    Window ring' P (C + 1) ∧
      ring.contents P C = payloadAt ring.bytes (ring.slotOf C) :: ring'.contents P (C + 1) := by
  refine ⟨⟨h.producer, toNat_add_one h.consumer, hne, ?_, fun j h1 h2 => ?_⟩, ?_⟩
  · show P ≤ C + 1 + ring.header.capacity.toNat
    have := h.room; omega
  · exact h.lens j (by omega) h2
  · have hn : P - C = (P - (C + 1)) + 1 := by omega
    rw [contents, hn, List.range_succ_eq_map, List.map_cons, List.map_map, Nat.add_zero]
    congr 1
    refine List.map_congr_left fun i _ => ?_
    show payloadAt ring.bytes (ring.slotOf (C + (i + 1))) =
      payloadAt ring.bytes (ring.slotOf (C + 1 + i))
    rw [Nat.add_right_comm, Nat.add_assoc]

end Window

end SharedRing

end CourtKernel
