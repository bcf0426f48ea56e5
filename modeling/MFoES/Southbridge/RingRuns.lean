import MFoES.Lib.Transition
import MFoES.Southbridge.RingBuffer

/-!
# Two threads on the audio ring

A producer runs `push` and `push_overwrite`, a consumer runs `pop`, and they interleave between
any two loads, stores and copies of a slot.

Only the producer moves the head, but both move the tail.  Where the drop of `push_overwrite`
stores a tail that is behind the ring's own, items that are out come back.  Where it drops twice
while one `pop` is under way, the producer gets to the slot that this `pop` copies.  Where it
drops from a ring that has become empty, the tail gets ahead of the head.  The ring is sound in
the runs in which no drop does so (`DropsCurrent`).
-/

namespace MFoES.Southbridge

open Transition

variable {k : Nat} {α : Type}

/-- What the producer runs. -/
inductive PushOp
  | push
  | overwrite
  deriving DecidableEq

/-- Where the producer is.  Its copy is under way at `copy`. -/
inductive Producer (k : Nat) (α : Type)
  | idle
  | loadHead (op : PushOp) (item : α)
  | loadTail (op : PushOp) (item : α) (h : Fin (2 ^ k))
  | reloadTail (item : α) (h : Fin (2 ^ k))
  | storeTail (item : α) (h t : Fin (2 ^ k))
  | copy (item : α) (h : Fin (2 ^ k))
  | storeHead (item : α) (h : Fin (2 ^ k))
  deriving DecidableEq

/-- Where the consumer is.  Its copy is under way at `copy`. -/
inductive Consumer (k : Nat) (α : Type)
  | idle
  | loadTail
  | loadHead (t : Fin (2 ^ k))
  | copy (t : Fin (2 ^ k))
  | storeTail (t : Fin (2 ^ k)) (out : α)
  deriving DecidableEq

/-- The tail that a `pop` under way has loaded. -/
def Consumer.seen : Consumer k α → Option (Fin (2 ^ k))
  | .idle => none
  | .loadTail => none
  | .loadHead t => some t
  | .copy t => some t
  | .storeTail t _ => some t

/-- The ring, its two threads, and what went in and came out. -/
structure Threads (k : Nat) (α : Type) where
  ring : RingBuffer k α
  producer : Producer k α
  consumer : Consumer k α
  /-- The items of the pushes that have stored the head. -/
  pushed : List α
  /-- The items of the pops that have stored the tail. -/
  popped : List α

/-- A thread calls an operation, or takes its next step in one. -/
inductive RingEvent (α : Type)
  | push (item : α)
  | pushOverwrite (item : α)
  | producer
  | pop
  | consumer

namespace Threads

/-- Before the first call. -/
def init (buf : Fin (2 ^ k) → α) : Threads k α := ⟨.init buf, .idle, .idle, [], []⟩

/-- The producer's next step. -/
def produce (s : Threads k α) : Option (Threads k α) :=
  match s.producer with
  | .idle => none
  | .loadHead op item => some { s with producer := .loadTail op item s.ring.head }
  | .loadTail op item h =>
      if next h = s.ring.tail then
        match op with
        | .push => some { s with producer := .idle }
        | .overwrite => some { s with producer := .reloadTail item h }
      else some { s with producer := .copy item h }
  | .reloadTail item h => some { s with producer := .storeTail item h s.ring.tail }
  | .storeTail item h t =>
      some { s with ring := { s.ring with tail := next t }, producer := .copy item h }
  | .copy item h =>
      some { s with
        ring := { s.ring with buf := Function.update s.ring.buf h item }
        producer := .storeHead item h }
  | .storeHead item h =>
      some { s with
        ring := { s.ring with head := next h }
        producer := .idle
        pushed := s.pushed ++ [item] }

/-- The consumer's next step. -/
def consume (s : Threads k α) : Option (Threads k α) :=
  match s.consumer with
  | .idle => none
  | .loadTail => some { s with consumer := .loadHead s.ring.tail }
  | .loadHead t =>
      if t = s.ring.head then some { s with consumer := .idle }
      else some { s with consumer := .copy t }
  | .copy t => some { s with consumer := .storeTail t (s.ring.buf t) }
  | .storeTail t out =>
      some { s with
        ring := { s.ring with tail := next t }
        consumer := .idle
        popped := s.popped ++ [out] }

/-- One event. -/
def step (s : Threads k α) : RingEvent α → Option (Threads k α)
  | .push item =>
      match s.producer with
      | .idle => some { s with producer := .loadHead .push item }
      | _ => none
  | .pushOverwrite item =>
      match s.producer with
      | .idle => some { s with producer := .loadHead .overwrite item }
      | _ => none
  | .producer => s.produce
  | .pop =>
      match s.consumer with
      | .idle => some { s with consumer := .loadTail }
      | _ => none
  | .consumer => s.consume

/-! ## Soundness of the queue -/

/-- Both threads copy one slot. -/
def SlotRace (s : Threads k α) : Prop :=
  ∃ item i, s.producer = .copy item i ∧ s.consumer = .copy i

/-- What came out went in before, in this order and each item once, and no slot is read while
it is written. -/
structure Sound (s : Threads k α) : Prop where
  popped : s.popped.Sublist s.pushed
  slots : ¬ s.SlotRace

/-- A drop changes nothing, or it takes the oldest item from a ring that has one, with no `pop`
under way on an item that an earlier drop took. -/
def DropsCurrent (s : Threads k α) : RingEvent α → Prop
  | .producer =>
      match s.producer with
      | .storeTail _ _ t => s.ring.tail = next t ∨
          s.ring.tail = t ∧ t ≠ s.ring.head ∧
            (s.consumer.seen = none ∨ s.consumer.seen = some t)
      | _ => True
  | _ => True

instance (s : Threads k α) (e : RingEvent α) : Decidable (s.DropsCurrent e) := by
  unfold DropsCurrent
  split
  · split <;> infer_instance
  · exact .isTrue trivial

/-! ## The operations alone

A thread that is not interleaved with the other computes the function of the ring. -/

/-- `push` alone. -/
theorem run_push {s : Threads k α} (item : α) (h : s.producer = .idle) :
    ∃ n, run step s (.push item :: List.replicate n .producer) =
      some (match s.ring.push item with
        | none => s
        | some ring => { s with ring := ring, pushed := s.pushed ++ [item] }) := by
  obtain ⟨⟨buf, head, tail⟩, producer, consumer, pushed, popped⟩ := s
  cases h
  rcases Decidable.em (next head = tail) with hfull | hroom
  · exact ⟨2, by simp [run, step, produce, RingBuffer.push, hfull]⟩
  · exact ⟨4, by simp [run, step, produce, RingBuffer.push, hroom]⟩

/-- `push_overwrite` alone. -/
theorem run_pushOverwrite {s : Threads k α} (item : α) (h : s.producer = .idle) :
    ∃ n, run step s (.pushOverwrite item :: List.replicate n .producer) =
      some { s with ring := s.ring.pushOverwrite item, pushed := s.pushed ++ [item] } := by
  obtain ⟨⟨buf, head, tail⟩, producer, consumer, pushed, popped⟩ := s
  cases h
  rcases Decidable.em (next head = tail) with hfull | hroom
  · exact ⟨6, by simp [run, step, produce, RingBuffer.pushOverwrite, hfull]⟩
  · exact ⟨4, by simp [run, step, produce, RingBuffer.pushOverwrite, hroom]⟩

/-- `pop` alone. -/
theorem run_pop {s : Threads k α} (h : s.consumer = .idle) :
    ∃ n, run step s (.pop :: List.replicate n .consumer) =
      some (match s.ring.pop with
        | none => s
        | some (out, ring) => { s with ring := ring, popped := s.popped ++ [out] }) := by
  obtain ⟨⟨buf, head, tail⟩, producer, consumer, pushed, popped⟩ := s
  cases h
  rcases Decidable.em (tail = head) with hempty | hsome
  · exact ⟨2, by simp [run, step, consume, RingBuffer.pop, hempty]⟩
  · exact ⟨4, by simp [run, step, consume, RingBuffer.pop, hsome]⟩

/-! ## Numbered items

The items are numbered as they are pushed.  The tail is at some number `T`, and all that the
threads have loaded is a slot of a number near it. -/

/-- How many items are in their slots, pushed or not. -/
def written (s : Threads k α) : Nat :=
  match s.producer with
  | .storeHead _ _ => s.pushed.length + 1
  | _ => s.pushed.length

/-- What the producer knows: its head, that the ring was full at the tail that it goes to drop,
and that there is room before it copies. -/
def Producing (s : Threads k α) (T : Nat) : Prop :=
  match s.producer with
  | .idle => True
  | .loadHead _ _ => True
  | .loadTail _ _ h => h = slot s.pushed.length
  | .reloadTail _ h => h = slot s.pushed.length
  | .storeTail _ h t => h = slot s.pushed.length ∧
      ∃ u, t = slot u ∧ u ≤ T ∧ s.pushed.length + 1 ≤ u + 2 ^ k
  | .copy _ h => h = slot s.pushed.length ∧ s.pushed.length + 2 ≤ T + 2 ^ k
  | .storeHead item h => h = slot s.pushed.length ∧ s.pushed.length + 2 ≤ T + 2 ^ k ∧
      s.ring.buf h = item

/-- What the consumer knows: the number it has loaded is at the tail or has been dropped, and the
item that it has copied is the one of this number. -/
def Consuming (s : Threads k α) (T : Nat) : Prop :=
  match s.consumer with
  | .idle => s.popped.Sublist (s.pushed.take T)
  | .loadTail => s.popped.Sublist (s.pushed.take T)
  | .loadHead t => ∃ u, t = slot u ∧ u ≤ T ∧ T ≤ u + 1 ∧ s.popped.Sublist (s.pushed.take u)
  | .copy t => ∃ u, t = slot u ∧ u ≤ T ∧ T ≤ u + 1 ∧ s.popped.Sublist (s.pushed.take u) ∧
      u < s.pushed.length
  | .storeTail t out => ∃ u, t = slot u ∧ u ≤ T ∧ T ≤ u + 1 ∧
      s.popped.Sublist (s.pushed.take u) ∧ s.pushed[u]? = some out

/-- The ring holds the items from number `T` on. -/
structure Numbered (s : Threads k α) (T : Nat) : Prop where
  head : s.ring.head = slot s.pushed.length
  tail : s.ring.tail = slot T
  le : T ≤ s.pushed.length
  room : s.pushed.length + 1 ≤ T + 2 ^ k
  slots : ∀ i item, s.pushed[i]? = some item → s.written ≤ i + 2 ^ k → s.ring.buf (slot i) = item
  producing : s.Producing T
  consuming : s.Consuming T

theorem numbered_init (buf : Fin (2 ^ k) → α) : (init buf).Numbered 0 where
  head := rfl
  tail := rfl
  le := Nat.le_refl 0
  room := by
    show 0 + 1 ≤ 0 + 2 ^ k
    have hpos := Nat.two_pow_pos k
    omega
  slots := by
    intro i item hi
    cases hi
  producing := trivial
  consuming := List.Sublist.refl _

/-- What came out is a part of what went in. -/
theorem Numbered.popped {s : Threads k α} {T : Nat} (h : s.Numbered T) :
    s.popped.Sublist s.pushed := by
  have hcons := h.consuming
  unfold Consuming at hcons
  split at hcons
  · exact hcons.trans (List.take_sublist _ _)
  · exact hcons.trans (List.take_sublist _ _)
  · obtain ⟨u, -, -, -, hsub⟩ := hcons
    exact hsub.trans (List.take_sublist _ _)
  · obtain ⟨u, -, -, -, hsub, -⟩ := hcons
    exact hsub.trans (List.take_sublist _ _)
  · obtain ⟨u, -, -, -, hsub, -⟩ := hcons
    exact hsub.trans (List.take_sublist _ _)

/-- The producer writes in front of all that the consumer may copy. -/
theorem Numbered.slotRace {s : Threads k α} {T : Nat} (h : s.Numbered T) : ¬ s.SlotRace := by
  rintro ⟨item, i, hproducer, hconsumer⟩
  have hprod := h.producing
  have hcons := h.consuming
  rw [Producing, hproducer] at hprod
  rw [Consuming, hconsumer] at hcons
  obtain ⟨hhead, hroom⟩ := hprod
  obtain ⟨u, hslot, -, hT, -, hu⟩ := hcons
  refine slot_ne (k := k) hu (show s.pushed.length < u + 2 ^ k by omega) ?_
  rw [← hslot, hhead]

theorem Numbered.sound {s : Threads k α} {T : Nat} (h : s.Numbered T) : s.Sound :=
  ⟨h.popped, h.slotRace⟩

/-! ## The steps -/

/-- More pushed items leave the consumer where it is. -/
theorem Consuming.push {s : Threads k α} {T : Nat} (h : s.Consuming T) (hT : T ≤ s.pushed.length)
    (item : α) (ring : RingBuffer k α) (producer : Producer k α) :
    Consuming { s with ring := ring, producer := producer, pushed := s.pushed ++ [item] } T := by
  have htake : ∀ u ≤ T, (s.pushed ++ [item]).take u = s.pushed.take u := fun u hu =>
    List.take_append_of_le_length (Nat.le_trans hu hT)
  unfold Consuming at h ⊢
  dsimp only
  cases hc : s.consumer with
  | idle =>
      rw [hc] at h
      show s.popped.Sublist ((s.pushed ++ [item]).take T)
      rw [htake T (Nat.le_refl T)]
      exact h
  | loadTail =>
      rw [hc] at h
      show s.popped.Sublist ((s.pushed ++ [item]).take T)
      rw [htake T (Nat.le_refl T)]
      exact h
  | loadHead t =>
      rw [hc] at h
      obtain ⟨u, hslot, hu, hu', hsub⟩ := h
      exact ⟨u, hslot, hu, hu', (htake u hu).symm ▸ hsub⟩
  | copy t =>
      rw [hc] at h
      obtain ⟨u, hslot, hu, hu', hsub, hlt⟩ := h
      refine ⟨u, hslot, hu, hu', (htake u hu).symm ▸ hsub, ?_⟩
      rw [List.length_append]
      exact Nat.lt_add_right _ hlt
  | storeTail t out =>
      rw [hc] at h
      obtain ⟨u, hslot, hu, hu', hsub, hout⟩ := h
      refine ⟨u, hslot, hu, hu', (htake u hu).symm ▸ hsub, ?_⟩
      obtain ⟨hlt, -⟩ := List.getElem?_eq_some_iff.mp hout
      rw [List.getElem?_append_left hlt]
      exact hout

/-- A drop of the oldest item leaves the consumer where it is. -/
theorem Consuming.drop {s : Threads k α} {T : Nat} (h : s.Consuming T) (hk : 0 < k)
    (hseen : s.consumer.seen = none ∨ s.consumer.seen = some (slot T))
    (ring : RingBuffer k α) (producer : Producer k α) :
    Consuming { s with ring := ring, producer := producer } (T + 1) := by
  have htwo : 2 ≤ 2 ^ k := Nat.le_self_pow (Nat.pos_iff_ne_zero.mp hk) 2
  have hat : ∀ {u t}, t = slot u → s.consumer.seen = some t → u ≤ T → T ≤ u + 1 → u = T := by
    intro u t hslot hs hu hu'
    rcases hseen with hnone | hsome
    · rw [hnone] at hs
      cases hs
    · rw [hsome, hslot, Option.some.injEq] at hs
      exact slot_inj hs.symm hu (by omega)
  have htake : s.popped.Sublist (s.pushed.take T) → s.popped.Sublist (s.pushed.take (T + 1)) :=
    fun hsub => hsub.trans (List.take_sublist_take_left (Nat.le_succ T))
  unfold Consuming at h ⊢
  dsimp only
  cases hc : s.consumer with
  | idle =>
      rw [hc] at h
      exact htake h
  | loadTail =>
      rw [hc] at h
      exact htake h
  | loadHead t =>
      rw [hc] at h hat
      obtain ⟨u, hslot, hu, hu', hsub⟩ := h
      have heq := hat hslot rfl hu hu'
      exact ⟨u, hslot, by omega, by omega, hsub⟩
  | copy t =>
      rw [hc] at h hat
      obtain ⟨u, hslot, hu, hu', hsub, hlt⟩ := h
      have heq := hat hslot rfl hu hu'
      exact ⟨u, hslot, by omega, by omega, hsub, hlt⟩
  | storeTail t out =>
      rw [hc] at h hat
      obtain ⟨u, hslot, hu, hu', hsub, hout⟩ := h
      have heq := hat hslot rfl hu hu'
      exact ⟨u, hslot, by omega, by omega, hsub, hout⟩

/-- The producer does not mind pops. -/
theorem Producing.mono {s t : Threads k α} {T T' : Nat} (h : s.Producing T) (hle : T ≤ T')
    (hproducer : t.producer = s.producer) (hpushed : t.pushed = s.pushed)
    (hbuf : t.ring.buf = s.ring.buf) : t.Producing T' := by
  unfold Producing at h ⊢
  rw [hproducer, hpushed, hbuf]
  cases hp : s.producer with
  | idle => trivial
  | loadHead op item => trivial
  | loadTail op item i =>
      rw [hp] at h
      exact h
  | reloadTail item i =>
      rw [hp] at h
      exact h
  | storeTail item i j =>
      rw [hp] at h
      obtain ⟨hi, u, hj, hu, hfull⟩ := h
      exact ⟨hi, u, hj, Nat.le_trans hu hle, hfull⟩
  | copy item i =>
      rw [hp] at h
      obtain ⟨hi, hroom⟩ := h
      exact ⟨hi, Nat.le_trans hroom (Nat.add_le_add_right hle _)⟩
  | storeHead item i =>
      rw [hp] at h
      obtain ⟨hi, hroom, hitem⟩ := h
      exact ⟨hi, Nat.le_trans hroom (Nat.add_le_add_right hle _), hitem⟩

/-- The producer's steps keep the numbers. -/
theorem Numbered.produce {s t : Threads k α} {T : Nat} (h : s.Numbered T) (hk : 0 < k)
    (hdrop : s.DropsCurrent .producer) (hstep : s.produce = some t) : ∃ T', t.Numbered T' := by
  obtain ⟨ring, producer, consumer, pushed, popped⟩ := s
  have hprod := h.producing
  cases producer with
  | idle => cases hstep
  | loadHead op item =>
      cases hstep
      exact ⟨T, h.head, h.tail, h.le, h.room, h.slots, h.head, h.consuming⟩
  | loadTail op item i =>
      simp only [Threads.produce] at hstep
      split at hstep
      · next hfull =>
        cases op with
        | push =>
            cases hstep
            exact ⟨T, h.head, h.tail, h.le, h.room, h.slots, trivial, h.consuming⟩
        | overwrite =>
            cases hstep
            exact ⟨T, h.head, h.tail, h.le, h.room, h.slots, hprod, h.consuming⟩
      · next hfull =>
        cases hstep
        refine ⟨T, h.head, h.tail, h.le, h.room, h.slots, ⟨hprod, ?_⟩, h.consuming⟩
        -- the ring is not full
        have hroom := h.room
        rcases Nat.lt_or_eq_of_le hroom with hlt | heq
        · exact hlt
        · refine absurd ?_ hfull
          show next i = ring.tail
          rw [show i = slot pushed.length from hprod, next_slot]
          show slot (pushed.length + 1) = ring.tail
          rw [show pushed.length + 1 = T + 2 ^ k from heq, slot_add]
          exact h.tail.symm
  | reloadTail item i =>
      cases hstep
      refine ⟨T, h.head, h.tail, h.le, h.room, h.slots, ⟨hprod, T, h.tail, Nat.le_refl T, ?_⟩,
        h.consuming⟩
      exact h.room
  | storeTail item i u' =>
      cases hstep
      obtain ⟨hi, u, rfl, hu, hfull⟩ := hprod
      have htwo : 2 ≤ 2 ^ k := Nat.le_self_pow (Nat.pos_iff_ne_zero.mp hk) 2
      have hle := h.le
      have hroom := h.room
      have htail := h.tail
      dsimp only at hfull hle hroom htail hi
      rcases hdrop with hsame | ⟨hcur, hsome, hseen⟩
      · -- the item is out already
        rw [htail, next_slot] at hsame
        have hne : u ≠ T := by
          rintro rfl
          exact slot_ne (Nat.lt_succ_self u) (by omega) hsame
        have hT : u + 1 = T := slot_inj hsame.symm (by omega) (by omega)
        refine ⟨T, h.head, ?_, h.le, h.room, h.slots, ⟨hi, ?_⟩, h.consuming⟩
        · show next (slot u) = slot T
          rw [next_slot, hT]
        · show pushed.length + 2 ≤ T + 2 ^ k
          omega
      · have hT : u = T := slot_inj (hcur.symm.trans htail) hu (by omega)
        subst hT
        have hlt : u < pushed.length := by
          refine Nat.lt_of_le_of_ne hle ?_
          rintro rfl
          exact hsome h.head.symm
        refine ⟨u + 1, h.head, next_slot u, hlt, ?_, h.slots, ⟨hi, ?_⟩,
          h.consuming.drop hk hseen _ _⟩
        · show pushed.length + 1 ≤ u + 1 + 2 ^ k
          omega
        · show pushed.length + 2 ≤ u + 1 + 2 ^ k
          omega
  | copy item i =>
      cases hstep
      obtain ⟨hi, hroom⟩ := hprod
      refine ⟨T, h.head, h.tail, h.le, h.room, ?_, ⟨hi, hroom, Function.update_self _ _ _⟩,
        h.consuming⟩
      intro j item' hj hw
      have hlt : j < pushed.length := (List.getElem?_eq_some_iff.mp hj).1
      have hw' : pushed.length + 1 ≤ j + 2 ^ k := hw
      show Function.update ring.buf i item (slot j) = item'
      rw [show i = slot pushed.length from hi, Function.update_of_ne (slot_ne hlt (by omega))]
      exact h.slots j item' hj (Nat.le_of_succ_le hw')
  | storeHead item i =>
      cases hstep
      obtain ⟨hi, hroom, hitem⟩ := hprod
      have hlen : (pushed ++ [item]).length = pushed.length + 1 := by simp
      refine ⟨T, ?_, h.tail, ?_, ?_, ?_, trivial, h.consuming.push h.le item _ _⟩
      · show next i = slot (pushed ++ [item]).length
        rw [show i = slot pushed.length from hi, next_slot, hlen]
      · show T ≤ (pushed ++ [item]).length
        rw [hlen]
        exact Nat.le_succ_of_le h.le
      · show (pushed ++ [item]).length + 1 ≤ T + 2 ^ k
        rw [hlen]
        exact hroom
      · intro j item' hj hw
        have hw' : (pushed ++ [item]).length ≤ j + 2 ^ k := hw
        rw [hlen] at hw'
        have hj' : (pushed ++ [item])[j]? = some item' := hj
        rcases Nat.lt_or_ge j pushed.length with hlt | hge
        · rw [List.getElem?_append_left hlt] at hj'
          exact h.slots j item' hj' hw'
        · obtain ⟨hbound, -⟩ := List.getElem?_eq_some_iff.mp hj'
          rw [hlen] at hbound
          obtain rfl : j = pushed.length := by omega
          rw [List.getElem?_concat_length, Option.some.injEq] at hj'
          show ring.buf (slot pushed.length) = item'
          rw [← show i = slot pushed.length from hi, ← hj']
          exact hitem

/-- The consumer's steps keep the numbers. -/
theorem Numbered.consume {s t : Threads k α} {T : Nat} (h : s.Numbered T)
    (hstep : s.consume = some t) : ∃ T', t.Numbered T' := by
  obtain ⟨ring, producer, consumer, pushed, popped⟩ := s
  have hcons := h.consuming
  cases consumer with
  | idle => cases hstep
  | loadTail =>
      cases hstep
      exact ⟨T, h.head, h.tail, h.le, h.room, h.slots, h.producing, T, h.tail, Nat.le_refl T,
        Nat.le_succ T, hcons⟩
  | loadHead i =>
      obtain ⟨u, hi, hu, hT, hsub⟩ := hcons
      simp only [Threads.consume] at hstep
      split at hstep
      · cases hstep
        exact ⟨T, h.head, h.tail, h.le, h.room, h.slots, h.producing,
          hsub.trans (List.take_sublist_take_left hu)⟩
      · next hsome =>
        cases hstep
        refine ⟨T, h.head, h.tail, h.le, h.room, h.slots, h.producing, u, hi, hu, hT, hsub, ?_⟩
        refine Nat.lt_of_le_of_ne (Nat.le_trans hu h.le) ?_
        rintro rfl
        exact hsome (hi.trans h.head.symm)
  | copy i =>
      obtain ⟨u, hi, hu, hT, hsub, hlt⟩ := hcons
      cases hstep
      refine ⟨T, h.head, h.tail, h.le, h.room, h.slots, h.producing, u, hi, hu, hT, hsub, ?_⟩
      -- the producer has not come around to this slot
      have hout : pushed[u]? = some pushed[u] := List.getElem?_eq_getElem hlt
      have hslot := h.slots u pushed[u] hout ?_
      · show pushed[u]? = some (ring.buf i)
        rw [hout, ← hslot]
        rw [show i = slot u from hi]
      · have hroom := h.room
        have hprod := h.producing
        unfold Producing at hprod
        unfold written
        split
        · next hp =>
          rw [hp] at hprod
          obtain ⟨-, hspare, -⟩ := hprod
          dsimp only at hspare ⊢
          omega
        · dsimp only at hroom ⊢
          omega
  | storeTail i out =>
      obtain ⟨u, hi, hu, hT, hsub, hout⟩ := hcons
      cases hstep
      have hlt : u < pushed.length := (List.getElem?_eq_some_iff.mp hout).1
      refine ⟨u + 1, h.head, ?_, hlt, ?_, h.slots, ?_, ?_⟩
      · show next i = slot (u + 1)
        rw [show i = slot u from hi, next_slot]
      · exact Nat.le_trans h.room (Nat.add_le_add_right hT _)
      · exact h.producing.mono hT rfl rfl rfl
      · show (popped ++ [out]).Sublist (pushed.take (u + 1))
        rw [List.take_add_one, hout]
        exact hsub.append (List.Sublist.refl _)

/-- Every step keeps the numbers. -/
theorem Numbered.step {s t : Threads k α} {e : RingEvent α} {T : Nat} (h : s.Numbered T)
    (hk : 0 < k) (hdrop : s.DropsCurrent e) (hstep : s.step e = some t) :
    ∃ T', t.Numbered T' := by
  obtain ⟨ring, producer, consumer, pushed, popped⟩ := s
  cases e with
  | push item =>
      simp only [Threads.step] at hstep
      split at hstep
      · cases hstep
        exact ⟨T, h.head, h.tail, h.le, h.room, h.slots, trivial, h.consuming⟩
      · cases hstep
  | pushOverwrite item =>
      simp only [Threads.step] at hstep
      split at hstep
      · cases hstep
        exact ⟨T, h.head, h.tail, h.le, h.room, h.slots, trivial, h.consuming⟩
      · cases hstep
  | producer => exact h.produce hk hdrop hstep
  | pop =>
      simp only [Threads.step] at hstep
      split at hstep
      · cases hstep
        exact ⟨T, h.head, h.tail, h.le, h.room, h.slots, h.producing, h.consuming⟩
      · cases hstep
  | consumer => exact h.consume hstep

/-! ## A ring of one slot -/

/-- Nothing comes out of one slot. -/
def Blank (s : Threads 0 α) : Prop :=
  s.popped = [] ∧ (s.consumer = .idle ∨ s.consumer = .loadTail ∨ ∃ t, s.consumer = .loadHead t)

theorem Blank.sound {s : Threads 0 α} (h : s.Blank) : s.Sound := by
  obtain ⟨hpopped, hconsumer⟩ := h
  refine ⟨?_, ?_⟩
  · rw [hpopped]
    exact List.nil_sublist _
  · rintro ⟨item, i, -, hcopy⟩
    rw [hcopy] at hconsumer
    rcases hconsumer with hc | hc | ⟨t, hc⟩ <;> cases hc

theorem Blank.consume {s t : Threads 0 α} (h : s.Blank) (hstep : s.consume = some t) :
    t.Blank := by
  obtain ⟨hpopped, hc | hc | ⟨i, hc⟩⟩ := h
  · rw [Threads.consume, hc] at hstep
    cases hstep
  · rw [Threads.consume, hc] at hstep
    cases hstep
    exact ⟨hpopped, Or.inr (Or.inr ⟨_, rfl⟩)⟩
  · rw [Threads.consume, hc] at hstep
    dsimp only at hstep
    rw [if_pos (Subsingleton.elim (α := Fin 1) _ _)] at hstep
    cases hstep
    exact ⟨hpopped, Or.inl rfl⟩

/-- The producer leaves what comes out. -/
theorem produce_frame {s t : Threads k α} (hstep : s.produce = some t) :
    t.popped = s.popped ∧ t.consumer = s.consumer := by
  unfold Threads.produce at hstep
  split at hstep
  · cases hstep
  · cases hstep
    exact ⟨rfl, rfl⟩
  · split at hstep
    · split at hstep
      · cases hstep
        exact ⟨rfl, rfl⟩
      · cases hstep
        exact ⟨rfl, rfl⟩
    · cases hstep
      exact ⟨rfl, rfl⟩
  all_goals
    cases hstep
    exact ⟨rfl, rfl⟩

theorem Blank.step {s t : Threads 0 α} {e : RingEvent α} (h : s.Blank)
    (hstep : s.step e = some t) : t.Blank := by
  cases e with
  | push item =>
      simp only [Threads.step] at hstep
      split at hstep
      · cases hstep
        exact h
      · cases hstep
  | pushOverwrite item =>
      simp only [Threads.step] at hstep
      split at hstep
      · cases hstep
        exact h
      · cases hstep
  | producer =>
      obtain ⟨hpopped, hconsumer⟩ := produce_frame hstep
      rw [Blank, hpopped, hconsumer]
      exact h
  | pop =>
      simp only [Threads.step] at hstep
      split at hstep
      · cases hstep
        exact ⟨h.1, Or.inr (Or.inl rfl)⟩
      · cases hstep
  | consumer => exact h.consume hstep

/-! ## Every run -/

/-- Where no drop stores an old tail, drops twice during a pop, or drops from an empty ring,
the ring is a sound queue. -/
theorem sound_of_dropsCurrent (buf : Fin (2 ^ k) → α) {es : List (RingEvent α)} {s : Threads k α}
    (hdrops : Throughout step DropsCurrent (init buf) es) (hrun : run step (init buf) es = some s) :
    s.Sound := by
  cases k with
  | zero =>
      have hblank : s.Blank := run_invariant (P := fun _ _ => True)
        (fun h _ hstep => Blank.step h hstep) ⟨rfl, Or.inl rfl⟩
        (throughout_of_forall (fun _ _ => trivial) _ _) hrun
      exact hblank.sound
  | succ k =>
      have hnumbered : ∃ T, s.Numbered T := run_invariant
        (I := fun s : Threads (k + 1) α => ∃ T, s.Numbered T)
        (fun ⟨_, h⟩ hdrop hstep => Numbered.step h (Nat.succ_pos k) hdrop hstep)
        ⟨0, numbered_init buf⟩ hdrops hrun
      obtain ⟨T, h⟩ := hnumbered
      exact h.sound

/-- A ring of four slots, full. -/
def fill : List (RingEvent Nat) :=
  [1, 2, 3].flatMap fun item => RingEvent.push item :: List.replicate 4 RingEvent.producer

/-- A drop waits with its tail while two items are popped. -/
def staleDrop : List (RingEvent Nat) :=
  fill ++ RingEvent.pushOverwrite 4 :: List.replicate 3 RingEvent.producer ++
    (List.replicate 2 (RingEvent.pop :: List.replicate 4 RingEvent.consumer)).flatten ++
    List.replicate 3 RingEvent.producer ++ RingEvent.pop :: List.replicate 4 RingEvent.consumer

/-- A pop waits with its tail while two items are dropped. -/
def doubleDrop : List (RingEvent Nat) :=
  fill ++ RingEvent.pop :: List.replicate 2 RingEvent.consumer ++
    RingEvent.pushOverwrite 4 :: List.replicate 6 RingEvent.producer ++
    RingEvent.pushOverwrite 5 :: List.replicate 4 RingEvent.producer

/-- The first four slots. -/
def zeros : Fin (2 ^ 2) → Nat := fun _ => 0

/-- A ring that is full drops its oldest item before the other ones are popped. -/
def calmDrop : List (RingEvent Nat) :=
  fill ++ RingEvent.pushOverwrite 4 :: List.replicate 6 RingEvent.producer ++
    (List.replicate 3 (RingEvent.pop :: List.replicate 4 RingEvent.consumer)).flatten

theorem sound_calmDrop :
    ∃ s, run step (init zeros) calmDrop = some s ∧ s.popped = [2, 3, 4] ∧ s.Sound := by
  have hview : (run step (init zeros) calmDrop).map Threads.popped = some [2, 3, 4] := by decide
  obtain ⟨s, hrun, hpopped⟩ := Option.map_eq_some_iff.mp hview
  exact ⟨s, hrun, hpopped, sound_of_dropsCurrent zeros (by decide) hrun⟩

/-- The drop-oldest of a full ring gives an item out twice, and it writes a slot while that is
popped. -/
theorem not_sound :
    (∃ s, run step (init zeros) staleDrop = some s ∧ s.popped = [1, 2, 2] ∧
      s.pushed = [1, 2, 3, 4] ∧ ¬ s.Sound) ∧
    ∃ s, run step (init zeros) doubleDrop = some s ∧ s.SlotRace ∧ ¬ s.Sound := by
  constructor
  · have hview : (run step (init zeros) staleDrop).map (fun s => (s.popped, s.pushed)) =
        some ([1, 2, 2], [1, 2, 3, 4]) := by decide
    obtain ⟨s, hrun, hs⟩ := Option.map_eq_some_iff.mp hview
    obtain ⟨hpopped, hpushed⟩ := Prod.mk.inj hs
    refine ⟨s, hrun, hpopped, hpushed, fun hsound => ?_⟩
    have hsub := hsound.popped
    rw [hpopped, hpushed] at hsub
    exact absurd hsub (by decide)
  · have hview : (run step (init zeros) doubleDrop).map (fun s => (s.producer, s.consumer)) =
        some (.copy 5 0, .copy 0) := by decide
    obtain ⟨s, hrun, hs⟩ := Option.map_eq_some_iff.mp hview
    obtain ⟨hproducer, hconsumer⟩ := Prod.mk.inj hs
    have hrace : s.SlotRace := ⟨5, 0, hproducer, hconsumer⟩
    exact ⟨s, hrun, hrace, fun hsound => hsound.slots hrace⟩

end Threads

end MFoES.Southbridge
