import Mathlib.Data.Fintype.Basic
import QuantForge.Common.TickDisruptor

/-! `common/disruptor.hpp` with the steps of `push` and of `try_consume` apart: both copy a tick
word by word, in any order, while the other threads go on. -/
namespace QuantForge

open Library

namespace TickDisruptor

variable {Tick ι Word : Type*} [DecidableEq ι]

/-- One word of `slot.tick = tick`. -/
def writeWord (ring : TickDisruptor (ι → Word)) (seq : Int) (i : ι) (word : Word) :
    TickDisruptor (ι → Word) :=
  let slot := ring.buffer (slotOf seq)
  { ring with
    buffer := Function.update ring.buffer (slotOf seq)
      { slot with tick := Function.update slot.tick i word } }

/-- `slot.sequence.store(seq)` -/
def storeSequence (ring : TickDisruptor Tick) (seq : Int) : TickDisruptor Tick :=
  { ring with
    buffer := Function.update ring.buffer (slotOf seq)
      { ring.buffer (slotOf seq) with sequence := seq } }

theorem tryConsume_eq_none_iff (ring : TickDisruptor Tick) (consumerSeq : Int) :
    ring.tryConsume consumerSeq = none ↔
      (ring.buffer (slotOf (consumerSeq + 1))).sequence < consumerSeq + 1 := by
  simp only [tryConsume]
  split <;> simp_all

@[simp] theorem sequence_writeWord (ring : TickDisruptor (ι → Word)) (seq : Int) (i : ι)
    (word : Word) (k : Nat) :
    ((ring.writeWord seq i word).buffer k).sequence = (ring.buffer k).sequence := by
  by_cases hk : k = slotOf seq
  · simp [writeWord, hk]
  · simp [writeWord, hk]

@[simp] theorem tick_storeSequence (ring : TickDisruptor Tick) (seq : Int) (k : Nat) :
    ((ring.storeSequence seq).buffer k).tick = (ring.buffer k).tick := by
  by_cases hk : k = slotOf seq
  · simp [storeSequence, hk]
  · simp [storeSequence, hk]

theorem tick_writeWord_self (ring : TickDisruptor (ι → Word)) (seq : Int) (i : ι) (word : Word) :
    ((ring.writeWord seq i word).buffer (slotOf seq)).tick =
      Function.update (ring.buffer (slotOf seq)).tick i word := by
  simp [writeWord]

theorem tick_writeWord_of_ne (ring : TickDisruptor (ι → Word)) {seq : Int} (i : ι) (word : Word)
    {k : Nat} (hk : k ≠ slotOf seq) :
    ((ring.writeWord seq i word).buffer k).tick = (ring.buffer k).tick := by
  simp [writeWord, hk]

/-- `slot.tick = tick`, with the words in this order. -/
def writeWords (ring : TickDisruptor (ι → Word)) (seq : Int) (tick : ι → Word) (words : List ι) :
    TickDisruptor (ι → Word) :=
  words.foldl (fun ring i => ring.writeWord seq i (tick i)) ring

theorem slot_writeWords (ring : TickDisruptor (ι → Word)) (seq : Int) (tick : ι → Word)
    (words : List ι) :
    ((ring.writeWords seq tick words).buffer (slotOf seq)).tick =
        (fun i => if i ∈ words then tick i else (ring.buffer (slotOf seq)).tick i) ∧
      (∀ k ≠ slotOf seq, (ring.writeWords seq tick words).buffer k = ring.buffer k) ∧
      (ring.writeWords seq tick words).producerSeq = ring.producerSeq := by
  induction words generalizing ring with
  | nil => exact ⟨rfl, fun _ _ => rfl, rfl⟩
  | cons j words ih =>
      obtain ⟨hslot, hothers, hseq⟩ := ih (ring.writeWord seq j (tick j))
      refine ⟨?_, fun k hk => (hothers k hk).trans (Function.update_of_ne hk _ _), hseq⟩
      rw [writeWords, List.foldl_cons, ← writeWords, hslot, tick_writeWord_self]
      funext i
      by_cases hij : i = j
      · simp [hij]
      · simp [hij]

theorem published_foldl {blank : Tick} {ring : TickDisruptor Tick} {pushed : List Tick}
    (h : Published blank ring pushed) (ticks : List Tick) :
    Published blank (ticks.foldl push ring) (pushed ++ ticks) := by
  induction ticks generalizing ring pushed with
  | nil => exact (List.append_nil pushed).symm ▸ h
  | cons tick ticks ih =>
      rw [← List.singleton_append, ← List.append_assoc]
      exact ih (published_push h tick)

theorem storeSequence_writeWords (ring : TickDisruptor (ι → Word)) (seq : Int) (tick : ι → Word)
    {words : List ι} (hwords : ∀ i, i ∈ words) :
    (ring.writeWords seq tick words).storeSequence seq = ring.publish seq tick := by
  obtain ⟨hslot, hothers, hseq⟩ := slot_writeWords ring seq tick words
  have htick : ((ring.writeWords seq tick words).buffer (slotOf seq)).tick = tick := by
    rw [hslot]
    exact funext fun i => if_pos (hwords i)
  have hbuffer : ((ring.writeWords seq tick words).storeSequence seq).buffer =
      (ring.publish seq tick).buffer := by
    funext k
    by_cases hk : k = slotOf seq
    · simp [storeSequence, publish, hk, htick]
    · simp [storeSequence, publish, hk, hothers k hk]
  rw [publish, ← hseq]
  rw [publish] at hbuffer
  exact congrArg (fun buffer => TickDisruptor.mk buffer _) hbuffer

end TickDisruptor

/-- A `push` that has claimed its number: the words in `written` are in the slot. -/
structure Publication (ι Word : Type*) where
  seq : Int
  tick : ι → Word
  written : Finset ι

/-- A consumer with its cursor and its variable `out`. While a call copies, `reading` is the words
that it has copied. -/
structure DisruptorReader (ι Word : Type*) where
  consumerSeq : Int := -1
  out : ι → Word
  reading : Option (Finset ι) := none
  received : List (ι → Word) := []

namespace DisruptorReader

variable {ι Word : Type*} [DecidableEq ι]

/-- The test of the sequence number; an unsuccessful one answers `false`. -/
def load (ring : TickDisruptor (ι → Word)) (r : DisruptorReader ι Word) :
    DisruptorReader ι Word :=
  let next := r.consumerSeq + 1
  match r.reading with
  | some _ => r
  | none =>
      if (ring.buffer (TickDisruptor.slotOf next)).sequence < next then r
      else { r with reading := some ∅ }

/-- One word of `out = slot.tick`. -/
def readWord (ring : TickDisruptor (ι → Word)) (i : ι) (r : DisruptorReader ι Word) :
    DisruptorReader ι Word :=
  match r.reading with
  | none => r
  | some read =>
      let slot := ring.buffer (TickDisruptor.slotOf (r.consumerSeq + 1))
      { r with
        out := Function.update r.out i (slot.tick i)
        reading := some (insert i read) }

/-- The cursor moves once all words are copied. -/
def finish [Fintype ι] (r : DisruptorReader ι Word) : DisruptorReader ι Word :=
  if r.reading = some Finset.univ then
    { r with
      consumerSeq := r.consumerSeq + 1
      reading := none
      received := r.received ++ [r.out] }
  else r

end DisruptorReader

structure DisruptorThreads (Consumer ι Word : Type*) where
  ring : TickDisruptor (ι → Word)
  publishing : Option (Publication ι Word) := none
  published : List (ι → Word) := []
  reader : Consumer → DisruptorReader ι Word

inductive DisruptorEvent (Consumer ι Word : Type*) where
  | push (tick : ι → Word)
  | writeWord (i : ι)
  | storeSequence
  | load (c : Consumer)
  | readWord (c : Consumer) (i : ι)
  | finish (c : Consumer)

namespace DisruptorThreads

open TickDisruptor

variable {Consumer ι Word : Type*}

def init (Consumer : Type*) (blank : ι → Word) : DisruptorThreads Consumer ι Word where
  ring := TickDisruptor.init blank
  reader := fun _ => { out := blank }

def pushed (s : DisruptorThreads Consumer ι Word) : List (ι → Word) :=
  s.published ++ (s.publishing.map Publication.tick).toList

section Steps

variable [DecidableEq ι] [Fintype ι] [DecidableEq Consumer]

/-- `claim_next`, unless the producer is still busy with the tick before. -/
def push (s : DisruptorThreads Consumer ι Word) (tick : ι → Word) :
    DisruptorThreads Consumer ι Word :=
  match s.publishing with
  | some _ => s
  | none =>
      { s with
        ring := s.ring.claimNext.2
        publishing := some ⟨s.ring.claimNext.1, tick, ∅⟩ }

def writeWord (s : DisruptorThreads Consumer ι Word) (i : ι) : DisruptorThreads Consumer ι Word :=
  match s.publishing with
  | none => s
  | some p =>
      { s with
        ring := s.ring.writeWord p.seq i (p.tick i)
        publishing := some { p with written := insert i p.written } }

/-- The sequence number is stored once all words are written. -/
def storeSequence (s : DisruptorThreads Consumer ι Word) : DisruptorThreads Consumer ι Word :=
  match s.publishing with
  | none => s
  | some p =>
      if p.written = Finset.univ then
        { s with
          ring := s.ring.storeSequence p.seq
          publishing := none
          published := s.published ++ [p.tick] }
      else s

def update (s : DisruptorThreads Consumer ι Word) (c : Consumer)
    (f : DisruptorReader ι Word → DisruptorReader ι Word) : DisruptorThreads Consumer ι Word :=
  { s with reader := Function.update s.reader c (f (s.reader c)) }

def step (s : DisruptorThreads Consumer ι Word) :
    DisruptorEvent Consumer ι Word → DisruptorThreads Consumer ι Word
  | .push tick => s.push tick
  | .writeWord i => s.writeWord i
  | .storeSequence => s.storeSequence
  | .load c => s.update c (DisruptorReader.load s.ring)
  | .readWord c i => s.update c (DisruptorReader.readWord s.ring i)
  | .finish c => s.update c DisruptorReader.finish

end Steps

def WroteAt (pushed : List (ι → Word)) (n : Nat) (i : ι) (word : Word) : Prop :=
  ∃ lap tick, pushed[n + lap * bufferSize]? = some tick ∧ tick i = word

theorem WroteAt.mono {pushed pushed' : List (ι → Word)} {n : Nat} {i : ι} {word : Word}
    (h : WroteAt pushed n i word) (hgrows : pushed <+: pushed') : WroteAt pushed' n i word := by
  obtain ⟨lap, tick, hget, hword⟩ := h
  obtain ⟨rest, rfl⟩ := hgrows
  obtain ⟨hlt, -⟩ := List.getElem?_eq_some_iff.mp hget
  exact ⟨lap, tick, (List.getElem?_append_left hlt).trans hget, hword⟩

theorem wroteAt_self {pushed : List (ι → Word)} {n : Nat} {tick : ι → Word}
    (h : pushed[n]? = some tick) (i : ι) : WroteAt pushed n i (tick i) :=
  ⟨0, tick, by rw [Nat.zero_mul, Nat.add_zero, h], rfl⟩

theorem wroteAt_of_slot {pushed : List (ι → Word)} {n m : Nat} {tick : ι → Word}
    (h : pushed[m]? = some tick) (hle : n ≤ m) (hslot : n % bufferSize = m % bufferSize) (i : ι) :
    WroteAt pushed n i (tick i) := by
  obtain ⟨lap, hlap⟩ := (Nat.modEq_iff_dvd' hle).mp hslot
  refine ⟨lap, tick, ?_, rfl⟩
  rw [show n + lap * bufferSize = m by rw [Nat.mul_comm]; omega, h]

def sequences (s : DisruptorThreads Consumer ι Word) : TickDisruptor Unit where
  buffer := fun k => { tick := (), sequence := (s.ring.buffer k).sequence }
  producerSeq := s.published.length - 1

structure Fed (s : DisruptorThreads Consumer ι Word) : Prop where
  claimed : s.ring.producerSeq = s.pushed.length - 1
  seq : ∀ p, s.publishing = some p → p.seq = s.published.length
  sequences : s.sequences.Published () (s.published.map fun _ => ())
  whole : ∀ n tick, s.published[n]? = some tick → s.pushed.length ≤ n + bufferSize →
    (s.ring.buffer (n % bufferSize)).tick = tick
  written : ∀ p, s.publishing = some p → ∀ i ∈ p.written,
    (s.ring.buffer (slotOf p.seq)).tick i = p.tick i
  ofSlot : ∀ n < s.published.length, ∀ i,
    WroteAt s.pushed n i ((s.ring.buffer (n % bufferSize)).tick i)

structure OfSlots (s : DisruptorThreads Consumer ι Word) (r : DisruptorReader ι Word) : Prop where
  cursor : r.consumerSeq = r.received.length - 1
  bounded : r.received.length ≤ s.published.length
  reading : ∀ read, r.reading = some read → r.received.length < s.published.length ∧
    ∀ i ∈ read, WroteAt s.pushed r.received.length i (r.out i)
  received : ∀ n tick, r.received[n]? = some tick → ∀ i, WroteAt s.pushed n i (tick i)

structure InOrder (s : DisruptorThreads Consumer ι Word) (r : DisruptorReader ι Word) : Prop where
  reading : ∀ read tick, r.reading = some read → s.pushed[r.received.length]? = some tick →
    ∀ i ∈ read, r.out i = tick i
  received : r.received <+: s.published

variable {s : DisruptorThreads Consumer ι Word} {r : DisruptorReader ι Word}

theorem last_of_not_lt {α : Type*} {items : List α} {item found : α} {n : Nat}
    (hn : ¬n < items.length) (h : (items ++ [item])[n]? = some found) : n = items.length := by
  obtain ⟨hlt, -⟩ := List.getElem?_eq_some_iff.mp h
  rw [List.length_append, List.length_singleton] at hlt
  omega

theorem prefix_pushed (s : DisruptorThreads Consumer ι Word) : s.published <+: s.pushed :=
  List.prefix_append _ _

theorem pushed_of_publishing {p : Publication ι Word} (h : s.publishing = some p) :
    s.pushed = s.published ++ [p.tick] := by
  rw [pushed, h]
  rfl

theorem pushed_of_idle (h : s.publishing = none) : s.pushed = s.published := by
  rw [pushed, h]
  exact List.append_nil _

theorem fed_init (blank : ι → Word) : (init Consumer blank).Fed where
  claimed := rfl
  seq := nofun
  sequences := TickDisruptor.published_init ()
  whole := nofun
  written := nofun
  ofSlot := nofun

theorem refused_iff (hfed : s.Fed) (h : s.OfSlots r) :
    s.ring.tryConsume r.consumerSeq = none ↔ r.received.length = s.published.length := by
  have hsame : s.ring.tryConsume r.consumerSeq = none ↔
      s.sequences.tryConsume r.consumerSeq = none :=
    (tryConsume_eq_none_iff s.ring _).trans (tryConsume_eq_none_iff s.sequences _).symm
  have hlength : (s.published.map fun _ => ()).length = s.published.length := List.length_map _
  rw [hsame, h.cursor]
  constructor
  · intro hrefused
    by_contra hne
    exact tryConsume_ne_none hfed.sequences (by have := h.bounded; omega) hrefused
  · intro hall
    rw [hall, ← hlength]
    exact tryConsume_all hfed.sequences

theorem fed_push (h : s.Fed) (tick : ι → Word) : (s.push tick).Fed := by
  unfold push
  split
  · exact h
  · rename_i hidle
    have hpushed := pushed_of_idle hidle
    have hgrows : s.pushed <+: s.published ++ [tick] := hpushed ▸ List.prefix_append _ _
    have hseq : s.ring.producerSeq + 1 = s.published.length := by
      rw [h.claimed, hpushed]
      omega
    refine ⟨?_, ?_, h.sequences, fun n old hold hlap => ?_, ?_, fun n hn i => ?_⟩
    · simp [claimNext, hseq, pushed]
    · rintro p ⟨⟩
      exact hseq
    · refine h.whole n old hold ?_
      have : s.pushed.length ≤ (s.published ++ [tick]).length := hgrows.length_le
      exact this.trans hlap
    · rintro p ⟨⟩ i hi
      exact absurd hi (Finset.notMem_empty i)
    · exact (h.ofSlot n hn i).mono hgrows

theorem fed_writeWord [DecidableEq ι] (h : s.Fed) (i : ι) : (s.writeWord i).Fed := by
  unfold writeWord
  split
  · exact h
  · rename_i p hp
    have hpushed := pushed_of_publishing hp
    have hseq := h.seq p hp
    have hslot : slotOf p.seq = s.published.length % bufferSize := by rw [hseq, slotOf_natCast]
    have hlength : s.pushed.length = s.published.length + 1 := by
      rw [hpushed, List.length_append, List.length_singleton]
    have hpushed' : pushed { s with
        ring := s.ring.writeWord p.seq i (p.tick i)
        publishing := some { p with written := insert i p.written } } = s.pushed := hpushed.symm
    refine ⟨?_, ?_, ?_, fun n tick hget hlap => ?_, ?_, fun n hn j => ?_⟩
    · rw [hpushed']
      exact h.claimed
    · rintro p' ⟨⟩
      exact hseq
    · have hsequences := h.sequences
      simpa only [sequences, sequence_writeWord] using hsequences
    · rw [hpushed'] at hlap
      obtain ⟨hn, -⟩ := List.getElem?_eq_some_iff.mp hget
      have hne : n % bufferSize ≠ slotOf p.seq :=
        hslot ▸ Ring.slot_ne_of_lt hn (by omega)
      exact (tick_writeWord_of_ne _ _ _ hne).trans (h.whole n tick hget hlap)
    · rintro p' ⟨⟩ j hj
      simp only [tick_writeWord_self]
      by_cases hij : j = i
      · rw [hij, Function.update_self]
      · rw [Function.update_of_ne hij]
        exact h.written p hp j (Finset.mem_of_mem_insert_of_ne hj hij)
    · rw [hpushed']
      have hold := h.ofSlot n hn j
      by_cases hne : n % bufferSize = slotOf p.seq
      · simp only [hne, tick_writeWord_self]
        rw [hne] at hold
        by_cases hij : j = i
        · -- the word of the tick that is written now, in a later lap
          rw [hij, Function.update_self]
          refine wroteAt_of_slot (m := s.published.length) ?_ (Nat.le_of_lt hn) (hne.trans hslot) i
          rw [hpushed, List.getElem?_concat_length]
        · rw [Function.update_of_ne hij]
          exact hold
      · rw [tick_writeWord_of_ne _ _ _ hne]
        exact hold

theorem sequences_stored (s : DisruptorThreads Consumer ι Word) (tick : ι → Word) :
    sequences { s with
      ring := s.ring.storeSequence s.published.length
      publishing := none
      published := s.published ++ [tick] } = s.sequences.push () := by
  simp only [TickDisruptor.push, claimNext, TickDisruptor.publish, sequences, List.length_append,
    List.length_singleton, TickDisruptor.mk.injEq]
  constructor
  · funext k
    by_cases hk : k = s.published.length % bufferSize
    · simp [TickDisruptor.storeSequence, hk]
    · simp [TickDisruptor.storeSequence, hk]
  · omega

theorem fed_storeSequence [DecidableEq ι] [Fintype ι] (h : s.Fed) : s.storeSequence.Fed := by
  unfold storeSequence
  split
  · exact h
  · rename_i p hp
    split
    · rename_i hwritten
      have hpushed := pushed_of_publishing hp
      have hseq := h.seq p hp
      have hslot : slotOf p.seq = s.published.length % bufferSize := by
        rw [hseq, slotOf_natCast]
      have hpushed' : pushed { s with
          ring := s.ring.storeSequence p.seq
          publishing := none
          published := s.published ++ [p.tick] } = s.pushed :=
        (List.append_nil _).trans hpushed.symm
      have hwhole : (s.ring.buffer (s.published.length % bufferSize)).tick = p.tick := by
        funext i
        rw [← hslot]
        exact h.written p hp i (hwritten ▸ Finset.mem_univ i)
      refine ⟨?_, nofun, ?_, fun n tick hget hlap => ?_, nofun, fun n hn i => ?_⟩
      · rw [hpushed']
        exact h.claimed
      · rw [hseq, sequences_stored, List.map_append]
        exact published_push h.sequences ()
      · rw [hpushed'] at hlap
        simp only [tick_storeSequence]
        by_cases hold : n < s.published.length
        · rw [List.getElem?_append_left hold] at hget
          exact h.whole n tick hget hlap
        · obtain rfl := last_of_not_lt hold hget
          rw [List.getElem?_concat_length] at hget
          exact hwhole.trans (Option.some.inj hget)
      · rw [hpushed']
        simp only [tick_storeSequence]
        by_cases hold : n < s.published.length
        · exact h.ofSlot n hold i
        · obtain rfl : n = s.published.length := by
            rw [List.length_append, List.length_singleton] at hn
            omega
          rw [hwhole]
          exact wroteAt_self (by rw [hpushed, List.getElem?_concat_length]) i
    · exact h

section Reader

variable {s' : DisruptorThreads Consumer ι Word}

theorem OfSlots.mono (h : s.OfSlots r) (hpublished : s.published <+: s'.published)
    (hpushed : s.pushed <+: s'.pushed) : s'.OfSlots r where
  cursor := h.cursor
  bounded := h.bounded.trans hpublished.length_le
  reading := fun read hread => by
    obtain ⟨hlt, hwords⟩ := h.reading read hread
    exact ⟨hlt.trans_le hpublished.length_le, fun i hi => (hwords i hi).mono hpushed⟩
  received := fun n tick hget i => (h.received n tick hget i).mono hpushed

theorem InOrder.mono (h : s.InOrder r) (hslots : s.OfSlots r)
    (hpublished : s.published <+: s'.published) (hpushed : s.pushed <+: s'.pushed) :
    s'.InOrder r where
  reading := fun read tick hread hget => by
    have hlt := (hslots.reading read hread).1.trans_le (prefix_pushed s).length_le
    obtain ⟨rest, hrest⟩ := hpushed
    rw [← hrest, List.getElem?_append_left hlt] at hget
    exact h.reading read tick hread hget
  received := h.received.trans hpublished

theorem slotOf_next (h : s.OfSlots r) :
    slotOf (r.consumerSeq + 1) = r.received.length % bufferSize := by
  have hnext : r.consumerSeq + 1 = (r.received.length : Int) := by
    rw [h.cursor]
    omega
  rw [hnext, slotOf_natCast]

theorem ofSlots_load (hfed : s.Fed) (h : s.OfSlots r) : s.OfSlots (r.load s.ring) := by
  unfold DisruptorReader.load
  dsimp only
  split
  · exact h
  · split
    · exact h
    · rename_i hfound
      have hall : r.received.length ≠ s.published.length := fun heq =>
        hfound ((tryConsume_eq_none_iff _ _).mp ((refused_iff hfed h).mpr heq))
      refine ⟨h.cursor, h.bounded, ?_, h.received⟩
      rintro read ⟨⟩
      exact ⟨h.bounded.lt_of_ne hall, fun i hi => absurd hi (Finset.notMem_empty i)⟩

theorem inOrder_load (h : s.InOrder r) : s.InOrder (r.load s.ring) := by
  unfold DisruptorReader.load
  dsimp only
  split
  · exact h
  · split
    · exact h
    · refine ⟨?_, h.received⟩
      rintro read tick ⟨⟩ - i hi
      exact absurd hi (Finset.notMem_empty i)

theorem ofSlots_readWord [DecidableEq ι] (hfed : s.Fed) (h : s.OfSlots r) (i : ι) :
    s.OfSlots (r.readWord s.ring i) := by
  unfold DisruptorReader.readWord
  split
  · exact h
  · rename_i read hread
    obtain ⟨hlt, hwords⟩ := h.reading read hread
    refine ⟨h.cursor, h.bounded, ?_, h.received⟩
    rintro read' ⟨⟩
    refine ⟨hlt, fun j hj => ?_⟩
    dsimp only
    by_cases hij : j = i
    · rw [hij, Function.update_self, slotOf_next h]
      exact hfed.ofSlot _ hlt i
    · rw [Function.update_of_ne hij]
      exact hwords j (Finset.mem_of_mem_insert_of_ne hj hij)

theorem inOrder_readWord [DecidableEq ι] (hfed : s.Fed) (hslots : s.OfSlots r) (h : s.InOrder r)
    (i : ι) (hlap : s.ring.lag r.consumerSeq ≤ bufferSize) :
    s.InOrder (r.readWord s.ring i) := by
  unfold DisruptorReader.readWord
  split
  · exact h
  · rename_i read hread
    obtain ⟨hlt, -⟩ := hslots.reading read hread
    refine ⟨?_, h.received⟩
    rintro read' tick ⟨⟩ hget j hj
    dsimp only
    by_cases hij : j = i
    · have hnear : s.pushed.length ≤ r.received.length + bufferSize := by
        rw [lag, hfed.claimed, hslots.cursor] at hlap
        omega
      rw [pushed, List.getElem?_append_left hlt] at hget
      rw [hij, Function.update_self, slotOf_next hslots, hfed.whole _ tick hget hnear]
    · rw [Function.update_of_ne hij]
      exact h.reading read tick hread hget j (Finset.mem_of_mem_insert_of_ne hj hij)

theorem ofSlots_finish [DecidableEq ι] [Fintype ι] (h : s.OfSlots r) : s.OfSlots r.finish := by
  unfold DisruptorReader.finish
  split
  · rename_i hread
    obtain ⟨hlt, hwords⟩ := h.reading Finset.univ hread
    refine ⟨?_, ?_, nofun, fun n tick hget i => ?_⟩
    · have hcursor := h.cursor
      simp only [List.length_append, List.length_singleton]
      omega
    · rw [List.length_append, List.length_singleton]
      exact hlt
    · by_cases hold : n < r.received.length
      · rw [List.getElem?_append_left hold] at hget
        exact h.received n tick hget i
      · obtain rfl := last_of_not_lt hold hget
        rw [List.getElem?_concat_length] at hget
        rw [← Option.some.inj hget]
        exact hwords i (Finset.mem_univ i)
  · exact h

theorem inOrder_finish [DecidableEq ι] [Fintype ι] (hslots : s.OfSlots r) (h : s.InOrder r) :
    s.InOrder r.finish := by
  unfold DisruptorReader.finish
  split
  · rename_i hread
    obtain ⟨hlt, -⟩ := hslots.reading Finset.univ hread
    have hget := List.getElem?_eq_getElem hlt
    have hpushed : s.pushed[r.received.length]? = some s.published[r.received.length] :=
      (List.getElem?_append_left hlt).trans hget
    have hwhole : r.out = s.published[r.received.length] :=
      funext fun i => h.reading _ _ hread hpushed i (Finset.mem_univ i)
    exact ⟨nofun, FanOut.prefix_snoc_of_getElem? h.received (hwhole ▸ hget)⟩
  · exact h

end Reader

structure Consistent (s : DisruptorThreads Consumer ι Word) : Prop where
  fed : s.Fed
  ofSlots : ∀ c, s.OfSlots (s.reader c)

theorem consistent_init (blank : ι → Word) : (init Consumer blank).Consistent where
  fed := fed_init blank
  ofSlots := fun _ => ⟨rfl, le_refl _, nofun, nofun⟩

section Runs

variable [DecidableEq ι] [Fintype ι] [DecidableEq Consumer]

theorem grows_step (s : DisruptorThreads Consumer ι Word) (e : DisruptorEvent Consumer ι Word) :
    s.published <+: (s.step e).published ∧ s.pushed <+: (s.step e).pushed := by
  cases e with
  | push tick =>
      simp only [step, push]
      split
      · exact ⟨List.prefix_rfl, List.prefix_rfl⟩
      · rename_i hidle
        exact ⟨List.prefix_rfl, pushed_of_idle hidle ▸ List.prefix_append _ _⟩
  | writeWord i =>
      simp only [step, writeWord]
      split
      · exact ⟨List.prefix_rfl, List.prefix_rfl⟩
      · rename_i p hp
        rw [pushed_of_publishing hp]
        exact ⟨List.prefix_rfl, List.prefix_rfl⟩
  | storeSequence =>
      simp only [step, storeSequence]
      split
      · exact ⟨List.prefix_rfl, List.prefix_rfl⟩
      · rename_i p hp
        split
        · rw [pushed_of_publishing hp]
          exact ⟨List.prefix_append _ _, (List.prefix_append _ _)⟩
        · exact ⟨List.prefix_rfl, List.prefix_rfl⟩
  | load c => exact ⟨List.prefix_rfl, List.prefix_rfl⟩
  | readWord c i => exact ⟨List.prefix_rfl, List.prefix_rfl⟩
  | finish c => exact ⟨List.prefix_rfl, List.prefix_rfl⟩

theorem fed_step (h : s.Fed) (e : DisruptorEvent Consumer ι Word) : (s.step e).Fed := by
  cases e with
  | push tick => exact fed_push h tick
  | writeWord i => exact fed_writeWord h i
  | storeSequence => exact fed_storeSequence h
  | load c => exact ⟨h.claimed, h.seq, h.sequences, h.whole, h.written, h.ofSlot⟩
  | readWord c i => exact ⟨h.claimed, h.seq, h.sequences, h.whole, h.written, h.ofSlot⟩
  | finish c => exact ⟨h.claimed, h.seq, h.sequences, h.whole, h.written, h.ofSlot⟩

theorem forall_reader_step {P : DisruptorReader ι Word → Prop} (h : ∀ c, P (s.reader c))
    {e : DisruptorEvent Consumer ι Word} (hload : ∀ r, P r → P (r.load s.ring))
    (hread : ∀ c i, e = .readWord c i → P ((s.reader c).readWord s.ring i))
    (hfinish : ∀ r, P r → P r.finish) (other : Consumer) : P ((s.step e).reader other) := by
  have hupdate : ∀ {c} {f : DisruptorReader ι Word → DisruptorReader ι Word},
      P (f (s.reader c)) → P ((s.update c f).reader other) := by
    intro c f hf
    rw [update]
    by_cases heq : other = c
    · simpa only [heq, Function.update_self] using hf
    · simpa only [Function.update_of_ne heq] using h other
  cases e with
  | push tick =>
      have hreader : (s.push tick).reader = s.reader := by
        unfold push
        split <;> rfl
      exact hreader ▸ h other
  | writeWord i =>
      have hreader : (s.writeWord i).reader = s.reader := by
        unfold writeWord
        split <;> rfl
      exact hreader ▸ h other
  | storeSequence =>
      have hreader : s.storeSequence.reader = s.reader := by
        unfold storeSequence
        split
        · rfl
        · split <;> rfl
      exact hreader ▸ h other
  | load c => exact hupdate (hload _ (h c))
  | readWord c i => exact hupdate (hread c i rfl)
  | finish c => exact hupdate (hfinish _ (h c))

theorem consistent_step (h : s.Consistent) (e : DisruptorEvent Consumer ι Word) :
    (s.step e).Consistent where
  fed := fed_step h.fed e
  ofSlots := fun other => by
    obtain ⟨hpublished, hpushed⟩ := grows_step s e
    exact (forall_reader_step h.ofSlots (fun _ => ofSlots_load h.fed)
      (fun c i _ => ofSlots_readWord h.fed (h.ofSlots c) i) (fun _ => ofSlots_finish)
      other).mono hpublished hpushed

/-- A consumer copies the words of a tick less than a lap behind the numbers claimed. -/
def WithinLap (s : DisruptorThreads Consumer ι Word) : DisruptorEvent Consumer ι Word → Prop
  | .readWord c _ => s.ring.lag (s.reader c).consumerSeq ≤ bufferSize
  | _ => True

instance (s : DisruptorThreads Consumer ι Word) : DecidablePred s.WithinLap
  | .push _ => isTrue trivial
  | .writeWord _ => isTrue trivial
  | .storeSequence => isTrue trivial
  | .load _ => isTrue trivial
  | .readWord _ _ => inferInstanceAs (Decidable (_ ≤ _))
  | .finish _ => isTrue trivial

theorem inOrder_step (h : s.Consistent) (hinOrder : ∀ c, s.InOrder (s.reader c))
    {e : DisruptorEvent Consumer ι Word} (hlap : s.WithinLap e) (other : Consumer) :
    (s.step e).InOrder ((s.step e).reader other) := by
  obtain ⟨hpublished, hpushed⟩ := grows_step s e
  obtain ⟨hslots, hnext⟩ := forall_reader_step (e := e) (P := fun r => s.OfSlots r ∧ s.InOrder r)
    (fun c => ⟨h.ofSlots c, hinOrder c⟩)
    (fun _ hr => ⟨ofSlots_load h.fed hr.1, inOrder_load hr.2⟩)
    (fun c i he => ⟨ofSlots_readWord h.fed (h.ofSlots c) i,
      inOrder_readWord h.fed (h.ofSlots c) (hinOrder c) i (by subst he; exact hlap)⟩)
    (fun _ hr => ⟨ofSlots_finish hr.1, inOrder_finish hr.1 hr.2⟩) other
  exact hnext.mono hslots hpublished hpushed

/-- What a consumer has received as its `n`-th tick was written word by word to the slot of the
`n`-th, and `try_consume` finds a tick unless it has handed out as many as are published. -/
structure Sound (s : DisruptorThreads Consumer ι Word) : Prop where
  received : ∀ c n tick, (s.reader c).received[n]? = some tick →
    ∀ i, WroteAt s.pushed n i (tick i)
  refused_iff : ∀ c, s.ring.tryConsume (s.reader c).consumerSeq = none ↔
    (s.reader c).received.length = s.published.length

/-- However the copies of the words interleave, a consumer receives words of its own slots only;
and as long as nobody copies more than a lap behind, every consumer receives whole ticks, which
are the published ones in their order. -/
theorem whole_within_lap (blank : ι → Word) (events : List (DisruptorEvent Consumer ι Word)) :
    Run.Always step Sound (init Consumer blank) events ∧
      (Run.Along step WithinLap (init Consumer blank) events →
        Run.Always step (fun s => ∀ c, (s.reader c).received <+: s.published)
          (init Consumer blank) events) := by
  constructor
  · rw [Run.always_iff_take]
    intro k
    have h := Run.run_invariant Consistent (fun _ e h => consistent_step h e)
      (consistent_init blank) (events.take k)
    exact ⟨fun c => (h.ofSlots c).received, fun c => refused_iff h.fed (h.ofSlots c)⟩
  · intro hlap
    have hstart : (init Consumer blank).Consistent ∧
        ∀ c, (init Consumer blank).InOrder ((init Consumer blank).reader c) :=
      ⟨consistent_init blank, fun _ => ⟨nofun, List.nil_prefix⟩⟩
    have halways := Run.always_of_along
      (fun s : DisruptorThreads Consumer ι Word => s.Consistent ∧ ∀ c, s.InOrder (s.reader c))
      (fun _ e h hguard => ⟨consistent_step h.1 e, inOrder_step h.1 h.2 hguard⟩) hstart hlap
    exact halways.imp fun _ h c => (h.2 c).received

def overlappingRun : List (DisruptorEvent Bool (Fin 2) Nat) :=
  [.push (fun _ => 7), .writeWord 1, .load true, .writeWord 0, .storeSequence, .load true,
    .readWord true 1, .push (fun _ => 8), .writeWord 0, .readWord true 0, .finish true,
    .writeWord 1, .load false, .storeSequence, .readWord false 0, .load true, .readWord true 0,
    .readWord true 1, .readWord false 1, .finish true, .finish false]

theorem whole_within_lap_overlappingRun :
    let s := Run.run step (init Bool fun _ => 0) overlappingRun
    (s.reader true).received.length = 2 ∧ (s.reader false).received.length = 1 ∧
      ∀ c, (s.reader c).received <+: s.published :=
  ⟨by decide, by decide, ((whole_within_lap _ overlappingRun).2 (by decide)).last⟩

def pushCall (Consumer : Type*) (words : List ι) (tick : ι → Word) :
    List (DisruptorEvent Consumer ι Word) :=
  .push tick :: (words.map .writeWord ++ [.storeSequence])

def consumeCall (c : Consumer) (words : List ι) : List (DisruptorEvent Consumer ι Word) :=
  .load c :: (words.map (.readWord c) ++ [.finish c])

theorem run_writeWords {p : Publication ι Word} (hp : s.publishing = some p) (words : List ι) :
    Run.run step s (words.map .writeWord) =
      { s with
        ring := s.ring.writeWords p.seq p.tick words
        publishing := some { p with written := p.written ∪ words.toFinset } } := by
  induction words generalizing s p with
  | nil =>
      rw [List.toFinset_nil, Finset.union_empty, ← hp]
      rfl
  | cons i words ih =>
      have hstep : s.step (.writeWord i) = { s with
          ring := s.ring.writeWord p.seq i (p.tick i)
          publishing := some { p with written := insert i p.written } } := by
        simp only [step, writeWord, hp]
      rw [List.map_cons, Run.run_cons, hstep, ih rfl, List.toFinset_cons, Finset.union_insert,
        Finset.insert_union]
      rfl

theorem run_pushCall (hidle : s.publishing = none) {words : List ι} (hwords : ∀ i, i ∈ words)
    (tick : ι → Word) :
    Run.run step s (pushCall Consumer words tick) =
      { s with ring := s.ring.push tick, published := s.published ++ [tick] } := by
  have hclaim : s.step (.push tick) = { s with
      ring := s.ring.claimNext.2
      publishing := some ⟨s.ring.claimNext.1, tick, ∅⟩ } := by
    simp only [step, push, hidle]
  have hall : ∅ ∪ words.toFinset = Finset.univ :=
    Finset.eq_univ_iff_forall.mpr fun i => by simp [hwords i]
  rw [pushCall, Run.run_cons, hclaim, Run.run_append, run_writeWords rfl, Run.run_cons,
    Run.run_nil]
  simp only [step, storeSequence, hall, if_true, storeSequence_writeWords _ _ _ hwords, hidle]
  rfl

theorem run_pushCalls (hidle : s.publishing = none) {words : List ι} (hwords : ∀ i, i ∈ words)
    (ticks : List (ι → Word)) :
    Run.run step s (ticks.flatMap (pushCall Consumer words)) =
      { s with
        ring := ticks.foldl TickDisruptor.push s.ring
        published := s.published ++ ticks } := by
  induction ticks generalizing s with
  | nil => simp
  | cons tick ticks ih =>
      have hrest := ih (s := { s with
        ring := s.ring.push tick
        published := s.published ++ [tick] }) hidle
      rw [List.flatMap_cons, Run.run_append, run_pushCall hidle hwords, hrest, List.foldl_cons,
        List.append_assoc, List.singleton_append]

omit [DecidableEq ι] [Fintype ι] in
theorem update_update (s : DisruptorThreads Consumer ι Word) (c : Consumer)
    (f g : DisruptorReader ι Word → DisruptorReader ι Word) :
    (s.update c f).update c g = s.update c fun r => g (f r) := by
  simp only [update, Function.update_self, Function.update_idem]

omit [DecidableEq ι] [Fintype ι] in
theorem update_same {c : Consumer} {f : DisruptorReader ι Word → DisruptorReader ι Word}
    (h : f (s.reader c) = s.reader c) : s.update c f = s := by
  rw [update, h, Function.update_eq_self]

theorem step_load {c : Consumer} (hidle : (s.reader c).reading = none)
    (hfound : ¬(s.ring.buffer (slotOf ((s.reader c).consumerSeq + 1))).sequence <
      (s.reader c).consumerSeq + 1) :
    s.step (.load c) = s.update c fun r => { r with reading := some ∅ } := by
  simp only [step, update, DisruptorReader.load, hidle, hfound, if_false]

theorem run_readWords {c : Consumer} {read : Finset ι} (hread : (s.reader c).reading = some read)
    (words : List ι) :
    let slot := s.ring.buffer (slotOf ((s.reader c).consumerSeq + 1))
    Run.run step s (words.map (.readWord c)) = s.update c fun r =>
      { r with
        out := fun i => if i ∈ words then slot.tick i else r.out i
        reading := some (read ∪ words.toFinset) } := by
  induction words generalizing s read with
  | nil =>
      have hsame : ({ s.reader c with reading := some read } : DisruptorReader ι Word) =
          s.reader c := by
        rw [← hread]
      simp only [List.map_nil, Run.run_nil, List.not_mem_nil, if_false, List.toFinset_nil,
        Finset.union_empty, update, hsame, Function.update_eq_self]
  | cons i words ih =>
      have hstep : s.step (.readWord c i) = s.update c fun r =>
          { r with
            out := Function.update r.out i
              ((s.ring.buffer (slotOf ((s.reader c).consumerSeq + 1))).tick i)
            reading := some (insert i read) } := by
        simp only [step, update, DisruptorReader.readWord, hread]
      have hreading : ((s.step (.readWord c i)).reader c).reading = some (insert i read) := by
        rw [hstep]
        simp only [update, Function.update_self]
      have hout : ∀ (tick out : ι → Word),
          (fun j => if j ∈ words then tick j else Function.update out i (tick i) j) =
            fun j => if j ∈ i :: words then tick j else out j := by
        intro tick out
        funext j
        by_cases hij : j = i
        · simp [hij]
        · simp [hij]
      have hcopied : insert i read ∪ words.toFinset = read ∪ (i :: words).toFinset := by
        rw [List.toFinset_cons, Finset.union_insert, Finset.insert_union]
      rw [List.map_cons, Run.run_cons, ih hreading, hstep, update_update]
      simp only [update, Function.update_self, hout, hcopied]

theorem run_consumeCall {c : Consumer} (hidle : (s.reader c).reading = none) {words : List ι}
    (hwords : ∀ i, i ∈ words) :
    Run.run step s (consumeCall c words) =
      match s.ring.tryConsume (s.reader c).consumerSeq with
      | none => s
      | some (tick, seq) => s.update c fun r =>
          { r with consumerSeq := seq, out := tick, received := r.received ++ [tick] } := by
  by_cases hrefused : (s.ring.buffer (slotOf ((s.reader c).consumerSeq + 1))).sequence <
      (s.reader c).consumerSeq + 1
  · rw [(tryConsume_eq_none_iff s.ring _).mpr hrefused]
    have hstays : ∀ s' e, s' = s → s.step e = s → step s' e = s := by
      rintro s' e rfl he
      exact he
    refine Run.run_of_forall (fun s' => s' = s) hstays rfl ?_
    intro e he
    rcases List.mem_cons.mp he with rfl | he
    · exact update_same (by simp only [DisruptorReader.load, hidle, hrefused, if_true])
    · rcases List.mem_append.mp he with he | he
      · obtain ⟨i, -, rfl⟩ := List.mem_map.mp he
        exact update_same (by simp only [DisruptorReader.readWord, hidle])
      · rw [List.mem_singleton.mp he]
        exact update_same (by simp [DisruptorReader.finish, hidle])
  · have hfound : s.ring.tryConsume (s.reader c).consumerSeq =
        some ((s.ring.buffer (slotOf ((s.reader c).consumerSeq + 1))).tick,
          (s.reader c).consumerSeq + 1) := by
      simp only [tryConsume, hrefused, if_false]
    have hload := step_load hidle hrefused
    have hreading : ((s.step (.load c)).reader c).reading = some ∅ := by
      rw [hload]
      simp only [update, Function.update_self]
    have hall : ∅ ∪ words.toFinset = Finset.univ :=
      Finset.eq_univ_iff_forall.mpr fun i => by simp [hwords i]
    rw [hfound, consumeCall, Run.run_cons, Run.run_append, run_readWords hreading, hload,
      update_update, Run.run_cons, Run.run_nil, step, update_update]
    simp only [update, Function.update_self, DisruptorReader.finish, hall, hwords, if_true, hidle]

def fanOut (s : DisruptorThreads Consumer ι Word) : FanOut Consumer (ι → Word) where
  ring := s.ring
  cursor := fun c => (s.reader c).consumerSeq
  pushed := s.published
  received := fun c => (s.reader c).received

def Idle (s : DisruptorThreads Consumer ι Word) : Prop :=
  s.publishing = none ∧ ∀ c, (s.reader c).reading = none

def calls (words : List ι) : FanOutEvent Consumer (ι → Word) → List (DisruptorEvent Consumer ι Word)
  | .push tick => pushCall Consumer words tick
  | .tryConsume c => consumeCall c words

theorem fanOut_calls (hidle : s.Idle) {words : List ι} (hwords : ∀ i, i ∈ words)
    (e : FanOutEvent Consumer (ι → Word)) :
    (Run.run step s (calls words e)).fanOut = s.fanOut.step e ∧
      (Run.run step s (calls words e)).Idle := by
  cases e with
  | push tick =>
      rw [calls, run_pushCall hidle.1 hwords]
      exact ⟨rfl, hidle⟩
  | tryConsume c =>
      rw [calls, run_consumeCall (hidle.2 c) hwords]
      cases htick : s.ring.tryConsume (s.reader c).consumerSeq with
      | none => exact ⟨(FanOut.step_refused htick).symm, hidle⟩
      | some found =>
          obtain ⟨tick, seq⟩ := found
          refine ⟨?_, hidle.1, fun other => ?_⟩
          · refine Eq.trans ?_ (FanOut.step_received (s := s.fanOut) htick).symm
            simp only [fanOut, update, FanOut.mk.injEq, true_and]
            refine ⟨funext fun other => ?_, funext fun other => ?_⟩
            all_goals
              by_cases heq : other = c
              · simp [heq]
              · simp [heq]
          · by_cases heq : other = c
            · simpa [update, heq] using hidle.2 c
            · simpa [update, heq] using hidle.2 other

theorem fanOut_run (hidle : s.Idle) {words : List ι} (hwords : ∀ i, i ∈ words)
    (events : List (FanOutEvent Consumer (ι → Word))) :
    (Run.run step s (events.flatMap (calls words))).fanOut = s.fanOut.run events := by
  induction events generalizing s with
  | nil => rfl
  | cons e events ih =>
      obtain ⟨hstep, hnext⟩ := fanOut_calls hidle hwords e
      rw [List.flatMap_cons, Run.run_append, ih hnext, hstep]
      rfl

/-- A call of `try_consume` that is interrupted: the consumer copies the words in `early`, then
`others` are pushed, then it copies the words in `late`. -/
def interruptedCall (c : Consumer) (early late : List ι) (others : List (ι → Word)) :
    List (DisruptorEvent Consumer ι Word) :=
  .load c :: (early.map (.readWord c) ++ (others.flatMap (pushCall Consumer (early ++ late)) ++
    (late.map (.readWord c) ++ [.finish c])))

theorem received_interruptedCall {c : Consumer} (hpublishing : s.publishing = none)
    (hidle : (s.reader c).reading = none)
    (hfound : ¬(s.ring.buffer (slotOf ((s.reader c).consumerSeq + 1))).sequence <
      (s.reader c).consumerSeq + 1)
    {early late : List ι} (hwords : ∀ i, i ∈ early ++ late) (others : List (ι → Word)) :
    let k := slotOf ((s.reader c).consumerSeq + 1)
    ((Run.run step s (interruptedCall c early late others)).reader c).received =
      (s.reader c).received ++ [fun i => if i ∈ late then
        ((others.foldl TickDisruptor.push s.ring).buffer k).tick i
      else (s.ring.buffer k).tick i] := by
  intro k
  have hload := step_load hidle hfound
  have hreading : ((s.step (.load c)).reader c).reading = some ∅ := by
    rw [hload]
    simp only [update, Function.update_self]
  have hearly : Run.run step (s.step (.load c)) (early.map (.readWord c)) = s.update c fun r =>
      { r with
        out := fun i => if i ∈ early then (s.ring.buffer k).tick i else r.out i
        reading := some (∅ ∪ early.toFinset) } := by
    rw [run_readWords hreading, hload, update_update]
    simp only [update, Function.update_self, k]
  obtain ⟨copied, hcopied, hidle', hring, hreader⟩ : ∃ copied : DisruptorThreads Consumer ι Word,
      Run.run step (s.step (.load c)) (early.map (.readWord c)) = copied ∧
        copied.publishing = none ∧ copied.ring = s.ring ∧
        copied.reader c = { s.reader c with
          out := fun i => if i ∈ early then (s.ring.buffer k).tick i else (s.reader c).out i
          reading := some (∅ ∪ early.toFinset) } :=
    ⟨_, hearly, hpublishing, rfl, Function.update_self _ _ _⟩
  have hall : ∅ ∪ early.toFinset ∪ late.toFinset = Finset.univ :=
    Finset.eq_univ_iff_forall.mpr fun i => by simpa using hwords i
  have hout : (fun i => if i ∈ late then ((others.foldl TickDisruptor.push s.ring).buffer k).tick i
      else if i ∈ early then (s.ring.buffer k).tick i else (s.reader c).out i) =
      fun i => if i ∈ late then ((others.foldl TickDisruptor.push s.ring).buffer k).tick i
        else (s.ring.buffer k).tick i := by
    funext i
    have hi := List.mem_append.mp (hwords i)
    grind
  rw [interruptedCall, Run.run_cons, Run.run_append, hcopied, Run.run_append,
    run_pushCalls hidle' hwords, Run.run_append,
    run_readWords (by rw [hreader] : DisruptorReader.reading _ = some (∅ ∪ early.toFinset)),
    Run.run_cons, Run.run_nil, step, update_update]
  simp only [update, Function.update_self, DisruptorReader.finish, hreader, hring, hall, if_true]
  rw [← hout]

/-- Beyond a lap a consumer can receive any mixture of two ticks whose numbers are a lap apart. -/
theorem torn_after_lap (blank first last : ι → Word) {between : List (ι → Word)}
    (hbetween : between.length + 1 = bufferSize) {early late : List ι}
    (hwords : ∀ i, i ∈ early ++ late) :
    ((Run.run step (init Unit blank) (pushCall Unit (early ++ late) first ++
      interruptedCall () early late (between ++ [last]))).reader ()).received =
        [fun i => if i ∈ late then last i else first i] := by
  have hfirst := published_push (published_init blank) first
  have hlast := published_foldl hfirst (between ++ [last])
  have hslot : ((TickDisruptor.init blank).push first).buffer 0 = ⟨first, 0⟩ :=
    hfirst.holds 0 (by simp) (by simp [bufferSize])
  have hlapped : (((between ++ [last]).foldl TickDisruptor.push
      ((TickDisruptor.init blank).push first)).buffer 0).tick = last := by
    have hlength : ([] ++ [first] ++ (between ++ [last])).length = bufferSize + 1 := by
      simp [← hbetween]
    have hholds := hlast.holds bufferSize (by omega) (by omega)
    rw [Nat.mod_self] at hholds
    rw [hholds, ← hbetween]
    simp
  have hnext : slotOf ((-1 : Int) + 1) = 0 := rfl
  rw [Run.run_append, run_pushCall rfl hwords, received_interruptedCall rfl rfl ?_ hwords]
  · simp only [init, hnext, hlapped, hslot, List.nil_append]
  · simp only [init, hnext, hslot]
    decide

end Runs

end DisruptorThreads

end QuantForge
