import QuantForge.Library.Bump
import QuantForge.Library.Interleaving

/-! `common/arena_allocator.hpp`, in the arithmetic of `size_t`. Any number of threads are in
`allocate`, which rounds the offset it has loaded, tests the end of the block against the pool and
tries to exchange the offset. The blocks of the current day are recorded; no step reads them. -/
namespace QuantForge

open Library

structure Alignment where
  value : UInt64
  isPowerOfTwo : ∃ k < 64, value.toNat = 2 ^ k

/-- The memory that `operator new` gives the arena, with the alignment that it asks for. -/
structure Pool where
  base : UInt64
  size : UInt64
  aligned : 64 ∣ base.toNat
  fits : base.toNat + size.toNat < 2 ^ 64

structure ArenaBlock where
  start : UInt64
  size : UInt64
  align : Alignment

/-- `blocks` are those returned since the last reset, the latest first. -/
structure ArenaAllocator where
  offset : UInt64 := 0
  blocks : List ArenaBlock := []

/-- Where a thread is in `allocate`: `cur` is what it last read of the offset. -/
inductive AllocatePhase where
  | idle
  | looping (size : UInt64) (align : Alignment) (cur : UInt64)
  | returned (result : Option UInt64)

/-- `turn` is a round of the loop, whose weak exchange may fail without a reason. -/
inductive ArenaInput where
  | call (size : UInt64) (align : Alignment)
  | turn (spurious : Bool)
  | reset

namespace ArenaAllocator

def alignedCur (cur align : UInt64) : UInt64 := (cur + align - 1) &&& ~~~(align - 1)

def next (cur size align : UInt64) : UInt64 := alignedCur cur align + size

def blockAt (pool : Pool) (cur size : UInt64) (align : Alignment) : ArenaBlock where
  start := pool.base + alignedCur cur align.value
  size := size
  align := align

def turn (pool : Pool) (s : ArenaAllocator) (size : UInt64) (align : Alignment) (cur : UInt64)
    (spurious : Bool) : ArenaAllocator × AllocatePhase :=
  if next cur size align.value > pool.size then (s, .returned none)
  else if s.offset = cur ∧ spurious = false then
    ({ offset := next cur size align.value
       blocks := blockAt pool cur size align :: s.blocks },
      .returned (some (blockAt pool cur size align).start))
  else (s, .looping size align s.offset)

def act (pool : Pool) (s : ArenaAllocator) (phase : AllocatePhase) :
    ArenaInput → ArenaAllocator × AllocatePhase
  | .call size align =>
      match phase with
      | .looping _ _ _ => (s, phase)
      | .idle | .returned _ => (s, .looping size align s.offset)
  | .turn spurious =>
      match phase with
      | .looping size align cur => s.turn pool size align cur spurious
      | .idle | .returned _ => (s, phase)
  | .reset => ({}, phase)

end ArenaAllocator

abbrev Arena (Thread : Type*) := Interleaving.State Thread ArenaAllocator AllocatePhase

namespace ArenaBlock

def bytes (b : ArenaBlock) : Set Nat := Set.Ico b.start.toNat (b.start.toNat + b.size.toNat)

structure Sound (pool : Pool) (b : ArenaBlock) : Prop where
  aligned : b.align.value.toNat ∣ b.start.toNat
  lower : pool.base.toNat ≤ b.start.toNat
  upper : b.start.toNat + b.size.toNat ≤ pool.base.toNat + pool.size.toNat

end ArenaBlock

namespace Alignment

variable (align : Alignment)

theorem pos : 0 < align.value.toNat := by
  obtain ⟨k, -, hvalue⟩ := align.isPowerOfTwo
  rw [hvalue]
  exact Nat.two_pow_pos k

theorem dvd_two_pow : align.value.toNat ∣ 2 ^ 64 := by
  obtain ⟨k, hk, hvalue⟩ := align.isPowerOfTwo
  rw [hvalue]
  exact pow_dvd_pow 2 hk.le

end Alignment

namespace ArenaAllocator

variable (cur size : UInt64) (align : Alignment)

theorem toNat_alignedCur : (alignedCur cur align.value).toNat =
    align.value.toNat *
      ((cur.toNat + (align.value.toNat - 1)) % 2 ^ 64 / align.value.toNat) := by
  obtain ⟨k, hk, hvalue⟩ := align.isPowerOfTwo
  have hpos := align.pos
  have hmask : (align.value - 1).toNat = 2 ^ k - 1 := by
    have hone : (1 : UInt64) ≤ align.value := UInt64.le_iff_toNat_le.mpr hpos
    rw [UInt64.toNat_sub_of_le _ _ hone, hvalue]
    rfl
  have hsum : (cur + align.value - 1).toNat = (cur.toNat + (align.value.toNat - 1)) % 2 ^ 64 := by
    rw [UInt64.toNat_sub, UInt64.toNat_add, UInt64.toNat_one]
    omega
  have hround := and_mask_eq hk.le (Nat.mod_lt (cur.toNat + (align.value.toNat - 1))
    (Nat.two_pow_pos 64))
  rw [alignedCur, UInt64.toNat_and, UInt64.toNat_not, hmask, hsum, hvalue]
  rwa [hvalue] at hround

theorem dvd_alignedCur : align.value.toNat ∣ (alignedCur cur align.value).toNat := by
  rw [toNat_alignedCur]
  exact dvd_mul_right _ _

theorem le_alignedCur (h : cur.toNat + align.value.toNat ≤ 2 ^ 64) :
    cur.toNat ≤ (alignedCur cur align.value).toNat := by
  have hpos := align.pos
  have hsum : (cur.toNat + (align.value.toNat - 1)) % 2 ^ 64 =
      cur.toNat + align.value.toNat - 1 := by omega
  rw [toNat_alignedCur, hsum]
  exact le_smul_ceilDiv hpos

variable {cur size align} {pool : Pool}

theorem toNat_blockAt
    (hsum : (alignedCur cur align.value).toNat + size.toNat < 2 ^ 64)
    (hend : next cur size align.value ≤ pool.size) :
    (next cur size align.value).toNat = (alignedCur cur align.value).toNat + size.toNat ∧
      (blockAt pool cur size align).start.toNat =
        pool.base.toNat + (alignedCur cur align.value).toNat := by
  have hnext : (next cur size align.value).toNat =
      (alignedCur cur align.value).toNat + size.toNat := by
    rw [next, UInt64.toNat_add, Nat.mod_eq_of_lt hsum]
  have hle := UInt64.le_iff_toNat_le.mp hend
  have hfits := pool.fits
  refine ⟨hnext, ?_⟩
  rw [blockAt, UInt64.toNat_add, Nat.mod_eq_of_lt (by omega)]

theorem sound_blockAt_iff (hend : next cur size align.value ≤ pool.size) :
    (blockAt pool cur size align).Sound pool ↔
      (alignedCur cur align.value).toNat + size.toNat < 2 ^ 64 ∧
        align.value.toNat ∣ pool.base.toNat := by
  have hdvd := dvd_alignedCur cur align
  have hfits := pool.fits
  constructor
  · rintro ⟨haligned, hlower, hupper⟩
    have hstart : (blockAt pool cur size align).start.toNat =
        (pool.base.toNat + (alignedCur cur align.value).toNat) % 2 ^ 64 := UInt64.toNat_add _ _
    constructor
    · have hsize : (blockAt pool cur size align).size = size := rfl
      have hlt := (alignedCur cur align.value).toNat_lt
      rw [hsize] at hupper
      omega
    · rw [hstart] at haligned
      have hsum := (Nat.dvd_mod_iff align.dvd_two_pow).mp haligned
      exact (Nat.dvd_add_left hdvd).mp hsum
  · rintro ⟨hsum, hbase⟩
    obtain ⟨hnext, hstart⟩ := toNat_blockAt hsum hend
    have hle := UInt64.le_iff_toNat_le.mp hend
    refine ⟨?_, ?_, ?_⟩
    · rw [hstart]
      exact Nat.dvd_add hbase hdvd
    · omega
    · change (blockAt pool cur size align).start.toNat + size.toNat ≤ _
      omega

end ArenaAllocator

namespace Arena

variable {Thread : Type*} [DecidableEq Thread] (pool : Pool)

def init : Arena Thread where
  shared := {}
  own := fun _ => .idle

def step : Arena Thread → Thread × ArenaInput → Arena Thread :=
  Interleaving.step (ArenaAllocator.act pool)

structure Sound (s : Arena Thread) : Prop where
  each : ∀ b ∈ s.shared.blocks, b.Sound pool
  apart : s.shared.blocks.Pairwise fun b b' => Disjoint b.bytes b'.bytes

def NullKeepsOffset (s : Arena Thread) (e : Thread × ArenaInput) : Prop :=
  (s.step pool e).shared.offset = s.shared.offset ∨ e.2 = .reset ∨
    ∃ p, (s.step pool e).own e.1 = .returned (some p)

def granted (s : Arena Thread) (e : Thread × ArenaInput) : Option (UInt64 × Alignment) :=
  match e.2, s.own e.1 with
  | .turn spurious, .looping size align cur =>
      if ArenaAllocator.next cur size align.value ≤ pool.size ∧
        s.shared.offset = cur ∧ spurious = false then some (size, align) else none
  | _, _ => none

def RoundsUp (s : Arena Thread) (e : Thread × ArenaInput) : Prop :=
  ∀ block ∈ s.granted pool e, s.shared.offset.toNat + block.2.value.toNat ≤ 2 ^ 64

/-- The end of the block does not wrap around, and the alignment divides the base address. -/
def Fits (s : Arena Thread) (e : Thread × ArenaInput) : Prop :=
  ∀ block ∈ s.granted pool e,
    (ArenaAllocator.alignedCur s.shared.offset block.2.value).toNat + block.1.toNat < 2 ^ 64 ∧
      block.2.value.toNat ∣ pool.base.toNat

instance (s : Arena Thread) (e : Thread × ArenaInput) : Decidable (s.RoundsUp pool e) :=
  inferInstanceAs (Decidable (∀ block ∈ s.granted pool e, _))

instance (s : Arena Thread) (e : Thread × ArenaInput) : Decidable (s.Fits pool e) :=
  inferInstanceAs (Decidable (∀ block ∈ s.granted pool e, _ ∧ _))

/-- What a step does: nothing to the arena, a reset, or the block that is granted. -/
theorem step_cases (s : Arena Thread) (e : Thread × ArenaInput) :
    s.granted pool e = none ∧ (s.step pool e).shared = s.shared ∨
      s.granted pool e = none ∧ e.2 = .reset ∧ (s.step pool e).shared = {} ∨
      ∃ size align, s.granted pool e = some (size, align) ∧
        ArenaAllocator.next s.shared.offset size align.value ≤ pool.size ∧
        (s.step pool e).shared.offset = ArenaAllocator.next s.shared.offset size align.value ∧
        (s.step pool e).shared.blocks =
          ArenaAllocator.blockAt pool s.shared.offset size align :: s.shared.blocks ∧
        ∃ p, (s.step pool e).own e.1 = .returned (some p) := by
  obtain ⟨t, input⟩ := e
  have hown := Interleaving.step_own_self (ArenaAllocator.act pool) s t input
  cases input with
  | reset => exact .inr (.inl ⟨rfl, rfl, rfl⟩)
  | call size align =>
      refine .inl ⟨rfl, ?_⟩
      change (s.shared.act pool (s.own t) (.call size align)).1 = s.shared
      unfold ArenaAllocator.act
      dsimp only
      split <;> rfl
  | turn spurious =>
      have hshared : (s.step pool (t, .turn spurious)).shared =
          (s.shared.act pool (s.own t) (.turn spurious)).1 := rfl
      cases hphase : s.own t with
      | idle | returned _ =>
          rw [hphase] at hshared
          refine .inl ⟨?_, hshared⟩
          unfold granted
          dsimp only
          rw [hphase]
      | looping size align cur =>
          rw [hphase] at hshared hown
          change _ = (s.shared.turn pool size align cur spurious).1 at hshared
          change (s.step pool (t, .turn spurious)).own t =
            (s.shared.turn pool size align cur spurious).2 at hown
          have hgranted : s.granted pool (t, .turn spurious) =
              if ArenaAllocator.next cur size align.value ≤ pool.size ∧
                s.shared.offset = cur ∧ spurious = false then some (size, align) else none := by
            unfold granted
            dsimp only
            rw [hphase]
          unfold ArenaAllocator.turn at hshared hown
          by_cases hend : ArenaAllocator.next cur size align.value > pool.size
          · rw [if_pos hend] at hshared
            rw [if_neg (fun h => absurd h.1 (UInt64.not_le.mpr hend))] at hgranted
            exact .inl ⟨hgranted, hshared⟩
          · rw [if_neg hend] at hshared hown
            by_cases hexchange : s.shared.offset = cur ∧ spurious = false
            · rw [if_pos hexchange] at hshared hown
              rw [if_pos ⟨UInt64.not_lt.mp hend, hexchange⟩] at hgranted
              rw [hexchange.1]
              exact .inr (.inr ⟨size, align, hgranted, UInt64.not_lt.mp hend,
                congrArg ArenaAllocator.offset hshared, congrArg ArenaAllocator.blocks hshared,
                _, hown⟩)
            · rw [if_neg hexchange] at hshared
              rw [if_neg (fun h => hexchange h.2)] at hgranted
              exact .inl ⟨hgranted, hshared⟩

variable {pool} {s : Arena Thread}

theorem nullKeepsOffset (pool : Pool) (s : Arena Thread) (e : Thread × ArenaInput) :
    s.NullKeepsOffset pool e := by
  obtain ⟨-, hshared⟩ | ⟨-, hreset, -⟩ | ⟨_, _, -, -, -, -, hreturned⟩ := step_cases pool s e
  · exact .inl (congrArg ArenaAllocator.offset hshared)
  · exact .inr (.inl hreset)
  · exact .inr (.inr hreturned)

def view (pool : Pool) (s : Arena Thread) : Bump Nat where
  top := pool.base.toNat + s.shared.offset.toNat
  spans := s.shared.blocks.map fun b => (b.start.toNat, b.start.toNat + b.size.toNat)

omit [DecidableEq Thread] in
theorem sound_iff_view : s.Sound pool ↔
    (∀ b ∈ s.shared.blocks, b.Sound pool) ∧
      (s.view pool).spans.Pairwise fun span span' => Disjoint (Set.Ico span.1 span.2)
        (Set.Ico span'.1 span'.2) := by
  rw [view, List.pairwise_map]
  exact ⟨fun h => ⟨h.each, h.apart⟩, fun h => ⟨h.1, h.2⟩⟩

theorem packed_step (h : (s.view pool).Packed) {e : Thread × ArenaInput}
    (hround : s.RoundsUp pool e) (hfits : s.Fits pool e) : ((s.step pool e).view pool).Packed := by
  obtain ⟨-, hshared⟩ | ⟨-, -, hshared⟩ | ⟨size, align, hgranted, hend, hoffset, hblocks, -⟩ :=
    step_cases pool s e
  · rwa [view, hshared]
  · rw [view, hshared]
    exact Bump.packed_empty _
  · have hle := ArenaAllocator.le_alignedCur _ align (hround (size, align) hgranted)
    obtain ⟨hnext, hstart⟩ :=
      ArenaAllocator.toNat_blockAt (hfits (size, align) hgranted).1 hend
    have htake : (s.step pool e).view pool = (s.view pool).take
        (pool.base.toNat + (ArenaAllocator.alignedCur s.shared.offset align.value).toNat)
        (pool.base.toNat + (ArenaAllocator.next s.shared.offset size align.value).toNat) := by
      unfold view Bump.take
      rw [hoffset, hblocks, List.map_cons, hstart, hnext, ← Nat.add_assoc]
      rfl
    rw [htake]
    refine h.take (Nat.add_le_add_left hle _) ?_
    rw [hnext, ← Nat.add_assoc]
    exact Nat.le_add_right _ _

theorem sound_step_iff (h : (s.view pool).Packed) (hsound : s.Sound pool)
    {e : Thread × ArenaInput} (hround : s.RoundsUp pool e) :
    (s.step pool e).Sound pool ↔ s.Fits pool e := by
  obtain ⟨hgranted, hshared⟩ | ⟨hgranted, -, hshared⟩ |
    ⟨size, align, hgranted, hend, -, hblocks, -⟩ := step_cases pool s e
  · refine iff_of_true ⟨hshared ▸ hsound.each, hshared ▸ hsound.apart⟩ ?_
    rw [Fits, hgranted]
    exact fun _ => nofun
  · refine iff_of_true ⟨hshared ▸ fun _ => nofun, hshared ▸ List.Pairwise.nil⟩ ?_
    rw [Fits, hgranted]
    exact fun _ => nofun
  · have hfits : s.Fits pool e ↔
        (ArenaAllocator.blockAt pool s.shared.offset size align).Sound pool := by
      rw [ArenaAllocator.sound_blockAt_iff hend, Fits, hgranted]
      simp only [Option.mem_def, Option.some.injEq, forall_eq']
    constructor
    · intro hafter
      exact hfits.mpr (hafter.each _ (hblocks ▸ List.mem_cons_self))
    · intro hstep
      refine sound_iff_view.mpr ⟨?_, (packed_step h hround hstep).apart⟩
      rw [hblocks]
      exact List.forall_mem_cons.mpr ⟨hfits.mp hstep, hsound.each⟩

/-- Over every run of calls, rounds and resets of any number of threads: a call that returns null
does not write the offset, and while no rounding wraps around, the blocks are aligned, in the pool
and disjoint in every state exactly when the end of no block wraps around and every alignment that
is granted divides the base address. -/
theorem blocks_sound_iff_fit (pool : Pool) (events : List (Thread × ArenaInput)) :
    Run.Along (step pool) (NullKeepsOffset pool) init events ∧
      (Run.Along (step pool) (RoundsUp pool) init events →
        (Run.Always (step pool) (Sound pool) init events ↔
          Run.Along (step pool) (Fits pool) init events)) := by
  have hpacked : ((init : Arena Thread).view pool).Packed := Bump.packed_empty _
  have hsound : (init : Arena Thread).Sound pool := ⟨fun _ => nofun, List.Pairwise.nil⟩
  constructor
  · exact Run.along_of_forall _ (fun _ => True) (fun s e _ => nullKeepsOffset pool s e) _
      fun _ _ => trivial
  · intro hround
    exact Run.always_iff_along (fun s => (s.view pool).Packed) (RoundsUp pool)
      (fun _ _ h hround hfits => packed_step h hround hfits)
      (fun _ _ h hsound hround => sound_step_iff h hsound hround) hround hpacked hsound

section Runs

def kilobyte : Pool := ⟨4160, 1024, by decide, by decide⟩

def wordAlign : Alignment := ⟨8, 3, by decide, rfl⟩

theorem blocks_sound_of_race :
    let events : List (Bool × ArenaInput) :=
      [(false, .call 20 wordAlign), (true, .call 8 wordAlign), (false, .turn false),
        (true, .turn false), (true, .turn false)]
    Run.Always (step kilobyte) (Sound kilobyte) init events := by
  intro events
  refine ((blocks_sound_iff_fit kilobyte events).2 ?_).mpr ?_
  · decide +kernel
  · decide +kernel

/-- A block aligned to 128 of the offset is not so aligned as an address; and a size near `2 ^ 64`
passes the test, is not inside the pool and takes the offset back below the block before it. -/
theorem blocks_misaligned_and_overlapping :
    let misaligned := Run.run (step kilobyte) init
      [((), .call 8 ⟨128, 7, by decide, rfl⟩), ((), .turn false)]
    let wrapped := Run.run (step kilobyte) init
      [((), .call 16 wordAlign), ((), .turn false), ((), .call (0 - 8) wordAlign),
        ((), .turn false), ((), .call 8 wordAlign), ((), .turn false)]
    (misaligned.shared.blocks.map fun b => (b.start.toNat, b.align.value.toNat)) = [(4160, 128)] ∧
      (wrapped.shared.blocks.map fun b => (b.start.toNat, b.size.toNat)) =
        [(4168, 8), (4176, 2 ^ 64 - 8), (4160, 16)] ∧
      ¬misaligned.Sound kilobyte ∧ ¬wrapped.Sound kilobyte := by
  intro misaligned wrapped
  have hodd : ∃ b ∈ misaligned.shared.blocks, ¬b.align.value.toNat ∣ b.start.toNat := by
    decide +kernel
  have hbeyond : ∃ b ∈ wrapped.shared.blocks,
      kilobyte.base.toNat + kilobyte.size.toNat < b.start.toNat + b.size.toNat := by
    decide +kernel
  refine ⟨by decide +kernel, by decide +kernel, fun h => ?_, fun h => ?_⟩
  · obtain ⟨b, hmem, hndvd⟩ := hodd
    exact hndvd (h.each b hmem).aligned
  · obtain ⟨b, hmem, hlt⟩ := hbeyond
    exact absurd (h.each b hmem).upper (Nat.not_le.mpr hlt)

end Runs

end Arena

end QuantForge
