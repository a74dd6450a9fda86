import QuantForge.Library.Run
import QuantForge.Oms.Sections

/-! In every state that calls can reach, each slot of the pool is either free or
held by one order. New orders never displace an old one, because the sequence
number makes their ids new. -/
namespace QuantForge

open Library

theorem dash_notMem_toDigits (n : Nat) : '-' ∉ Nat.toDigits 10 n := by
  intro hmem
  have hdigit := Nat.isDigit_of_mem_toDigits (by decide) (by decide) hmem
  exact absurd hdigit (by decide)

theorem toDigits_injective {m n : Nat} (h : Nat.toDigits 10 m = Nat.toDigits 10 n) :
    m = n := by
  rw [← Nat.ofDigitChars_ten_toDigits (n := m), h, Nat.ofDigitChars_ten_toDigits]

theorem orderId_seq_injective {ts ts' k k' : Nat} (h : orderId ts k = orderId ts' k') :
    k = k' := by
  unfold orderId at h
  rw [List.append_assoc, List.append_assoc] at h
  have hsuffix := List.append_cancel_left h
  obtain ⟨-, -, hdigits⟩ := (List.append_cons_inj_of_notMem (dash_notMem_toDigits _)
    (dash_notMem_toDigits _)).mp hsuffix
  exact toDigits_injective hdigits

namespace OrderBook

variable {poolSize : Nat} {book : OrderBook poolSize}

def Issued (book : OrderBook poolSize) (oid : Str) : Prop :=
  ∃ ts k, k < book.seq ∧ oid = orderId ts k

theorem not_issued_next (book : OrderBook poolSize) (ts : Nat) :
    ¬book.Issued (orderId ts book.seq) := by
  rintro ⟨ts', k, hlt, heq⟩
  exact hlt.ne (orderId_seq_injective heq.symm)

theorem Issued.of_seq_le {book' : OrderBook poolSize} {oid : Str} (h : book.Issued oid)
    (hseq : book.seq ≤ book'.seq) : book'.Issued oid := by
  obtain ⟨ts, k, hlt, heq⟩ := h
  exact ⟨ts, k, hlt.trans_le hseq, heq⟩

structure Exclusive (book : OrderBook poolSize) : Prop where
  nodup : (book.freeList ++ book.orders.values).Nodup
  issued : ∀ oid po, book.orders.lookup oid = some po → book.Issued oid

structure Partitioned (book : OrderBook poolSize) : Prop extends Exclusive book where
  covers : ∀ po, po ∈ book.freeList ++ book.orders.values

theorem Exclusive.nodup_freeList (h : book.Exclusive) : book.freeList.Nodup :=
  (List.nodup_append.mp h.nodup).1

theorem Exclusive.key_unique (h : book.Exclusive) {oid oid' : Str} {po : Fin poolSize}
    (hlookup : book.orders.lookup oid = some po) (hlookup' : book.orders.lookup oid' = some po) :
    oid = oid' :=
  Dict.key_unique (List.nodup_append.mp h.nodup).2.1 hlookup hlookup'

theorem Exclusive.notMem_freeList (h : book.Exclusive) {oid : Str} {po : Fin poolSize}
    (hlookup : book.orders.lookup oid = some po) : po ∉ book.freeList := by
  intro hfree
  exact (List.nodup_append.mp h.nodup).2.2 po hfree po (Dict.mem_values.mpr ⟨oid, hlookup⟩) rfl

theorem Exclusive.lookup_fresh (h : book.Exclusive) (ts : Nat) :
    book.orders.lookup (orderId ts book.seq) = none := by
  cases hlookup : book.orders.lookup (orderId ts book.seq) with
  | none => rfl
  | some po => exact absurd (h.issued _ po hlookup) (book.not_issued_next ts)

theorem Partitioned.count (h : book.Partitioned) :
    book.freeList.length + book.orders.entries.length = poolSize := by
  have hperm : (book.freeList ++ book.orders.values).Perm (List.finRange poolSize) :=
    (List.perm_ext_iff_of_nodup h.nodup (List.nodup_finRange poolSize)).mpr fun po => by
      simp only [h.covers po, List.mem_finRange]
  have hlength := hperm.length_eq
  rwa [List.length_append, Dict.values_length, List.length_finRange] at hlength

theorem release_perm {oid : Str} {po : Fin poolSize}
    (hlookup : book.orders.lookup oid = some po) :
    ((book.release oid po).freeList ++ (book.release oid po).orders.values).Perm
      (book.freeList ++ book.orders.values) := by
  calc (po :: book.freeList) ++ Dict.values (book.orders.erase oid)
      _ = po :: (book.freeList ++ Dict.values (book.orders.erase oid)) := rfl
      _ |>.Perm (book.freeList ++ po :: Dict.values (book.orders.erase oid)) :=
        List.perm_middle.symm
      _ |>.Perm (book.freeList ++ book.orders.values) :=
        (Dict.values_perm_of_lookup hlookup).symm.append_left book.freeList

theorem lookup_release {oid oid' : Str} {po po' : Fin poolSize}
    (h : (book.release oid po).orders.lookup oid' = some po') :
    oid' ≠ oid ∧ book.orders.lookup oid' = some po' :=
  Dict.lookup_erase_eq_some.mp h

theorem exclusive_release (h : book.Exclusive) {oid : Str} {po : Fin poolSize}
    (hlookup : book.orders.lookup oid = some po) : (book.release oid po).Exclusive :=
  ⟨(release_perm hlookup).nodup_iff.mpr h.nodup,
    fun oid' po' hlookup' => h.issued oid' po' (lookup_release hlookup').2⟩

theorem partitioned_release (h : book.Partitioned) {oid : Str} {po : Fin poolSize}
    (hlookup : book.orders.lookup oid = some po) : (book.release oid po).Partitioned :=
  ⟨exclusive_release h.toExclusive hlookup,
    fun po' => (release_perm hlookup).mem_iff.mpr (h.covers po')⟩

theorem exclusive_take (h : book.Exclusive) {po : Fin poolSize} {rest : List (Fin poolSize)}
    (hfree : book.freeList = po :: rest) :
    (book.take rest).Exclusive ∧ po ∉ (book.take rest).freeList ++ book.orders.values := by
  have hnodup := h.nodup
  rw [hfree, List.cons_append, List.nodup_cons] at hnodup
  exact ⟨⟨hnodup.2, h.issued⟩, hnodup.1⟩

theorem issued_issue {oid : Str} (h : book.Issued oid) : book.issue.Issued oid := by
  obtain ⟨ts, k, hlt, heq⟩ := h
  exact ⟨ts, k, Nat.lt_succ_of_lt hlt, heq⟩

theorem exclusive_issue (h : book.Exclusive) : book.issue.Exclusive :=
  ⟨h.nodup, fun oid po hlookup => issued_issue (h.issued oid po hlookup)⟩

theorem lookup_store {oid oid' : Str} {po po' : Fin poolSize}
    (h : (book.store oid po).orders.lookup oid' = some po') :
    oid' = oid ∧ po' = po ∨ oid' ≠ oid ∧ book.orders.lookup oid' = some po' :=
  Dict.lookup_insert_eq_some.mp h

theorem store_perm {oid : Str} (po : Fin poolSize)
    (hfresh : book.orders.lookup oid = none) :
    ((book.store oid po).freeList ++ (book.store oid po).orders.values).Perm
      (po :: (book.freeList ++ book.orders.values)) := by
  rw [OrderBook.store, Dict.values_insert_of_lookup_none po hfresh]
  exact List.perm_middle

theorem exclusive_store (h : book.Exclusive) {oid : Str} {po : Fin poolSize}
    (hslot : po ∉ book.freeList ++ book.orders.values) (hissued : book.Issued oid)
    (hfresh : book.orders.lookup oid = none) : (book.store oid po).Exclusive := by
  constructor
  · exact (store_perm po hfresh).nodup_iff.mpr (List.nodup_cons.mpr ⟨hslot, h.nodup⟩)
  · intro oid' po' hlookup'
    obtain ⟨rfl, -⟩ | ⟨-, hlookup⟩ := lookup_store hlookup'
    · exact hissued
    · exact h.issued oid' po' hlookup

theorem partitioned_place (h : book.Partitioned) {po : Fin poolSize}
    {rest : List (Fin poolSize)} (hfree : book.freeList = po :: rest) (ts : Nat) :
    ((book.take rest).issue.store (orderId ts book.seq) po).Partitioned := by
  obtain ⟨htaken, hslot⟩ := exclusive_take h.toExclusive hfree
  have hfresh : (book.take rest).issue.orders.lookup (orderId ts book.seq) = none :=
    h.toExclusive.lookup_fresh ts
  refine ⟨exclusive_store (exclusive_issue htaken) hslot ⟨ts, book.seq, Nat.lt_succ_self _, rfl⟩
    hfresh, fun po' => ?_⟩
  have hcovers := h.covers po'
  rw [hfree] at hcovers
  exact (store_perm po hfresh).mem_iff.mpr hcovers

end OrderBook

namespace OrderManagementSystem

variable {poolSize : Nat} {oms : OrderManagementSystem poolSize}

theorem partitioned_init (poolSize : Nat) (paperMode : Bool) :
    (init poolSize paperMode).book.Partitioned := by
  refine ⟨⟨?_, fun oid po hlookup => ?_⟩, fun po => ?_⟩
  · simpa [book, init, OrderPool.init, Dict.values] using List.nodup_finRange poolSize
  · simp [book, init] at hlookup
  · simp [book, init, OrderPool.init, Dict.values]

theorem partitioned_onOrderAck (h : oms.book.Partitioned) (exchangeOid internalOid : Str) :
    (oms.onOrderAck exchangeOid internalOid).book.Partitioned := by
  rwa [book_onOrderAck]

theorem keptByRelease_partitioned :
    OrderBook.KeptByRelease fun book : OrderBook poolSize => book.Partitioned :=
  fun _ _ _ h hlookup => OrderBook.partitioned_release h hlookup

theorem partitioned_submit (h : oms.book.Partitioned) (req : OrderRequest)
    (tsMs placedNs fillNs : Nat) :
    (oms.submit req tsMs placedNs fillNs).2.book.Partitioned := by
  cases hfree : oms.pool.freeList with
  | nil =>
      rw [submit, OrderPool.acquire_of_nil hfree]
      exact h
  | cons po rest =>
      have hplaced : (oms.placed po rest req tsMs placedNs).book.Partitioned :=
        OrderBook.partitioned_place h hfree tsMs
      rw [submit_of_cons oms req tsMs placedNs fillNs hfree]
      split
      · exact keptByRelease_partitioned.onFill (partitioned_onOrderAck hplaced _ _) _ _
      · exact hplaced

theorem partitioned_step (h : oms.book.Partitioned) (call : OmsCall) :
    (oms.step call).book.Partitioned := by
  cases hcall : call.submits with
  | false => exact keptByRelease_partitioned.step h hcall
  | true =>
      cases call with
      | submit req tsMs placedNs fillNs => exact partitioned_submit h req tsMs placedNs fillNs
      | _ => exact absurd hcall Bool.noConfusion

theorem partitioned_run (paperMode : Bool) (calls : List OmsCall) :
    (Run.run step (init poolSize paperMode) calls).book.Partitioned :=
  Run.run_invariant (fun oms : OrderManagementSystem poolSize => oms.book.Partitioned)
    (fun _ call h => partitioned_step h call) (partitioned_init poolSize paperMode) calls

/-- The free list and the order book partition the slots in every reachable state. -/
theorem pool_and_orders_partition (paperMode : Bool) (calls : List OmsCall) :
    let oms := Run.run step (init poolSize paperMode) calls
    oms.pool.freeList.Nodup ∧
    (∀ oid po, oms.orders.lookup oid = some po → po ∉ oms.pool.freeList) ∧
    (∀ oid oid' po, oms.orders.lookup oid = some po → oms.orders.lookup oid' = some po →
      oid = oid') ∧
    oms.pool.available + oms.orders.entries.length = poolSize := by
  intro oms
  have h : oms.book.Partitioned := partitioned_run paperMode calls
  exact ⟨h.nodup_freeList, fun _ _ => h.notMem_freeList,
    fun _ _ _ => h.key_unique, h.count⟩

end OrderManagementSystem

end QuantForge
