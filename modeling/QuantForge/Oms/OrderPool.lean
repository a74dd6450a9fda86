import Mathlib.Data.Fintype.Basic
import QuantForge.Oms.OrderStateMachine

/-! `oms/order_pool.hpp`. A `PooledOrder *` is the index of its slot, and the free
list is a stack with the last slot released on top. -/
namespace QuantForge

structure PooledOrder where
  order : Order := {}
  sm : OrderStateMachine := {}

structure OrderPool (poolSize : Nat) where
  pool : Fin poolSize → PooledOrder
  freeList : List (Fin poolSize)

namespace OrderPool

variable {poolSize : Nat}

def init (poolSize : Nat) : OrderPool poolSize where
  pool := fun _ => {}
  freeList := (List.finRange poolSize).reverse

def acquire (p : OrderPool poolSize) : Option (Fin poolSize) × OrderPool poolSize :=
  match p.freeList with
  | [] => (none, p)
  | slot :: rest =>
      (some slot, { pool := Function.update p.pool slot {}, freeList := rest })

def release (p : OrderPool poolSize) (slot : Fin poolSize) : OrderPool poolSize :=
  { p with freeList := slot :: p.freeList }

def available (p : OrderPool poolSize) : Nat := p.freeList.length

/-- A write through the pointer to a slot. -/
def modify (p : OrderPool poolSize) (slot : Fin poolSize) (f : PooledOrder → PooledOrder) :
    OrderPool poolSize :=
  { p with pool := Function.update p.pool slot (f (p.pool slot)) }

theorem acquire_of_nil {p : OrderPool poolSize} (h : p.freeList = []) :
    p.acquire = (none, p) := by
  rw [acquire, h]

theorem acquire_of_cons {p : OrderPool poolSize} {slot : Fin poolSize}
    {rest : List (Fin poolSize)} (h : p.freeList = slot :: rest) :
    p.acquire =
      (some slot, { pool := Function.update p.pool slot {}, freeList := rest }) := by
  rw [acquire, h]

end OrderPool

end QuantForge
