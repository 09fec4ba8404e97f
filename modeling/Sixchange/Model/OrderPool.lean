import Sixchange.Model.Core

namespace Sixchange

/-- An `Order*`: the index of a slot of the pool's array. -/
abbrev Slot := ℕ

structure Order where
  orderId : ℕ := 0
  clientOrderId : ℕ := 0
  clientId : ℕ := 0
  symbolId : ℕ := 0
  side : Side := .buy
  price : ℕ := 0
  remainingQuantity : ℕ := 0
  seq : ℕ := 0
  prev : Option Slot := none
  next : Option Slot := none
  active : Bool := false
  deriving DecidableEq, Repr

def modify (orders : Slot → Order) (order : Slot) (f : Order → Order) : Slot → Order :=
  Function.update orders order (f (orders order))

theorem modify_self (orders : Slot → Order) (order : Slot) (f : Order → Order) :
    modify orders order f order = f (orders order) := Function.update_self ..

theorem modify_of_ne {orders : Slot → Order} {order s : Slot} (f : Order → Order) (h : s ≠ order) :
    modify orders order f s = orders s := Function.update_of_ne h ..

structure OrderPool where
  orders : Slot → Order
  capacity : ℕ
  size : ℕ
  freeHead : Option Slot

namespace OrderPool

def allocatedSlots (pool : OrderPool) : ℕ := pool.size

def create (capacity : ℕ) : OrderPool := { orders := fun _ => {}, capacity, size := 0, freeHead := none }

def allocate (pool : OrderPool) : Option Slot × OrderPool :=
  match pool.freeHead with
  | some order =>
    (some order, { pool with
      freeHead := (pool.orders order).next, orders := modify pool.orders order fun _ => {} })
  | none =>
    if pool.size = pool.capacity then (none, pool)
    else (some pool.size, { pool with size := pool.size + 1 })

def release (pool : OrderPool) (order : Slot) : OrderPool :=
  { pool with
    orders := modify pool.orders order fun _ => { next := pool.freeHead }, freeHead := some order }

end OrderPool

end Sixchange
