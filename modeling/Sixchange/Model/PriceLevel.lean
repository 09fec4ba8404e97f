import Sixchange.Model.OrderPool

namespace Sixchange

structure PriceLevel where
  price : ℕ := 0
  head : Option Slot := none
  tail : Option Slot := none
  totalQuantity : ℕ := 0
  deriving DecidableEq, Repr

namespace PriceLevel

def empty (level : PriceLevel) : Bool := level.head.isNone

def front (level : PriceLevel) : Option Slot := level.head

/-- `cell->next = next`, where the cell is not null. -/
def linkNext (orders : Slot → Order) (cell next : Option Slot) : Slot → Order :=
  match cell with
  | some cell => modify orders cell fun o => { o with next }
  | none => orders

def linkPrev (orders : Slot → Order) (cell prev : Option Slot) : Slot → Order :=
  match cell with
  | some cell => modify orders cell fun o => { o with prev }
  | none => orders

def pushBack (level : PriceLevel) (orders : Slot → Order) (order : Slot) : PriceLevel × (Slot → Order) :=
  let orders := modify orders order fun o => { o with prev := level.tail, next := none }
  let head := if level.tail.isSome then level.head else some order
  let orders := linkNext orders level.tail (some order)
  ({ level with
      head, tail := some order
      totalQuantity := wrapAdd level.totalQuantity (orders order).remainingQuantity }, orders)

def remove (level : PriceLevel) (orders : Slot → Order) (order : Slot) : PriceLevel × (Slot → Order) :=
  let head := if (orders order).prev.isSome then level.head else (orders order).next
  let orders := linkNext orders (orders order).prev (orders order).next
  let tail := if (orders order).next.isSome then level.tail else (orders order).prev
  let orders := linkPrev orders (orders order).next (orders order).prev
  ({ level with
      head, tail
      totalQuantity := wrapSub level.totalQuantity (orders order).remainingQuantity },
    modify orders order fun o => { o with prev := none, next := none })

end PriceLevel

end Sixchange
