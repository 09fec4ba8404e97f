import Sixchange.Model.Core
import Mathlib.Data.Nat.Bits
import Mathlib.Init

namespace Sixchange

structure Entry (K V : Type) where
  key : K
  value : V
  occupied : Bool
  deriving DecidableEq, Repr

def Entry.empty {K V : Type} [Inhabited K] [Inhabited V] : Entry K V := ⟨default, default, false⟩

inductive InsertResult
  | inserted
  | duplicateKey
  | full
  deriving DecidableEq, Repr

structure FixedOrderMap (K V : Type) where
  capacity : ℕ
  mask : ℕ
  entries : ℕ → Entry K V
  size : ℕ

namespace FixedOrderMap

def hasSingleBit (capacity : ℕ) : Bool := capacity ≠ 0 ∧ capacity &&& (capacity - 1) = 0

/-- The mixing function of `FixedOrderMap::bucket`, on 64-bit keys. -/
def mixBucket (mask key : ℕ) : ℕ :=
  let value := (key + 0x9e3779b97f4a7c15) % word
  let value := ((value ^^^ (value >>> 30)) * 0xbf58476d1ce4e5b9) % word
  let value := ((value ^^^ (value >>> 27)) * 0x94d049bb133111eb) % word
  let value := value ^^^ (value >>> 31)
  value &&& mask

variable {K V : Type} [DecidableEq K] [Inhabited K] [Inhabited V]

/-- The constructor; `none` is the exception thrown by `validate_capacity`. -/
def create (capacity : ℕ) : Option (FixedOrderMap K V) :=
  if hasSingleBit capacity then
    some { capacity, mask := capacity - 1, entries := fun _ => .empty, size := 0 }
  else none

def nextBucket (m : FixedOrderMap K V) (index : ℕ) : ℕ := (index + 1) &&& m.mask

def probeDistance (m : FixedOrderMap K V) (start stop : ℕ) : ℕ :=
  ((stop + word - start) % word) &&& m.mask

def insertFrom (m : FixedOrderMap K V) (key : K) (value : V) : ℕ → ℕ → InsertResult × FixedOrderMap K V
  | 0, _ => (.full, m)
  | probes + 1, index =>
    if (m.entries index).occupied = false then
      (.inserted, { m with
        entries := Function.update m.entries index ⟨key, value, true⟩, size := m.size + 1 })
    else if (m.entries index).key = key then (.duplicateKey, m)
    else m.insertFrom key value probes (m.nextBucket index)

def findIndexFrom (m : FixedOrderMap K V) (key : K) : ℕ → ℕ → ℕ
  | 0, _ => m.capacity
  | probes + 1, index =>
    if (m.entries index).occupied = false then m.capacity
    else if (m.entries index).key = key then index
    else m.findIndexFrom key probes (m.nextBucket index)

section Bucket

variable (bucket : K → ℕ)

def insert (m : FixedOrderMap K V) (key : K) (value : V) : InsertResult × FixedOrderMap K V :=
  m.insertFrom key value m.capacity (bucket key)

def findIndex (m : FixedOrderMap K V) (key : K) : ℕ := m.findIndexFrom key m.capacity (bucket key)

def find (m : FixedOrderMap K V) (key : K) : Option V :=
  let index := m.findIndex bucket key
  if index = m.capacity then none else some (m.entries index).value

def contains (m : FixedOrderMap K V) (key : K) : Bool := m.findIndex bucket key ≠ m.capacity

/-- The backward-shift loop of `erase`; the first argument counts the slots left to examine. -/
def shiftFrom (m : FixedOrderMap K V) : ℕ → ℕ → ℕ → (ℕ → Entry K V) → ℕ → Entry K V
  | 0, _, _, entries => entries
  | examined + 1, hole, scan, entries =>
    if (entries scan).occupied = false then entries
    else
      let home := bucket (entries scan).key
      if m.probeDistance home hole < m.probeDistance home scan then
        m.shiftFrom examined scan (m.nextBucket scan)
          (Function.update (Function.update entries hole (entries scan)) scan .empty)
      else m.shiftFrom examined hole (m.nextBucket scan) entries

def erase (m : FixedOrderMap K V) (key : K) : Bool × FixedOrderMap K V :=
  let index := m.findIndex bucket key
  if index = m.capacity then (false, m)
  else
    (true, { m with
      entries := m.shiftFrom bucket (m.capacity - 1) index (m.nextBucket index)
        (Function.update m.entries index .empty)
      size := m.size - 1 })

end Bucket

end FixedOrderMap

end Sixchange
