import Sixchange.Model.StressGenerator

/-!
The script that writes orders, and for each of them its cancellation if asked to. Its integers are natural numbers
here.
-/

namespace Sixchange

inductive OrdersMode
  | add
  | churn
  deriving DecidableEq, Repr

structure OrdersArguments where
  count : ℕ
  mode : OrdersMode
  priceLevels : ℕ
  deriving DecidableEq, Repr

structure BufferedOutput where
  stdout : Bytes
  buffer : List Bytes
  deriving DecidableEq, Repr

namespace OrdersGenerator

open TextCodec

variable (arguments : OrdersArguments)

def side (clientOrderId : ℕ) : Side := if clientOrderId % 2 ≠ 0 then .buy else .sell

def price (clientOrderId : ℕ) : ℕ := 100 + clientOrderId % arguments.priceLevels

def quantity (clientOrderId : ℕ) : ℕ := 1 + clientOrderId % 100

def commands (clientOrderId : ℕ) : List Bytes :=
  (ascii "N " ++ decimal clientOrderId ++ ascii " AAPL " ++ (side clientOrderId).text ++ ascii " L GFD " ++
      decimal (price arguments clientOrderId) ++ ascii " " ++ decimal (quantity clientOrderId) ++ ascii "\n") ::
    if arguments.mode = .churn then [ascii "C " ++ decimal clientOrderId ++ ascii " AAPL\n"] else []

def append (output : BufferedOutput) (clientOrderId : ℕ) : BufferedOutput :=
  let buffer := output.buffer ++ commands arguments clientOrderId
  if 8192 ≤ buffer.length then { stdout := output.stdout ++ buffer.flatten, buffer := [] }
  else { output with buffer }

def main : ScriptResult :=
  if arguments.count < 1 then { exitCode := 1, stdout := [], stderr := ascii "count must be positive\n" }
  else if arguments.priceLevels < 1 then
    { exitCode := 1, stdout := [], stderr := ascii "price-levels must be positive\n" }
  else
    let output := (List.range' 1 arguments.count).foldl (append arguments) { stdout := [], buffer := [] }
    { exitCode := 0
      stdout := if output.buffer.isEmpty then output.stdout else output.stdout ++ output.buffer.flatten
      stderr := [] }

end OrdersGenerator

end Sixchange
