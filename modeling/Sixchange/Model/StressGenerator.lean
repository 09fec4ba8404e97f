import Sixchange.Model.TextCodec

/-!
The script that writes the command streams for the benchmark. Its integers are natural numbers here, but for the seed.
-/

namespace Sixchange

/-- `random.Random`, as far as the script uses it. -/
structure Random where
  State : Type
  seeded : ℤ → State
  randrange : ℕ → State → ℕ × State
  randrange_lt : ∀ n state, 0 < n → (randrange n state).1 < n

structure CommandGenerator where
  symbol : Bytes
  nextClientOrderId : ℕ
  orderCount : ℕ
  cancelCount : ℕ
  buffer : List Bytes
  stdout : Bytes
  deriving DecidableEq, Repr

def Side.text : Side → Bytes
  | .buy => ascii "B"
  | .sell => ascii "S"

namespace CommandGenerator

open TextCodec

def create (symbol : Bytes) : CommandGenerator :=
  { symbol, nextClientOrderId := 1000, orderCount := 0, cancelCount := 0, buffer := [], stdout := [] }

variable (generator : CommandGenerator)

def flush : CommandGenerator :=
  if generator.buffer.isEmpty then generator
  else { generator with stdout := generator.stdout ++ generator.buffer.flatten, buffer := [] }

def emit (line : Bytes) : CommandGenerator :=
  let generator := { generator with buffer := generator.buffer ++ [line] }
  if 8192 ≤ generator.buffer.length then generator.flush else generator

def newOrder (side : Side) (price quantity : ℕ) : ℕ × CommandGenerator :=
  let clientOrderId := generator.nextClientOrderId
  let generator := { generator with nextClientOrderId := generator.nextClientOrderId + 1 }
  let generator := generator.emit (ascii "N " ++ decimal clientOrderId ++ ascii " " ++ generator.symbol ++ ascii " " ++
    side.text ++ ascii " L GFD " ++ decimal price ++ ascii " " ++ decimal quantity ++ ascii "\n")
  (clientOrderId, { generator with orderCount := generator.orderCount + 1 })

def cancel (clientOrderId : ℕ) : CommandGenerator :=
  let generator := generator.emit (ascii "C " ++ decimal clientOrderId ++ ascii " " ++ generator.symbol ++ ascii "\n")
  { generator with cancelCount := generator.cancelCount + 1 }

def commandCount : ℕ := generator.orderCount + generator.cancelCount

end CommandGenerator

abbrev Script (rng : Random) := StateM (CommandGenerator × rng.State)

namespace Script

variable {rng : Random}

def newOrder (side : Side) (price quantity : ℕ) : Script rng ℕ := fun (generator, state) =>
  let (clientOrderId, generator) := generator.newOrder side price quantity
  (clientOrderId, generator, state)

def cancel (clientOrderId : ℕ) : Script rng Unit := fun (generator, state) =>
  ((), generator.cancel clientOrderId, state)

def randrange (n : ℕ) : Script rng ℕ := fun (generator, state) =>
  let (value, state) := rng.randrange n state
  (value, generator, state)

def randint (a b : ℕ) : Script rng ℕ := do
  let value ← randrange (b + 1 - a)
  return a + value

def scenarioExactCross (basePrice : ℕ) : Script rng Unit := do
  let price := basePrice + (← randrange 20)
  let quantity ← randint 1 100
  let _ ← newOrder .sell price quantity
  let _ ← newOrder .buy price quantity
  let quantity ← randint 1 100
  let _ ← newOrder .buy price quantity
  let _ ← newOrder .sell price quantity

def scenarioPartialFill (basePrice : ℕ) : Script rng Unit := do
  let price := basePrice + (← randrange 20)
  let quantity ← randint 10 100
  let restingSell ← newOrder .sell price (quantity * 2)
  let _ ← newOrder .buy price quantity
  cancel restingSell
  let _ ← newOrder .sell price quantity
  let aggressiveBuy ← newOrder .buy price (quantity * 2)
  cancel aggressiveBuy
  let restingBuy ← newOrder .buy price (quantity * 2)
  let _ ← newOrder .sell price quantity
  cancel restingBuy
  let _ ← newOrder .buy price quantity
  let aggressiveSell ← newOrder .sell price (quantity * 2)
  cancel aggressiveSell

def scenarioFifo (basePrice depth : ℕ) : Script rng Unit := do
  let price := basePrice + 25
  let mut totalQuantity := 0
  for _ in List.range depth do
    let quantity ← randint 1 100
    let _ ← newOrder .sell price quantity
    totalQuantity := totalQuantity + quantity
  let _ ← newOrder .buy price totalQuantity
  totalQuantity := 0
  for _ in List.range depth do
    let quantity ← randint 1 100
    let _ ← newOrder .buy price quantity
    totalQuantity := totalQuantity + quantity
  let _ ← newOrder .sell price totalQuantity

def scenarioSweep (basePrice depth : ℕ) : Script rng Unit := do
  let mut totalQuantity := 0
  for level in List.range depth do
    let quantity ← randint 1 100
    let _ ← newOrder .sell (basePrice + level) quantity
    totalQuantity := totalQuantity + quantity
  let _ ← newOrder .buy (basePrice + depth - 1) totalQuantity
  totalQuantity := 0
  for level in List.range depth do
    let quantity ← randint 1 100
    let _ ← newOrder .buy (basePrice + level) quantity
    totalQuantity := totalQuantity + quantity
  let _ ← newOrder .sell basePrice totalQuantity

def scenarioLimitStop (basePrice : ℕ) : Script rng Unit := do
  let _ ← newOrder .sell basePrice 10
  let highAsk ← newOrder .sell (basePrice + 2) 10
  let remainingBuy ← newOrder .buy (basePrice + 1) 15
  cancel remainingBuy
  cancel highAsk
  let _ ← newOrder .buy (basePrice + 2) 10
  let lowBid ← newOrder .buy basePrice 10
  let remainingSell ← newOrder .sell (basePrice + 1) 15
  cancel remainingSell
  cancel lowBid

def scenarioRandomSweep (basePrice depth priceSpan : ℕ) : Script rng Unit := do
  let mut totalQuantity := 0
  let mut highestPrice := basePrice
  for _ in List.range depth do
    let price := basePrice + (← randrange priceSpan)
    let quantity ← randint 1 250
    let _ ← newOrder .sell price quantity
    totalQuantity := totalQuantity + quantity
    highestPrice := max highestPrice price
  let _ ← newOrder .buy highestPrice totalQuantity
  totalQuantity := 0
  let mut lowestPrice := basePrice + priceSpan - 1
  for _ in List.range depth do
    let price := basePrice + (← randrange priceSpan)
    let quantity ← randint 1 250
    let _ ← newOrder .buy price quantity
    totalQuantity := totalQuantity + quantity
    lowestPrice := min lowestPrice price
  let _ ← newOrder .sell lowestPrice totalQuantity

end Script

inductive Scenario
  | exact
  | partialFill
  | fifo
  | sweep
  | limit
  | random
  deriving DecidableEq, Repr

/-- The arguments of the script, where the mode `all` is `none`. -/
structure StressArguments where
  rounds : ℕ
  mode : Option Scenario
  depth : ℕ
  priceSpan : ℕ
  basePrice : ℕ
  symbol : Bytes
  seed : ℤ

namespace StressArguments

variable (arguments : StressArguments)

def selectedModes : List Scenario :=
  match arguments.mode with
  | none => [.exact, .partialFill, .fifo, .sweep, .limit, .random]
  | some mode => [mode]

def scenario {rng : Random} : Scenario → Script rng Unit
  | .exact => Script.scenarioExactCross arguments.basePrice
  | .partialFill => Script.scenarioPartialFill arguments.basePrice
  | .fifo => Script.scenarioFifo arguments.basePrice arguments.depth
  | .sweep => Script.scenarioSweep arguments.basePrice arguments.depth
  | .limit => Script.scenarioLimitStop arguments.basePrice
  | .random => Script.scenarioRandomSweep arguments.basePrice arguments.depth arguments.priceSpan

def allRounds {rng : Random} : Script rng Unit := do
  for _ in List.range arguments.rounds do
    for mode in arguments.selectedModes do
      arguments.scenario mode

end StressArguments

structure ScriptResult where
  exitCode : ℕ
  stdout : Bytes
  stderr : Bytes
  deriving DecidableEq, Repr

namespace StressGenerator

open TextCodec

def integer : ℤ → Bytes
  | .ofNat n => decimal n
  | .negSucc n => ascii "-" ++ decimal (n + 1)

def main (rng : Random) (arguments : StressArguments) : ScriptResult :=
  if arguments.rounds = 0 then { exitCode := 1, stdout := [], stderr := ascii "rounds must be positive\n" }
  else if arguments.depth = 0 then { exitCode := 1, stdout := [], stderr := ascii "depth must be positive\n" }
  else if arguments.priceSpan = 0 then { exitCode := 1, stdout := [], stderr := ascii "price-span must be positive\n" }
  else
    let (_, generator, _) := arguments.allRounds (CommandGenerator.create arguments.symbol, rng.seeded arguments.seed)
    let generator := generator.flush
    { exitCode := 0
      stdout := generator.stdout
      stderr := ascii "generated " ++ decimal generator.orderCount ++ ascii " orders, " ++
        decimal generator.cancelCount ++ ascii " cancels, " ++ decimal generator.commandCount ++
        ascii " commands (seed=" ++ integer arguments.seed ++ ascii ")\n" }

end StressGenerator

end Sixchange
