import Sixchange.Model.OrderGateway

namespace Sixchange

namespace Cli

/-- The lines that `std::getline` takes from a stream: a line end closes a line, and so does the end of the
stream unless there is nothing left before it. -/
def getLines (input : Bytes) : List Bytes :=
  let pieces := input.splitOn 10
  if pieces.getLast? = some [] then pieces.dropLast else pieces

structure Outputs where
  out : Bytes
  err : Bytes
  deriving DecidableEq, Repr

/-- `none` where a constructor throws or the sink cannot be added. Reading does not fail. -/
def main (config : OrderBookConfig) (input : Bytes) : Option (Except Fault Outputs) :=
  (Session.create config).map fun session => do
    let (session, outputs) ← run session (getLines input)
    .ok {
      out := outputs.flatten
      err := ascii "execution= " ++ TextCodec.decimal session.engine.executionCount ++ ascii "\n" }

end Cli

end Sixchange
