import Sixchange.Model.TextCodec

namespace Sixchange

def maximumLogArguments : ℕ := 8

def maximumInlineStringLength : ℕ := 48

structure InlineLogString where
  view : Bytes
  truncated : Bool
  size_le : view.length ≤ maximumInlineStringLength
  deriving DecidableEq

def makeInlineString (value : Bytes) : InlineLogString where
  view := value.take maximumInlineStringLength
  truncated := maximumInlineStringLength < value.length
  size_le := List.length_take_le _ _

/-- A `double` is kept as its bits. -/
inductive LogArgument
  | int64 (value : Int64)
  | uint64 (value : UInt64)
  | double (bits : UInt64)
  | bool (value : Bool)
  | string (value : InlineLogString)
  deriving DecidableEq

structure CapturedArguments where
  values : List LogArgument
  count_le : values.length ≤ maximumLogArguments
  deriving DecidableEq

def CapturedArguments.count (arguments : CapturedArguments) : ℕ := arguments.values.length

namespace AsyncFileLogger

/-- One by one, what is written to `output_`: a character of the format, or an argument by `write_argument`. -/
inductive Written
  | char (character : UInt8)
  | argument (argument : LogArgument)
  deriving DecidableEq

def parseArgumentIndex (value : Bytes) : Option ℕ :=
  if value.isEmpty then none
  else
    value.foldlM (fun result character =>
      if TextCodec.isDigit character then some (wrapAdd (result * 10 % word) (character.toNat - 48)) else none) 0

def writeArgumentOr (arguments : CapturedArguments) (argumentIndex : Option ℕ) (braced : Bytes) : List Written :=
  match argumentIndex.bind (arguments.values[·]?) with
  | some argument => [.argument argument]
  | none => braced.map .char

/-- The loop of `write_formatted_message`, on what is left of the format. The automatic index cannot wrap: it
counts placeholders of the format. -/
def writeFrom (arguments : CapturedArguments) (automaticIndex : ℕ) (format : Bytes) : List Written :=
  match format with
  | [] => []
  | character :: rest =>
    if character = 123 then
      if rest.head? = some 123 then .char 123 :: writeFrom arguments automaticIndex rest.tail
      else
        match hclosing : rest.dropWhile (· ≠ 125) with
        | [] => (character :: rest).map .char
        | _ :: after =>
          let placeholder := rest.takeWhile (· ≠ 125)
          let braced := 123 :: placeholder ++ [125]
          if placeholder.isEmpty then
            writeArgumentOr arguments (some automaticIndex) braced ++ writeFrom arguments (automaticIndex + 1) after
          else
            writeArgumentOr arguments (parseArgumentIndex placeholder) braced ++
              writeFrom arguments automaticIndex after
    else if character = 125 ∧ rest.head? = some 125 then
      .char 125 :: writeFrom arguments automaticIndex rest.tail
    else .char character :: writeFrom arguments automaticIndex rest
  termination_by format.length
  decreasing_by
    all_goals
      have htail := List.length_tail (l := rest)
      have hdrop := (List.dropWhile_sublist (l := rest) (· ≠ 125)).length_le
      simp only [List.length_cons] at *
    · omega
    · rw [hclosing, List.length_cons] at hdrop
      omega
    · rw [hclosing, List.length_cons] at hdrop
      omega
    · omega
    · omega

def writeFormattedMessage (format : Bytes) (arguments : CapturedArguments) : List Written :=
  writeFrom arguments 0 format

def signed (n : ℤ) : Bytes := if n < 0 then ascii "-" ++ TextCodec.decimal n.natAbs else TextCodec.decimal n.natAbs

def writeArgument (doubleText : UInt64 → Bytes) : LogArgument → Bytes
  | .int64 value => signed value.toInt
  | .uint64 value => TextCodec.decimal value.toNat
  | .double bits => doubleText bits
  | .bool value => ascii (if value then "true" else "false")
  | .string value => if value.truncated then value.view ++ ascii "..." else value.view

def output (doubleText : UInt64 → Bytes) (written : List Written) : Bytes :=
  written.flatMap fun
    | .char character => [character]
    | .argument argument => writeArgument doubleText argument

end AsyncFileLogger

end Sixchange
