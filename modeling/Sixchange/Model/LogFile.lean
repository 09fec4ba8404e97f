import Sixchange.Model.AsyncFileLogger
import Sixchange.Model.LogFormat
import Mathlib.Data.Nat.Find

namespace Sixchange

inductive LogLevel
  | trace
  | debug
  | info
  | warning
  | error
  | critical
  deriving DecidableEq, Repr

def LogLevel.toUnderlying : LogLevel → ℕ
  | .trace => 0
  | .debug => 1
  | .info => 2
  | .warning => 3
  | .error => 4
  | .critical => 5

/-- What a call passes, by the kinds that `capture_argument` tells apart. A short integer is given by its
value in 64 bits, and a C string by what comes before its end. -/
inductive LogValue
  | bool (value : Bool)
  | enumeration (underlying : LogValue)
  | signed (value : Int64)
  | unsigned (value : UInt64)
  | floating (bits : UInt64)
  | cString (value : Option Bytes)
  | text (value : Bytes)

def captureArgument : LogValue → LogArgument
  | .bool value => .bool value
  | .enumeration underlying => captureArgument underlying
  | .signed value => .int64 value
  | .unsigned value => .uint64 value
  | .floating bits => .double bits
  | .cString value => .string (makeInlineString (value.getD (ascii "<null>")))
  | .text value => .string (makeInlineString value)

structure LogCall where
  level : LogLevel
  functionName : Bytes
  format : Bytes
  arguments : List LogValue
  arguments_le : arguments.length ≤ maximumLogArguments

structure LogRecord where
  level : LogLevel
  functionName : Bytes
  format : Bytes
  arguments : CapturedArguments
  deriving DecidableEq

def LogCall.captureArguments (call : LogCall) : CapturedArguments where
  values := call.arguments.map captureArgument
  count_le := by
    rw [List.length_map]
    exact call.arguments_le

namespace AsyncFileLogger

def shouldLog (minimumLevel level : LogLevel) : Bool := minimumLevel.toUnderlying ≤ level.toUnderlying

def enqueue (minimumLevel : LogLevel) (call : LogCall) : Option LogRecord :=
  if shouldLog minimumLevel call.level then
    some { level := call.level, functionName := call.functionName, format := call.format
           arguments := call.captureArguments }
  else none

def levelName : LogLevel → Bytes
  | .trace => ascii "TRACE"
  | .debug => ascii "DEBUG"
  | .info => ascii "INFO"
  | .warning => ascii "WARNING"
  | .error => ascii "ERROR"
  | .critical => ascii "CRITICAL"

/-- `std::string_view::rfind`: where the last occurrence starts that does so no later than `position`. -/
def rfind (text pattern : Bytes) (position : ℕ) : Option ℕ :=
  let start := Nat.findGreatest (fun i => pattern <+: text.drop i) (min position text.length)
  if pattern <+: text.drop start then some start else none

def afterFinalSpace (name : Bytes) : Bytes :=
  match rfind name [32] name.length with
  | none => name
  | some finalSpace => name.drop (finalSpace + 1)

def afterPreviousSeparator (name : Bytes) : Bytes :=
  match rfind name (ascii "::") name.length with
  | none => name
  | some 0 => name
  | some finalSeparator =>
    match rfind name (ascii "::") (finalSeparator - 1) with
    | none => name
    | some previousSeparator => name.drop (previousSeparator + 2)

def shortFunctionName (fullName : Bytes) : Bytes :=
  afterPreviousSeparator (afterFinalSpace (fullName.takeWhile (· ≠ 40)))

structure LocalTime where
  year : ℕ
  month : ℕ
  day : ℕ
  hour : ℕ
  minute : ℕ
  second : ℕ
  microseconds : ℕ
  deriving DecidableEq, Repr

def padded (width n : ℕ) : Bytes := List.replicate (width - (TextCodec.decimal n).length) 48 ++ TextCodec.decimal n

def writeTimestamp (now : LocalTime) : Bytes :=
  TextCodec.decimal now.year ++ ascii "-" ++ padded 2 now.month ++ ascii "-" ++ padded 2 now.day ++ ascii "T" ++
    padded 2 now.hour ++ ascii ":" ++ padded 2 now.minute ++ ascii ":" ++ padded 2 now.second ++ ascii "." ++
    padded 6 now.microseconds

variable (doubleText : UInt64 → Bytes)

def writeRecord (now : LocalTime) (record : LogRecord) : Bytes :=
  writeTimestamp now ++ ascii " " ++ levelName record.level ++ ascii " " ++ shortFunctionName record.functionName ++
    ascii " " ++ output doubleText (writeFormattedMessage record.format record.arguments) ++ ascii "\n"

def writeDroppedRecords (now : LocalTime) (count : ℕ) : Bytes :=
  writeTimestamp now ++ ascii " WARNING" ++ ascii " AsyncFileLogger::run" ++ ascii " Dropped log records count=" ++
    TextCodec.decimal count ++ ascii "\n"

def writeLine (now : LocalTime) : Line LogRecord → Bytes
  | .record record => writeRecord doubleText now record
  | .dropped count => writeDroppedRecords now count

/-- What is added to the file; line number `n` is written at the time `clock n`. -/
def fileText (clock : ℕ → LocalTime) (lines : List (Line LogRecord)) : Bytes :=
  (lines.mapIdx fun n line => writeLine doubleText (clock n) line).flatten

end AsyncFileLogger

end Sixchange
