import Hpack.CommandLine.Command
import Hpack.CommandLine.Device

namespace Hpack
namespace CommandLine

-- The events that are worth a line to whoever looks for a problem.
inductive Event
  | encoded (value : Int) (width : Width.Candidate) (length : Nat)
  | received (count : Nat) (device : String)
  | overflow (value : Nat)
  | unterminated
  deriving DecidableEq

namespace Event

def source : Event → String
  | encoded ..   => "hpack_tool"
  | received ..  => "hpack_tool"
  | overflow _   => "hpack_int.integers"
  | unterminated => "hpack_int.integers"

def message : Event → String
  | encoded value width length =>
    "Encoded " ++ Numeral.decimal value ++ " with " ++ width.written ++ "-bit prefix into " ++
      Numeral.decimal length ++ " octets"
  | received count device => "Read " ++ Numeral.decimal count ++ " octets from " ++ device
  | overflow value        => "HPACK integer overflow: " ++ Numeral.decimal value
  | unterminated =>
    "HPACK integer not terminated after " ++ Numeral.decimal maxContinuation ++
      " continuation octets"

def line (e : Event) : String :=
  "DEBUG " ++ e.source ++ ": " ++ e.message

-- Only integers that no more octets can mend are an event of their own.
def ofFault : Fault → List Event
  | .overflow value => [overflow value]
  | .tooManyOctets  => [unterminated]
  | _               => []

end Event

-- How a run ends. A command line that is refused is told apart from a command that fails, and from one
-- that comes to an end which is not provided for. What is written in these cases and for help (usage,
-- traces and descriptions of options) is left out.
inductive Status
  | success
  | failure
  | helped (topic : Topic)
  | refused (complaint : Complaint)
  | crashed
  deriving DecidableEq

def Status.code : Status → Nat
  | success   => 0
  | failure   => 1
  | helped _  => 0
  | refused _ => 2
  | crashed   => 1

-- What a run of the program comes to.
structure Report where
  status : Status
  output : List String := []
  log    : List Event := []
  device : Option Device.Usage := none

namespace Report

-- The text of lines that are written one after the other.
def text (lines : List String) : String :=
  String.join (lines.map (· ++ "\n"))

def stdout (r : Report) : String :=
  text r.output

def stderr (r : Report) : String :=
  text (r.log.map Event.line)

end Report
end CommandLine
end Hpack
