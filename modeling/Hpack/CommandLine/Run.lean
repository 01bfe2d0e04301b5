import Hpack.CommandLine.Report
import Hpack.Encoder
import Hpack.HeaderField
import Hpack.Segment

namespace Hpack
namespace CommandLine

def errorLine (fault : Fault) : String :=
  "Error: " ++ fault.message

def octetsLine (octets : List UInt8) : String :=
  String.ofList (Hex.spaced octets)

def segmentLine (s : Segment) : String :=
  Numeral.decimal s.value ++ "  (" ++ octetsLine s.octets ++ ")"

-- Indices are aligned to the right.
def fieldLine (index : Nat) (f : HeaderField) : String :=
  let digits := Numeral.write .decimal index
  let indent := List.replicate (2 - digits.length) ' '
  String.ofList (indent ++ digits) ++ "  " ++ f.name ++ ": " ++ f.value

-- Flags that have been set to nothing cannot be compared with numbers, which is not provided for. The
-- width and the value are judged before.
def runEncode (value : Int) (width : Width.Candidate) (flags : Option Int) : Report :=
  match flags with
  | none =>
    match encodedLength value width with
    | .error fault => { status := .failure, output := [errorLine fault] }
    | .ok _        => { status := .crashed }
  | some flags =>
    match Hpack.encode value width flags with
    | .error fault => { status := .failure, output := [errorLine fault] }
    | .ok octets   => {
        status := .success
        output := [octetsLine octets]
        log    := [.encoded value width octets.length]
      }

-- Octets that are no octets are reported as they were given. The width is judged even if there is
-- nothing to decode.
def runDecode (hex : List Char) (width : Width.Candidate) : Report :=
  match Hex.read hex with
  | none => { status := .failure, output := ["Error: Invalid hex string: " ++ String.ofList hex] }
  | some octets =>
    match Width.ofCandidate width with
    | .error fault => { status := .failure, output := [errorLine fault] }
    | .ok _ =>
      match segments octets width 0 with
      | (found, none)       => { status := .success, output := found.map segmentLine }
      | (found, some fault) => {
          status := .failure
          output := found.map segmentLine ++ [errorLine fault]
          log    := Event.ofFault fault
        }

-- What goes wrong with the device itself is told with its name.
def deviceErrorLine (name : String) : Fault → String
  | .device message => "Error opening " ++ name ++ ": " ++ message
  | fault           => errorLine fault

def runReceive (name : String) (width : Width.Candidate) (baudrate : Option Int)
    (timeout : Option Float) : Device → Report
  | .failing message => {
      status := .failure
      output := [deviceErrorLine name (.device message)]
      device := some { name, baudrate, timeout, requests := 0, closed := false }
    }
  | .refusing message => {
      status := .failure
      output := ["Error: " ++ message]
      device := some { name, baudrate, timeout, requests := 0, closed := false }
    }
  | .ready chunks =>
    let used (c : Connection) : Device.Usage :=
      { name, baudrate, timeout, requests := c.feed.requests, closed := c.closed }
    match Connection.within (Decoder.read width) { feed := { queue := chunks } } with
    | .ok value c => {
        status := .success
        output := [Numeral.decimal value]
        log    := [.received c.feed.consumed name]
        device := some (used c)
      }
    | .error fault c => {
        status := .failure
        output := [deviceErrorLine name fault]
        log    := Event.ofFault fault
        device := some (used c)
      }

def runEntry (index : Int) : Report :=
  match HeaderField.lookup index with
  | .error fault => { status := .failure, output := [errorLine fault] }
  | .ok f        => { status := .success, output := [fieldLine index.toNat f] }

def tableLines : List String :=
  HeaderField.table.mapIdx fun i f => fieldLine (i + 1) f

def Command.run (device : Device) : Command → Report
  | help topic                          => { status := .helped topic }
  | encode value width flags            => runEncode value width flags
  | decode hex width                    => runDecode hex width
  | receive name width baudrate timeout =>
    runReceive (String.ofList name) width baudrate timeout device
  | table                               => { status := .success, output := tableLines }
  | entry index                         => runEntry index

-- Without the wish to see the log there is none.
def run (arguments : List String) (device : Device) : Report :=
  match Invocation.ofTexts (arguments.map String.toList) with
  | .error complaint => { status := .refused complaint }
  | .ok invocation =>
    let report := invocation.command.run device
    if invocation.verbose then report else { report with log := [] }

end CommandLine
end Hpack
