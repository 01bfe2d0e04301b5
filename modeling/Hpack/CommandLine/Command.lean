import Hpack.CommandLine.Arguments
import Hpack.Decimal.Reader
import Hpack.Numeral.Reader
import Hpack.Width

namespace Hpack
namespace CommandLine

-- What help is about: the program as a whole, or one of its commands.
inductive Topic
  | program
  | encode
  | decode
  | table
  deriving DecidableEq

-- What the program can be asked for. Numbers are as they were given, so a width or an index may be
-- out of range. What has been set to nothing is missing.
inductive Command
  | help (topic : Topic)
  | encode (value : Int) (width : Width.Candidate) (flags : Option Int)
  | decode (hex : List Char) (width : Width.Candidate)
  | receive (device : List Char) (width : Width.Candidate) (baudrate : Option Int)
      (timeout : Option Float)
  | table
  | entry (index : Int)

-- Why a command line is refused.
inductive Complaint
  | arguments
  | nothingToDecode
  deriving DecidableEq

def Complaint.message : Complaint → String
  | arguments       => "the arguments do not make up a command"
  | nothingToDecode => "decode needs hex octets or --port"

namespace Command

def helpSpellings : List Spelling := [
  ⟨"-h".toList, .help⟩,
  ⟨"--help".toList, .help⟩
]

def widthSpellings : List Spelling := [
  ⟨"--prefix".toList, .width⟩,
  ⟨"-n".toList, .width⟩
]

def encodeSpellings : List Spelling :=
  helpSpellings ++ widthSpellings ++ [
    ⟨"--flags".toList, .flags⟩,
    ⟨"-f".toList, .flags⟩
  ]

def decodeSpellings : List Spelling :=
  helpSpellings ++ widthSpellings ++ [
    ⟨"--port".toList, .device⟩,
    ⟨"-p".toList, .device⟩,
    ⟨"--baudrate".toList, .baudrate⟩,
    ⟨"--timeout".toList, .timeout⟩
  ]

-- What cannot be read makes the whole command line unusable.
def orRefuse {α : Type} : Option α → Except Complaint α
  | none   => .error .arguments
  | some a => .ok a

-- Once the arguments have been read, help wins over everything that is missing or left over.
def unlessHelp (topic : Topic) (a : Arguments) (command : Except Complaint Command) :
    Except Complaint Command :=
  if a.help then .ok (help topic)
  else if a.surplus then .error .arguments
  else command

def readWidth (a : Arguments) : Except Complaint Width.Candidate := do
  match ← orRefuse (a.setting? .width Numeral.readDecimal 8) with
  | some width => return .whole width
  | none       => return .empty

def readEncode (a : Arguments) : Except Complaint Command := do
  let value ← orRefuse (a.operand.mapM Numeral.read)
  let width ← readWidth a
  let flags ← orRefuse (a.setting? .flags Numeral.read 0)
  unlessHelp .encode a <|
    match value with
    | some value => .ok (encode value width flags)
    | none       => .error .arguments

-- A device wins over octets, but one without a name is none.
def readDecode (a : Arguments) : Except Complaint Command := do
  let width ← readWidth a
  let device ← orRefuse (a.setting? .device some [])
  let baudrate ← orRefuse (a.setting? .baudrate Numeral.readDecimal 115200)
  let timeout ← orRefuse (a.setting? .timeout Decimal.readFloat 5)
  unlessHelp .decode a <|
    match device.getD [], a.operand with
    | [], some hex => .ok (decode hex width)
    | [], none     => .error .nothingToDecode
    | name, _      => .ok (receive name width baudrate timeout)

def readTable (a : Arguments) : Except Complaint Command := do
  let index ← orRefuse (a.operand.mapM Numeral.readDecimal)
  unlessHelp .table a <|
    match index with
    | some index => .ok (entry index)
    | none       => .ok table

-- The command of a name, by the words that follow it.
def ofTexts (name : List Char) (texts : List (List Char)) : Except Complaint Command :=
  if name = "encode".toList then
    orRefuse (Arguments.ofTexts? encodeSpellings texts) >>= readEncode
  else if name = "decode".toList then
    orRefuse (Arguments.ofTexts? decodeSpellings texts) >>= readDecode
  else if name = "table".toList then
    orRefuse (Arguments.ofTexts? helpSpellings texts) >>= readTable
  else
    throw .arguments

end Command

-- A command together with the wish to see what is logged.
structure Invocation where
  verbose : Bool
  command : Command

namespace Invocation

def spellings : List Spelling :=
  Command.helpSpellings ++ [⟨"--verbose".toList, .verbose⟩]

-- Options that concern all commands come before the name of the command. Still, no word behind it
-- may be taken for more than one of them. An unknown option only passes if help is asked for.
def ofTexts (texts : List (List Char)) : Except Complaint Invocation :=
  match Word.ofTexts? spellings texts with
  | none   => .error .arguments
  | some _ => go texts
where
  go : List (List Char) → Except Complaint Invocation
    | [] => .error .arguments
    | t :: rest =>
      match Word.ofText? spellings t with
      | some (.value name)           => return ⟨false, ← Command.ofTexts name rest⟩
      | some (.option .verbose none) => return { ← go rest with verbose := true }
      | some (.option .help none)    => .ok ⟨false, .help .program⟩
      | some .unknown                =>
        match go rest with
        | .ok ⟨verbose, .help topic⟩ => .ok ⟨verbose, .help topic⟩
        | _                          => .error .arguments
      | _ => .error .arguments

end Invocation
end CommandLine
end Hpack
