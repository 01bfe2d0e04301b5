import Hpack.Limits
import Hpack.Width

namespace Hpack

-- What octets are taken from.
inductive Supply
  | buffer
  | stream
  deriving DecidableEq

-- The causes of failure.
inductive Fault
  | invalidWidth (given : Width.Candidate)
  | insufficient (supply : Supply)
  | tooManyOctets
  | overflow (value : Nat)
  | invalidIndex (index : Int)
  | negativePosition
  | negativeValue
  | misplacedFlags (flags : Int) (width : Width)
  | oversized
  | unwritable
  | device (message : String)
  deriving DecidableEq

namespace Fault

-- The numbers that a message holds in decimal.
def numbers : Fault → List Int
  | invalidWidth (.whole n) => [n]
  | overflow value          => [value]
  | invalidIndex index      => [index]
  | misplacedFlags _ w      => [w.bits]
  | _                       => []

def Tellable (fault : Fault) : Prop :=
  ∀ n ∈ fault.numbers, Numeral.Writable .decimal n

instance {fault : Fault} : Decidable fault.Tellable :=
  inferInstanceAs (Decidable (∀ n ∈ fault.numbers, Numeral.Writable .decimal n))

-- A fault is put into words as it comes up. If one of its numbers is too long for that, this is what
-- is told instead.
def raised (fault : Fault) : Fault :=
  if fault.Tellable then fault else unwritable

def message : Fault → String
  | invalidWidth given   => "HPACK integer: invalid prefix width " ++ given.written
  | insufficient .buffer => "HPACK integer: not enough octets"
  | insufficient .stream => "HPACK integer: stream ended"
  | tooManyOctets        => "HPACK integer: too many octets"
  | overflow value       => "HPACK integer: value " ++ Numeral.decimal value ++ " exceeds 32 bits"
  | invalidIndex index   => "Static table index out of range: " ++ Numeral.decimal index
  | negativePosition     => "Cannot seek to a negative position"
  | negativeValue        => "Cannot encode negative value as HPACK integer"
  | misplacedFlags flags w =>
    "Flags 0x" ++ String.ofList (Numeral.padded .hexadecimal 2 flags) ++
      " do not fit above a " ++ Numeral.decimal w.bits ++ "-bit prefix"
  | oversized            => "byte must be in range(0, 256)"
  | unwritable           =>
    "Exceeds the limit (4300 digits) for integer string conversion; " ++
      "use sys.set_int_max_str_digits() to increase the limit"
  | device message       => message

-- A fault without its circumstances.
inductive Kind
  | invalidWidth
  | insufficient
  | tooManyOctets
  | overflow
  | invalidIndex
  | invalidArgument
  | device
  deriving DecidableEq

def kind : Fault → Kind
  | invalidWidth _     => .invalidWidth
  | insufficient _     => .insufficient
  | tooManyOctets      => .tooManyOctets
  | overflow _         => .overflow
  | invalidIndex _     => .invalidIndex
  | negativePosition   => .invalidArgument
  | negativeValue      => .invalidArgument
  | misplacedFlags _ _ => .invalidArgument
  | oversized          => .invalidArgument
  | unwritable         => .invalidArgument
  | device _           => .device

variable {fault : Fault}

theorem raised_of_tellable (h : fault.Tellable) : fault.raised = fault :=
  if_pos h

theorem raised_of_not_tellable (h : ¬fault.Tellable) : fault.raised = unwritable :=
  if_neg h

-- What is told in place of a long number holds no number itself.
theorem tellable_raised (fault : Fault) : fault.raised.Tellable := by
  by_cases h : fault.Tellable
  case pos => rwa [raised_of_tellable h]
  case neg =>
    rw [raised_of_not_tellable h]
    exact List.forall_mem_nil _

@[simp]
theorem tellable_invalidWidth {n : Int} :
    (invalidWidth (.whole n)).Tellable ↔ Numeral.Writable .decimal n :=
  List.forall_mem_singleton

@[simp]
theorem tellable_overflow {value : Nat} :
    (overflow value).Tellable ↔ Numeral.Writable .decimal value :=
  List.forall_mem_singleton

@[simp]
theorem tellable_invalidIndex {index : Int} :
    (invalidIndex index).Tellable ↔ Numeral.Writable .decimal index :=
  List.forall_mem_singleton

theorem raised_invalidIndex {index : Int} : (invalidIndex index).raised =
    if Numeral.Writable .decimal index then invalidIndex index else unwritable := by
  simp only [raised, tellable_invalidIndex]

end Fault

def Width.ofCandidate (given : Candidate) : Except Fault Width :=
  match given.width? with
  | some w => .ok w
  | none   => .error (Fault.invalidWidth given).raised

end Hpack
