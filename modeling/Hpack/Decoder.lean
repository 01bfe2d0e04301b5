import Hpack.Source

namespace Hpack
namespace Decoder

variable {σ : Type} [Source σ]

-- The value once a continuation octet has been taken which follows `index` others. Groups of seven
-- bits come in with the least significant one first.
def absorb (value index : Nat) (octet : UInt8) : Nat :=
  value + ((octet.toNat &&& 0x7F) <<< (7 * index))

def continues (octet : UInt8) : Bool :=
  octet &&& 0x80 ≠ 0

-- Takes at most `left` more continuation octets. An integer is judged by its range when its last
-- octet is there, and it is refused for its length before another octet is asked for. As there are so
-- few of them, their value is never too long to be told.
def continuation (value index : Nat) : (left : Nat) → EStateM Fault σ Nat
  | 0 => throw .tooManyOctets
  | left + 1 => do
    let octet ← Source.pull
    let value := absorb value index octet
    if continues octet then
      continuation value (index + 1) left
    else if maxValue < value then
      throw (.overflow value)
    else
      return value

-- A prefix that is not all ones is the integer itself.
def integer (w : Width) : EStateM Fault σ Nat := do
  let octet ← Source.pull
  let value := octet.toNat &&& w.mask
  if value < w.mask then
    return value
  else
    continuation value 0 maxContinuation

-- The width is judged before any octet is taken.
def read (given : Width.Candidate) : EStateM Fault σ Nat :=
  match Width.ofCandidate given with
  | .ok w        => integer w
  | .error fault => throw fault

variable {s s' : σ} {octet : UInt8} {fault : Fault} {w : Width} {value index left : Nat}

theorem continuation_of_fault (h : Source.pull s = .error fault s') :
    continuation value index (left + 1) s = .error fault s' := by
  simp [continuation, bind, EStateM.bind, h]

theorem continuation_of_pull (h : Source.pull s = .ok octet s') :
    continuation value index (left + 1) s =
      if continues octet then
        continuation (absorb value index octet) (index + 1) left s'
      else if maxValue < absorb value index octet then
        .error (.overflow (absorb value index octet)) s'
      else
        .ok (absorb value index octet) s' := by
  simp only [continuation, bind, EStateM.bind, h]
  split
  · rfl
  · split <;> rfl

theorem integer_of_fault (h : Source.pull s = .error fault s') :
    integer w s = .error fault s' := by
  simp [integer, bind, EStateM.bind, h]

theorem integer_of_pull (h : Source.pull s = .ok octet s') :
    integer w s =
      if octet.toNat &&& w.mask < w.mask then
        .ok (octet.toNat &&& w.mask) s'
      else
        continuation (octet.toNat &&& w.mask) 0 maxContinuation s' := by
  simp only [integer, bind, EStateM.bind, h]
  split <;> rfl

theorem read_eq_integer {given : Width.Candidate} (h : Width.ofCandidate given = .ok w) :
    read given s = integer w s := by
  simp [read, h]

theorem read_of_invalid {given : Width.Candidate} (h : Width.ofCandidate given = .error fault) :
    read given s = .error fault s := by
  simp only [read, h]
  rfl

end Decoder
end Hpack
