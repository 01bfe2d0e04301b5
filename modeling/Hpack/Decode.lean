import Hpack.Buffer
import Hpack.Decoder

namespace Hpack

-- The integer at an offset together with the offset of what follows it.
def decode (octets : List UInt8) (given : Width.Candidate) (offset : Int) :
    Except Fault (Nat × Nat) := do
  let b ← Buffer.start octets offset
  match Decoder.read given b with
  | .ok value rest => .ok (value, rest.position)
  | .error fault _ => .error fault

variable {b b' : Buffer} {value : Nat}

theorem Decoder.le_position_of_continuation {start index left : Nat}
    (h : continuation start index left b = .ok value b') : b.position ≤ b'.position := by
  induction left generalizing b start index
  case zero => contradiction
  case succ hi =>
    cases hp : Source.pull b
    case error => simp [continuation_of_fault hp] at h
    case ok =>
      rw [continuation_of_pull hp] at h
      have := Buffer.position_of_pull hp
      split at h
      · have := hi h
        omega
      · split at h
        · contradiction
        · injection h with _ h
          simp_all

theorem Decoder.lt_position_of_integer {w : Width} (h : integer w b = .ok value b') :
    b.position < b'.position := by
  cases hp : Source.pull b
  case error => simp [integer_of_fault hp] at h
  case ok =>
    rw [integer_of_pull hp] at h
    have := Buffer.position_of_pull hp
    split at h
    · injection h with _ h
      simp_all
    · have := le_position_of_continuation h
      omega

-- An integer takes at least one octet.
theorem lt_of_decode {octets : List UInt8} {given : Width.Candidate} {offset next : Nat}
    (h : decode octets given offset = .ok (value, next)) : offset < next := by
  simp only [decode, Buffer.start_natural, bind, Except.bind] at h
  split at h
  · rename_i h'
    cases hw : Width.ofCandidate given
    case error => simp [Decoder.read_of_invalid hw] at h'
    case ok =>
      rw [Decoder.read_eq_integer hw] at h'
      have := Decoder.lt_position_of_integer h'
      simp_all
  · contradiction

end Hpack
