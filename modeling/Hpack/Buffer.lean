import Hpack.Source

namespace Hpack

-- Octets in memory and the position of the next one to be taken. The position may lie beyond the
-- end, as the octets may be cut or may not have arrived yet.
@[ext]
structure Buffer where
  octets   : List UInt8
  position : Nat
  deriving DecidableEq

namespace Buffer

def pull : EStateM Fault Buffer UInt8 := fun b =>
  match b.octets[b.position]? with
  | some octet => .ok octet { b with position := b.position + 1 }
  | none       => .error (.insufficient .buffer) b

instance : Source Buffer where
  pull := pull

def remaining (b : Buffer) : Nat :=
  b.octets.length - b.position

-- Any position from zero on can be moved to, whether or not there is an octet.
def seek (position : Int) : EStateM Fault Buffer Unit := fun b =>
  if position < 0 then
    .error .negativePosition b
  else
    .ok () { b with position := position.toNat }

-- A buffer which is read from an offset on.
def start (octets : List UInt8) (offset : Int) : Except Fault Buffer :=
  match seek offset { octets, position := 0 } with
  | .ok _ b        => .ok b
  | .error fault _ => .error fault

theorem seek_natural {b : Buffer} {position : Nat} : seek position b = .ok () { b with position } := by
  simp [seek, Int.not_ofNat_neg]

theorem start_natural {octets : List UInt8} {offset : Nat} :
    start octets offset = .ok { octets, position := offset } := by
  rw [start, seek_natural]

variable {b b' : Buffer} {octet : UInt8}

theorem position_of_pull (h : Source.pull b = .ok octet b') : b'.position = b.position + 1 := by
  simp only [Source.pull, pull] at h
  split at h
  · injection h with _ h
    simp [← h]
  · contradiction

end Buffer
end Hpack
