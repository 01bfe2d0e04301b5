import Hpack.Decode

namespace Hpack

-- Reads an integer, or goes back to the start of it if it is not complete yet.
def Buffer.attempt (w : Width) : EStateM Fault Buffer Nat := do
  let mark := (← get).position
  try
    Decoder.read (.whole w.bits)
  catch fault =>
    if fault.kind = .insufficient then
      Buffer.seek mark
    throw fault

theorem Buffer.attempt_eq {w : Width} {b : Buffer} : attempt w b =
    match Decoder.read (.whole w.bits) b with
    | .ok value b'    => .ok value b'
    | .error fault b' =>
      .error fault (if fault.kind = .insufficient then { b' with position := b.position } else b') := by
  let restore (fault : Fault) : EStateM Fault Buffer Nat := do
    if fault.kind = .insufficient then
      Buffer.seek b.position
    throw fault
  have ha : attempt w b = (Decoder.read (.whole w.bits)).tryCatch restore b := rfl
  delta EStateM.tryCatch at ha
  rw [ha]
  cases Decoder.read (.whole w.bits) b
  case ok => rfl
  case error fault b' =>
    by_cases hk : fault.kind = .insufficient <;> simp only [hk, restore, if_true, if_false]
    case pos =>
      change EStateM.bind (seek b.position) (fun _ => throw fault) b' = _
      rw [EStateM.bind, seek_natural]
      rfl
    case neg => rfl

-- What decoding a number of integers comes to: each integer with the position behind it, the fault
-- which has ended it early, and the buffer it leaves.
structure Progress where
  values : List (Nat × Nat) := []
  fault  : Option Fault := none
  buffer : Buffer
  deriving DecidableEq

namespace Progress

def after (value : Nat × Nat) (p : Progress) : Progress :=
  { p with values := value :: p.values }

-- Decodes integers of given widths when all octets are there.
def oneShot (b : Buffer) : List Width → Progress
  | [] => { buffer := b }
  | w :: ws =>
    match decode b.octets (.whole w.bits) b.position with
    | .ok (value, next) => after (value, next) (oneShot { b with position := next } ws)
    | .error fault      => { fault := some fault, buffer := b }

-- Decodes integers of given widths while their octets arrive in chunks. An integer that is not
-- complete yet is read again from its start once there are more octets. A chunk is only waited for
-- if it is needed.
def arriving (b : Buffer) (widths : List Width) (chunks : List (List UInt8)) : Progress :=
  match widths with
  | [] => { buffer := b }
  | w :: ws =>
    match Buffer.attempt w b with
    | .ok value b' => after (value, b'.position) (arriving b' ws chunks)
    | .error (.insufficient supply) b' =>
      match chunks with
      | []            => { fault := some (.insufficient supply), buffer := b' }
      | chunk :: rest => arriving { b' with octets := b'.octets ++ chunk } (w :: ws) rest
    | .error fault b' => { fault := some fault, buffer := b' }
termination_by widths.length + chunks.length

end Progress
end Hpack
