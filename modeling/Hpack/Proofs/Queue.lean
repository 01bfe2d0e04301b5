import Hpack.Proofs.RoundTrip
import Hpack.Session

namespace Hpack

open Grammar

-- An integer that has been written: at which width it is, and how many octets it has taken.
structure Queue.Entry where
  value : Int
  given : Width.Candidate
  count : Nat

-- A buffer that integers are written to while others are read from it, with all that have been
-- written and read successfully so far.
structure Queue where
  session : Session
  written : List Queue.Entry := []
  taken   : List Nat := []

namespace Queue

inductive Move
  | write (value : Int) (given : Width.Candidate) (flags : Int)
  | read (spare : Width)

-- Reading starts behind all octets that are there already.
def start (junk : List UInt8) : Queue where
  session := { buffer := { octets := junk, position := junk.length } }

-- An integer is read at the width which it has been written at. If there is none to be read, any
-- width will do.
def nextWidth (q : Queue) (spare : Width) : Width.Candidate :=
  match q.written[q.taken.length]? with
  | some e => e.given
  | none   => .whole spare.bits

def step : Move → EStateM Fault Queue Nat
  | .write value given flags => fun q =>
    match Session.onOctets (Encoder.write value given flags) q.session with
    | .ok count session =>
      .ok count { q with session, written := q.written ++ [{ value, given, count }] }
    | .error fault session => .error fault { q with session }
  | .read spare => fun q =>
    match Session.onBuffer (Decoder.read (q.nextWidth spare)) q.session with
    | .ok value session    => .ok value { q with session, taken := q.taken ++ [value] }
    | .error fault session => .error fault { q with session }

-- Moves that fail do not end a run.
def run (q : Queue) (moves : List Move) : Queue :=
  moves.foldl move q
where
  move (q : Queue) (m : Move) : Queue :=
    match step m q with
    | .ok _ q'    => q'
    | .error _ q' => q'

-- What a successful write puts into the queue.
structure Item where
  width  : Width
  flags  : Nat
  value  : Nat
  le     : value ≤ 2 ^ 32 - 1
  admits : width.Admits flags

namespace Item

def octets (i : Item) : List UInt8 :=
  canonical i.width i.flags i.value

def entry (i : Item) : Entry where
  value := i.value
  given := .whole i.width.bits
  count := i.octets.length

end Item

-- The octets behind the junk are those of the items that have been read and of the items that are
-- still to be read, and the position is right between them.
structure Holds (junk : List UInt8) (done pending : List Item) (q : Queue) : Prop where
  written  : q.written = (done ++ pending).map Item.entry
  taken    : q.taken = done.map Item.value
  octets   : q.session.buffer.octets = junk ++ done.flatMap Item.octets ++ pending.flatMap Item.octets
  position : q.session.buffer.position = (junk ++ done.flatMap Item.octets).length

variable {junk : List UInt8} {done pending : List Item} {item : Item} {q q' : Queue}

theorem Item.octets_begin (i : Item) (rest : List UInt8) :
    ∃ form, Begins i.width (i.octets ++ rest) form ∧ form.length = i.octets.length ∧
      ∀ fault, form.verdict fault = .ok i.value :=
  (represents_canonical i.le).begins i.le i.admits rest

namespace Holds

theorem start (junk : List UInt8) : Holds junk [] [] (start junk) where
  written  := rfl
  taken    := rfl
  octets   := by simp [Queue.start]
  position := by simp [Queue.start]

theorem drop_position (h : Holds junk done pending q) :
    q.session.buffer.octets.drop q.session.buffer.position = pending.flatMap Item.octets := by
  rw [h.octets, h.position, List.drop_left]

theorem getElem?_written (h : Holds junk done pending q) :
    q.written[q.taken.length]? = pending.head?.map Item.entry := by
  rw [h.written, h.taken, List.length_map, List.map_append, List.getElem?_append_right (by simp)]
  cases pending <;> simp

theorem nextWidth_cons (h : Holds junk done (item :: pending) q) (spare : Width) :
    q.nextWidth spare = .whole item.width.bits := by
  rw [nextWidth, h.getElem?_written]
  rfl

theorem nextWidth_nil (h : Holds junk done [] q) (spare : Width) :
    q.nextWidth spare = .whole spare.bits := by
  rw [nextWidth, h.getElem?_written]
  rfl

-- A write that succeeds puts an item at the end, and one that fails changes nothing.
theorem write (h : Holds junk done pending q) (value : Int) (given : Width.Candidate) (flags : Int) :
    (∃ item count q', step (.write value given flags) q = .ok count q' ∧
      Holds junk done (pending ++ [item]) q') ∨
    ∃ fault, step (.write value given flags) q = .error fault q := by
  rcases Encoder.write_cases value given flags q.session.buffer.octets with
    ⟨w, v, f, rfl, rfl, hv, rfl, a, hw⟩ | ⟨fault, hw⟩
  · let item : Item := ⟨w, f, v, hv, a⟩
    refine .inl ⟨item, item.octets.length, _, by simp only [step, Session.onOctets, hw]; rfl, ?_⟩
    exact {
      written  := by simp [h.written]; rfl
      taken    := h.taken
      octets   := by simp [h.octets]; rfl
      position := h.position
    }
  · exact .inr ⟨fault, by simp only [step, Session.onOctets, hw]⟩

-- The item that has been there longest is read.
theorem read (h : Holds junk done (item :: pending) q) (spare : Width) :
    ∃ q', step (.read spare) q = .ok item.value q' ∧ Holds junk (done ++ [item]) pending q' := by
  have ⟨form, hb, hl, hv⟩ := item.octets_begin (pending.flatMap Item.octets)
  rw [← List.flatMap_cons, ← h.drop_position] at hb
  have hr := Buffer.read_of_begins hb
  rw [hv, hl, ← h.nextWidth_cons spare] at hr
  refine ⟨_, by simp only [step, Session.onBuffer, hr]; rfl, ?_⟩
  exact {
    written  := by simp [h.written]
    taken    := by simp [h.taken]
    octets   := by simp [h.octets]
    position := by simp [h.position]; omega
  }

theorem read_nil (h : Holds junk done [] q) (spare : Width) :
    step (.read spare) q = .error (.insufficient .buffer) q := by
  have hb : Begins spare (q.session.buffer.octets.drop q.session.buffer.position) .absent := by
    rw [h.drop_position]
    exact .absent
  have hr := Buffer.read_of_begins hb
  rw [← h.nextWidth_nil spare] at hr
  simp only [step, Session.onBuffer, hr]
  rfl

theorem values (h : Holds junk done pending q) :
    q.taken.map Int.ofNat <+: q.written.map Entry.value := by
  have hv : Entry.value ∘ Item.entry = Int.ofNat ∘ Item.value := rfl
  rw [h.taken, h.written, List.map_map, List.map_map, hv]
  exact (List.prefix_append done pending).map _

theorem position_eq (h : Holds junk done pending q) : q.session.buffer.position =
    junk.length + ((q.written.take q.taken.length).map Entry.count).sum := by
  have hd : q.written.take q.taken.length = done.map Item.entry := by
    simp [h.written, h.taken]
  have he : Entry.count ∘ Item.entry = List.length ∘ Item.octets := rfl
  rw [h.position, hd, List.map_map, he, List.length_append, List.length_flatMap]
  rfl

theorem read_fails_iff (h : Holds junk done pending q) (spare : Width) :
    (∃ fault q', step (.read spare) q = .error fault q') ↔ q.taken.length = q.written.length := by
  cases pending
  case nil => simp [h.read_nil spare, h.taken, h.written]
  case cons item pending =>
    have ⟨q', hr, _⟩ := h.read spare
    simp [hr, h.taken, h.written]

theorem of_read_fails {spare : Width} {fault : Fault} (h : Holds junk done pending q)
    (hr : step (.read spare) q = .error fault q') : fault = .insufficient .buffer ∧ q' = q := by
  cases pending
  case nil =>
    cases (h.read_nil spare).symm.trans hr
    exact ⟨rfl, rfl⟩
  case cons item pending =>
    have ⟨_, hs, _⟩ := h.read spare
    cases hs.symm.trans hr

theorem of_write_fails {value flags : Int} {given : Width.Candidate} {fault : Fault}
    (h : Holds junk done pending q) (hw : step (.write value given flags) q = .error fault q') :
    q' = q := by
  rcases h.write value given flags with ⟨_, _, _, hs, _⟩ | ⟨_, hs⟩ <;> cases hs.symm.trans hw
  rfl

-- A move either leaves the items as they are, adds one at the end or takes the first pending one, so
-- what holds of them at the start holds after any run.
theorem move (h : Holds junk done pending q) (m : Move) :
    ∃ done pending, Holds junk done pending (run.move q m) := by
  rw [run.move]
  cases m
  case write value given flags =>
    rcases h.write value given flags with ⟨_, _, _, hs, h'⟩ | ⟨_, hs⟩ <;> rw [hs]
    · exact ⟨_, _, h'⟩
    · exact ⟨_, _, h⟩
  case read spare =>
    cases pending
    case nil =>
      rw [h.read_nil spare]
      exact ⟨_, _, h⟩
    case cons =>
      have ⟨_, hs, h'⟩ := h.read spare
      rw [hs]
      exact ⟨_, _, h'⟩

theorem run (h : Holds junk done pending q) (moves : List Move) :
    ∃ done pending, Holds junk done pending (q.run moves) := by
  induction moves generalizing q done pending
  case nil => exact ⟨_, _, h⟩
  case cons m _ hi =>
    have ⟨_, _, h⟩ := h.move m
    exact hi h

end Holds

-- Integers come out of a shared buffer in the order in which they have been put into it, whatever
-- the order of reading and writing. Reading only fails when there is none left, and what fails
-- leaves everything as it is.
theorem fifo (junk : List UInt8) (moves : List Move) :
    let q := run (start junk) moves
    q.taken.map Int.ofNat <+: q.written.map Entry.value ∧
    q.session.buffer.position =
      junk.length + ((q.written.take q.taken.length).map Entry.count).sum ∧
    (∀ spare,
      ((∃ fault q', step (.read spare) q = .error fault q') ↔ q.taken.length = q.written.length) ∧
      ∀ fault q', step (.read spare) q = .error fault q' → fault = .insufficient .buffer ∧ q' = q) ∧
    (∀ value given flags fault q', step (.write value given flags) q = .error fault q' → q' = q) :=
  have ⟨_, _, h⟩ := Holds.start junk |>.run moves
  ⟨h.values, h.position_eq, fun spare => ⟨h.read_fails_iff spare, fun _ _ => h.of_read_fails⟩,
    fun _ _ _ _ _ => h.of_write_fails⟩

end Queue
end Hpack
