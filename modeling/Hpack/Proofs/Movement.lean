import Hpack.Proofs.Decode

namespace Hpack

open Grammar

namespace Grammar.Begins

variable {w : Width} {octets : List UInt8} {value count : Nat}

-- Four groups of seven bits cannot exceed 32 bits, whatever the prefix adds to them.
theorem count_of_excessive (h : Begins w octets (.excessive value count)) : count = 5 := by
  cases h
  case excessive more rest _ _ hl hv =>
    by_contra hn
    have := w.pow_bits_le
    have hb : number more < 128 ^ 4 :=
      Nat.lt_of_lt_of_le number_lt (Nat.pow_le_pow_right (by decide) (by omega))
    omega

theorem count_of_ended (h : Begins w octets (.ended value count)) : 1 ≤ count ∧ count ≤ 5 := by
  cases h
  case ended he hl _ => exact ⟨he.length_pos, hl⟩

end Grammar.Begins

namespace Buffer

-- A buffer of which it is known where octets have been asked for.
structure Watched where
  buffer : Buffer
  asked  : List Nat := []

namespace Watched

def pull : EStateM Fault Watched UInt8 := fun s =>
  let asked := s.asked ++ [s.buffer.position]
  match Buffer.pull s.buffer with
  | .ok octet buffer    => .ok octet { buffer, asked }
  | .error fault buffer => .error fault { buffer, asked }

instance : Source Watched where
  pull := pull

-- A buffer after some requests at one position after the other, of which a number has brought an octet.
def after (s : Watched) (taken requests : Nat) : Watched where
  buffer := { s.buffer with position := s.buffer.position + taken }
  asked  := s.asked ++ List.range' s.buffer.position requests

variable {s : Watched} {octet : UInt8} {octets rest : List UInt8} {w : Width} {form : Form}

theorem after_after {taken taken' requests' : Nat} :
    (s.after taken taken).after taken' requests' = s.after (taken + taken') (taken + requests') := by
  simp [after, Nat.add_assoc]

theorem pull_of_cons (h : s.buffer.octets.drop s.buffer.position = octet :: rest) :
    Source.pull s = .ok octet (s.after 1 1) := by
  have hp : Buffer.pull s.buffer = _ := Buffer.pull_of_cons h
  simp [Source.pull, pull, hp, after]

theorem pull_of_nil (h : s.buffer.octets.drop s.buffer.position = []) :
    Source.pull s = .error (.insufficient .buffer) (s.after 0 1) := by
  have hp : Buffer.pull s.buffer = _ := Buffer.pull_of_nil h
  simp [Source.pull, pull, hp, after]

theorem delivers (h : s.buffer.octets.drop s.buffer.position = octets ++ rest) :
    Delivers s octets (s.after octets.length octets.length) := by
  induction octets generalizing s
  case nil => exact (show s = s.after 0 0 by simp [after]) ▸ .nil
  case cons octet octets hi =>
    have hd : (s.after 1 1).buffer.octets.drop (s.after 1 1).buffer.position = octets ++ rest := by
      rw [after, ← List.drop_drop, h]
      rfl
    have hd := hi hd
    rw [after_after, Nat.add_comm 1] at hd
    exact .cons (pull_of_cons h) hd

theorem delivers_of_begins (h : Begins w (s.buffer.octets.drop s.buffer.position) form) :
    Delivers s ((s.buffer.octets.drop s.buffer.position).take form.length)
      (s.after form.length form.length) := by
  have hd := delivers (List.take_append_drop form.length (s.buffer.octets.drop s.buffer.position)).symm
  rwa [List.length_take_of_le h.length_le] at hd

theorem read_of_begins (h : Begins w (s.buffer.octets.drop s.buffer.position) form)
    (hs : ¬form.Starved) :
    Decoder.read (.whole w.bits) s =
      leaving (s.after form.length form.length) (form.verdict (.insufficient .buffer)) :=
  Decoder.read_of_begins h (delivers_of_begins h) (.of_not_starved hs)

-- The last request is made behind the end.
theorem read_of_starved (h : Begins w (s.buffer.octets.drop s.buffer.position) form)
    (hs : form.Starved) :
    Decoder.read (.whole w.bits) s =
      leaving (s.after form.length (form.length + 1)) (form.verdict (.insufficient .buffer)) := by
  have hn : (s.after form.length form.length).buffer.octets.drop
      (s.after form.length form.length).buffer.position = [] := by
    rw [after, ← List.drop_drop, ← h.length_of_starved hs, List.drop_length]
  have hp := pull_of_nil hn
  rw [after_after, Nat.add_zero] at hp
  exact Decoder.read_of_begins h (delivers_of_begins h) (.of_starved hs hp)

end Watched

-- How reading ends, the position it leaves and the number of requests it has made.
inductive Movement (b : Buffer) : Width.Candidate → Except Fault Nat → Nat → Nat → Prop
  | invalid {given} :
    (¬∃ w : Width, given = .whole w.bits) →
    Movement b given (.error (Fault.invalidWidth given).raised) b.position 0
  | direct {w value} :
    Begins w (b.octets.drop b.position) (.direct value) →
    Movement b (.whole w.bits) (.ok value) (b.position + 1) 1
  | ended {w value count} :
    Begins w (b.octets.drop b.position) (.ended value count) → 1 ≤ count → count ≤ 5 →
    Movement b (.whole w.bits) (.ok value) (b.position + (1 + count)) (1 + count)
  | excessive {w value} :
    Begins w (b.octets.drop b.position) (.excessive value 5) →
    Movement b (.whole w.bits) (.error (.overflow value)) (b.position + 6) 6
  | endless {w} :
    Begins w (b.octets.drop b.position) .endless →
    Movement b (.whole w.bits) (.error .tooManyOctets) (b.position + 6) 6
  | starved {w form} :
    Begins w (b.octets.drop b.position) form → form.Starved →
    max b.position b.octets.length ≤ b.position + 5 →
    Movement b (.whole w.bits) (.error (.insufficient .buffer)) (max b.position b.octets.length)
      (max b.position b.octets.length - b.position + 1)

variable {b : Buffer} {w : Width} {form : Form}

theorem movement_of_begins (h : Begins w (b.octets.drop b.position) form) (hs : ¬form.Starved) :
    Movement b (.whole w.bits) (form.verdict (.insufficient .buffer)) (b.position + form.length)
      form.length := by
  cases form
  case absent | cut => simp [Form.Starved] at hs
  case direct => exact .direct h
  case ended => exact .ended h h.count_of_ended.left h.count_of_ended.right
  case excessive =>
    cases h.count_of_excessive
    exact .excessive h
  case endless => exact .endless h

theorem movement_of_starved (h : Begins w (b.octets.drop b.position) form) (hs : form.Starved) :
    Movement b (.whole w.bits) (form.verdict (.insufficient .buffer)) (b.position + form.length)
      (form.length + 1) := by
  have hl := h.length_of_starved hs
  have hn := h.length_lt_of_starved hs
  rw [List.length_drop] at hl
  have hp : b.position + form.length = max b.position b.octets.length := by omega
  have hr : form.length = max b.position b.octets.length - b.position := by omega
  rw [form.verdict_of_starved hs, hp, hr]
  exact .starved h hs (by omega)

-- Where reading leaves the position only depends on how it ends, and the octets are left as they are.
-- Requests are made for the octets of the integer and for no others, up to the sixth one.
theorem read_movement (given : Width.Candidate) (b : Buffer) :
    ∃ outcome position requests,
      Movement b given outcome position requests ∧
      requests ≤ 6 ∧
      Decoder.read given b = leaving { b with position } outcome ∧
      Decoder.read given (Watched.mk b []) =
        leaving (Watched.mk { b with position } (List.range' b.position requests)) outcome := by
  cases hw : Width.ofCandidate given
  case error fault =>
    cases Width.eq_raised_of_ofCandidate hw
    exact ⟨_, _, _, .invalid (Width.not_whole_of_invalid hw), Nat.zero_le 6,
      Decoder.read_of_invalid hw, Decoder.read_of_invalid hw⟩
  case ok w =>
    cases Width.ofCandidate_eq_ok_iff.mp hw
    have ⟨form, hb⟩ := Begins.exists_form w (b.octets.drop b.position)
    by_cases hs : form.Starved
    case pos =>
      exact ⟨_, _, _, movement_of_starved hb hs, hb.length_lt_of_starved hs, read_of_begins hb,
        Watched.read_of_starved hb hs⟩
    case neg =>
      exact ⟨_, _, _, movement_of_begins hb hs, hb.form_length_le, read_of_begins hb,
        Watched.read_of_begins hb hs⟩

end Buffer
end Hpack
