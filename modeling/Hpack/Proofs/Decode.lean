import Hpack.Decode
import Hpack.Proofs.Decoder

namespace Hpack

open Grammar

namespace Buffer

variable {b : Buffer} {octet : UInt8} {octets rest : List UInt8}

theorem pull_of_cons (h : b.octets.drop b.position = octet :: rest) :
    Source.pull b = .ok octet { b with position := b.position + 1 } := by
  have hg : b.octets[b.position]? = some octet := by
    rw [← List.head?_drop, h, List.head?_cons]
  simp [Source.pull, pull, hg]

theorem pull_of_nil (h : b.octets.drop b.position = []) :
    Source.pull b = .error (.insufficient .buffer) b := by
  have hg : b.octets[b.position]? = none := by
    rw [← List.head?_drop, h, List.head?_nil]
  simp [Source.pull, pull, hg]

theorem delivers (h : b.octets.drop b.position = octets ++ rest) :
    Delivers b octets { b with position := b.position + octets.length } := by
  induction octets generalizing b
  case nil => exact .nil
  case cons octet octets hi =>
    let b' : Buffer := { b with position := b.position + 1 }
    have h' : b'.octets.drop b'.position = octets ++ rest := by
      rw [← List.drop_drop, h]
      rfl
    have hd := hi h'
    rw [Nat.add_right_comm] at hd
    exact .cons (pull_of_cons h) hd

variable {w : Width} {form : Form}

-- In memory, the octets that are taken are those from the position on.
theorem read_of_begins (h : Begins w (b.octets.drop b.position) form) :
    Decoder.read (.whole w.bits) b =
      leaving { b with position := b.position + form.length }
        (form.verdict (.insufficient .buffer)) := by
  have hd := delivers (List.take_append_drop form.length (b.octets.drop b.position)).symm
  rw [List.length_take_of_le h.length_le] at hd
  refine Decoder.read_of_begins h hd ⟨fun hs => ?starved, fun _ => rfl⟩
  case starved =>
    apply pull_of_nil
    rw [← List.drop_drop, ← h.length_of_starved hs, List.drop_length]

end Buffer

variable {octets : List UInt8} {w : Width} {offset : Nat} {form : Form}

theorem decode_of_begins (h : Begins w (octets.drop offset) form) :
    decode octets (.whole w.bits) offset =
      (form.verdict (.insufficient .buffer)).map fun value => (value, offset + form.length) := by
  have hr := Buffer.read_of_begins (b := ⟨octets, offset⟩) h
  simp only [decode, Buffer.start_natural, bind, Except.bind, hr]
  cases form.verdict (.insufficient .buffer) <;> rfl

-- The offset is judged first, and the width before there is any octet.
theorem decode_of_negative {given : Width.Candidate} {offset : Int} (h : offset < 0) :
    decode octets given offset = .error .negativePosition := by
  rw [decode, Buffer.start, Buffer.seek, if_pos h]
  rfl

theorem decode_of_invalid {given : Width.Candidate} {fault : Fault}
    (h : Width.ofCandidate given = .error fault) : decode octets given offset = .error fault := by
  simp only [decode, Buffer.start_natural, bind, Except.bind, Decoder.read_of_invalid h]

theorem decode_eq_ok_iff {value next : Nat} :
    decode octets (.whole w.bits) offset = .ok (value, next) ↔
      ∃ form, Begins w (octets.drop offset) form ∧
        form.verdict (.insufficient .buffer) = .ok value ∧ next = offset + form.length where
  mp h := by
    have ⟨form, hb⟩ := Begins.exists_form w (octets.drop offset)
    rw [decode_of_begins hb] at h
    cases hv : form.verdict (.insufficient .buffer) <;> rw [hv] at h <;> cases h
    exact ⟨form, hb, hv, rfl⟩
  mpr := fun ⟨_, hb, hv, hn⟩ => by rw [decode_of_begins hb, hv, hn]; rfl

theorem le_of_decode {value next : Nat} (h : decode octets (.whole w.bits) offset = .ok (value, next)) :
    next ≤ offset + 6 := by
  have ⟨form, hb, _, hn⟩ := decode_eq_ok_iff.mp h
  have := hb.form_length_le
  omega

theorem kind_of_decode {fault : Fault} (h : decode octets (.whole w.bits) offset = .error fault) :
    fault.kind ∈ [.insufficient, .tooManyOctets, .overflow] := by
  have ⟨form, hb⟩ := Begins.exists_form w (octets.drop offset)
  rw [decode_of_begins hb] at h
  cases hv : form.verdict (.insufficient .buffer) <;> rw [hv] at h <;> cases h
  exact form.kind_of_verdict hv

-- What stands before an integer does not matter.
theorem decode_drop (octets : List UInt8) (w : Width) (offset : Nat) :
    decode octets (.whole w.bits) offset =
      (decode (octets.drop offset) (.whole w.bits) (0 : Nat)).map
        fun (value, next) => (value, offset + next) := by
  have ⟨form, hb⟩ := Begins.exists_form w (octets.drop offset)
  have hd : decode (octets.drop offset) (.whole w.bits) (0 : Nat) = _ := decode_of_begins hb
  rw [decode_of_begins hb, hd]
  cases form.verdict (.insufficient .buffer) <;> simp [Except.map]

theorem decode_drop_of_error {fault : Fault} :
    decode (octets.drop offset) (.whole w.bits) (0 : Nat) = .error fault ↔
      decode octets (.whole w.bits) offset = .error fault := by
  rw [decode_drop octets w offset]
  cases decode (octets.drop offset) (.whole w.bits) (0 : Nat) <;> simp [Except.map]

-- Octets begin in exactly one form, which says what decoding them comes to. The integers that are
-- accepted are those in the prefix and those whose continuation ends within the limits.
theorem decode_decided_by_form (octets : List UInt8) (w : Width) (offset : Nat) :
    (∃! form, Begins w (octets.drop offset) form) ∧
    (∀ form, Begins w (octets.drop offset) form →
      decode octets (.whole w.bits) offset =
        (form.verdict (.insufficient .buffer)).map fun value => (value, offset + form.length)) ∧
    (∀ value count, Begins w (octets.drop offset) (.excessive value count) →
      ∃ fault, decode octets (.whole w.bits) offset = .error fault ∧ fault.kind = .overflow ∧
        fault.message = "HPACK integer: value " ++ Numeral.decimal value ++ " exceeds 32 bits") ∧
    (∀ value next, decode octets (.whole w.bits) offset = .ok (value, next) ↔
      (Begins w (octets.drop offset) (.direct value) ∧ next = offset + 1) ∨
      (∃ count, Begins w (octets.drop offset) (.ended value count) ∧ next = offset + (1 + count))) := by
  refine ⟨?unique, fun _ => decode_of_begins, ?overflow, fun value next => ?accepted⟩
  case unique =>
    have ⟨form, hb⟩ := Begins.exists_form w (octets.drop offset)
    exact ⟨form, hb, fun _ => (·.unique hb)⟩
  case overflow =>
    intro value count hb
    exact ⟨.overflow value, decode_of_begins hb, rfl, rfl⟩
  case accepted =>
    rw [decode_eq_ok_iff]
    constructor
    case mp =>
      rintro ⟨form, hb, hv, hn⟩
      cases form <;> cases hv
      case direct => exact .inl ⟨hb, hn⟩
      case ended => exact .inr ⟨_, hb, hn⟩
    case mpr =>
      rintro (⟨hb, hn⟩ | ⟨count, hb, hn⟩)
      · exact ⟨_, hb, rfl, hn⟩
      · exact ⟨_, hb, rfl, hn⟩

end Hpack
