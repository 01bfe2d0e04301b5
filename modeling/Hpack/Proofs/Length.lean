import Hpack.Proofs.Layout
import Hpack.RoundTrip

namespace Hpack

open Grammar

theorem Width.admits_zero (w : Width) : w.Admits 0 :=
  ⟨Nat.zero_le _, Nat.zero_and _⟩

namespace Encoder

-- The groups that are counted are those which are written.
theorem groups_eq (n : Nat) : groups n = (shortest n).length := by
  induction n using shortest.induct
  case case1 n h => rw [groups, if_pos h, shortest_of_lt h, List.length_singleton]
  case case2 n h hi =>
    rw [groups, if_neg h, shift_group, hi, shortest_of_le (Nat.not_lt.mp h), List.length_cons]

end Encoder

variable {w : Width} {v f : Nat}

theorem encodedLength_eq (h : v ≤ 2 ^ 32 - 1) (f : Nat) :
    encodedLength v (.whole w.bits) = .ok (canonical w f v).length := by
  simp only [encodedLength, Encoder.accept_bits h, bind, Except.bind, Width.mask_eq, canonical,
    Encoder.groups_eq]
  split
  · rfl
  · rw [List.length_cons, Nat.add_comm]
    rfl

-- An integer that has been written is as long as it is said to be, and it is read back to its end.
theorem roundTrip_eq (h : v ≤ 2 ^ 32 - 1) (a : w.Admits f) :
    roundTrip v (.whole w.bits) f = .ok {
      octets   := canonical w f v
      length   := (canonical w f v).length
      value    := v
      position := (canonical w f v).length
    } := by
  have hd := ((represents_canonical h).spells h a).value
  simp only [roundTrip, encode_eq h a, encodedLength_eq h f, bind, Except.bind, hd]
  rfl

variable {value flags : Int} {given : Width.Candidate} {fault : Fault}

theorem encodedLength_of_refused (h : Encoder.accept value given = .error fault) :
    encodedLength value given = .error fault := by
  rw [encodedLength, h]
  rfl

theorem encodedLength_of_refusal (r : Encoder.Refusal value 0 given fault) :
    encodedLength value given = .error fault := by
  cases r
  case width h       => exact encodedLength_of_refused (Encoder.accept_of_invalid h)
  case negative h    => exact encodedLength_of_refused (Encoder.accept_of_negative h)
  case overflow h    => exact encodedLength_of_refused (Encoder.accept_of_overflow h)
  case flags w _ _ h => exact absurd ⟨0, rfl, w.admits_zero⟩ h

-- The length is found without writing as it is found by writing without flags. In particular, what
-- cannot be measured is what cannot be written, and the reasons are the same.
theorem encodedLength_eq_map (value : Int) (given : Width.Candidate) :
    encodedLength value given = (encode value given 0).map List.length := by
  rcases Encoder.fits_or_refused value given 0 with ⟨w, v, f, rfl, rfl, hv, hf, a⟩ | ⟨fault, r⟩
  · rw [encodedLength_eq hv f, hf, encode_eq hv a]
    rfl
  · rw [encodedLength_of_refusal r, encode_of_refusal r]
    rfl

theorem encodedLength_eq_error_iff :
    encodedLength value given = .error fault ↔ Encoder.Refusal value 0 given fault := by
  rw [encodedLength_eq_map, ← encode_eq_error_iff]
  cases encode value given 0 <;> simp [Except.map]

theorem exists_of_encodedLength {length : Nat} (h : encodedLength value given = .ok length) :
    ∃ (w : Width) (v : Nat), given = .whole w.bits ∧ value = v ∧ v ≤ 2 ^ 32 - 1 ∧
      length = (canonical w 0 v).length := by
  rw [encodedLength_eq_map] at h
  cases he : encode value given 0 <;> rw [he] at h <;> cases h
  obtain ⟨w, v, f, rfl, rfl, hv, hf, -, rfl⟩ := encode_eq_ok_iff.mp he
  cases f <;> cases hf
  exact ⟨w, v, rfl, rfl, hv, rfl⟩

theorem roundTrip_eq_error_iff :
    roundTrip value given flags = .error fault ↔ encode value given flags = .error fault := by
  rcases Encoder.fits_or_refused value given flags with ⟨w, v, f, rfl, rfl, hv, rfl, a⟩ | ⟨_, r⟩
  · simp [roundTrip_eq hv a, encode_eq hv a]
  · simp [roundTrip, encode_of_refusal r, bind, Except.bind]

-- Whatever the flags, an integer is as long when it is written as it is said to be, and as it is found
-- to be when it is read.
theorem length_of_encode {octets : List UInt8} {length : Nat}
    (hl : encodedLength value given = .ok length) (he : encode value given flags = .ok octets) :
    octets.length = length ∧
    (∀ out, Encoder.write value given flags out = .ok length (out ++ octets)) ∧
    ∃ v : Nat, value = v ∧ decode octets given 0 = .ok (v, length) := by
  have hw := Encoder.write_eq_encode value given flags
  simp only [he] at hw
  obtain ⟨w, v, f, rfl, rfl, hv, rfl, a, rfl⟩ := encode_eq_ok_iff.mp he
  cases (encodedLength_eq hv f).symm.trans hl
  exact ⟨rfl, hw, v, rfl, ((represents_canonical hv).spells hv a).value⟩

theorem encodedLength_le {value' : Int} {n n' : Int} {length length' : Nat}
    (hv : value ≤ value') (hn : n' ≤ n) (h : encodedLength value (.whole n) = .ok length)
    (h' : encodedLength value' (.whole n') = .ok length') : length ≤ length' := by
  obtain ⟨w, v, hw, rfl, -, rfl⟩ := exists_of_encodedLength h
  obtain ⟨w', v', hw', rfl, -, rfl⟩ := exists_of_encodedLength h'
  cases hw
  cases hw'
  exact length_canonical_le (by omega) (by omega)

-- The length that is computed without writing is the length of what is written, what the writer counts
-- and where the reader ends. It fails as writing without flags does. Larger values are not shorter,
-- and wider prefixes make nothing longer.
theorem encodedLength_agrees (value : Int) (given : Width.Candidate) :
    ((∃ length, encodedLength value given = .ok length) ↔
      ∃ octets, encode value given 0 = .ok octets) ∧
    (∀ fault, encodedLength value given = .error fault ↔ encode value given 0 = .error fault) ∧
    (∀ length, encodedLength value given = .ok length →
      ∀ flags octets, encode value given flags = .ok octets →
        octets.length = length ∧
        (∀ out, Encoder.write value given flags out = .ok length (out ++ octets)) ∧
        ∃ v : Nat, value = v ∧ decode octets given 0 = .ok (v, length)) ∧
    (∀ value' length length', value ≤ value' → encodedLength value given = .ok length →
      encodedLength value' given = .ok length' → length ≤ length') ∧
    (∀ (n n' : Int) length length', n ≤ n' → encodedLength value (.whole n) = .ok length →
      encodedLength value (.whole n') = .ok length' → length' ≤ length) := by
  refine ⟨?succeeds, ?fails, fun _ hl _ _ => length_of_encode hl, fun value' _ _ hv h h' => ?value,
    fun _ _ _ _ hn h h' => encodedLength_le le_rfl hn h' h⟩
  case succeeds =>
    rw [encodedLength_eq_map]
    cases encode value given 0 <;> simp [Except.map]
  case fails =>
    intro fault
    rw [encodedLength_eq_error_iff, encode_eq_error_iff]
  case value =>
    obtain ⟨w, v, rfl, -⟩ := exists_of_encodedLength h
    exact encodedLength_le hv le_rfl h h'

end Hpack
