import Hpack.Proofs.Grammar

namespace Hpack
namespace Grammar

-- The continuation octets of a number without any superfluous ones.
def shortest (n : Nat) : List UInt8 :=
  if n < 128 then [UInt8.ofNat n] else UInt8.ofNat (128 + n % 128) :: shortest (n / 128)

-- An integer is put into the prefix if it is below a prefix that is all ones.
def canonical (w : Width) (flags value : Nat) : List UInt8 :=
  if value < 2 ^ w.bits - 1 then
    [UInt8.ofNat (flags + value)]
  else
    UInt8.ofNat (flags + (2 ^ w.bits - 1)) :: shortest (value - (2 ^ w.bits - 1))

variable {n : Nat}

theorem shortest_of_lt (h : n < 128) : shortest n = [UInt8.ofNat n] := by
  rw [shortest, if_pos h]

theorem shortest_of_le (h : 128 ≤ n) :
    shortest n = UInt8.ofNat (128 + n % 128) :: shortest (n / 128) := by
  rw [shortest, if_neg (Nat.not_lt.mpr h)]

theorem canonical_of_lt {w : Width} {flags value : Nat} (h : value < 2 ^ w.bits - 1) :
    canonical w flags value = [UInt8.ofNat (flags + value)] := by
  rw [canonical, if_pos h]

theorem canonical_of_le {w : Width} {flags value : Nat} (h : 2 ^ w.bits - 1 ≤ value) :
    canonical w flags value =
      UInt8.ofNat (flags + (2 ^ w.bits - 1)) :: shortest (value - (2 ^ w.bits - 1)) := by
  rw [canonical, if_neg (Nat.not_lt.mpr h)]

theorem toNat_group : (UInt8.ofNat (128 + n % 128)).toNat = 128 + n % 128 :=
  UInt8.toNat_ofNat_of_lt' (by simp [UInt8.size]; omega)

theorem toNat_last (h : n < 128) : (UInt8.ofNat n).toNat = n :=
  UInt8.toNat_ofNat_of_lt' (Nat.lt_trans h (by decide))

theorem ended_shortest (n : Nat) : Ended (shortest n) := by
  induction n using shortest.induct
  case case1 n h =>
    rw [shortest_of_lt h]
    exact .last ((toNat_last h).symm ▸ h)
  case case2 n h hi =>
    rw [shortest_of_le (Nat.not_lt.mp h)]
    exact .cons (toNat_group.symm ▸ Nat.le_add_right ..) hi

theorem number_shortest (n : Nat) : number (shortest n) = n := by
  induction n using shortest.induct
  case case1 n h =>
    rw [shortest_of_lt h, number_cons, number_nil, toNat_last h, Nat.mod_eq_of_lt h,
      Nat.mul_zero, Nat.add_zero]
  case case2 n h hi =>
    rw [shortest_of_le (Nat.not_lt.mp h), number_cons, toNat_group, hi, Nat.add_mod_left, Nat.mod_mod,
      Nat.mod_add_div]

theorem length_shortest_le_iff {k : Nat} : (shortest n).length ≤ k + 1 ↔ n < 128 ^ (k + 1) := by
  induction k generalizing n
  case zero =>
    by_cases h : n < 128
    case pos => simp [shortest_of_lt h, h]
    case neg => simp [shortest_of_le (Nat.not_lt.mp h), (ended_shortest (n / 128)).ne_nil, h]
  case succ k hi =>
    by_cases h : n < 128
    case pos =>
      have : n < 128 ^ (k + 2) := Nat.lt_of_lt_of_le h (Nat.le_self_pow (Nat.succ_ne_zero _) 128)
      simp [shortest_of_lt h, this]
    case neg =>
      rw [shortest_of_le (Nat.not_lt.mp h), List.length_cons, Nat.succ_le_succ_iff, hi,
        Nat.div_lt_iff_lt_mul (by decide), ← Nat.pow_succ]

end Grammar

namespace Encoder

open Grammar

variable {out : List UInt8} {written : Nat}

theorem emit_of_le {octet : Nat} (h : octet ≤ 0xFF) :
    emit octet out = .ok () (out ++ [UInt8.ofNat octet]) := by
  rw [emit, if_pos h]
  rfl

-- The loop appends the groups of what is left and counts them. None of them is too large for an
-- octet.
theorem continuation_eq (n : Nat) : continuation n written out =
    .ok (written + (shortest n).length) (out ++ shortest n) := by
  induction n using shortest.induct generalizing written out
  case case1 n h =>
    rw [continuation, if_pos h, shortest_of_lt h]
    simp only [bind, EStateM.bind, emit_of_le (Nat.le_trans h.le (by decide))]
    rfl
  case case2 n h hi =>
    have hg : 128 + n % 128 ≤ 0xFF := by omega
    rw [continuation, if_neg h, shortest_of_le (Nat.not_lt.mp h), or_group, shift_group]
    simp only [bind, EStateM.bind, emit_of_le hg, hi]
    simp
    omega

variable {w : Width} {flags value : Nat}

theorem accept_bits (h : value ≤ 2 ^ 32 - 1) : accept value (.whole w.bits) = .ok (value, w) := by
  have hm : ¬(maxValue : Int) < value := by
    rw [maxValue_eq]
    omega
  simp [accept, Width.ofCandidate_bits, bind, Except.bind, hm, pure, Except.pure]

theorem acceptFlags_of_admits (a : w.Admits flags) : acceptFlags flags w = .ok flags := by
  have := a.le
  have := a.clear
  simp [acceptFlags, Width.mask_eq, *, pure, Except.pure]

-- What is written is the canonical form, and its octets are counted.
theorem write_eq (h : value ≤ 2 ^ 32 - 1) (a : w.Admits flags) :
    write value (.whole w.bits) flags out =
      .ok (canonical w flags value).length (out ++ canonical w flags value) := by
  have hp := w.two_le_pow_bits
  simp only [write, accept_bits h, acceptFlags_of_admits a, ofExcept, bind, EStateM.bind, pure,
    EStateM.pure, Width.mask_eq, canonical]
  split
  case isTrue =>
    have hv : value < 2 ^ w.bits := by omega
    simp only [a.or_eq_add hv, EStateM.bind, emit_of_le (Nat.le_of_lt_succ (a.add_lt hv))]
    rfl
  case isFalse =>
    have hm : 2 ^ w.bits - 1 < 2 ^ w.bits := by omega
    simp only [a.or_eq_add hm, EStateM.bind, emit_of_le (Nat.le_of_lt_succ (a.add_lt hm)),
      continuation_eq]
    simp
    omega

-- Why an integer is not written. A reason is only given if there is none of those before it.
inductive Refusal (value flags : Int) : Width.Candidate → Fault → Prop
  | width {given fault} : Width.ofCandidate given = .error fault → Refusal value flags given fault
  | negative {w : Width} : value < 0 → Refusal value flags (.whole w.bits) .negativeValue
  | overflow {w : Width} :
    2 ^ 32 - 1 < value → Refusal value flags (.whole w.bits) (Fault.overflow value.toNat).raised
  | flags {w : Width} :
    0 ≤ value → value ≤ 2 ^ 32 - 1 → (¬∃ f : Nat, flags = f ∧ w.Admits f) →
    Refusal value flags (.whole w.bits) (.misplacedFlags flags w)

variable {given : Width.Candidate} {value flags : Int} {v : Nat} {fault : Fault}

theorem accept_of_invalid (h : Width.ofCandidate given = .error fault) :
    accept value given = .error fault := by
  rw [accept, h]
  rfl

theorem accept_of_negative (h : value < 0) : accept value (.whole w.bits) = .error .negativeValue := by
  simp only [accept, Width.ofCandidate_bits, bind, Except.bind, if_pos h]
  rfl

theorem accept_of_overflow (h : 2 ^ 32 - 1 < value) :
    accept value (.whole w.bits) = .error (Fault.overflow value.toNat).raised := by
  have hn : ¬value < 0 := by omega
  have hm : (maxValue : Int) < value := by
    rw [maxValue_eq]
    omega
  simp only [accept, Width.ofCandidate_bits, bind, Except.bind, if_neg hn, if_pos hm]
  rfl

theorem acceptFlags_of_not_admits (h : ¬∃ f : Nat, flags = f ∧ w.Admits f) :
    acceptFlags flags w = .error (.misplacedFlags flags w) := by
  rw [acceptFlags, if_pos]
  · rfl
  · by_contra hc
    push Not at hc
    have ⟨_, _, hc⟩ := hc
    exact h ⟨flags.toNat, by omega, by omega, Width.mask_eq ▸ hc⟩

theorem write_of_refused (h : accept value given = .error fault) :
    write value given flags out = .error fault out := by
  simp only [write, h]
  rfl

theorem write_of_misplaced (h : accept value given = .ok (v, w))
    (hf : acceptFlags flags w = .error fault) :
    write value given flags out = .error fault out := by
  simp only [write, h, ofExcept, bind, EStateM.bind, pure, EStateM.pure, hf]
  rfl

-- Nothing is appended before it is clear that the whole integer can be.
theorem write_of_refusal (r : Refusal value flags given fault) (out : List UInt8) :
    write value given flags out = .error fault out := by
  cases r
  case width h    => exact write_of_refused (accept_of_invalid h)
  case negative h => exact write_of_refused (accept_of_negative h)
  case overflow h => exact write_of_refused (accept_of_overflow h)
  case flags hn hv hf =>
    lift value to Nat using hn
    exact write_of_misplaced (accept_bits (by omega)) (acceptFlags_of_not_admits hf)

theorem fits_or_refused (value : Int) (given : Width.Candidate) (flags : Int) :
    (∃ (w : Width) (v f : Nat), given = .whole w.bits ∧ value = v ∧ v ≤ 2 ^ 32 - 1 ∧ flags = f ∧
      w.Admits f) ∨
    ∃ fault, Refusal value flags given fault := by
  cases hw : Width.ofCandidate given
  case error fault => exact .inr ⟨fault, .width hw⟩
  case ok w =>
    cases Width.ofCandidate_eq_ok_iff.mp hw
    by_cases hn : value < 0
    case pos => exact .inr ⟨_, .negative hn⟩
    by_cases hm : 2 ^ 32 - 1 < value
    case pos => exact .inr ⟨_, .overflow hm⟩
    by_cases hf : ∃ f : Nat, flags = f ∧ w.Admits f
    case pos =>
      have ⟨f, hf, a⟩ := hf
      exact .inl ⟨w, value.toNat, f, rfl, by omega, by omega, hf, a⟩
    case neg => exact .inr ⟨_, .flags (by omega) (by omega) hf⟩

-- An integer is either written as a whole or not at all.
theorem write_cases (value : Int) (given : Width.Candidate) (flags : Int) (out : List UInt8) :
    (∃ (w : Width) (v f : Nat), given = .whole w.bits ∧ value = v ∧ v ≤ 2 ^ 32 - 1 ∧ flags = f ∧
      w.Admits f ∧
      write value given flags out = .ok (canonical w f v).length (out ++ canonical w f v)) ∨
    ∃ fault, write value given flags out = .error fault out := by
  rcases fits_or_refused value given flags with ⟨w, v, f, rfl, rfl, hv, rfl, a⟩ | ⟨fault, r⟩
  · exact .inl ⟨w, v, f, rfl, rfl, hv, rfl, a, write_eq hv a⟩
  · exact .inr ⟨fault, write_of_refusal r out⟩

end Encoder

open Grammar

theorem encode_eq {w : Width} {flags value : Nat} (h : value ≤ 2 ^ 32 - 1) (a : w.Admits flags) :
    encode value (.whole w.bits) flags = .ok (canonical w flags value) := by
  rw [encode, Encoder.write_eq h a]
  rfl

variable {value flags : Int} {given : Width.Candidate} {fault : Fault}

theorem encode_of_refusal (r : Encoder.Refusal value flags given fault) :
    encode value given flags = .error fault := by
  rw [encode, Encoder.write_of_refusal r]

theorem encode_eq_error_iff :
    encode value given flags = .error fault ↔ Encoder.Refusal value flags given fault where
  mp h := by
    rcases Encoder.fits_or_refused value given flags with ⟨w, v, f, rfl, rfl, hv, rfl, a⟩ | ⟨_, r⟩
    · cases (encode_eq hv a).symm.trans h
    · cases (encode_of_refusal r).symm.trans h
      exact r
  mpr := encode_of_refusal

theorem encode_eq_ok_iff {octets : List UInt8} :
    encode value given flags = .ok octets ↔
      ∃ (w : Width) (v f : Nat), given = .whole w.bits ∧ value = v ∧ v ≤ 2 ^ 32 - 1 ∧ flags = f ∧
        w.Admits f ∧ octets = canonical w f v where
  mp h := by
    rcases Encoder.fits_or_refused value given flags with ⟨w, v, f, rfl, rfl, hv, rfl, a⟩ | ⟨_, r⟩
    · cases (encode_eq hv a).symm.trans h
      exact ⟨w, v, f, rfl, rfl, hv, rfl, a, rfl⟩
    · cases (encode_of_refusal r).symm.trans h
  mpr := by
    rintro ⟨w, v, f, rfl, rfl, hv, rfl, a, rfl⟩
    exact encode_eq hv a

-- What is appended, or why nothing is, does not depend on the octets that are there already.
theorem Encoder.write_eq_encode (value : Int) (given : Width.Candidate) (flags : Int)
    (out : List UInt8) :
    write value given flags out =
      match encode value given flags with
      | .ok octets   => .ok octets.length (out ++ octets)
      | .error fault => .error fault out := by
  rcases fits_or_refused value given flags with ⟨w, v, f, rfl, rfl, hv, rfl, a⟩ | ⟨fault, r⟩
  · rw [encode_eq hv a, write_eq hv a]
  · rw [encode_of_refusal r, write_of_refusal r]

end Hpack
