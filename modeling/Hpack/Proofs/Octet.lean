import Hpack.Decoder
import Hpack.Encoder
import Hpack.Proofs.Numeral
import Mathlib.Data.Nat.Bitwise

-- The operations on bits in terms of arithmetic: masks are remainders, shifts are powers of 128, and
-- a disjunction of bits that do not overlap is a sum.

namespace Hpack

theorem maxValue_eq : maxValue = 2 ^ 32 - 1 :=
  rfl

namespace Width

variable {w : Width}

theorem mask_eq : w.mask = 2 ^ w.bits - 1 := by
  simp [mask, Nat.one_shiftLeft]

theorem and_mask {n : Nat} : n &&& w.mask = n % 2 ^ w.bits := by
  simp [mask_eq]

theorem two_le_pow_bits (w : Width) : 2 ≤ 2 ^ w.bits :=
  Nat.le_self_pow (Nat.ne_of_gt w.one_le) 2

theorem pow_bits_le (w : Width) : 2 ^ w.bits ≤ 256 :=
  Nat.pow_le_pow_right (n := 2) (by decide) w.le_eight

theorem ofCandidate_bits : ofCandidate (.whole w.bits) = .ok w := by
  have := w.one_le
  have := w.le_eight
  have hw : (1 : Int) ≤ w.bits ∧ (w.bits : Int) ≤ 8 := by omega
  simp [ofCandidate, Candidate.width?, hw]

-- The whole numbers from one to eight are all the widths there are.
theorem ofCandidate_eq_ok_iff {given : Candidate} :
    ofCandidate given = .ok w ↔ given = .whole w.bits where
  mp h := by
    cases given <;> simp [ofCandidate, Candidate.width?] at h
    case whole n =>
      by_cases hn : 1 ≤ n ∧ n ≤ 8 <;> simp [hn] at h
      subst h
      simp
      omega
  mpr h := h ▸ ofCandidate_bits

theorem exists_bits_eq {n : Int} (h : 1 ≤ n ∧ n ≤ 8) : ∃ w : Width, n = w.bits :=
  ⟨⟨n.toNat, by omega, by omega⟩, (Int.toNat_of_nonneg (by omega)).symm⟩

theorem eq_raised_of_ofCandidate {given : Candidate} {fault : Fault}
    (h : ofCandidate given = .error fault) : fault = (Fault.invalidWidth given).raised := by
  rw [ofCandidate] at h
  cases hw : given.width? <;> simp [hw] at h
  exact h.symm

theorem writable_bits (w : Width) : Numeral.Writable .decimal w.bits := by
  have := w.le_eight
  exact Numeral.writable_of_lt (by omega)

-- Whole numbers that are too long to be told. None of them is a width.
def Candidate.Untellable (given : Candidate) : Prop :=
  ∃ n, given = .whole n ∧ ¬Numeral.Writable .decimal n

theorem not_untellable_bits (w : Width) : ¬(Candidate.whole w.bits).Untellable := by
  rintro ⟨n, hn, hl⟩
  cases hn
  exact hl w.writable_bits

theorem tellable_invalidWidth_iff {given : Candidate} :
    (Fault.invalidWidth given).Tellable ↔ ¬given.Untellable := by
  cases given <;> simp [Candidate.Untellable, Fault.Tellable, Fault.numbers]

theorem not_whole_of_invalid {given : Candidate} {fault : Fault}
    (h : ofCandidate given = .error fault) : ¬∃ w : Width, given = .whole w.bits := by
  rintro ⟨w, rfl⟩
  cases ofCandidate_bits.symm.trans h

theorem ofCandidate_of_outside {n : Int} (h : ¬(1 ≤ n ∧ n ≤ 8))
    (hn : Numeral.Writable .decimal n) :
    ofCandidate (.whole n) = .error (.invalidWidth (.whole n)) := by
  have ht := Fault.raised_of_tellable (Fault.tellable_invalidWidth.mpr hn)
  simp [ofCandidate, Candidate.width?, h, ht]

theorem ofCandidate_of_untellable {given : Candidate} (h : given.Untellable) :
    ofCandidate given = .error .unwritable := by
  cases hw : ofCandidate given
  case error fault =>
    rw [eq_raised_of_ofCandidate hw,
      Fault.raised_of_not_tellable fun ht => tellable_invalidWidth_iff.mp ht h]
  case ok w =>
    cases ofCandidate_eq_ok_iff.mp hw
    exact absurd h w.not_untellable_bits

theorem eq_invalidWidth_of_ofCandidate {given : Candidate} {fault : Fault}
    (h : ofCandidate given = .error fault) (hu : ¬given.Untellable) :
    fault = .invalidWidth given := by
  rw [eq_raised_of_ofCandidate h, Fault.raised_of_tellable (tellable_invalidWidth_iff.mpr hu)]

-- A value that is no width is told unless it is too long.
theorem kind_of_ofCandidate {given : Candidate} {fault : Fault}
    (h : ofCandidate given = .error fault) :
    (fault.kind = .invalidWidth ∧ ¬given.Untellable) ∨
      (fault.kind = .invalidArgument ∧ given.Untellable) := by
  by_cases hu : given.Untellable
  case pos =>
    cases (ofCandidate_of_untellable hu).symm.trans h
    exact .inr ⟨rfl, hu⟩
  case neg =>
    cases eq_invalidWidth_of_ofCandidate h hu
    exact .inl ⟨rfl, hu⟩

theorem kind_ne_insufficient_of_ofCandidate {given : Candidate} {fault : Fault}
    (h : ofCandidate given = .error fault) : fault.kind ≠ .insufficient := by
  rcases kind_of_ofCandidate h with ⟨hk, _⟩ | ⟨hk, _⟩ <;> simp [hk]

-- Flags that leave the prefix of an octet clear.
structure Admits (w : Width) (flags : Nat) : Prop where
  le    : flags ≤ 0xFF
  clear : flags &&& (2 ^ w.bits - 1) = 0

namespace Admits

variable {flags n : Nat}

theorem dvd (a : w.Admits flags) : 2 ^ w.bits ∣ flags := by
  apply Nat.dvd_of_mod_eq_zero
  rw [← and_mask, mask_eq]
  exact a.clear

theorem or_eq_add (a : w.Admits flags) (h : n < 2 ^ w.bits) : flags ||| n = flags + n := by
  have ⟨k, hk⟩ := a.dvd
  rw [hk]
  exact (Nat.two_pow_add_eq_or_of_lt h k).symm

theorem add_mod (a : w.Admits flags) (h : n < 2 ^ w.bits) : (flags + n) % 2 ^ w.bits = n := by
  have ⟨k, hk⟩ := a.dvd
  rw [hk, Nat.mul_add_mod, Nat.mod_eq_of_lt h]

theorem add_lt (a : w.Admits flags) (h : n < 2 ^ w.bits) : flags + n < 2 ^ 8 := by
  have := a.le
  have := w.pow_bits_le
  rw [← a.or_eq_add h]
  exact Nat.or_lt_two_pow (by omega) (by omega)

end Admits

-- The flags that are admitted are the multiples of the lowest bit above the prefix.
theorem admits_iff {flags : Nat} : w.Admits flags ↔ flags ≤ 255 ∧ 2 ^ w.bits ∣ flags where
  mp a := ⟨a.le, a.dvd⟩
  mpr := fun ⟨hl, hd⟩ => ⟨hl, by rw [← mask_eq, and_mask, Nat.mod_eq_zero_of_dvd hd]⟩

theorem exists_admits_iff {flags : Int} : (∃ f : Nat, flags = f ∧ w.Admits f) ↔
    (0 ≤ flags ∧ flags ≤ 255) ∧ 2 ^ w.bits ∣ flags where
  mp := by
    rintro ⟨f, rfl, a⟩
    have ⟨hl, hd⟩ := admits_iff.mp a
    exact ⟨by omega, by exact_mod_cast hd⟩
  mpr := by
    intro ⟨⟨hn, hl⟩, hd⟩
    lift flags to Nat using hn
    exact ⟨flags, rfl, admits_iff.mpr ⟨by omega, by exact_mod_cast hd⟩⟩

end Width

namespace Decoder

variable {value index : Nat} {octet : UInt8}

theorem absorb_eq : absorb value index octet = value + 128 ^ index * (octet.toNat % 128) := by
  have ha : octet.toNat &&& 0x7F = octet.toNat % 128 := Nat.and_two_pow_sub_one_eq_mod _ 7
  rw [absorb, ha, Nat.shiftLeft_eq, Nat.pow_mul, Nat.mul_comm]

theorem continues_iff : continues octet ↔ 128 ≤ octet.toNat := by
  have ha : octet.toNat &&& 128 = (octet.toNat.testBit 7).toNat * 128 := Nat.and_two_pow _ 7
  have hn : continues octet ↔ octet.toNat &&& 128 ≠ 0 := by
    simp [continues, ← UInt8.toNat_inj]
  rw [hn, ha, Nat.testBit_eq_decide_div_mod_eq]
  have := octet.toNat_lt
  by_cases h : octet.toNat / 2 ^ 7 % 2 = 1 <;> simp <;> omega

end Decoder

theorem Encoder.or_group {n : Nat} : 0x80 ||| (n &&& 0x7F) = 128 + n % 128 := by
  have ha : n &&& 0x7F = n % 128 := Nat.and_two_pow_sub_one_eq_mod n 7
  rw [ha]
  exact (Nat.two_pow_add_eq_or_of_lt (i := 7) (Nat.mod_lt n (by decide)) 1).symm

theorem Encoder.shift_group {n : Nat} : n >>> 7 = n / 128 :=
  Nat.shiftRight_eq_div_pow n 7

end Hpack
