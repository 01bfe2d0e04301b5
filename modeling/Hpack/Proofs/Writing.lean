import Hpack.Proofs.Encoder

namespace Hpack
namespace Encoder

variable {value flags : Int} {given : Width.Candidate} {out out' : List UInt8} {count : Nat}
  {fault : Fault}

-- What is given decides on its own whether an integer is written, and not what is there already.
theorem write_succeeds_iff : (∃ count out', write value given flags out = .ok count out') ↔
    ∃ w : Width, given = .whole w.bits ∧ (0 ≤ value ∧ value ≤ 2 ^ 32 - 1) ∧
      (0 ≤ flags ∧ flags ≤ 255) ∧ 2 ^ w.bits ∣ flags where
  mp := by
    intro ⟨count, out', h⟩
    rcases write_cases value given flags out with ⟨w, v, f, rfl, rfl, hv, hf, a, _⟩ | ⟨_, hw⟩
    · have hf := Width.exists_admits_iff.mp ⟨f, hf, a⟩
      exact ⟨w, rfl, ⟨Int.natCast_nonneg v, by omega⟩, hf.left, hf.right⟩
    · cases hw.symm.trans h
  mpr := by
    rintro ⟨w, rfl, ⟨hn, hv⟩, hf⟩
    lift value to Nat using hn
    obtain ⟨f, rfl, a⟩ := Width.exists_admits_iff.mpr hf
    exact ⟨_, _, write_eq (by omega) a⟩

theorem encode_of_write (h : write value given flags out = .ok count out') :
    ∃ octets, encode value given flags = .ok octets ∧ out' = out ++ octets ∧
      count = octets.length := by
  rw [write_eq_encode] at h
  cases he : encode value given flags <;> rw [he] at h <;> cases h
  exact ⟨_, rfl, rfl, rfl⟩

theorem encode_of_write_fails (h : write value given flags out = .error fault out') :
    out' = out ∧ encode value given flags = .error fault := by
  rw [write_eq_encode] at h
  cases he : encode value given flags <;> rw [he] at h <;> cases h
  exact ⟨rfl, rfl⟩

theorem overflow_toNat_raised (h : 0 ≤ value) : (Fault.overflow value.toNat).raised =
    if Numeral.Writable .decimal value then .overflow value.toNat else .unwritable := by
  simp only [Fault.raised, Fault.tellable_overflow, Int.toNat_of_nonneg h]

-- What is too long to be told is too large as well.
theorem lt_of_not_writable (h : 0 ≤ value) (hl : ¬Numeral.Writable .decimal value) :
    2 ^ 32 - 1 < value := by
  by_contra hv
  exact hl (Numeral.writable_of_lt (by omega))

theorem refusal_of_not_writable (w : Width) (h : 0 ≤ value) (hl : ¬Numeral.Writable .decimal value) :
    Refusal value flags (.whole w.bits) .unwritable := by
  have r : Refusal value flags (.whole w.bits) _ := .overflow (lt_of_not_writable h hl)
  rwa [overflow_toNat_raised h, if_neg hl] at r

-- Of all that stands against writing an integer, the first is told, unless the number to be told is
-- too long.
theorem Refusal.first (r : Refusal value flags given fault) :
    ((¬∃ w : Width, given = .whole w.bits) →
      (∀ n, given = .whole n → Numeral.Writable .decimal n) → fault = .invalidWidth given) ∧
    (∀ n, given = .whole n → ¬Numeral.Writable .decimal n → fault = .unwritable) ∧
    ∀ w : Width, given = .whole w.bits →
      (value < 0 → fault = .negativeValue) ∧
      (2 ^ 32 - 1 < value →
        fault = if Numeral.Writable .decimal value then .overflow value.toNat else .unwritable) ∧
      (0 ≤ value → value ≤ 2 ^ 32 - 1 → fault = .misplacedFlags flags w) := by
  cases r
  case width h =>
    refine ⟨fun _ hn => ?told, fun n hg hw => ?long,
      fun w hw => absurd ⟨w, hw⟩ (Width.not_whole_of_invalid h)⟩
    case told => exact Width.eq_invalidWidth_of_ofCandidate h fun ⟨n, hg, hw⟩ => hw (hn n hg)
    case long =>
      cases h.symm.trans (Width.ofCandidate_of_untellable ⟨n, hg, hw⟩)
      rfl
  all_goals
    refine ⟨fun h => absurd ⟨_, rfl⟩ h, fun n hn hl => ?long, fun w' hw => ?_⟩
    case long =>
      cases hn
      exact absurd (Width.writable_bits _) hl
    obtain rfl : _ = w' := Width.ext (by simpa using hw)
  case negative h => exact ⟨fun _ => rfl, by omega, by omega⟩
  case overflow h => exact ⟨by omega, fun _ => overflow_toNat_raised (by omega), by omega⟩
  case flags hn hv _ => exact ⟨by omega, by omega, fun _ _ => rfl⟩

-- An integer is appended as a whole behind what is there already, or nothing is. It is appended if it
-- has 32 bits and the flags leave its prefix clear. What is wrong is looked for in the width first,
-- then in the value, and in the flags at last. A width or a value that is too long to be told is not
-- what the failure is about.
theorem write_whole_or_nothing (value : Int) (given : Width.Candidate) (flags : Int)
    (out : List UInt8) :
    ((∃ count out', write value given flags out = .ok count out') ↔
      ∃ w : Width, given = .whole w.bits ∧ (0 ≤ value ∧ value ≤ 2 ^ 32 - 1) ∧
        (0 ≤ flags ∧ flags ≤ 255) ∧ 2 ^ w.bits ∣ flags) ∧
    (∀ count out', write value given flags out = .ok count out' →
      ∃ octets, encode value given flags = .ok octets ∧ out' = out ++ octets ∧
        count = octets.length) ∧
    (∀ fault out', write value given flags out = .error fault out' →
      (out' = out ∧ encode value given flags = .error fault) ∧
      ((¬∃ w : Width, given = .whole w.bits) →
        (∀ n, given = .whole n → Numeral.Writable .decimal n) → fault = .invalidWidth given) ∧
      (∀ n, given = .whole n → ¬Numeral.Writable .decimal n → fault = .unwritable) ∧
      ∀ w : Width, given = .whole w.bits →
        (value < 0 → fault = .negativeValue) ∧
        (2 ^ 32 - 1 < value →
          fault = if Numeral.Writable .decimal value then .overflow value.toNat else .unwritable) ∧
        (0 ≤ value → value ≤ 2 ^ 32 - 1 → fault = .misplacedFlags flags w)) := by
  refine ⟨write_succeeds_iff, fun _ _ => encode_of_write, fun fault out' h => ?_⟩
  have hf := encode_of_write_fails h
  exact ⟨hf, (encode_eq_error_iff.mp hf.right).first⟩

-- A value with one digit more than can be told is too large, and a width is none, but neither is what
-- is told.
theorem write_of_long_number :
    let long : Int := 10 ^ Numeral.maxDigits
    2 ^ 32 - 1 < long ∧
    write long (.whole 5) 0 [] = .error .unwritable [] ∧
    write 0 (.whole long) 0 [] = .error .unwritable [] ∧
    Fault.unwritable.kind ≠ .overflow ∧ Fault.unwritable.kind ≠ .invalidWidth := by
  intro long
  have hn : 0 ≤ long := by positivity
  have hw : ¬Numeral.Writable .decimal long := Numeral.not_writable_pow_maxDigits
  have hv : Refusal long 0 (.whole 5) .unwritable :=
    refusal_of_not_writable ⟨5, by decide, by decide⟩ hn hw
  have hg : Refusal 0 0 (.whole long) .unwritable :=
    .width (Width.ofCandidate_of_untellable ⟨long, rfl, hw⟩)
  exact ⟨lt_of_not_writable hn hw, write_of_refusal hv _, write_of_refusal hg _, nofun, nofun⟩

end Encoder
end Hpack
