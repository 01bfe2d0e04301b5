import Hpack.Proofs.Decode
import Hpack.Proofs.Encoder

namespace Hpack
namespace Grammar

-- The octets of a value together with flags, by whether the value is in the prefix.
inductive Represents (w : Width) (flags value : Nat) : List UInt8 → Prop
  | direct : value < 2 ^ w.bits - 1 → Represents w flags value [UInt8.ofNat (flags + value)]
  | ended {more} : Ended more → more.length ≤ 5 → value = 2 ^ w.bits - 1 + number more →
    Represents w flags value (UInt8.ofNat (flags + (2 ^ w.bits - 1)) :: more)

variable {w : Width} {flags value : Nat} {octets : List UInt8}

-- Whatever follows it, an integer is read as a whole.
theorem Represents.begins (r : Represents w flags value octets) (h : value ≤ 2 ^ 32 - 1)
    (a : w.Admits flags) (rest : List UInt8) :
    ∃ form, Begins w (octets ++ rest) form ∧ form.length = octets.length ∧
      ∀ fault, form.verdict fault = .ok value := by
  have := w.two_le_pow_bits
  have ho {n : Nat} (hn : n < 2 ^ w.bits) : (UInt8.ofNat (flags + n)).toNat % 2 ^ w.bits = n := by
    rw [UInt8.toNat_ofNat_of_lt' (a.add_lt hn), a.add_mod hn]
  cases r
  case direct hp =>
    have hm := ho (n := value) (by omega)
    exact ⟨_, .direct (by rwa [hm]), rfl, fun _ => congrArg _ hm⟩
  case ended more he hl hv =>
    refine ⟨_, .ended (ho (by omega)) he hl (hv ▸ h), ?length, fun _ => congrArg _ hv.symm⟩
    case length => rw [Form.length, List.length_cons, Nat.add_comm]

theorem Represents.length_le : Represents w flags value octets → octets.length ≤ 6
  | direct _     => by simp
  | ended _ hl _ => Nat.succ_le_succ hl

-- Five groups are enough for any 32-bit value above the prefix.
theorem represents_canonical (h : value ≤ 2 ^ 32 - 1) :
    Represents w flags value (canonical w flags value) := by
  by_cases hv : value < 2 ^ w.bits - 1
  case pos => exact canonical_of_lt hv ▸ .direct hv
  case neg =>
    have hl : (shortest (value - (2 ^ w.bits - 1))).length ≤ 5 := by
      rw [length_shortest_le_iff]
      omega
    rw [canonical_of_le (Nat.not_lt.mp hv)]
    refine .ended (ended_shortest _) hl ?_
    rw [number_shortest]
    omega

end Grammar

open Grammar

variable {w : Width} {flags value : Nat}

-- What is written is read back wherever it stands, and just that is read.
theorem decode_encode_within (h : value ≤ 2 ^ 32 - 1) (a : w.Admits flags)
    (before after : List UInt8) :
    ∃ octets, encode value (.whole w.bits) flags = .ok octets ∧
      decode (before ++ octets ++ after) (.whole w.bits) before.length =
        .ok (value, before.length + octets.length) := by
  have ⟨form, hb, hl, hv⟩ := (represents_canonical h).begins h a after
  refine ⟨canonical w flags value, encode_eq h a, ?_⟩
  rw [List.append_assoc, decode_eq_ok_iff, List.drop_left]
  exact ⟨form, hb, hv _, by rw [hl]⟩

theorem decode_encode_within_max :
    let w : Width := ⟨5, by decide, by decide⟩
    4294967295 ≤ 2 ^ 32 - 1 ∧ w.Admits 0xE0 ∧
    ∃ octets, encode 4294967295 (.whole w.bits) 0xE0 = .ok octets ∧
      decode ([0x82, 0xFF] ++ octets ++ [0x00]) (.whole w.bits) 2 =
        .ok (4294967295, 2 + octets.length) :=
  have a : Width.Admits ⟨5, by decide, by decide⟩ 0xE0 := ⟨by decide, by decide⟩
  ⟨by decide, a, decode_encode_within (by decide) a [0x82, 0xFF] [0x00]⟩

end Hpack
