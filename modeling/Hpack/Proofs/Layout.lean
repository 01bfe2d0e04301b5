import Hpack.Proofs.Spelling
import Mathlib.Order.Bounds.Basic

namespace Hpack
namespace Grammar

-- How many values a number of octets is enough for: those in the prefix, and as many more as the groups
-- behind it can tell apart.
def capacity (w : Width) : Nat → Nat
  | 0     => 0
  | 1     => 2 ^ w.bits - 1
  | k + 2 => 2 ^ w.bits - 1 + 128 ^ (k + 1)

-- The octets that are written for a value with flags. Either the prefix holds the value, or it is all
-- ones and the least number of groups follows that can hold the rest.
inductive Layout (w : Width) (flags value : Nat) : List UInt8 → Prop
  | direct {octet} :
    value < 2 ^ w.bits - 1 → octet.toNat = flags + value → Layout w flags value [octet]
  | extended {octet more last} :
    2 ^ w.bits - 1 ≤ value → octet.toNat = flags + (2 ^ w.bits - 1) →
    (∀ group ∈ more, 128 ≤ group.toNat) → last.toNat < 128 →
    number (more ++ [last]) = value - (2 ^ w.bits - 1) →
    (last = 0 → value = 2 ^ w.bits - 1) →
    IsLeast {k | 1 ≤ k ∧ value - (2 ^ w.bits - 1) < 128 ^ k} (more ++ [last]).length →
    Layout w flags value (octet :: (more ++ [last]))

variable {w : Width} {flags value n k : Nat}

theorem length_canonical_le_iff : (canonical w flags value).length ≤ k ↔ value < capacity w k := by
  have hp := w.two_le_pow_bits
  by_cases hv : value < 2 ^ w.bits - 1
  case pos =>
    rw [canonical_of_lt hv, List.length_singleton]
    rcases k with _ | _ | k <;> rw [capacity]
    · exact iff_of_false (by omega) (Nat.not_lt_zero value)
    · exact iff_of_true (by omega) hv
    · exact iff_of_true (by omega) (Nat.lt_add_right _ hv)
  case neg =>
    have hs := (ended_shortest (value - (2 ^ w.bits - 1))).length_pos
    rw [canonical_of_le (Nat.not_lt.mp hv), List.length_cons]
    rcases k with _ | _ | k <;> rw [capacity]
    · exact iff_of_false (by omega) (Nat.not_lt_zero value)
    · exact iff_of_false (by omega) hv
    · rw [Nat.succ_le_succ_iff, length_shortest_le_iff, Nat.sub_lt_iff_lt_add' (Nat.not_lt.mp hv)]

theorem capacity_mono {w' : Width} (h : w.bits ≤ w'.bits) (k : Nat) :
    capacity w k ≤ capacity w' k := by
  have hp := Nat.pow_le_pow_right (n := 2) (by decide) h
  rcases k with _ | _ | k <;> rw [capacity, capacity] <;> omega

-- Neither a smaller value nor a wider prefix makes an integer longer, and flags do not matter.
theorem length_canonical_le {w' : Width} {flags' value' : Nat} (hw : w'.bits ≤ w.bits)
    (hv : value ≤ value') :
    (canonical w flags value).length ≤ (canonical w' flags' value').length := by
  refine length_canonical_le_iff.mpr ?_
  calc
    value ≤ value' := hv
    _ < capacity w' (canonical w' flags' value').length := length_canonical_le_iff.mp le_rfl
    _ ≤ capacity w (canonical w' flags' value').length := capacity_mono hw _

theorem isLeast_length_shortest (n : Nat) :
    IsLeast {k | 1 ≤ k ∧ n < 128 ^ k} (shortest n).length where
  left := by
    have ⟨k, hk⟩ := Nat.exists_eq_add_one.mpr (ended_shortest n).length_pos
    rw [hk]
    exact ⟨Nat.succ_pos k, length_shortest_le_iff.mp hk.le⟩
  right := by
    intro k ⟨hk, hn⟩
    obtain ⟨k, rfl⟩ := Nat.exists_eq_add_one.mpr hk
    exact length_shortest_le_iff.mpr hn

theorem layout_canonical (a : w.Admits flags) : Layout w flags value (canonical w flags value) := by
  have hp := w.two_le_pow_bits
  by_cases hv : value < 2 ^ w.bits - 1
  case pos =>
    rw [canonical_of_lt hv]
    exact .direct hv (UInt8.toNat_ofNat_of_lt' (a.add_lt (by omega)))
  case neg =>
    replace hv := Nat.not_lt.mp hv
    have ⟨more, last, hs, hr, hl⟩ := Ended.iff_concat.mp (ended_shortest (value - (2 ^ w.bits - 1)))
    rw [canonical_of_le hv, hs]
    refine .extended hv (UInt8.toNat_ofNat_of_lt' (a.add_lt (by omega))) hr hl ?number ?zero ?least
    case number => rw [← hs, number_shortest]
    case zero =>
      rintro rfl
      have := eq_zero_of_getLast?_shortest (hs ▸ List.getLast?_concat)
      omega
    case least => exact hs ▸ isLeast_length_shortest _

end Grammar

open Grammar

-- No integer takes up more octets than there is room for.
theorem length_le_maxLength {value flags : Int} {given : Width.Candidate} {octets : List UInt8}
    (h : encode value given flags = .ok octets) : octets.length ≤ maxLength := by
  obtain ⟨w, v, f, rfl, rfl, hv, rfl, a, rfl⟩ := encode_eq_ok_iff.mp h
  exact (represents_canonical hv).length_le

-- What is written for a value is laid out in the one way there is for it, and no number is too large
-- for its octet. Six octets are needed for the values that are furthest from the prefix.
theorem encode_layout (w : Width) (value flags : Nat) (hv : value ≤ 2 ^ 32 - 1)
    (hf : flags ≤ 255 ∧ 2 ^ w.bits ∣ flags) :
    ∃ octets, encode value (.whole w.bits) flags = .ok octets ∧
      Layout w flags value octets ∧
      (∀ octet ∈ octets, octet.toNat ≤ 255) ∧
      octets.length ≤ 6 ∧
      (octets.length = 6 ↔ 2 ^ 28 ≤ value - (2 ^ w.bits - 1)) := by
  have a := Width.admits_iff.mpr hf
  have hl : (canonical w flags value).length ≤ 6 := (represents_canonical hv).length_le
  refine ⟨_, encode_eq hv a, layout_canonical a, fun octet _ => ?range, hl, ?six⟩
  case range => exact Nat.le_of_lt_succ octet.toNat_lt
  case six =>
    have h5 : (canonical w flags value).length ≤ 5 ↔ value < 2 ^ w.bits - 1 + 128 ^ 4 :=
      length_canonical_le_iff
    omega

-- The value is the first one that needs six octets at its width.
theorem encode_layout_six :
    let w : Width := ⟨3, by decide, by decide⟩
    let octets : List UInt8 := [0xFF, 0x80, 0x80, 0x80, 0x80, 0x01]
    268435463 ≤ 2 ^ 32 - 1 ∧ (0xF8 ≤ 255 ∧ 2 ^ w.bits ∣ 0xF8) ∧
    encode 268435463 (.whole w.bits) 0xF8 = .ok octets ∧
    Layout w 0xF8 268435463 octets ∧
    (octets.length = 6 ↔ 2 ^ 28 ≤ 268435463 - (2 ^ w.bits - 1)) := by
  have a : Width.Admits ⟨3, by decide, by decide⟩ 0xF8 := ⟨by decide, by decide⟩
  have ⟨octets, he, hl, _, _, h6⟩ :=
    encode_layout ⟨3, by decide, by decide⟩ 268435463 0xF8 (by decide) (by decide)
  have ho : octets = [0xFF, 0x80, 0x80, 0x80, 0x80, 0x01] := by
    rw [encode_eq (by decide) a] at he
    injection he with he
    rw [← he]
    simp [canonical, shortest]
  exact ⟨by decide, by decide, ho ▸ he, ho ▸ hl, ho ▸ h6⟩

end Hpack
