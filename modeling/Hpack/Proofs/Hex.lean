import Hpack.Hex
import Mathlib.Data.Nat.Bitwise

namespace Hpack
namespace Text

-- What is only true of characters of ASCII can be settled for these one by one.
theorem forall_of_ascii {p q : Char → Prop} (ha : ∀ c, p c → c.toNat < 128)
    (h : ∀ n < 128, p (Char.ofNat n) → q (Char.ofNat n)) (c : Char) (hc : p c) : q c := by
  have hn := h c.toNat (ha c hc)
  rw [Char.ofNat_toNat] at hn
  exact hn hc

theorem isAsciiBlank_iff {c : Char} :
    isAsciiBlank c ↔ c ∈ [' ', '\t', '\n', '\x0b', '\x0c', '\r'] where
  mp := by
    refine forall_of_ascii (p := (isAsciiBlank ·)) (fun c h => ?_) (by decide) c
    simp only [isAsciiBlank, decide_eq_true_eq] at h
    rcases h with rfl | ⟨_, (hu : c.toNat ≤ 13)⟩
    · decide
    · omega
  mpr h := by
    simp only [List.mem_cons, List.not_mem_nil, or_false] at h
    rcases h with rfl | rfl | rfl | rfl | rfl | rfl <;> decide

end Text

namespace Hex

-- The digits are those of the numbers below sixteen, in either case.
def Digit (c : Char) (n : Nat) : Prop :=
  n < 16 ∧ (c = Nat.digitChar n ∨ c = (Nat.digitChar n).toUpper)

instance {c : Char} {n : Nat} : Decidable (Digit c n) :=
  inferInstanceAs (Decidable (_ ∧ _))

-- The texts that stand for octets: two digits for each octet, and blanks that do not come between
-- the two.
inductive Denotes : List Char → List UInt8 → Prop
  | nil : Denotes [] []
  | blank {c t octets} :
    c ∈ [' ', '\t', '\n', '\x0b', '\x0c', '\r'] → Denotes t octets → Denotes (c :: t) octets
  | pair {c d high low t octets} :
    Digit c high → Digit d low → Denotes t octets →
    Denotes (c :: d :: t) (UInt8.ofNat (16 * high + low) :: octets)

variable {t rest : List Char} {octets : List UInt8} {c : Char} {n high low : Nat}

theorem value?_digitChar : ∀ n < 16, value? (Nat.digitChar n) = some n := by
  decide

-- The digits of an octet are those of its halves, in lower case.
theorem pair_eq (octet : UInt8) :
    pair octet = [Nat.digitChar (octet.toNat / 16), Nat.digitChar (octet.toNat % 16)] := by
  have hl : octet.toNat &&& 0xF = octet.toNat % 16 := Nat.and_two_pow_sub_one_eq_mod _ 4
  rw [pair, hl, Nat.shiftRight_eq_div_pow]

theorem halves (octet : UInt8) :
    UInt8.ofNat ((octet.toNat >>> 4) <<< 4 ||| (octet.toNat &&& 0xF)) = octet := by
  have ha : octet.toNat &&& 0xF = octet.toNat % 16 := Nat.and_two_pow_sub_one_eq_mod _ 4
  rw [ha, ← Nat.shiftLeft_add_eq_or_of_lt (Nat.mod_lt _ (by decide)), Nat.shiftRight_eq_div_pow,
    Nat.shiftLeft_eq, Nat.mul_comm, Nat.div_add_mod, UInt8.ofNat_toNat]

theorem read_pair (octet : UInt8) (rest : List Char) :
    read (pair octet ++ rest) = (read rest).map (octet :: ·) := by
  have hb : ∀ n < 16, ¬Text.isAsciiBlank (Nat.digitChar n) := by decide
  have hh : octet.toNat >>> 4 < 16 := by
    have := octet.toNat_lt
    rw [Nat.shiftRight_eq_div_pow]
    omega
  have hl : octet.toNat &&& 0xF < 16 := Nat.and_lt_two_pow (n := 4) _ (by decide)
  simp only [pair, List.cons_append, List.nil_append, read, hb _ hh, value?_digitChar _ hh,
    value?_digitChar _ hl]
  change (read rest).bind (fun rest => some (UInt8.ofNat _ :: rest)) = _
  rw [halves]
  cases read rest <;> rfl

-- Every octet string can be given in hex.
theorem read_compact (octets : List UInt8) : read (compact octets) = some octets := by
  induction octets
  case nil => rfl
  case cons octet octets hi =>
    rw [compact, List.flatMap_cons, read_pair, ← compact, hi]
    rfl

theorem read_blank {c : Char} (h : Text.isAsciiBlank c) : read (c :: rest) = read rest := by
  cases rest <;> simp [read, h]

theorem read_blanks {blanks : List Char} (h : ∀ c ∈ blanks, Text.isAsciiBlank c) :
    read (blanks ++ rest) = read rest := by
  induction blanks
  case nil => rfl
  case cons hi =>
    have ⟨hc, h⟩ := List.forall_mem_cons.mp h
    rw [List.cons_append, read_blank hc, hi h]

theorem spaced_cons_cons (octet next : UInt8) (octets : List UInt8) :
    spaced (octet :: next :: octets) = pair octet ++ ' ' :: spaced (next :: octets) := by
  rw [spaced, List.map_cons, List.map_cons, List.intercalate_cons_cons, List.append_assoc]
  rfl

theorem spaced_singleton (octet : UInt8) : spaced [octet] = pair octet :=
  List.intercalate_singleton

-- Octets are read back from a text with spaces between them, whatever follows it.
theorem read_spaced_append (octets : List UInt8) (rest : List Char) :
    read (spaced octets ++ rest) = (read rest).map (octets ++ ·) := by
  induction octets
  case nil => exact (Option.map_id' ..).symm
  case cons octet octets hi =>
    cases octets
    case nil =>
      rw [spaced_singleton, read_pair]
      rfl
    case cons =>
      rw [spaced_cons_cons, List.append_assoc, read_pair, List.cons_append, read_blank (by decide), hi,
        Option.map_map]
      rfl

theorem head?_of_read (h : read t = some octets) : t.head? ≠ some '-' := by
  rintro ht
  rcases t with _ | ⟨c, _ | ⟨d, rest⟩⟩ <;> simp at ht <;> subst ht
  · simp [read, Text.isAsciiBlank] at h
  · simp [read, Text.isAsciiBlank, value?] at h

theorem lt_of_value? (h : value? c = some n) : c.toNat < 128 := by
  rw [value?] at h
  split_ifs at h with hd hl hu
  · exact Nat.lt_of_le_of_lt hd.right (by decide : '9'.toNat < 128)
  · exact Nat.lt_of_le_of_lt hl.right (by decide : 'f'.toNat < 128)
  · exact Nat.lt_of_le_of_lt hu.right (by decide : 'F'.toNat < 128)

theorem value?_eq_some_iff : value? c = some n ↔ Digit c n where
  mp :=
    have hd : ∀ k < 128, ∀ n ∈ value? (Char.ofNat k), Digit (Char.ofNat k) n := by decide
    Text.forall_of_ascii (p := (value? · = some n)) (q := (Digit · n)) (fun _ => lt_of_value?)
      (fun k hk => hd k hk n) c
  mpr := by
    rintro ⟨hn, rfl | rfl⟩ <;> revert n <;> decide

theorem Digit.not_blank : Digit c n → ¬Text.isAsciiBlank c := by
  rintro ⟨hn, rfl | rfl⟩ <;> revert n <;> decide

theorem or_low (h : low < 16) : high <<< 4 ||| low = 16 * high + low := by
  rw [← Nat.shiftLeft_add_eq_or_of_lt h, Nat.shiftLeft_eq, Nat.mul_comm]

-- Just these texts are read, and as the octets that they stand for.
theorem read_eq_some_iff : read t = some octets ↔ Denotes t octets where
  mp h := by
    fun_induction read t generalizing octets
    case case1 =>
      cases h
      exact .nil
    case case2 hb =>
      cases h
      exact .blank (Text.isAsciiBlank_iff.mp hb) .nil
    case case3 => contradiction
    case case4 hb hi => exact .blank (Text.isAsciiBlank_iff.mp hb) (hi h)
    case case5 hi =>
      have ⟨high, hc, h⟩ := Option.bind_eq_some_iff.mp h
      have ⟨low, hd, h⟩ := Option.bind_eq_some_iff.mp h
      have ⟨rest, hr, h⟩ := Option.bind_eq_some_iff.mp h
      cases h
      replace hd := value?_eq_some_iff.mp hd
      rw [or_low hd.left]
      exact .pair (value?_eq_some_iff.mp hc) hd (hi hr)
  mpr h := by
    induction h
    case nil => rfl
    case blank hb _ hi => rw [read_blank (Text.isAsciiBlank_iff.mpr hb), hi]
    case pair hc hd _ hi =>
      rw [read, if_neg hc.not_blank, value?_eq_some_iff.mpr hc, value?_eq_some_iff.mpr hd, hi,
        ← or_low hd.left]
      rfl

theorem read_eq_none_iff : read t = none ↔ ¬∃ octets, Denotes t octets := by
  simp only [← read_eq_some_iff, Option.eq_none_iff_forall_ne_some, not_exists, ne_eq]

end Hex
end Hpack
