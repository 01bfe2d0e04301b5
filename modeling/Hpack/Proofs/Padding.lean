import Hpack.Proofs.RoundTrip

namespace Hpack
namespace Grammar

-- Complete octets that are made longer by groups of zeros, one more than `count`: the last octet now
-- announces another one, as do all the zeros but the last.
def padded (octets : List UInt8) (count : Nat) : List UInt8 :=
  octets.dropLast ++ (octets.getLastD 0 + 128) :: List.replicate count 0x80 ++ [0x00]

variable {octet : UInt8} {octets more : List UInt8} {count n : Nat}

theorem padded_concat : padded (more ++ [octet]) count =
    more ++ (octet + 128) :: List.replicate count 0x80 ++ [0x00] := by
  simp [padded, List.getLastD_eq_getLast?]

theorem padded_cons (h : octets ≠ []) :
    padded (octet :: octets) count = octet :: padded octets count := by
  have ⟨more, final, ho⟩ := List.eq_nil_or_concat' octets |>.resolve_left h
  rw [ho, ← List.cons_append, padded_concat, padded_concat]
  rfl

theorem length_padded (h : octets ≠ []) (count : Nat) :
    (padded octets count).length = octets.length + (count + 1) := by
  have ⟨more, final, ho⟩ := List.eq_nil_or_concat' octets |>.resolve_left h
  simp [ho, padded_concat]
  omega

theorem getLast?_padded : (padded octets count).getLast? = some 0 :=
  List.getLast?_concat

theorem toNat_add_high (h : octet.toNat < 128) : (octet + 128).toNat = octet.toNat + 128 := by
  rw [UInt8.toNat_add]
  exact Nat.mod_eq_of_lt (by simp; omega)

theorem number_zeros : number (List.replicate count 0x80 ++ [0x00]) = 0 := by
  induction count
  case zero => rfl
  case succ hi => rw [List.replicate_succ, List.cons_append, number_cons, hi]; rfl

theorem ended_padded (he : Ended octets) : Ended (padded octets count) := by
  have ⟨more, final, ho, hr, hl⟩ := Ended.iff_concat.mp he
  have hz : ∀ octet ∈ List.replicate count (0x80 : UInt8), 128 ≤ octet.toNat := by
    intro octet h
    rw [List.eq_of_mem_replicate h]
    decide
  rw [ho, padded_concat]
  refine Running.ended_concat (fun octet h => ?_) (by decide)
  rw [List.mem_append, List.mem_cons] at h
  rcases h with h | rfl | h
  · exact hr octet h
  · exact toNat_add_high hl ▸ Nat.le_add_left ..
  · exact hz octet h

theorem number_padded (he : Ended octets) : number (padded octets count) = number octets := by
  have ⟨more, final, ho, _, hl⟩ := Ended.iff_concat.mp he
  rw [ho, padded_concat, List.append_assoc, List.cons_append, number_append, number_append,
    number_cons, number_cons, number_zeros, number_nil, toNat_add_high hl, Nat.add_mod_right]

theorem group_of_high (h : 128 ≤ octet.toNat) : UInt8.ofNat (128 + octet.toNat % 128) = octet := by
  have := octet.toNat_lt
  rw [← UInt8.toNat_inj, toNat_group]
  omega

theorem low_of_high (h : 128 ≤ octet.toNat) : UInt8.ofNat (octet.toNat % 128) + 128 = octet := by
  have := octet.toNat_lt
  have hm := Nat.mod_lt octet.toNat (y := 128) (by decide)
  rw [← UInt8.toNat_inj, toNat_add_high (by rwa [toNat_last hm]), toNat_last hm]
  omega

-- A number has no other complete octets than the shortest ones and those made longer by zeros. Groups
-- of zeros can only stand at the end, so a group above which all are zero starts the padding.
theorem eq_shortest_or_padded (he : Ended octets) :
    octets = shortest (number octets) ∨ ∃ count, octets = padded (shortest (number octets)) count := by
  induction he
  case last octet h =>
    rw [number_cons, number_nil, Nat.mod_eq_of_lt h, Nat.mul_zero, Nat.add_zero, shortest_of_lt h,
      UInt8.ofNat_toNat]
    exact .inl rfl
  case cons octet octets h he hi =>
    by_cases hz : number octets = 0
    case pos =>
      have hm := Nat.mod_lt octet.toNat (y := 128) (by decide)
      rw [number_cons, hz, Nat.mul_zero, Nat.add_zero, shortest_of_lt hm]
      rw [hz, shortest_of_lt (by decide)] at hi
      right
      cases hi
      case inl hi => exact ⟨0, by simp [padded, hi, low_of_high h]⟩
      case inr hi =>
        have ⟨count, hi⟩ := hi
        exact ⟨count + 1, by simp [padded, hi, low_of_high h, List.replicate_succ]⟩
    case neg =>
      have hs : shortest (number (octet :: octets)) = octet :: shortest (number octets) := by
        rw [number_cons, shortest_of_le (by omega), Nat.add_mul_mod_self_left, Nat.mod_mod,
          Nat.add_mul_div_left _ _ (by decide), Nat.div_eq_of_lt (Nat.mod_lt _ (by decide)),
          Nat.zero_add, group_of_high h]
      rw [hs]
      cases hi
      case inl hi => exact .inl (congrArg _ hi)
      case inr hi =>
        have ⟨count, hi⟩ := hi
        refine .inr ⟨count, ?_⟩
        rw [padded_cons (ended_shortest _).ne_nil, ← hi]

end Grammar
end Hpack
