import Hpack.Proofs.Spelling

namespace Hpack

open Grammar

-- Octets that are the same but for the bits above the prefix in the one at an offset.
structure AgreeBelow (w : Width) (offset : Nat) (octets octets' : List UInt8) : Prop where
  length : octets.length = octets'.length
  others : ∀ i, i ≠ offset → octets[i]? = octets'[i]?
  low    : ∀ octet octet', octets[offset]? = some octet → octets'[offset]? = some octet' →
    ∀ i < w.bits, octet.toNat.testBit i = octet'.toNat.testBit i

variable {w : Width} {octets octets' rest : List UInt8} {octet octet' : UInt8} {offset : Nat}
  {form : Form}

theorem Width.mod_eq_of_testBit {n m : Nat} (h : ∀ i < w.bits, n.testBit i = m.testBit i) :
    n % 2 ^ w.bits = m % 2 ^ w.bits := by
  apply Nat.eq_of_testBit_eq
  intro i
  rw [Nat.testBit_mod_two_pow, Nat.testBit_mod_two_pow]
  by_cases hi : i < w.bits
  case pos => rw [h i hi]
  case neg => simp [hi]

namespace AgreeBelow

theorem drop_succ (a : AgreeBelow w offset octets octets') :
    octets.drop (offset + 1) = octets'.drop (offset + 1) := by
  apply List.ext_getElem?
  intro i
  rw [List.getElem?_drop, List.getElem?_drop]
  exact a.others _ (by omega)

-- Either there is nothing at the offset, or there is an octet on each side with the same low bits, and
-- the same octets follow.
theorem drop_cases (a : AgreeBelow w offset octets octets') :
    (octets.drop offset = [] ∧ octets'.drop offset = []) ∨
    ∃ octet octet' rest, octets.drop offset = octet :: rest ∧ octets'.drop offset = octet' :: rest ∧
      octet.toNat % 2 ^ w.bits = octet'.toNat % 2 ^ w.bits := by
  by_cases h : offset < octets.length
  case pos =>
    have h' : offset < octets'.length := a.length ▸ h
    have hl := a.low _ _ (List.getElem?_eq_getElem h) (List.getElem?_eq_getElem h')
    refine .inr ⟨_, octets'[offset], _, List.drop_eq_getElem_cons h, ?_, Width.mod_eq_of_testBit hl⟩
    rw [List.drop_eq_getElem_cons h', a.drop_succ]
  case neg =>
    have h' : ¬offset < octets'.length := a.length ▸ h
    exact .inl ⟨List.drop_eq_nil_of_le (Nat.not_lt.mp h), List.drop_eq_nil_of_le (Nat.not_lt.mp h')⟩

end AgreeBelow

-- Of the first octet, only the prefix matters.
theorem Grammar.Begins.congr_first (h : Begins w (octet :: rest) form)
    (ho : octet.toNat % 2 ^ w.bits = octet'.toNat % 2 ^ w.bits) : Begins w (octet' :: rest) form := by
  cases h
  case direct hp =>
    rw [ho] at hp ⊢
    exact .direct hp
  case ended he hl hv hp     => exact .ended (ho ▸ hp) he hl hv
  case excessive he hl hv hp => exact .excessive (ho ▸ hp) he hl hv
  case endless hr hl hp      => exact .endless (ho ▸ hp) hr hl
  case cut hp hr hl          => exact .cut (ho ▸ hp) hr hl

theorem decode_of_agreeBelow (a : AgreeBelow w offset octets octets') :
    decode octets (.whole w.bits) offset = decode octets' (.whole w.bits) offset := by
  have ⟨form, hb⟩ := Begins.exists_form w (octets.drop offset)
  have hb' : Begins w (octets'.drop offset) form := by
    rcases a.drop_cases with ⟨h, h'⟩ | ⟨octet, octet', rest, h, h', ho⟩ <;> rw [h] at hb <;> rw [h']
    · exact hb
    · exact hb.congr_first ho
  rw [decode_of_begins hb, decode_of_begins hb']

-- What is written besides the flags only depends on the value: what the prefix holds, and the octets
-- behind the first one.
theorem Grammar.exists_canonical (w : Width) (value : Nat) :
    ∃ n more, n < 2 ^ w.bits ∧ ∀ flags, canonical w flags value = UInt8.ofNat (flags + n) :: more := by
  have := w.two_le_pow_bits
  by_cases hv : value < 2 ^ w.bits - 1
  case pos => exact ⟨value, [], by omega, fun _ => canonical_of_lt hv⟩
  case neg => exact ⟨_, _, by omega, fun _ => canonical_of_le (Nat.not_lt.mp hv)⟩

theorem encode_first {value flags flags' : Nat} (h : value ≤ 2 ^ 32 - 1) (a : w.Admits flags)
    (a' : w.Admits flags') :
    ∃ first first' more,
      encode value (.whole w.bits) flags = .ok (first :: more) ∧
      encode value (.whole w.bits) flags' = .ok (first' :: more) ∧
      first.toNat % 2 ^ w.bits = first'.toNat % 2 ^ w.bits ∧
      first.toNat - first.toNat % 2 ^ w.bits = flags ∧
      first'.toNat - first'.toNat % 2 ^ w.bits = flags' := by
  have ⟨n, more, hn, hc⟩ := exists_canonical w value
  have hf : (UInt8.ofNat (flags + n)).toNat = flags + n := UInt8.toNat_ofNat_of_lt' (a.add_lt hn)
  have hf' : (UInt8.ofNat (flags' + n)).toNat = flags' + n := UInt8.toNat_ofNat_of_lt' (a'.add_lt hn)
  refine ⟨_, _, more, hc flags ▸ encode_eq h a, hc flags' ▸ encode_eq h a', ?_⟩
  rw [hf, hf', a.add_mod hn, a'.add_mod hn]
  exact ⟨rfl, Nat.add_sub_cancel .., Nat.add_sub_cancel ..⟩

theorem Spells.unique {flags flags' value value' : Nat} (s : Spells w flags value octets)
    (s' : Spells w flags' value' octets) : value = value' ∧ flags = flags' := by
  have hv := s.value.symm.trans s'.value
  rw [Except.ok.injEq, Prod.mk.injEq] at hv
  exact ⟨hv.left, s.flags.symm.trans s'.flags⟩

theorem encode_injective {value flags value' flags' : Int}
    (h : encode value (.whole w.bits) flags = .ok octets)
    (h' : encode value' (.whole w.bits) flags' = .ok octets) : value = value' ∧ flags = flags' := by
  have spells {value flags : Int} (h : encode value (.whole w.bits) flags = .ok octets) :
      ∃ v f : Nat, value = v ∧ flags = f ∧ Spells w f v octets := by
    obtain ⟨w', v, f, hw, rfl, hv, rfl, a, rfl⟩ := encode_eq_ok_iff.mp h
    obtain rfl : w = w' := Width.ext (by simpa using hw)
    exact ⟨v, f, rfl, rfl, (represents_canonical hv).spells hv a⟩
  obtain ⟨v, f, rfl, rfl, s⟩ := spells h
  obtain ⟨v', f', rfl, rfl, s'⟩ := spells h'
  have ⟨hv, hf⟩ := s.unique s'
  exact ⟨congrArg _ hv, congrArg _ hf⟩

-- The flags of an integer and its value do not get into each other's way. Reading takes no notice of
-- the bits above the prefix, even where it fails. Writing puts the flags there and nowhere else, and
-- both can be told from what has been written.
theorem flags_apart_from_value (w : Width) :
    (∀ (octets octets' : List UInt8) (offset : Nat), AgreeBelow w offset octets octets' →
      decode octets (.whole w.bits) offset = decode octets' (.whole w.bits) offset) ∧
    (∀ value flags flags' : Nat, value ≤ 2 ^ 32 - 1 → flags ≤ 255 ∧ 2 ^ w.bits ∣ flags →
      flags' ≤ 255 ∧ 2 ^ w.bits ∣ flags' →
      ∃ first first' more,
        encode value (.whole w.bits) flags = .ok (first :: more) ∧
        encode value (.whole w.bits) flags' = .ok (first' :: more) ∧
        first.toNat % 2 ^ w.bits = first'.toNat % 2 ^ w.bits ∧
        first.toNat - first.toNat % 2 ^ w.bits = flags ∧
        first'.toNat - first'.toNat % 2 ^ w.bits = flags') ∧
    (∀ (value flags value' flags' : Int) octets,
      encode value (.whole w.bits) flags = .ok octets →
      encode value' (.whole w.bits) flags' = .ok octets → value = value' ∧ flags = flags') :=
  ⟨fun _ _ _ => decode_of_agreeBelow,
    fun _ _ _ h hf hf' => encode_first h (Width.admits_iff.mpr hf) (Width.admits_iff.mpr hf'),
    fun _ _ _ _ _ => encode_injective⟩

theorem flags_apart_from_1337 :
    let w : Width := ⟨5, by decide, by decide⟩
    AgreeBelow w 1 [0x82, 0x1F, 0x9A, 0x0A] [0x82, 0xFF, 0x9A, 0x0A] ∧
    decode [0x82, 0x1F, 0x9A, 0x0A] (.whole w.bits) (1 : Nat) = .ok (1337, 4) ∧
    decode [0x82, 0xFF, 0x9A, 0x0A] (.whole w.bits) (1 : Nat) = .ok (1337, 4) ∧
    (1337 ≤ 2 ^ 32 - 1 ∧ (0x20 ≤ 255 ∧ 2 ^ w.bits ∣ 0x20) ∧ (0xE0 ≤ 255 ∧ 2 ^ w.bits ∣ 0xE0)) ∧
    ∃ first first' more,
      encode 1337 (.whole w.bits) 0x20 = .ok (first :: more) ∧
      encode 1337 (.whole w.bits) 0xE0 = .ok (first' :: more) ∧
      first.toNat - first.toNat % 2 ^ w.bits = 0x20 ∧
      first'.toNat - first'.toNat % 2 ^ w.bits = 0xE0 := by
  have a : AgreeBelow ⟨5, by decide, by decide⟩ 1
      [0x82, 0x1F, 0x9A, 0x0A] [0x82, 0xFF, 0x9A, 0x0A] := by
    refine ⟨rfl, fun i hi => ?others, fun octet octet' h h' => ?low⟩
    case others => rcases i with _ | _ | i <;> simp at hi ⊢
    case low =>
      cases h
      cases h'
      decide
  have ⟨hd, he, _⟩ := flags_apart_from_value ⟨5, by decide, by decide⟩
  have hr : decode [0x82, 0xFF, 0x9A, 0x0A] (.whole 5) (1 : Nat) = .ok (1337, 4) := by decide
  have ⟨first, first', more, h, h', _, hf, hf'⟩ := he 1337 0x20 0xE0 (by decide) (by decide) (by decide)
  exact ⟨a, (hd _ _ _ a).trans hr, hr, by decide, first, first', more, h, h', hf, hf'⟩

end Hpack
