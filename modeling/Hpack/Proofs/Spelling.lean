import Hpack.Proofs.Padding

namespace Hpack

open Grammar

-- The flags that come with an integer are the bits of its first octet above the prefix.
def ownFlags (w : Width) : List UInt8 → Nat
  | []         => 0
  | octet :: _ => octet.toNat - octet.toNat % 2 ^ w.bits

-- Octets that are an integer with flags, from the first to the last of them.
structure Spells (w : Width) (flags value : Nat) (octets : List UInt8) : Prop where
  flags : ownFlags w octets = flags
  value : decode octets (.whole w.bits) 0 = .ok (value, octets.length)

-- A value in the prefix has no other octets than those which are written. Any other value may be made
-- longer by zeros up to the limit.
def spellings (w : Width) (value : Nat) (octets : List UInt8) : List (List UInt8) :=
  if value < 2 ^ w.bits - 1 then
    [octets]
  else
    octets :: (List.range (6 - octets.length)).map (padded octets)

variable {w : Width} {flags value offset next : Nat} {octets : List UInt8}

theorem admits_ownFlags (w : Width) (octets : List UInt8) : w.Admits (ownFlags w octets) := by
  cases octets
  case nil => exact ⟨Nat.zero_le _, Nat.zero_and _⟩
  case cons octet _ =>
    have := octet.toNat_lt
    refine ⟨by simp [ownFlags]; omega, ?_⟩
    rw [← Width.mask_eq, Width.and_mask, ownFlags]
    exact Nat.sub_mod_eq_zero_of_mod_eq (Nat.mod_mod ..).symm

theorem first_eq {octet : UInt8} {more : List UInt8} (h : ownFlags w (octet :: more) = flags) :
    UInt8.ofNat (flags + octet.toNat % 2 ^ w.bits) = octet := by
  rw [← h, ownFlags, Nat.sub_add_cancel (Nat.mod_le ..), UInt8.ofNat_toNat]

theorem ownFlags_cons {n : Nat} {more : List UInt8} (a : w.Admits flags) (h : n < 2 ^ w.bits) :
    ownFlags w (UInt8.ofNat (flags + n) :: more) = flags := by
  rw [ownFlags, UInt8.toNat_ofNat_of_lt' (a.add_lt h), a.add_mod h, Nat.add_sub_cancel]

theorem decode_eq_length_iff : decode octets (.whole w.bits) 0 = .ok (value, octets.length) ↔
    ∃ form, Begins w octets form ∧ form.verdict (.insufficient .buffer) = .ok value ∧
      octets.length = form.length := by
  have h : decode octets (.whole w.bits) (0 : Nat) = .ok (value, octets.length) ↔ _ :=
    decode_eq_ok_iff
  simpa only [List.drop_zero, Nat.zero_add, Nat.cast_zero] using h

-- An integer is the same on its own as among other octets.
theorem decode_slice (h : decode octets (.whole w.bits) offset = .ok (value, next)) :
    let own := (octets.take next).drop offset
    decode own (.whole w.bits) 0 = .ok (value, own.length) := by
  have ⟨form, hb, hv, hn⟩ := decode_eq_ok_iff.mp h
  rw [hn, List.drop_take, Nat.add_sub_cancel_left, decode_eq_length_iff]
  exact ⟨form, hb.take_length, hv, List.length_take_of_le hb.length_le⟩

theorem Spells.represents (h : Spells w flags value octets) : Represents w flags value octets := by
  have hf := h.flags
  have ⟨form, hb, hv, hl⟩ := decode_eq_length_iff.mp h.value
  cases hb <;> cases hv
  case direct octet rest hp =>
    have hr : rest = [] := List.eq_nil_of_length_eq_zero (Nat.succ_injective hl)
    have hd : Represents w flags _ [UInt8.ofNat (flags + _)] := .direct hp
    rwa [first_eq hf, ← hr] at hd
  case ended octet more rest hp he hl' hv =>
    have hr : rest = [] := by
      rw [List.length_cons, List.length_append, Form.length] at hl
      exact List.eq_nil_of_length_eq_zero (by omega)
    have hd : Represents w flags _ (UInt8.ofNat (flags + _) :: more) := .ended he hl' rfl
    have ho := first_eq hf
    rw [hp] at ho
    rwa [hr, List.append_nil, ← ho]

theorem Grammar.Represents.spells (r : Represents w flags value octets) (h : value ≤ 2 ^ 32 - 1)
    (a : w.Admits flags) : Spells w flags value octets where
  flags := by
    have := w.two_le_pow_bits
    cases r
    case direct => exact ownFlags_cons a (by omega)
    case ended => exact ownFlags_cons a (by omega)
  value := by
    have ⟨form, hb, hl, hv⟩ := r.begins h a []
    rw [List.append_nil] at hb
    exact decode_eq_length_iff.mpr ⟨form, hb, hv _, hl.symm⟩

theorem mem_spellings_iff {s : List UInt8} : s ∈ spellings w value octets ↔
    s = octets ∨ 2 ^ w.bits - 1 ≤ value ∧
      ∃ count, octets.length + count < 6 ∧ s = padded octets count := by
  rw [spellings]
  split
  case isTrue hv => simp [Nat.not_le.mpr hv]
  case isFalse hv => simp [Nat.not_lt.mp hv, Nat.lt_sub_iff_add_lt', eq_comm]

-- With the same flags, a value is only spelled by the octets which are written for it and by those with
-- zeros behind them.
theorem spells_iff_mem (h : value ≤ 2 ^ 32 - 1) (a : w.Admits flags) :
    Spells w flags value octets ↔ octets ∈ spellings w value (canonical w flags value) := by
  rw [mem_spellings_iff]
  constructor
  case mp =>
    intro s
    cases s.represents
    case direct hv => exact .inl (canonical_of_lt hv).symm
    case ended more he hl hv =>
      have hm : 2 ^ w.bits - 1 ≤ value := by omega
      have hn : value - (2 ^ w.bits - 1) = number more := by omega
      rw [canonical_of_le hm, hn]
      cases eq_shortest_or_padded he
      case inl hs => exact .inl (congrArg _ hs)
      case inr hs =>
        have ⟨count, hs⟩ := hs
        have hc := length_padded (ended_shortest (number more)).ne_nil count
        rw [← hs] at hc
        refine .inr ⟨hm, count, ?_, ?_⟩
        · rw [List.length_cons]
          omega
        · rw [padded_cons (ended_shortest _).ne_nil, ← hs]
  case mpr =>
    rintro (hs | ⟨hm, count, hc, hs⟩) <;> refine Represents.spells ?_ h a
    · exact hs ▸ represents_canonical h
    · have he := ended_shortest (value - (2 ^ w.bits - 1))
      have hl := length_padded he.ne_nil count
      rw [canonical_of_le hm] at hs hc
      rw [hs, padded_cons he.ne_nil]
      refine .ended (ended_padded he) ?_ ?_
      · rw [List.length_cons] at hc
        omega
      · rw [number_padded he, number_shortest]
        omega

theorem canonical_ne_nil : canonical w flags value ≠ [] := by
  rw [canonical]
  split <;> simp

theorem length_lt_of_mem_spellings {s : List UInt8} (ho : octets ≠ [])
    (h : s ∈ spellings w value octets) (hs : s ≠ octets) : octets.length < s.length := by
  have ⟨_, count, _, h⟩ := (mem_spellings_iff.mp h).resolve_left hs
  rw [h, length_padded ho]
  omega

theorem length_spellings (h : 2 ^ w.bits - 1 ≤ value) (ho : octets.length ≤ 6) :
    (spellings w value octets).length = 7 - octets.length := by
  rw [spellings, if_neg (Nat.not_lt.mpr h), List.length_cons, List.length_map, List.length_range]
  omega

-- They differ in their lengths.
theorem nodup_spellings (ho : octets ≠ []) : (spellings w value octets).Nodup := by
  rw [spellings]
  split
  case isTrue => exact List.nodup_singleton octets
  case isFalse =>
    apply List.Nodup.of_map List.length
    have hl : List.length ∘ padded octets = (octets.length + 1 + ·) := by
      funext count
      rw [Function.comp_apply, length_padded ho]
      omega
    rw [List.map_cons, List.map_map, hl, List.nodup_cons]
    refine ⟨by simp; omega, List.nodup_range.map fun _ _ => Nat.add_left_cancel⟩

theorem eq_zero_of_getLast?_shortest {n : Nat} (h : (shortest n).getLast? = some 0) : n = 0 := by
  induction n using shortest.induct
  case case1 n hn =>
    rw [shortest_of_lt hn, List.getLast?_singleton, Option.some.injEq] at h
    exact toNat_last hn ▸ congrArg UInt8.toNat h
  case case2 n hn hi =>
    rw [shortest_of_le (Nat.not_lt.mp hn), List.getLast?_cons_of_ne_nil (ended_shortest _).ne_nil] at h
    have := hi h
    omega

-- Without padding, the last of three octets or more is not zero.
theorem canonical_ends : (canonical w flags value).length ≤ 2 ∨
    (canonical w flags value).getLast? ≠ some 0 := by
  rw [canonical]
  split
  case isTrue => exact .inl (Nat.succ_le_succ (Nat.zero_le _))
  case isFalse =>
    generalize value - (2 ^ w.bits - 1) = n
    by_cases hn : n < 128
    case pos => exact .inl (by simp [shortest_of_lt hn])
    case neg =>
      right
      rw [List.getLast?_cons_of_ne_nil (ended_shortest _).ne_nil]
      intro h
      have := eq_zero_of_getLast?_shortest h
      omega

-- Writing what has been read gives the same octets back unless there are zeros behind them.
theorem encode_eq_iff_of_decode (h : decode octets (.whole w.bits) 0 = .ok (value, octets.length)) :
    encode value (.whole w.bits) (ownFlags w octets) = .ok octets ↔
      octets.length ≤ 2 ∨ octets.getLast? ≠ some 0 := by
  have ⟨_, hb, hv, _⟩ := decode_eq_length_iff.mp h
  have hv := hb.le_of_verdict hv
  have a := admits_ownFlags w octets
  rw [encode_eq hv a, Except.ok.injEq]
  constructor
  case mp => exact fun he => he ▸ canonical_ends
  case mpr =>
    intro ho
    have hm := mem_spellings_iff.mp <| (spells_iff_mem hv a).mp ⟨rfl, h⟩
    by_contra hne
    have ⟨hp, count, _, hs⟩ := hm.resolve_left (hne ·.symm)
    have hl : octets.length = _ := hs ▸ length_padded canonical_ne_nil count
    have hc := (ended_shortest (value - (2 ^ w.bits - 1))).length_pos
    rw [canonical_of_le hp, List.length_cons] at hl
    cases ho
    case inl ho => omega
    case inr ho => exact ho (hs ▸ getLast?_padded)

-- The octets which are written for a value are the shortest that spell it. The other ones all come from
-- zeros, and those are the only octets that are not written again when they have been read.
theorem spellings_exact (w : Width) :
    (∀ value flags : Nat, value ≤ 2 ^ 32 - 1 → w.Admits flags →
      ∃ octets, encode value (.whole w.bits) flags = .ok octets ∧
        (∀ s, Spells w flags value s ↔ s ∈ spellings w value octets) ∧
        (spellings w value octets).Nodup ∧
        (2 ^ w.bits - 1 ≤ value → (spellings w value octets).length = 7 - octets.length) ∧
        (∀ s, Spells w flags value s → s ≠ octets → octets.length < s.length)) ∧
    (∀ (octets : List UInt8) (offset value next : Nat),
      decode octets (.whole w.bits) offset = .ok (value, next) →
        let own := (octets.take next).drop offset
        encode value (.whole w.bits) (ownFlags w own) = .ok own ↔
          own.length ≤ 2 ∨ own.getLast? ≠ some 0) := by
  refine ⟨fun value flags h a => ?_, fun _ _ _ _ h => encode_eq_iff_of_decode (decode_slice h)⟩
  have hm {s : List UInt8} : Spells w flags value s ↔ _ := spells_iff_mem h a
  refine ⟨canonical w flags value, encode_eq h a, fun _ => hm, nodup_spellings canonical_ne_nil,
    fun hv => length_spellings hv (represents_canonical h).length_le, fun s hs => ?_⟩
  exact length_lt_of_mem_spellings canonical_ne_nil (hm.mp hs)

theorem spells_1337_iff :
    let w : Width := ⟨5, by decide, by decide⟩
    1337 ≤ 2 ^ 32 - 1 ∧ w.Admits 0x20 ∧
    (∀ s, Spells w 0x20 1337 s ↔ s ∈ [
      [0x3F, 0x9A, 0x0A],
      [0x3F, 0x9A, 0x8A, 0x00],
      [0x3F, 0x9A, 0x8A, 0x80, 0x00],
      [0x3F, 0x9A, 0x8A, 0x80, 0x80, 0x00]
    ]) ∧
    decode [0x82, 0x3F, 0x9A, 0x8A, 0x00] (.whole w.bits) (1 : Nat) = .ok (1337, 5) ∧
    encode 1337 (.whole w.bits) 0x20 ≠ .ok [0x3F, 0x9A, 0x8A, 0x00] := by
  have a : Width.Admits ⟨5, by decide, by decide⟩ 0x20 := ⟨by decide, by decide⟩
  have hd : decode [0x82, 0x3F, 0x9A, 0x8A, 0x00] (.whole 5) (1 : Nat) = .ok (1337, 5) := by decide
  have ⟨hs, ho⟩ := spellings_exact ⟨5, by decide, by decide⟩
  refine ⟨by decide, a, fun s => ?spells, hd, fun he => ?again⟩
  case spells =>
    have ⟨octets, he, hs, _⟩ := hs 1337 0x20 (by decide) a
    rw [encode_eq (by decide) a] at he
    injection he with he
    rw [hs, ← he]
    simp [canonical, shortest, spellings, padded, List.range_succ]
  case again =>
    have hl := (ho _ _ _ _ hd).mp he
    revert hl
    decide

end Hpack
