import Hpack.Feed
import Hpack.Proofs.Decode
import Hpack.Proofs.Encoder

namespace Hpack

-- Sources that do not judge values themselves.
def Source.Plain (σ : Type) [Source σ] : Prop :=
  ∀ (s s' : σ) value, Source.pull s ≠ .error (.overflow value) s'

theorem Buffer.plain : Source.Plain Buffer := by
  intro b b' value h
  simp only [Source.pull, pull] at h
  split at h <;> cases h

theorem Feed.plain : Source.Plain Feed := by
  intro f f' value h
  simp only [Source.pull, pull] at h
  split at h <;> cases h

open Grammar

variable {w : Width} {more : List UInt8}

-- An octet of ones fills the prefix of every width.
theorem Width.ones_mod (w : Width) : 255 % 2 ^ w.bits = 2 ^ w.bits - 1 := by
  have h : ∀ bits ≤ 8, 255 % 2 ^ bits = 2 ^ bits - 1 := by decide
  exact h w.bits w.le_eight

theorem decode_of_excessive (he : Ended more) (hl : more.length ≤ 5)
    (hv : 2 ^ 32 - 1 < 2 ^ w.bits - 1 + number more) :
    decode (0xFF :: more) (.whole w.bits) (0 : Nat) =
      .error (.overflow (2 ^ w.bits - 1 + number more)) := by
  have hb : Begins w (0xFF :: (more ++ [])) _ := .excessive w.ones_mod he hl hv
  rw [List.append_nil] at hb
  have hd : decode (0xFF :: more) (.whole w.bits) (0 : Nat) = _ := decode_of_begins hb
  exact hd

-- The least and the greatest value that is reported as out of range.
theorem exists_overflow_least (w : Width) :
    ∃ octets, decode octets (.whole w.bits) (0 : Nat) = .error (.overflow (2 ^ 32)) := by
  have := w.pow_bits_le
  have := w.two_le_pow_bits
  have hl : (shortest (2 ^ 32 - (2 ^ w.bits - 1))).length ≤ 5 := by
    rw [length_shortest_le_iff]
    omega
  have hn : 2 ^ w.bits - 1 + number (shortest (2 ^ 32 - (2 ^ w.bits - 1))) = 2 ^ 32 := by
    rw [number_shortest]
    omega
  exact ⟨_, hn ▸ decode_of_excessive (ended_shortest _) hl (by omega)⟩

theorem exists_overflow_greatest (w : Width) :
    ∃ octets, decode octets (.whole w.bits) (0 : Nat) =
      .error (.overflow (2 ^ 35 + 2 ^ w.bits - 2)) := by
  have := w.two_le_pow_bits
  have hr : Running [0xFF, 0xFF, 0xFF, 0xFF] := by simp [Running]
  have he : Ended [0xFF, 0xFF, 0xFF, 0xFF, 0x7F] := hr.ended_concat (by decide)
  have hn : number [0xFF, 0xFF, 0xFF, 0xFF, 0x7F] = 2 ^ 35 - 1 := by decide
  have hv : 2 ^ w.bits - 1 + number [0xFF, 0xFF, 0xFF, 0xFF, 0x7F] = 2 ^ 35 + 2 ^ w.bits - 2 := by
    omega
  exact ⟨_, hv ▸ decode_of_excessive he (by decide) (by omega)⟩

namespace Decoder

-- Where the loop is: how many continuation octets it has taken, the value that it holds, whether another
-- octet is announced, and what the source has come to.
inductive Holding {σ : Type} [Source σ] (w : Width) (s : σ) : Nat → Nat → Bool → σ → Prop
  | full {octet s₁} :
    Source.pull s = .ok octet s₁ → octet.toNat % 2 ^ w.bits = 2 ^ w.bits - 1 →
    Holding w s 0 (2 ^ w.bits - 1) true s₁
  | more {taken value octet s₁ s₂} :
    Holding w s taken value true s₁ → taken < 5 → Source.pull s₁ = .ok octet s₂ →
    Holding w s (taken + 1) (absorb value taken octet) (continues octet) s₂

-- The ways in which reading can end. Where there is a loop, the value that it holds at last decides.
inductive Ending {σ : Type} [Source σ] (w : Width) (s : σ) : EStateM.Result Fault σ Nat → Prop
  | absent {fault s'} : Source.pull s = .error fault s' → Ending w s (.error fault s')
  | direct {octet s'} :
    Source.pull s = .ok octet s' → octet.toNat % 2 ^ w.bits < 2 ^ w.bits - 1 →
    Ending w s (.ok (octet.toNat % 2 ^ w.bits) s')
  | ended {taken value s'} :
    Holding w s taken value false s' → value ≤ 2 ^ 32 - 1 → Ending w s (.ok value s')
  | excessive {taken value s'} :
    Holding w s taken value false s' → 2 ^ 32 - 1 < value → Ending w s (.error (.overflow value) s')
  | endless {value s'} : Holding w s 5 value true s' → Ending w s (.error .tooManyOctets s')
  | cut {taken value fault s₁ s'} :
    Holding w s taken value true s₁ → taken < 5 → Source.pull s₁ = .error fault s' →
    Ending w s (.error fault s')

variable {σ : Type} [Source σ] {w : Width} {s s' : σ} {taken value left : Nat} {announced : Bool}

namespace Holding

theorem taken_le (h : Holding w s taken value announced s') : taken ≤ 5 := by
  cases h
  case full => exact Nat.zero_le 5
  case more hl _ => exact hl

-- From there on, reading goes on with the value, or the value is judged.
theorem integer_eq (h : Holding w s taken value announced s') :
    integer w s =
      if announced then continuation value taken (5 - taken) s'
      else if 2 ^ 32 - 1 < value then .error (.overflow value) s'
      else .ok value s' := by
  induction h
  case full hp hf => exact integer_of_full hp hf
  case more taken _ _ _ _ _ hl hp hi =>
    have hn : 5 - taken = 5 - (taken + 1) + 1 := by omega
    rw [hi, if_pos rfl, hn, continuation_of_pull hp, maxValue_eq]

-- What the groups come to stays below the weight of the next one, and what the prefix has brought in comes
-- on top of that.
theorem value_le (h : Holding w s taken value announced s') :
    value ≤ 2 ^ w.bits - 1 + (128 ^ taken - 1) := by
  induction h
  case full => exact Nat.le_add_right ..
  case more taken value octet _ _ _ _ _ hi =>
    -- A group is at most 127, so it takes the sum up to the next power less one.
    have hm : 128 ^ taken * (octet.toNat % 128) ≤ 128 ^ taken * 127 :=
      Nat.mul_le_mul_left _ (Nat.le_of_lt_succ (Nat.mod_lt _ (by decide)))
    have hp : 0 < 128 ^ taken := Nat.pow_pos (by decide)
    rw [absorb_eq, Nat.pow_succ]
    omega

theorem lt_of_taken_le (h : Holding w s taken value announced s') (ht : taken ≤ 4) :
    value < 2 ^ 32 := by
  have := h.value_le
  have := w.pow_bits_le
  have : 128 ^ taken ≤ 128 ^ 4 := Nat.pow_le_pow_right (by decide) ht
  omega

-- Only after the fifth octet, the value can be out of range.
theorem taken_eq (h : Holding w s taken value announced s') (hv : 2 ^ 32 - 1 < value) : taken = 5 := by
  have := h.taken_le
  by_contra ht
  have := h.lt_of_taken_le (by omega)
  omega

theorem ending (h : Holding w s taken value true s') (hn : taken + left = 5) :
    Ending w s (continuation value taken left s') := by
  induction left generalizing taken value s'
  case zero =>
    obtain rfl : taken = 5 := hn
    exact .endless h
  case succ left hi =>
    have ht : taken < 5 := by omega
    cases hp : Source.pull s'
    case error =>
      rw [continuation_of_fault hp]
      exact .cut h ht hp
    case ok octet s₁ =>
      have hm := h.more ht hp
      rw [continuation_of_pull hp, maxValue_eq]
      split
      case isTrue hc => exact hi (hc ▸ hm) (by omega)
      case isFalse hc =>
        rw [Bool.not_eq_true] at hc
        rw [hc] at hm
        split
        case isTrue hv  => exact .excessive hm hv
        case isFalse hv => exact .ended hm (Nat.not_lt.mp hv)

end Holding

-- Reading ends in one of the ways, whatever the source gives.
theorem ending_of_integer (w : Width) (s : σ) : Ending w s (integer w s) := by
  cases hp : Source.pull s
  case error =>
    rw [integer_of_fault hp]
    exact .absent hp
  case ok octet s₁ =>
    by_cases hf : octet.toNat % 2 ^ w.bits < 2 ^ w.bits - 1
    case pos =>
      rw [integer_of_direct hp hf]
      exact .direct hp hf
    case neg =>
      have := Nat.mod_lt octet.toNat (Nat.two_pow_pos w.bits)
      replace hf : octet.toNat % 2 ^ w.bits = 2 ^ w.bits - 1 := by omega
      rw [integer_of_full hp hf]
      exact (Holding.full hp hf).ending rfl

-- A value that is reported as out of range has been held after five octets, unless the source itself
-- comes up with it.
theorem holding_of_overflow (hs : Source.Plain σ) (h : integer w s = .error (.overflow value) s') :
    Holding w s 5 value false s' ∧ 2 ^ 32 - 1 < value := by
  have he := ending_of_integer w s
  rw [h] at he
  cases he
  case excessive hv hh => exact ⟨hh.taken_eq hv ▸ hh, hv⟩
  case absent hp | cut hp => exact absurd hp (hs _ _ _)

-- The value that the loop holds grows by seven bits with each octet, wherever the octets come from. So it
-- is always far below 64 bits, and the fifth octet is the first one that can take it out of range. All
-- that is reported as out of range is between two bounds, which do occur.
theorem accumulator_bounded (w : Width) :
    (∀ (σ : Type) [Source σ] (s s' : σ) taken value announced,
      Holding w s taken value announced s' →
      read (.whole w.bits) s =
        (if announced then continuation value taken (5 - taken) s'
        else if 2 ^ 32 - 1 < value then .error (.overflow value) s'
        else .ok value s') ∧
      taken ≤ 5 ∧ value ≤ 2 ^ w.bits - 1 + 2 ^ (7 * taken) - 1 ∧
      value ≤ 2 ^ 35 + 254 ∧ value < 2 ^ 64 ∧ (taken ≤ 4 → value < 2 ^ 32)) ∧
    (∀ (σ : Type) [Source σ] (s : σ), Ending w s (read (.whole w.bits) s)) ∧
    (Source.Plain Buffer ∧ Source.Plain Feed ∧
      ∀ (σ : Type) [Source σ], Source.Plain σ → ∀ (s s' : σ) value,
        read (.whole w.bits) s = .error (.overflow value) s' →
        Holding w s 5 value false s' ∧ 2 ^ 32 ≤ value ∧ value ≤ 2 ^ 35 + 2 ^ w.bits - 2) ∧
    (∃ octets, decode octets (.whole w.bits) 0 = .error (.overflow (2 ^ 32))) ∧
    ∃ octets, decode octets (.whole w.bits) 0 = .error (.overflow (2 ^ 35 + 2 ^ w.bits - 2)) := by
  have hr (σ : Type) [Source σ] (s : σ) : read (.whole w.bits) s = integer w s :=
    read_eq_integer Width.ofCandidate_bits
  have := w.two_le_pow_bits
  have := w.pow_bits_le
  refine ⟨fun σ _ s s' taken value announced h => ?held, fun σ _ s => hr σ s ▸ ending_of_integer w s,
    ⟨Buffer.plain, Feed.plain, fun σ _ hs s s' value h => ?reported⟩, exists_overflow_least w,
    exists_overflow_greatest w⟩
  case held =>
    have hp : (128 : Nat) ^ taken ≤ 128 ^ 5 := Nat.pow_le_pow_right (by decide) h.taken_le
    have hv := h.value_le
    have hb : 2 ^ (7 * taken) = 128 ^ taken := Nat.pow_mul 2 7 taken
    have : 0 < 128 ^ taken := Nat.pow_pos (by decide)
    refine ⟨(hr σ s).trans h.integer_eq, h.taken_le, ?_, ?_, ?_, h.lt_of_taken_le⟩ <;> omega
  case reported =>
    have ⟨hh, hv⟩ := holding_of_overflow hs ((hr σ s).symm.trans h)
    have hm := hh.value_le
    exact ⟨hh, by omega, by omega⟩

end Decoder
end Hpack
