import Hpack.Fault.Category
import Hpack.Proofs.Decode

namespace Hpack
namespace Grammar

variable {w : Width} {octets : List UInt8} {form : Form}

-- Four groups of seven bits or fewer are within the range, so what is not complete yet can be ended by
-- a group of zeros.
theorem Begins.complete (h : Begins w octets form) (hs : form.Starved) :
    ∃ form' value, Begins w (octets ++ [0x00]) form' ∧ ∀ fault, form'.verdict fault = .ok value := by
  have := w.two_le_pow_bits
  cases h <;> simp [Form.Starved] at hs
  case absent =>
    have hp : (0x00 : UInt8).toNat % 2 ^ w.bits < 2 ^ w.bits - 1 := by
      rw [UInt8.toNat_zero, Nat.zero_mod]
      omega
    exact ⟨_, _, .direct hp, fun _ => rfl⟩
  case cut octet more hp hr hl =>
    have := w.pow_bits_le
    have hn : number (more ++ [0x00]) = number more := by
      simp [number_append, number_cons, number_nil]
    have hb : number more < 128 ^ 4 :=
      Nat.lt_of_lt_of_le number_lt (Nat.pow_le_pow_right (by decide) (Nat.le_of_lt_succ hl))
    have he : Ended (more ++ [0x00]) := hr.ended_concat (by decide)
    have hd : Begins w (octet :: ((more ++ [0x00]) ++ [])) _ :=
      .ended hp he (by simpa using hl) (by omega)
    rw [List.append_nil] at hd
    exact ⟨_, _, hd, fun _ => rfl⟩

end Grammar

open Grammar

variable {w : Width} {octets : List UInt8} {offset : Nat} {form : Form} {fault : Fault}

theorem drop_append_of_begins (h : Begins w (octets.drop offset) form) (hs : ¬form.Starved)
    (more : List UInt8) : (octets ++ more).drop offset = octets.drop offset ++ more := by
  apply List.drop_append_of_le_length
  by_contra hl
  rw [List.drop_eq_nil_of_le (by omega)] at h
  exact hs (h.unique .absent ▸ .inl rfl)

-- Nothing behind an integer changes it, and neither does anything behind octets which no integer can
-- begin with.
theorem decode_append (h : Begins w (octets.drop offset) form) (hs : ¬form.Starved)
    (more : List UInt8) :
    decode (octets ++ more) (.whole w.bits) offset = decode octets (.whole w.bits) offset := by
  have hm := h.append hs more
  rw [← drop_append_of_begins h hs] at hm
  rw [decode_of_begins h, decode_of_begins hm]

theorem decode_of_starved (h : Begins w (octets.drop offset) form) (hs : form.Starved) :
    decode octets (.whole w.bits) offset = .error (.insufficient .buffer) := by
  rw [decode_of_begins h, form.verdict_of_starved hs]
  rfl

-- As long as an octet is missing, more octets are asked for.
theorem decode_take (h : Begins w (octets.drop offset) form) (hs : ¬form.Starved) {n : Nat}
    (hn : n < offset + form.length) :
    decode (octets.take n) (.whole w.bits) offset = .error (.insufficient .buffer) := by
  have hl := form.length_pos hs
  obtain ⟨_, ht, hs⟩ := h.take (n := n - offset) (by omega)
  rw [← List.drop_take] at ht
  exact decode_of_starved ht hs

theorem decode_complete (h : Begins w (octets.drop offset) form) (hs : form.Starved) :
    ∃ r, decode (octets ++ List.replicate (offset - octets.length + 1) 0x00) (.whole w.bits) offset =
      .ok r := by
  have ⟨_, value, hc, hv⟩ := h.complete hs
  have hd : (octets ++ List.replicate (offset - octets.length + 1) 0x00).drop offset =
      octets.drop offset ++ [0x00] := by
    rw [List.drop_append, List.drop_replicate, Nat.add_sub_cancel_left]
    rfl
  rw [← hd] at hc
  exact ⟨_, by rw [decode_of_begins hc, hv]; rfl⟩

-- Octets are missing, or there are too many of them already.
theorem kind_of_begins (h : Begins w (octets.drop offset) form)
    (he : decode octets (.whole w.bits) offset = .error fault) :
    (form.Starved ∧ fault.kind = .insufficient) ∨
      (¬form.Starved ∧ Fault.Category.tooManyOctets.Catches fault) := by
  rw [decode_of_begins h] at he
  cases form <;> cases he
  all_goals
    simp [Form.Starved, Fault.kind, Fault.Category.Catches, Fault.Kind.categories]

theorem insufficient_iff (h : Begins w (octets.drop offset) form) :
    (∃ fault, decode octets (.whole w.bits) offset = .error fault ∧ fault.kind = .insufficient) ↔
      form.Starved where
  mp := by
    intro ⟨fault, he, hk⟩
    cases kind_of_begins h he
    case inl hs => exact hs.left
    case inr hs => simp [Fault.Category.Catches, hk, Fault.Kind.categories] at hs
  mpr hs := ⟨_, decode_of_starved h hs, rfl⟩

theorem tooManyOctets_iff (h : Begins w (octets.drop offset) form) :
    (∃ fault, decode octets (.whole w.bits) offset = .error fault ∧
      Fault.Category.tooManyOctets.Catches fault) ↔
      ¬form.Starved ∧ ¬∃ r, decode octets (.whole w.bits) offset = .ok r := by
  cases hd : decode octets (.whole w.bits) offset
  case ok => simp
  case error fault =>
    cases kind_of_begins h hd
    case inl hs => simp [hs, Fault.Category.Catches, Fault.Kind.categories]
    case inr hs => simp [hs]

theorem completable_iff (h : Begins w (octets.drop offset) form) :
    (∃ more r, decode (octets ++ more) (.whole w.bits) offset = .ok r) ↔
      form.Starved ∨ ∃ r, decode octets (.whole w.bits) offset = .ok r := by
  by_cases hs : form.Starved
  case pos => exact iff_of_true ⟨_, decode_complete h hs⟩ (.inl hs)
  case neg => simp [decode_append h hs, hs]

-- What has been decoded or refused stays so whatever follows, and it is not decided before its last
-- octet. What is incomplete can be completed, so only what is refused for good has too many octets.
theorem decode_viable_prefix (octets : List UInt8) (w : Width) (offset : Nat) :
    (∀ value next, decode octets (.whole w.bits) offset = .ok (value, next) →
      (∀ more, decode (octets ++ more) (.whole w.bits) offset = .ok (value, next)) ∧
      (∀ n < next, decode (octets.take n) (.whole w.bits) offset =
        .error (.insufficient .buffer))) ∧
    (∀ fault, decode octets (.whole w.bits) offset = .error fault →
      (fault.kind = .tooManyOctets ∨ fault.kind = .overflow →
        ∀ more, decode (octets ++ more) (.whole w.bits) offset = .error fault) ∧
      (fault.kind = .insufficient →
        ∃ r, decode (octets ++ List.replicate (offset - octets.length + 1) 0x00) (.whole w.bits)
          offset = .ok r)) ∧
    ((∃ fault, decode octets (.whole w.bits) offset = .error fault ∧ fault.kind = .insufficient) ↔
      (¬∃ r, decode octets (.whole w.bits) offset = .ok r) ∧
        ∃ more r, decode (octets ++ more) (.whole w.bits) offset = .ok r) ∧
    ((∃ fault, decode octets (.whole w.bits) offset = .error fault ∧
        Fault.Category.tooManyOctets.Catches fault) ↔
      ¬∃ more r, decode (octets ++ more) (.whole w.bits) offset = .ok r) := by
  have ⟨form, hb⟩ := Begins.exists_form w (octets.drop offset)
  refine ⟨fun value next h => ?ok, fun fault h => ⟨fun hk => ?fatal, fun hk => ?retryable⟩, ?_, ?_⟩
  case ok =>
    have ⟨form, hb, hv, hn⟩ := decode_eq_ok_iff.mp h
    have hs : ¬form.Starved := fun hs => by simp [form.verdict_of_starved hs] at hv
    exact ⟨fun more => h ▸ decode_append hb hs more, fun _ => hn ▸ decode_take hb hs⟩
  case fatal =>
    have hs : ¬form.Starved := by
      intro hs
      cases (decode_of_starved hb hs).symm.trans h
      simp [Fault.kind] at hk
    exact fun more => h ▸ decode_append hb hs more
  case retryable => exact decode_complete hb ((insufficient_iff hb).mp ⟨fault, h, hk⟩)
  · rw [insufficient_iff hb, completable_iff hb]
    have hn : form.Starved → ¬∃ r, decode octets (.whole w.bits) offset = .ok r :=
      fun hs => by simp [decode_of_starved hb hs]
    exact ⟨fun hs => ⟨hn hs, .inl hs⟩, fun ⟨hd, ho⟩ => ho.resolve_right hd⟩
  · rw [tooManyOctets_iff hb, completable_iff hb, not_or]

end Hpack
