import Hpack.Proofs.Grammar

namespace Hpack

-- The octets that a source gives, one after the other, on its way from one state to another.
inductive Delivers {σ : Type} [Source σ] : σ → List UInt8 → σ → Prop
  | nil {s} : Delivers s [] s
  | cons {s s₁ s₂ octet octets} :
    Source.pull s = .ok octet s₁ → Delivers s₁ octets s₂ → Delivers s (octet :: octets) s₂

-- An outcome together with the state that it leaves.
def leaving {σ α : Type} (s : σ) : Except Fault α → EStateM.Result Fault σ α
  | .ok a        => .ok a s
  | .error fault => .error fault s

-- An action may be followed by what is made of its result.
theorem return_of_act {σ α β : Type} {act : EStateM Fault σ α} {s s' : σ} {a : Except Fault α}
    (f : α → β) (h : act s = leaving s' a) :
    (do return f (← act)) s = leaving s' (a.map f) := by
  simp only [bind, EStateM.bind, h]
  cases a <;> rfl

-- Where reading stops: an octet is only asked for in vain if the integer is not complete.
def Grammar.Form.Halts {σ : Type} [Source σ] (form : Form) (fault : Fault) (s₁ s₂ : σ) : Prop :=
  (form.Starved → Source.pull s₁ = .error fault s₂) ∧ (¬form.Starved → s₁ = s₂)

namespace Grammar.Form.Halts

variable {σ : Type} [Source σ] {form : Form} {fault : Fault} {s s' : σ}

theorem of_starved (hs : form.Starved) (hp : Source.pull s = .error fault s') :
    form.Halts fault s s' :=
  ⟨fun _ => hp, (absurd hs ·)⟩

theorem of_not_starved (hs : ¬form.Starved) : form.Halts fault s s :=
  ⟨(absurd · hs), fun _ => rfl⟩

end Grammar.Form.Halts

namespace Decoder

open Grammar

variable {σ : Type} [Source σ] {s s₁ s₂ : σ} {octet : UInt8} {more : List UInt8}

theorem absorb_number (value index : Nat) (octet : UInt8) (more : List UInt8) :
    absorb value index octet + 128 ^ (index + 1) * number more =
      value + 128 ^ index * number (octet :: more) := by
  rw [absorb_eq, number_cons]
  ring

-- The groups of octets that announce another one are added up, and none of them stops the loop.
theorem continuation_of_running (value index left : Nat) (hd : Delivers s more s₁)
    (hr : Running more) :
    continuation value index (more.length + left) s =
      continuation (value + 128 ^ index * number more) (index + more.length) left s₁ := by
  induction hd generalizing value index
  case nil => simp [number_nil]
  case cons octet more hp _ hi =>
    have ⟨hc, hr⟩ := Running.cons_iff.mp hr
    rw [List.length_cons, Nat.add_right_comm, continuation_of_pull hp,
      if_pos (continues_iff.mpr hc), hi _ _ hr, absorb_number, Nat.add_right_comm index 1, Nat.add_assoc]

-- Only the last octet makes the loop judge the value.
theorem continuation_of_ended (value index : Nat) {left : Nat} (hd : Delivers s more s₁)
    (he : Ended more) (hl : more.length ≤ left) :
    continuation value index left s =
      if 2 ^ 32 - 1 < value + 128 ^ index * number more then
        .error (.overflow (value + 128 ^ index * number more)) s₁
      else
        .ok (value + 128 ^ index * number more) s₁ := by
  induction he generalizing s value index left
  all_goals
    have ⟨left, h⟩ := Nat.exists_eq_add_one.mpr (Nat.lt_of_lt_of_le (Nat.succ_pos _) hl)
    subst h
    cases hd
  case last.cons octet h _ hp hd =>
    cases hd
    have hn := absorb_number value index octet []
    rw [number_nil, Nat.mul_zero, Nat.add_zero] at hn
    rw [continuation_of_pull hp, if_neg (by simpa [continues_iff] using h), hn, maxValue_eq]
  case cons.cons h _ hi _ hp hd =>
    rw [continuation_of_pull hp, if_pos (continues_iff.mpr h),
      hi _ _ hd (Nat.le_of_succ_le_succ hl), absorb_number]

variable {w : Width} {octets : List UInt8} {form : Form} {fault : Fault}

theorem integer_of_direct (hp : Source.pull s = .ok octet s₁)
    (h : octet.toNat % 2 ^ w.bits < 2 ^ w.bits - 1) :
    integer w s = .ok (octet.toNat % 2 ^ w.bits) s₁ := by
  rw [integer_of_pull hp, Width.and_mask, Width.mask_eq, if_pos h]

theorem integer_of_full (hp : Source.pull s = .ok octet s₁)
    (h : octet.toNat % 2 ^ w.bits = 2 ^ w.bits - 1) :
    integer w s = continuation (2 ^ w.bits - 1) 0 5 s₁ := by
  rw [integer_of_pull hp, Width.and_mask, Width.mask_eq, h, if_neg (Nat.lt_irrefl _), maxContinuation]

theorem integer_of_ended (hp : Source.pull s = .ok octet s₁)
    (h : octet.toNat % 2 ^ w.bits = 2 ^ w.bits - 1) (hd : Delivers s₁ more s₂) (he : Ended more)
    (hl : more.length ≤ 5) :
    integer w s =
      if 2 ^ 32 - 1 < 2 ^ w.bits - 1 + number more then
        .error (.overflow (2 ^ w.bits - 1 + number more)) s₂
      else
        .ok (2 ^ w.bits - 1 + number more) s₂ := by
  rw [integer_of_full hp h, continuation_of_ended _ _ hd he hl, Nat.pow_zero, Nat.one_mul]

-- A source is read by the form of what it gives, whatever it is and whatever it would give next.
theorem integer_of_begins (hb : Begins w octets form)
    (hd : Delivers s (octets.take form.length) s₁) (hh : form.Halts fault s₁ s₂) :
    integer w s = leaving s₂ (form.verdict fault) := by
  cases hb
  case absent =>
    cases hd
    exact integer_of_fault (hh.left (.inl rfl))
  all_goals
    simp only [Form.length, Nat.add_comm 1, List.take_succ_cons, List.take_left, List.take_zero] at hd
    cases hd
  case direct.cons hf _ hp hd =>
    cases hd
    rw [← hh.right (by simp [Form.Starved])]
    exact integer_of_direct hp hf
  case ended.cons hf he hl hv _ hp hd =>
    rw [integer_of_ended hp hf hd he hl, if_neg (Nat.not_lt.mpr hv),
      ← hh.right (by simp [Form.Starved])]
    rfl
  case excessive.cons hf he hl hv _ hp hd =>
    rw [integer_of_ended hp hf hd he hl, if_pos hv, ← hh.right (by simp [Form.Starved])]
    rfl
  case endless.cons hf hr hl _ hp hd =>
    rw [List.take_left' hl] at hd
    have hc := continuation_of_running (2 ^ w.bits - 1) 0 0 hd hr
    rw [hl] at hc
    rw [integer_of_full hp hf, ← hh.right (by simp [Form.Starved])]
    exact hc
  case cut.cons hf hr hl _ hp hd =>
    rw [List.take_length] at hd
    obtain ⟨left, hk⟩ := Nat.exists_eq_add_of_lt hl
    have hc := continuation_of_running (2 ^ w.bits - 1) 0 (left + 1) hd hr
    rw [integer_of_full hp hf, hk, Nat.add_assoc, hc]
    exact continuation_of_fault (hh.left (.inr ⟨_, rfl⟩))

theorem read_of_begins (hb : Begins w octets form)
    (hd : Delivers s (octets.take form.length) s₁) (hh : form.Halts fault s₁ s₂) :
    read (.whole w.bits) s = leaving s₂ (form.verdict fault) := by
  rw [read_eq_integer Width.ofCandidate_bits, integer_of_begins hb hd hh]

end Decoder
end Hpack
