import Hpack.Fault
import Hpack.Proofs.Octet
import Mathlib.Data.Nat.Digits.Lemmas

namespace Hpack
namespace Grammar

-- The low seven bits of continuation octets are the digits of a number to base 128, the least
-- significant one first.
def number (octets : List UInt8) : Nat :=
  Nat.ofDigits 128 (octets.map (·.toNat % 128))

-- Continuation octets each of which announces another one.
def Running (octets : List UInt8) : Prop :=
  ∀ octet ∈ octets, 128 ≤ octet.toNat

-- Continuation octets of which just the last one is below 128.
inductive Ended : List UInt8 → Prop
  | last {octet} : octet.toNat < 128 → Ended [octet]
  | cons {octet octets} : 128 ≤ octet.toNat → Ended octets → Ended (octet :: octets)

-- The ways in which octets can begin where an integer is expected. An integer is either in the prefix
-- or it has a number of continuation octets.
inductive Form
  | absent
  | direct (value : Nat)
  | ended (value count : Nat)
  | excessive (value count : Nat)
  | endless
  | cut (count : Nat)
  deriving DecidableEq

inductive Begins (w : Width) : List UInt8 → Form → Prop
  | absent : Begins w [] .absent
  | direct {octet rest}
      (hp : octet.toNat % 2 ^ w.bits < 2 ^ w.bits - 1) :
      Begins w (octet :: rest) (.direct (octet.toNat % 2 ^ w.bits))
  | ended {octet more rest}
      (hp : octet.toNat % 2 ^ w.bits = 2 ^ w.bits - 1)
      (he : Ended more) (hl : more.length ≤ 5)
      (hv : 2 ^ w.bits - 1 + number more ≤ 2 ^ 32 - 1) :
      Begins w (octet :: (more ++ rest)) (.ended (2 ^ w.bits - 1 + number more) more.length)
  | excessive {octet more rest}
      (hp : octet.toNat % 2 ^ w.bits = 2 ^ w.bits - 1)
      (he : Ended more) (hl : more.length ≤ 5)
      (hv : 2 ^ 32 - 1 < 2 ^ w.bits - 1 + number more) :
      Begins w (octet :: (more ++ rest)) (.excessive (2 ^ w.bits - 1 + number more) more.length)
  | endless {octet more rest}
      (hp : octet.toNat % 2 ^ w.bits = 2 ^ w.bits - 1)
      (hr : Running more) (hl : more.length = 5) :
      Begins w (octet :: (more ++ rest)) .endless
  | cut {octet more}
      (hp : octet.toNat % 2 ^ w.bits = 2 ^ w.bits - 1)
      (hr : Running more) (hl : more.length < 5) :
      Begins w (octet :: more) (.cut more.length)

namespace Form

-- The number of octets that are taken from what begins in this way.
def length : Form → Nat
  | absent            => 0
  | direct _          => 1
  | ended _ count     => 1 + count
  | excessive _ count => 1 + count
  | endless           => 6
  | cut count         => 1 + count

-- What reading comes to, where `starved` is what the lack of another octet comes to.
def verdict (starved : Fault) : Form → Except Fault Nat
  | absent            => .error starved
  | direct value      => .ok value
  | ended value _     => .ok value
  | excessive value _ => .error (.overflow value)
  | endless           => .error .tooManyOctets
  | cut _             => .error starved

def Starved (form : Form) : Prop :=
  form = absent ∨ ∃ count, form = cut count

end Form

variable {octet : UInt8} {octets more more' rest rest' : List UInt8}

theorem number_nil : number [] = 0 :=
  rfl

theorem number_cons : number (octet :: octets) = octet.toNat % 128 + 128 * number octets := by
  simp [number, Nat.ofDigits_cons]

theorem number_append :
    number (octets ++ more) = number octets + 128 ^ octets.length * number more := by
  simp [number, Nat.ofDigits_append]

theorem number_lt : number octets < 128 ^ octets.length := by
  have hd : ∀ n ∈ octets.map (·.toNat % 128), n < 128 := by
    simp only [List.mem_map]
    rintro _ ⟨octet, -, rfl⟩
    exact Nat.mod_lt _ (by decide)
  simpa [number] using Nat.ofDigits_lt_base_pow_length (by decide) hd

namespace Running

theorem nil : Running [] := by
  simp [Running]

theorem cons_iff : Running (octet :: octets) ↔ 128 ≤ octet.toNat ∧ Running octets := by
  simp [Running]

theorem take (hr : Running octets) (n : Nat) : Running (octets.take n) :=
  fun _ h => hr _ (List.mem_of_mem_take h)

-- With one more octet, it is complete.
theorem ended_concat (hr : Running octets) (h : octet.toNat < 128) : Ended (octets ++ [octet]) := by
  induction octets
  case nil => exact .last h
  case cons hi =>
    have ⟨hc, hr⟩ := cons_iff.mp hr
    exact .cons hc (hi hr)

end Running

namespace Ended

theorem ne_nil : Ended octets → octets ≠ []
  | last _ | cons .. => by simp

theorem length_pos (he : Ended octets) : 0 < octets.length :=
  List.length_pos_of_ne_nil he.ne_nil

theorem iff_concat : Ended octets ↔
    ∃ more final, octets = more ++ [final] ∧ Running more ∧ final.toNat < 128 where
  mp he := by
    induction he
    case last octet h => exact ⟨[], octet, rfl, .nil, h⟩
    case cons octet _ h _ hi =>
      have ⟨more, final, ho, hr, hl⟩ := hi
      exact ⟨octet :: more, final, ho ▸ rfl, Running.cons_iff.mpr ⟨h, hr⟩, hl⟩
  mpr := fun ⟨_, _, ho, hr, hl⟩ => ho ▸ hr.ended_concat hl

-- Short of the last octet, another one is always announced.
theorem running_take (he : Ended octets) {n : Nat} (h : n < octets.length) :
    Running (octets.take n) := by
  have ⟨more, final, ho, hr, _⟩ := iff_concat.mp he
  subst ho
  rw [List.take_append_of_le_length (by simpa [Nat.lt_succ_iff] using h)]
  exact hr.take n

theorem not_running (he : Ended more) : ¬Running (more ++ rest) := by
  have ⟨_, final, ho, _, hl⟩ := iff_concat.mp he
  intro hr
  have := hr final (by simp [ho])
  omega

theorem length_lt (he : Ended more) (hr : Running more') (h : more ++ rest = more' ++ rest') :
    more'.length < more.length := by
  by_contra hl
  have ht := congrArg (List.take more.length) h
  rw [List.take_left, List.take_append_of_le_length (Nat.not_lt.mp hl)] at ht
  have hr := hr.take more.length
  rw [← ht, ← List.append_nil more] at hr
  exact he.not_running hr

-- Octets have at most one beginning which is complete.
theorem unique (he : Ended more) (he' : Ended more') (h : more ++ rest = more' ++ rest') :
    more = more' := by
  induction he generalizing more'
  case last hl =>
    cases he' <;> injection h with h
    case last => rw [h]
    case cons hc _ _ => exact absurd hl (h ▸ Nat.not_lt.mpr hc)
  case cons hc _ hi =>
    cases he' <;> injection h with h ht
    case last hl => exact absurd hl (h ▸ Nat.not_lt.mpr hc)
    case cons he' => rw [h, hi he' ht]

end Ended

namespace Form

variable {form : Form} {fault : Fault}

theorem verdict_of_starved : form.Starved → form.verdict fault = .error fault
  | .inl h      => h ▸ rfl
  | .inr ⟨_, h⟩ => h ▸ rfl

theorem verdict_of_not_starved {fault' : Fault} (hs : ¬form.Starved) :
    form.verdict fault = form.verdict fault' := by
  cases form <;> simp [Starved] at hs <;> rfl

theorem length_pos (hs : ¬form.Starved) : 0 < form.length := by
  cases form <;> simp [Starved, length] at hs ⊢

-- No fault that octets are refused for is one of a lack of octets.
theorem kind_verdict_iff {supply : Supply} :
    (form.verdict (.insufficient supply)).mapError Fault.kind = .error .insufficient ↔
      form.Starved := by
  cases form
  case absent => exact iff_of_true rfl (.inl rfl)
  case cut => exact iff_of_true rfl (.inr ⟨_, rfl⟩)
  all_goals exact iff_of_false (fun h => by cases h) (by simp [Starved])

theorem kind_of_verdict {supply : Supply} (h : form.verdict (.insufficient supply) = .error fault) :
    fault.kind ∈ [.insufficient, .tooManyOctets, .overflow] := by
  cases form <;> cases h
  case absent | cut => exact .head _
  case endless => exact .tail _ (.head _)
  case excessive => exact .tail _ (.tail _ (.head _))

end Form

-- The last octet is among the first ones, up to a number, or none of these is the last one, or there
-- are not as many.
theorem ended_or_running (n : Nat) (octets : List UInt8) :
    (∃ more rest, octets = more ++ rest ∧ Ended more ∧ more.length ≤ n) ∨
    (∃ more rest, octets = more ++ rest ∧ Running more ∧ more.length = n) ∨
    (Running octets ∧ octets.length < n) := by
  induction n generalizing octets
  case zero => exact .inr <| .inl ⟨[], octets, rfl, .nil, rfl⟩
  case succ n hi =>
    cases octets
    case nil => exact .inr <| .inr ⟨.nil, n.succ_pos⟩
    case cons octet octets =>
      by_cases h : 128 ≤ octet.toNat
      case neg => exact .inl ⟨[octet], octets, rfl, .last (Nat.not_le.mp h), by simp⟩
      case pos =>
        rcases hi octets with ⟨more, rest, ho, he, hl⟩ | ⟨more, rest, ho, hr, hl⟩ | ⟨hr, hl⟩
        · exact .inl ⟨octet :: more, rest, by simp [ho], .cons h he, by simp [hl]⟩
        · refine .inr <| .inl ⟨octet :: more, rest, by simp [ho], ?_, by simp [hl]⟩
          exact Running.cons_iff.mpr ⟨h, hr⟩
        · exact .inr <| .inr ⟨Running.cons_iff.mpr ⟨h, hr⟩, by simp [hl]⟩

namespace Begins

variable {w : Width} {form form' : Form}

theorem exists_form (w : Width) (octets : List UInt8) : ∃ form, Begins w octets form := by
  cases octets
  case nil => exact ⟨_, .absent⟩
  case cons octet octets =>
    by_cases hp : octet.toNat % 2 ^ w.bits < 2 ^ w.bits - 1
    case pos => exact ⟨_, .direct hp⟩
    case neg =>
      have := Nat.mod_lt octet.toNat (Nat.two_pow_pos w.bits)
      replace hp : octet.toNat % 2 ^ w.bits = 2 ^ w.bits - 1 := by omega
      rcases ended_or_running 5 octets with
        ⟨more, rest, ho, he, hl⟩ | ⟨more, rest, ho, hr, hl⟩ | ⟨hr, hl⟩
      · by_cases hv : 2 ^ w.bits - 1 + number more ≤ 2 ^ 32 - 1
        case pos => exact ⟨_, ho ▸ Begins.ended hp he hl hv⟩
        case neg => exact ⟨_, ho ▸ Begins.excessive hp he hl (Nat.not_le.mp hv)⟩
      · exact ⟨_, ho ▸ Begins.endless hp hr hl⟩
      · exact ⟨_, .cut hp hr hl⟩

-- The first octet tells an integer in the prefix from all others. Of those, only one can be complete,
-- and none which is complete lies within octets that announce another one.
theorem unique (h : Begins w octets form) (h' : Begins w octets form') : form = form' := by
  generalize ho : octets = octets' at h'
  cases h <;> cases h' <;> grind [→ Ended.unique, → Ended.length_lt, Ended.not_running]

theorem le_of_verdict {fault : Fault} {value : Nat} (h : Begins w octets form)
    (hv : form.verdict fault = .ok value) : value ≤ 2 ^ 32 - 1 := by
  cases h <;> cases hv
  case direct =>
    have := w.pow_bits_le
    omega
  case ended hv => exact hv

theorem lt_of_excessive {value count : Nat} (h : Begins w octets (.excessive value count)) :
    value < 2 ^ 36 := by
  cases h
  case excessive more _ _ _ hl _ =>
    have := w.pow_bits_le
    have hn : number more < 128 ^ 5 :=
      Nat.lt_of_lt_of_le number_lt (Nat.pow_le_pow_right (by decide) hl)
    omega

theorem length_le (h : Begins w octets form) : form.length ≤ octets.length := by
  cases h <;> simp [Form.length] <;> omega

theorem form_length_le (h : Begins w octets form) : form.length ≤ 6 := by
  cases h <;> simp [Form.length] <;> omega

-- All octets are taken before another one is asked for.
theorem length_of_starved (h : Begins w octets form) (hs : form.Starved) :
    octets.length = form.length := by
  cases h <;> simp [Form.Starved] at hs
  case absent => rfl
  case cut => simp [Form.length, Nat.add_comm]

theorem length_lt_of_starved (h : Begins w octets form) (hs : form.Starved) : form.length < 6 := by
  cases h <;> simp [Form.Starved] at hs
  case absent => decide
  case cut => simp [Form.length]; omega

-- What has been read is not changed by further octets.
theorem append (h : Begins w octets form) (hs : ¬form.Starved) (more : List UInt8) :
    Begins w (octets ++ more) form := by
  cases h
  case absent | cut => simp [Form.Starved] at hs
  case direct hp => exact .direct hp
  all_goals rw [List.cons_append, List.append_assoc]
  case ended hp he hl hv => exact .ended hp he hl hv
  case excessive hp he hl hv => exact .excessive hp he hl hv
  case endless hp hr hl => exact .endless hp hr hl

-- The octets that are taken are enough to tell the form.
theorem take_length (h : Begins w octets form) : Begins w (octets.take form.length) form := by
  cases h
  case absent => exact .absent
  all_goals simp only [Form.length, Nat.add_comm 1, List.take_succ_cons, List.take_left]
  case direct hp => exact .direct hp
  case ended octet more rest hp he hl hv =>
    have h : Begins w (octet :: (more ++ [])) _ := .ended hp he hl hv
    rwa [List.append_nil] at h
  case excessive octet more rest hp he hl hv =>
    have h : Begins w (octet :: (more ++ [])) _ := .excessive hp he hl hv
    rwa [List.append_nil] at h
  case endless octet more rest hp hr hl =>
    have h : Begins w (octet :: (more ++ [])) _ := .endless hp hr hl
    rwa [List.append_nil, ← List.take_left' hl] at h
  case cut hp hr hl =>
    rw [List.take_length]
    exact .cut hp hr hl

theorem cut_take {octet : UInt8} {n : Nat} (hp : octet.toNat % 2 ^ w.bits = 2 ^ w.bits - 1)
    (hr : Running (more.take n)) (hn : n ≤ more.length) (hl : n < 5) :
    Begins w ((octet :: (more ++ rest)).take (n + 1)) (.cut n) := by
  have hc : (more.take n).length = n := List.length_take_of_le hn
  have h : Begins w (octet :: more.take n) (.cut (more.take n).length) := .cut hp hr (hc.symm ▸ hl)
  rwa [hc, ← List.take_append_of_le_length hn] at h

-- No integer is decided before its last octet.
theorem take (h : Begins w octets form) {n : Nat} (hn : n < form.length) :
    ∃ form', Begins w (octets.take n) form' ∧ form'.Starved := by
  cases n
  case zero => exact ⟨_, .absent, .inl rfl⟩
  case succ n =>
    suffices h : Begins w (octets.take (n + 1)) (.cut n) from ⟨_, h, .inr ⟨n, rfl⟩⟩
    cases h <;> simp [Form.length, Nat.add_comm 1] at hn
    case ended he hl _     => exact cut_take ‹_› (he.running_take hn) hn.le (by omega)
    case excessive he hl _ => exact cut_take ‹_› (he.running_take hn) hn.le (by omega)
    case endless hr hl     => exact cut_take ‹_› (hr.take n) (by omega) (by omega)
    case cut octet more hp hr hl =>
      rw [← List.append_nil more]
      exact cut_take hp (hr.take n) hn.le (by omega)

end Begins
end Grammar
end Hpack
