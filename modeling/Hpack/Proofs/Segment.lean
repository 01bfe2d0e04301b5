import Hpack.Proofs.Spelling
import Hpack.Proofs.ViablePrefix
import Hpack.Segment

namespace Hpack

variable {w : Width} {octets rest : List UInt8} {found found' : List Segment} {s : Segment}
  {fault fault' : Option Fault}

namespace Segment

-- The octets of a segment are those of one integer.
def Whole (w : Width) (s : Segment) : Prop :=
  decode s.octets (.whole w.bits) (0 : Nat) = .ok (s.value, s.octets.length)

namespace Whole

theorem length_pos (h : s.Whole w) : 0 < s.octets.length :=
  lt_of_decode h

theorem length_le (h : s.Whole w) : s.octets.length ≤ 6 := by
  simpa using le_of_decode h

theorem decode_append (h : s.Whole w) (rest : List UInt8) :
    decode (s.octets ++ rest) (.whole w.bits) (0 : Nat) = .ok (s.value, s.octets.length) := by
  have ⟨form, hb, hv, _⟩ := decode_eq_ok_iff.mp h
  have hs : ¬form.Starved := fun hs => by simp [form.verdict_of_starved hs] at hv
  exact (Hpack.decode_append hb hs rest).trans h

-- It is found wherever octets begin with it.
theorem unique {s' : Segment} {rest' : List UInt8} (h : s.Whole w) (h' : s'.Whole w)
    (ho : s.octets ++ rest = s'.octets ++ rest') : s = s' ∧ rest = rest' := by
  have hd := h.decode_append rest
  rw [ho, h'.decode_append rest', Except.ok.injEq, Prod.mk.injEq] at hd
  have ⟨ho, hr⟩ := List.append_inj ho hd.right.symm
  cases s
  cases s'
  exact ⟨by simp_all, hr⟩

end Whole
end Segment

-- Octets are cut into integers that stand one after the other, up to the end or to where no integer
-- can be decoded.
inductive Cut (w : Width) : List UInt8 → List Segment → Option Fault → Prop
  | done : Cut w [] [] none
  | stop {octets : List UInt8} {fault : Fault} :
    octets ≠ [] → decode octets (.whole w.bits) (0 : Nat) = .error fault →
    Cut w octets [] (some fault)
  | next {s : Segment} {rest : List UInt8} {found : List Segment} {fault : Option Fault} :
    s.Whole w → Cut w rest found fault → Cut w (s.octets ++ rest) (s :: found) fault

theorem cut_segments (octets : List UInt8) (w : Width) (offset : Nat) :
    Cut w (octets.drop offset) (segments octets (.whole w.bits) offset).1
      (segments octets (.whole w.bits) offset).2 := by
  fun_induction segments octets (.whole w.bits) offset
  case case1 offset h fault hd =>
    exact .stop (by simpa using h) (decode_drop_of_error.mpr hd)
  case case2 offset h value next hd rest fault hs hi =>
    have hl := lt_of_decode hd
    -- What is left from the offset on is the integer and what is left behind it.
    have ho : (octets.drop offset).take (next - offset) ++ octets.drop next = octets.drop offset := by
      have := List.take_append_drop (next - offset) (octets.drop offset)
      rwa [List.drop_drop, Nat.add_sub_cancel' (by omega)] at this
    have hv := decode_slice hd
    rw [List.drop_take] at hv
    rw [hs] at hi
    have hc := Cut.next (s := ⟨value, (octets.drop offset).take (next - offset)⟩) hv hi
    rwa [ho] at hc
  case case3 offset h =>
    rw [List.drop_eq_nil_of_le (Nat.not_lt.mp h)]
    exact .done

namespace Cut

-- There is just one way to cut.
theorem unique (c : Cut w octets found fault) (c' : Cut w octets found' fault') :
    found = found' ∧ fault = fault' := by
  induction c generalizing found' fault'
  case done =>
    -- The other cut is only told apart by its constructor once its octets are a variable.
    generalize ho : [] = octets at c'
    cases c'
    case done => exact ⟨rfl, rfl⟩
    case stop hn _ => exact absurd ho.symm hn
    case next h _ =>
      have := h.length_pos
      simp_all
  case stop hn hd =>
    cases c'
    case done => contradiction
    case stop hd' =>
      cases hd.symm.trans hd'
      exact ⟨rfl, rfl⟩
    case next h _ => cases hd.symm.trans (h.decode_append _)
  case next s rest _ _ h _ hi =>
    generalize ho : s.octets ++ rest = octets at c'
    cases c'
    case done =>
      have := h.length_pos
      simp_all
    case stop hd => cases hd.symm.trans (ho ▸ h.decode_append rest)
    case next h' c' =>
      obtain ⟨rfl, rfl⟩ := h.unique h' ho
      obtain ⟨rfl, rfl⟩ := hi c'
      exact ⟨rfl, rfl⟩

-- The integers that are cut off, and the octets from where there is none.
theorem iff_append : Cut w octets found fault ↔
    (∀ s ∈ found, s.Whole w) ∧
      ∃ rest, octets = found.flatMap Segment.octets ++ rest ∧ Cut w rest [] fault where
  mp c := by
    induction c
    case done => exact ⟨by simp, [], rfl, .done⟩
    case stop hn hd => exact ⟨by simp, _, rfl, .stop hn hd⟩
    case next h _ hi =>
      have ⟨hw, rest, ho, hc⟩ := hi
      exact ⟨List.forall_mem_cons.mpr ⟨h, hw⟩, rest, by simp [ho], hc⟩
  mpr := by
    rintro ⟨hw, rest, rfl, hc⟩
    induction found
    case nil => exact hc
    case cons s found hi =>
      have ⟨h, hw⟩ := List.forall_mem_cons.mp hw
      rw [List.flatMap_cons, List.append_assoc]
      exact .next h (hi hw)

theorem of_none (c : Cut w octets found none) : found.flatMap Segment.octets = octets := by
  have ⟨_, rest, ho, hc⟩ := iff_append.mp c
  cases hc
  rw [ho, List.append_nil]

theorem of_some {fault : Fault} (c : Cut w octets found (some fault)) :
    found.flatMap Segment.octets ≠ octets ∧
      decode octets (.whole w.bits) (found.flatMap Segment.octets).length = .error fault := by
  have ⟨_, rest, ho, hc⟩ := iff_append.mp c
  cases hc
  case stop hn hd =>
    rw [← decode_drop_of_error, ho, List.drop_left]
    exact ⟨by simpa using hn, hd⟩

end Cut

-- What it means for octets to be cut into integers, without saying how they are found: integers of
-- one to six octets each are followed by the end or by octets that are refused.
structure Segmented (w : Width) (octets : List UInt8) (found : List Segment) : Prop where
  bounds : ∀ s ∈ found, 1 ≤ s.octets.length ∧ s.octets.length ≤ 6
  whole  : ∀ s ∈ found, decode s.octets (.whole w.bits) 0 = .ok (s.value, s.octets.length)
  begins : found.flatMap Segment.octets <+: octets
  ends   : found.flatMap Segment.octets = octets ∨ ∃ fault,
    decode octets (.whole w.bits) (found.flatMap Segment.octets).length = .error fault

theorem Cut.segmented (c : Cut w octets found fault) : Segmented w octets found where
  bounds s hs :=
    have hw := (iff_append.mp c).left s hs
    ⟨hw.length_pos, hw.length_le⟩
  whole s hs := (iff_append.mp c).left s hs
  begins :=
    have ⟨_, rest, ho, _⟩ := iff_append.mp c
    ⟨rest, ho.symm⟩
  ends := by
    cases fault
    case none => exact .inl c.of_none
    case some fault => exact .inr ⟨fault, c.of_some.right⟩

theorem Segmented.exists_cut (h : Segmented w octets found) : ∃ fault, Cut w octets found fault := by
  have ⟨rest, ho⟩ := h.begins
  suffices ∃ fault, Cut w rest [] fault from
    have ⟨fault, hc⟩ := this
    ⟨fault, Cut.iff_append.mpr ⟨h.whole, rest, ho.symm, hc⟩⟩
  by_cases hr : rest = []
  case pos => exact ⟨none, hr ▸ .done⟩
  case neg =>
    have ⟨fault, hd⟩ := h.ends.resolve_left (fun he => hr (by simpa [← ho] using he))
    rw [← decode_drop_of_error, ← ho, List.drop_left] at hd
    exact ⟨some fault, .stop hr hd⟩

theorem existsUnique_segmented (w : Width) (octets : List UInt8) :
    ∃! found, Segmented w octets found := by
  have c := cut_segments octets w 0
  rw [List.drop_zero] at c
  refine ⟨_, c.segmented, fun found h => ?_⟩
  have ⟨_, c'⟩ := h.exists_cut
  exact (c'.unique c).left

end Hpack
