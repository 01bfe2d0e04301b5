import Hpack.Fault.Category
import Hpack.Proofs.HeaderField
import Hpack.Proofs.Length
import Hpack.Proofs.ViablePrefix
import Hpack.Proofs.Writing

namespace Hpack

-- The calls that a handler can be set up for.
inductive Call
  | mask (given : Width.Candidate)
  | length (value : Int) (given : Width.Candidate)
  | encode (value : Int) (given : Width.Candidate) (flags : Int)
  | decode (octets : List UInt8) (given : Width.Candidate) (offset : Int)
  | roundTrip (value : Int) (given : Width.Candidate) (flags : Int)
  | lookup (index : Int)
  | search (name : String) (value : Option String)

namespace Call

inductive Answer
  | number (n : Nat)
  | octets (octets : List UInt8)
  | located (value next : Nat)
  | roundTrip (r : RoundTrip)
  | field (f : HeaderField)
  | index (i : Option Nat)

def run : Call → Except Fault Answer
  | mask given                  => (Width.ofCandidate given).map fun w => .number w.mask
  | length value given          => (encodedLength value given).map .number
  | encode value given flags    => (Hpack.encode value given flags).map .octets
  | decode octets given offset  =>
    (Hpack.decode octets given offset).map fun (value, next) => .located value next
  | roundTrip value given flags => (Hpack.roundTrip value given flags).map .roundTrip
  | lookup index                => (HeaderField.lookup index).map .field
  | search name value           => .ok (.index (HeaderField.search name value))

-- Calls with numbers that are no matter of the format: they stand for nothing that could be encoded
-- or decoded.
def Misused : Call → Prop
  | length value given => ∃ w : Width, given = .whole w.bits ∧ value < 0
  | encode value given flags | roundTrip value given flags =>
    ∃ w : Width, given = .whole w.bits ∧
      (value < 0 ∨
        (0 ≤ value ∧ value ≤ 2 ^ 32 - 1) ∧ ¬((0 ≤ flags ∧ flags ≤ 255) ∧ 2 ^ w.bits ∣ flags))
  | decode _ _ offset => offset < 0
  | _ => False

-- Calls with a number that the format refuses and that is too long to be told.
def Untellable : Call → Prop
  | mask given => given.Untellable
  | length value given | encode value given _ | roundTrip value given _ =>
    given.Untellable ∨
      ∃ w : Width, given = .whole w.bits ∧ 0 ≤ value ∧ ¬Numeral.Writable .decimal value
  | decode _ given offset => 0 ≤ offset ∧ given.Untellable
  | lookup index => ¬Numeral.Writable .decimal index
  | search _ _ => False

def LooksUp : Call → Prop
  | lookup _ => True
  | _        => False

end Call

variable {α : Type} {r : Except Fault α} {c : Fault.Category} {fault : Fault}

theorem guarded_eq_caught_iff :
    guarded c r = .ok (.caught fault) ↔ r = .error fault ∧ c.Catches fault := by
  cases r <;> grind [guarded]

theorem guarded_eq_error_iff : guarded c r = .error fault ↔ r = .error fault ∧ ¬c.Catches fault := by
  cases r <;> grind [guarded]

namespace Fault.Category

-- Bad indices have groups of their own. Nothing is set up for what a device tells.
theorem value_catches_iff :
    value.Catches fault ↔ fault.kind ≠ .invalidIndex ∧ fault.kind ≠ .device := by
  cases fault <;> simp [Catches, kind, Kind.categories]

theorem index_catches_iff : index.Catches fault ↔ fault.kind = .invalidIndex := by
  cases fault <;> simp [Catches, kind, Kind.categories]

theorem lookup_catches_iff : lookup.Catches fault ↔ fault.kind = .invalidIndex := by
  cases fault <;> simp [Catches, kind, Kind.categories]

theorem hpack_catches_iff :
    hpack.Catches fault ↔ fault.kind ≠ .invalidArgument ∧ fault.kind ≠ .device := by
  cases fault <;> simp [Catches, kind, Kind.categories]

theorem insufficient_catches_iff : insufficient.Catches fault ↔ fault.kind = .insufficient := by
  cases fault <;> simp [Catches, kind, Kind.categories]

theorem tooManyOctets_catches_iff :
    tooManyOctets.Catches fault ↔ fault.kind = .tooManyOctets ∨ fault.kind = .overflow := by
  cases fault <;> simp [Catches, kind, Kind.categories]

end Fault.Category

namespace Call

variable {call call' : Call} {value flags offset index : Int} {given : Width.Candidate}
  {octets : List UInt8}

-- Why a call fails: an index is out of bounds, a number is no matter of the format or too long to be
-- told, or what is given is not what the format knows.
inductive Reason (call : Call) (fault : Fault) : Prop
  | index :
    fault.kind = .invalidIndex → call.LooksUp → ¬call.Misused → ¬call.Untellable → Reason call fault
  | argument : fault.kind = .invalidArgument → call.Misused ∨ call.Untellable → Reason call fault
  | format :
    fault.kind ∈ [.invalidWidth, .insufficient, .tooManyOctets, .overflow] →
    ¬call.LooksUp → ¬call.Misused → ¬call.Untellable → Reason call fault

theorem Reason.congr (r : Reason call fault) (hl : call.LooksUp ↔ call'.LooksUp)
    (hm : call.Misused ↔ call'.Misused) (hu : call.Untellable ↔ call'.Untellable) :
    Reason call' fault := by
  cases r
  case index hk h h' ht  => exact .index hk (hl.mp h) (mt hm.mpr h') (mt hu.mpr ht)
  case argument hk h     => exact .argument hk (h.imp hm.mp hu.mp)
  case format hk h h' ht => exact .format hk (mt hl.mpr h) (mt hm.mpr h') (mt hu.mpr ht)

theorem map_eq_error_iff {β : Type} {f : α → β} : r.map f = .error fault ↔ r = .error fault := by
  cases r <;> simp [Except.map]

theorem reason_of_mask (h : Width.ofCandidate given = .error fault) : Reason (.mask given) fault := by
  rcases Width.kind_of_ofCandidate h with ⟨hk, hu⟩ | ⟨hk, hu⟩
  · exact .format (by simp [hk]) id id hu
  · exact .argument hk (.inr hu)

theorem reason_of_encode (r : Encoder.Refusal value flags given fault) :
    Reason (.encode value given flags) fault := by
  cases r
  case width h =>
    have hn := Width.not_whole_of_invalid h
    rcases Width.kind_of_ofCandidate h with ⟨hk, hu⟩ | ⟨hk, hu⟩
    · refine .format (by simp [hk]) id ?_ (not_or.mpr ⟨hu, ?_⟩)
      all_goals
        rintro ⟨w, hw, _⟩
        exact hn ⟨w, hw⟩
    · exact .argument hk (.inr (.inl hu))
  case negative w h => exact .argument rfl (.inl ⟨w, rfl, .inl h⟩)
  case overflow w h =>
    rw [Encoder.overflow_toNat_raised (by omega)]
    by_cases hv : Numeral.Writable .decimal value
    case pos =>
      rw [if_pos hv]
      refine .format (by simp [Fault.kind]) id ?_ (not_or.mpr ⟨w.not_untellable_bits, ?_⟩)
      · rintro ⟨_, _, _⟩
        omega
      · rintro ⟨_, _, _, hl⟩
        exact hl hv
    case neg =>
      rw [if_neg hv]
      exact .argument rfl (.inr (.inr ⟨w, rfl, by omega, hv⟩))
  case flags w hn hv hf =>
    exact .argument rfl (.inl ⟨w, rfl, .inr ⟨⟨hn, hv⟩, mt Width.exists_admits_iff.mpr hf⟩⟩)

theorem misused_encode_zero_iff :
    (encode value given 0).Misused ↔ (length value given).Misused := by
  simp [Misused]

theorem reason_of_decode (h : Hpack.decode octets given offset = .error fault) :
    Reason (.decode octets given offset) fault := by
  by_cases ho : offset < 0
  case pos =>
    cases (decode_of_negative ho).symm.trans h
    exact .argument rfl (.inl ho)
  case neg =>
    lift offset to Nat using Int.not_lt.mp ho
    cases hw : Width.ofCandidate given
    case error =>
      cases (decode_of_invalid hw).symm.trans h
      rcases Width.kind_of_ofCandidate hw with ⟨hk, hu⟩ | ⟨hk, hu⟩
      · exact .format (by simp [hk]) id ho (hu ·.right)
      · exact .argument hk (.inr ⟨Int.not_lt.mp ho, hu⟩)
    case ok w =>
      cases Width.ofCandidate_eq_ok_iff.mp hw
      exact .format (List.mem_cons_of_mem _ (kind_of_decode h)) id ho (w.not_untellable_bits ·.right)

theorem reason_of_lookup (h : HeaderField.lookup index = .error fault) :
    Reason (.lookup index) fault := by
  have hl := HeaderField.lookup_of_not_ok fun _ hf => nomatch h.symm.trans hf
  rw [Fault.raised_invalidIndex] at hl
  cases h.symm.trans hl
  split
  case isTrue hi  => exact .index rfl trivial id (not_not_intro hi)
  case isFalse hi => exact .argument rfl (.inr hi)

theorem reason_of_run (h : call.run = .error fault) : Reason call fault := by
  cases call
  case search => cases h
  all_goals rw [run, map_eq_error_iff] at h
  case mask => exact reason_of_mask h
  case length =>
    exact (reason_of_encode (encodedLength_eq_error_iff.mp h)).congr .rfl misused_encode_zero_iff .rfl
  case encode => exact reason_of_encode (encode_eq_error_iff.mp h)
  case decode => exact reason_of_decode h
  case roundTrip =>
    have he := roundTrip_eq_error_iff.mp h
    exact (reason_of_encode (encode_eq_error_iff.mp he)).congr .rfl .rfl .rfl
  case lookup => exact reason_of_lookup h

theorem exists_refusal
    (h : (encode value given flags).Misused ∨ (encode value given flags).Untellable) :
    ∃ fault, Encoder.Refusal value flags given fault := by
  obtain ⟨w, rfl, hn | ⟨⟨hn, hv⟩, hf⟩⟩ | hu | ⟨w, rfl, hn, hl⟩ := h
  · exact ⟨_, .negative hn⟩
  · exact ⟨_, .flags hn hv (mt Width.exists_admits_iff.mp hf)⟩
  · exact ⟨_, .width (Width.ofCandidate_of_untellable hu)⟩
  · exact ⟨_, Encoder.refusal_of_not_writable w hn hl⟩

theorem exists_fault (h : call.Misused ∨ call.Untellable) : ∃ fault, call.run = .error fault := by
  cases call
  case mask =>
    exact ⟨_, map_eq_error_iff.mpr (Width.ofCandidate_of_untellable (h.resolve_left id))⟩
  case length =>
    have ⟨fault, r⟩ := exists_refusal (h.imp_left misused_encode_zero_iff.mpr)
    exact ⟨fault, map_eq_error_iff.mpr (encodedLength_of_refusal r)⟩
  case encode =>
    have ⟨fault, r⟩ := exists_refusal h
    exact ⟨fault, map_eq_error_iff.mpr (encode_of_refusal r)⟩
  case decode octets given offset =>
    obtain ho | ⟨ho, hu⟩ := h
    · exact ⟨_, map_eq_error_iff.mpr (decode_of_negative ho)⟩
    · lift offset to Nat using ho
      exact ⟨_, map_eq_error_iff.mpr (decode_of_invalid (Width.ofCandidate_of_untellable hu))⟩
  case roundTrip value given flags =>
    have hm : (encode value given flags).Misused ∨ (encode value given flags).Untellable := h
    have ⟨fault, r⟩ := exists_refusal hm
    have he := roundTrip_eq_error_iff.mpr (encode_of_refusal r)
    exact ⟨fault, map_eq_error_iff.mpr he⟩
  case lookup =>
    exact ⟨_, map_eq_error_iff.mpr (HeaderField.lookup_of_not_writable (h.resolve_left id))⟩
  case search => exact h.elim False.elim False.elim

theorem not_looksUp_of_misused (h : call.Misused) : ¬call.LooksUp := by
  cases call <;> first | exact id | exact h.elim

theorem Reason.kind_ne_device (r : Reason call fault) : fault.kind ≠ .device := by
  cases r
  case index hk _ _ _ | argument hk _ => simp [hk]
  case format hk _ _ _ =>
    intro hd
    simp [hd] at hk

theorem Reason.kind_eq_invalidIndex_iff (r : Reason call fault) :
    fault.kind = .invalidIndex ↔ call.LooksUp ∧ ¬call.Untellable := by
  cases r
  case index hk h _ hu => exact iff_of_true hk ⟨h, hu⟩
  case argument hk h   =>
    exact iff_of_false (by simp [hk]) fun ⟨hl, hu⟩ => not_looksUp_of_misused (h.resolve_right hu) hl
  case format hk h _ _ => exact iff_of_false (fun hi => by simp [hi] at hk) (h ·.left)

theorem Reason.kind_eq_invalidArgument_iff (r : Reason call fault) :
    fault.kind = .invalidArgument ↔ call.Misused ∨ call.Untellable := by
  cases r
  case index hk _ h hu  => exact iff_of_false (by simp [hk]) (not_or.mpr ⟨h, hu⟩)
  case argument hk h    => exact iff_of_true hk h
  case format hk _ h hu => exact iff_of_false (fun hi => by simp [hi] at hk) (not_or.mpr ⟨h, hu⟩)

-- With a width and an offset to start from, either octets are missing or there are too many.
theorem caught_by_one {w : Width} {offset : Nat}
    (h : Hpack.decode octets (.whole w.bits) offset = .error fault) :
    Xor (Fault.Category.insufficient.Catches fault) (Fault.Category.tooManyOctets.Catches fault) := by
  have hk := kind_of_decode h
  rw [Fault.Category.insufficient_catches_iff, Fault.Category.tooManyOctets_catches_iff]
  simp only [List.mem_cons, List.not_mem_nil, or_false] at hk
  rcases hk with hk | hk | hk <;> simp [hk, Xor]

theorem caught_for_good_iff {w : Width} {offset : Nat}
    (h : Hpack.decode octets (.whole w.bits) offset = .error fault) :
    Fault.Category.tooManyOctets.Catches fault ↔
      ¬∃ more r, Hpack.decode (octets ++ more) (.whole w.bits) offset = .ok r := by
  have ⟨form, hb⟩ := Grammar.Begins.exists_form w (octets.drop offset)
  rw [completable_iff hb, not_or, ← tooManyOctets_iff hb]
  simp [h]

-- A handler for bad values catches all faults but those of bad indices, which handlers for indices
-- and look-ups catch. A handler for this format lets those escape which misuse comes to, or a number
-- that is too long to be told. Where octets are decoded, one of two handlers catches what more octets
-- can mend, and the other one what they cannot. An integer can be written and read back if it can be
-- written.
theorem handled (call : Call) :
    (∀ fault, call.run = .error fault →
      (guarded .value call.run = .ok (.caught fault) ↔ ¬(call.LooksUp ∧ ¬call.Untellable)) ∧
      (guarded .index call.run = .ok (.caught fault) ↔ call.LooksUp ∧ ¬call.Untellable) ∧
      (guarded .lookup call.run = .ok (.caught fault) ↔ call.LooksUp ∧ ¬call.Untellable) ∧
      (guarded .hpack call.run = .error fault ↔ fault.kind = .invalidArgument)) ∧
    ((∃ fault, guarded .hpack call.run = .error fault) ↔ call.Misused ∨ call.Untellable) ∧
    (∀ octets (w : Width) (offset : Nat), call = .decode octets (.whole w.bits) offset →
      ∀ fault, call.run = .error fault →
        Xor (guarded .insufficient call.run = .ok (.caught fault))
          (guarded .tooManyOctets call.run = .ok (.caught fault)) ∧
        (guarded .tooManyOctets call.run = .ok (.caught fault) ↔
          ¬∃ more r, Hpack.decode (octets ++ more) (.whole w.bits) offset = .ok r) ∧
        (fault.kind = .overflow → guarded .tooManyOctets call.run = .ok (.caught fault))) ∧
    (∀ value given flags, call = .roundTrip value given flags →
      ∀ fault, call.run = .error fault ↔ (encode value given flags).run = .error fault) := by
  refine ⟨fun fault h => ?groups, ?escapes, ?decode, ?roundTrip⟩
  case groups =>
    have r := reason_of_run h
    simp only [guarded_eq_caught_iff, guarded_eq_error_iff, h, true_and,
      Fault.Category.value_catches_iff, Fault.Category.index_catches_iff,
      Fault.Category.lookup_catches_iff, Fault.Category.hpack_catches_iff, ne_eq, r.kind_ne_device,
      not_false_iff, and_true, not_not, r.kind_eq_invalidIndex_iff]
  case escapes =>
    simp only [guarded_eq_error_iff, Fault.Category.hpack_catches_iff]
    constructor
    case mp =>
      intro ⟨fault, h, hc⟩
      have r := reason_of_run h
      exact r.kind_eq_invalidArgument_iff.mp (by simpa [r.kind_ne_device] using hc)
    case mpr =>
      intro hm
      have ⟨fault, h⟩ := exists_fault hm
      have hk := (reason_of_run h).kind_eq_invalidArgument_iff.mpr hm
      exact ⟨fault, h, by simp [hk]⟩
  case decode =>
    rintro octets w offset rfl fault h
    have hd : Hpack.decode octets (.whole w.bits) offset = .error fault := map_eq_error_iff.mp h
    simp only [guarded_eq_caught_iff, h, true_and]
    refine ⟨caught_by_one hd, caught_for_good_iff hd, fun hk => ?_⟩
    exact Fault.Category.tooManyOctets_catches_iff.mpr (.inr hk)
  case roundTrip =>
    rintro value given flags rfl fault
    rw [run, run, map_eq_error_iff, map_eq_error_iff, roundTrip_eq_error_iff]

-- With one digit more than can be told, neither an index nor a width or a value is caught by the
-- handlers for them, even though none of these calls is misused.
theorem escapes_of_long_number :
    let long : Int := 10 ^ Numeral.maxDigits
    (lookup long).LooksUp ∧ guarded .index (lookup long).run = .error .unwritable ∧
    ¬(mask (.whole long)).Misused ∧ guarded .hpack (mask (.whole long)).run = .error .unwritable ∧
    ¬(encode long (.whole 8) 0).Misused ∧
      guarded .hpack (encode long (.whole 8) 0).run = .error .unwritable := by
  intro long
  have hw : ¬Numeral.Writable .decimal long := Numeral.not_writable_pow_maxDigits
  have hl : (lookup long).run = .error .unwritable :=
    map_eq_error_iff.mpr (HeaderField.lookup_of_not_writable hw)
  have hm : (mask (.whole long)).run = .error .unwritable :=
    map_eq_error_iff.mpr (Width.ofCandidate_of_untellable ⟨long, rfl, hw⟩)
  have hv : Encoder.Refusal long 0 (.whole 8) .unwritable :=
    Encoder.refusal_of_not_writable ⟨8, by decide, by decide⟩ (by positivity) hw
  have he : (encode long (.whole 8) 0).run = .error .unwritable :=
    map_eq_error_iff.mpr (encode_of_refusal hv)
  refine ⟨trivial, guarded_eq_error_iff.mpr ⟨hl, by decide⟩, id,
    guarded_eq_error_iff.mpr ⟨hm, by decide⟩, ?_, guarded_eq_error_iff.mpr ⟨he, by decide⟩⟩
  have := Encoder.lt_of_not_writable (by positivity) hw
  rintro ⟨_, _, _⟩
  omega

-- No failure holds a number that is too long to be told.
theorem tellable_of_mask (h : Width.ofCandidate given = .error fault) : fault.Tellable := by
  rw [Width.eq_raised_of_ofCandidate h]
  exact Fault.tellable_raised _

theorem tellable_of_encode (r : Encoder.Refusal value flags given fault) : fault.Tellable := by
  cases r
  case width h  => exact tellable_of_mask h
  case negative => exact List.forall_mem_nil _
  case overflow => exact Fault.tellable_raised _
  case flags w _ _ _ => exact List.forall_mem_singleton.mpr w.writable_bits

theorem tellable_of_decode (h : Hpack.decode octets given offset = .error fault) :
    fault.Tellable := by
  by_cases ho : offset < 0
  case pos =>
    cases (decode_of_negative ho).symm.trans h
    exact List.forall_mem_nil _
  case neg =>
    lift offset to Nat using Int.not_lt.mp ho
    cases hw : Width.ofCandidate given
    case error =>
      cases (decode_of_invalid hw).symm.trans h
      exact tellable_of_mask hw
    case ok w =>
      cases Width.ofCandidate_eq_ok_iff.mp hw
      have ⟨form, hb⟩ := Grammar.Begins.exists_form w (octets.drop offset)
      rw [decode_of_begins hb] at h
      cases form <;> cases h
      case refl.excessive.refl =>
        have := hb.lt_of_excessive
        exact List.forall_mem_singleton.mpr (Numeral.writable_of_lt (by omega))
      all_goals exact List.forall_mem_nil _

theorem tellable_of_run (h : call.run = .error fault) : fault.Tellable := by
  cases call
  case search => cases h
  all_goals rw [run, map_eq_error_iff] at h
  case mask      => exact tellable_of_mask h
  case length    => exact tellable_of_encode (encodedLength_eq_error_iff.mp h)
  case encode    => exact tellable_of_encode (encode_eq_error_iff.mp h)
  case decode    => exact tellable_of_decode h
  case roundTrip => exact tellable_of_encode (encode_eq_error_iff.mp (roundTrip_eq_error_iff.mp h))
  case lookup =>
    cases h.symm.trans (HeaderField.lookup_of_not_ok fun _ hf => nomatch h.symm.trans hf)
    exact Fault.tellable_raised _

end Call
end Hpack
