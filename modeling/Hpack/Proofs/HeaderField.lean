import Hpack.HeaderField
import Hpack.Proofs.Numeral
import Mathlib.Order.Bounds.Basic

namespace Hpack
namespace HeaderField

variable {name : String} {value : Option String} {field : HeaderField} {i : Int} {n : Nat}

-- Names come more than once, but with different values.
theorem nodup_table : table.Nodup := by
  decide

theorem lookup_eq_ok_iff :
    lookup i = .ok field ↔ ∃ n : Nat, i = n + 1 ∧ table[n]? = some field := by
  by_cases hi : i < 1
  case pos =>
    rw [lookup, if_pos hi]
    exact iff_of_false nofun fun ⟨n, hn, _⟩ => by omega
  case neg =>
    have hn (n : Nat) : i = n + 1 ↔ i.toNat - 1 = n := by omega
    simp only [lookup, if_neg hi, hn, exists_eq_left']
    cases table[i.toNat - 1]? <;> simp

theorem lookup_of_not_ok (h : ∀ field, lookup i ≠ .ok field) :
    lookup i = .error (Fault.invalidIndex i).raised := by
  rw [lookup] at h ⊢
  by_cases hi : i < 1
  case pos => rw [if_pos hi]
  case neg =>
    rw [if_neg hi] at h ⊢
    cases ht : table[i.toNat - 1]?
    case none => rfl
    case some field => simp [ht] at h

theorem search_eq_none_iff :
    search name value = none ↔ ∀ i field, lookup i = .ok field → ¬Fits name value field := by
  rw [search, Option.map_eq_none_iff, List.findIdx?_eq_none_iff]
  constructor
  case mp =>
    intro h i field hl
    have ⟨n, _, ht⟩ := lookup_eq_ok_iff.mp hl
    exact of_decide_eq_false (h field (List.mem_of_getElem? ht))
  case mpr =>
    intro h field hm
    have ⟨n, ht⟩ := List.mem_iff_getElem?.mp hm
    exact decide_eq_false (h _ field (lookup_eq_ok_iff.mpr ⟨n, rfl, ht⟩))

theorem isLeast_of_search (h : search name value = some n) :
    IsLeast {i : Int | ∃ field, lookup i = .ok field ∧ Fits name value field} n := by
  obtain ⟨k, hk, rfl⟩ := Option.map_eq_some_iff.mp h
  have ⟨hl, hf, hb⟩ := List.findIdx?_eq_some_iff_getElem.mp hk
  constructor
  case left =>
    exact ⟨table[k], lookup_eq_ok_iff.mpr ⟨k, rfl, List.getElem?_eq_getElem hl⟩, of_decide_eq_true hf⟩
  case right =>
    rintro _ ⟨field, hi, hf⟩
    obtain ⟨m, rfl, ht⟩ := lookup_eq_ok_iff.mp hi
    by_contra hm
    have ⟨_, hg⟩ := List.getElem?_eq_some_iff.mp ht
    exact hb m (by push_cast at hm; omega) (decide_eq_true (hg ▸ hf))

-- A search comes to the lowest index at which a field that fits can be looked up.
theorem search_eq_some_iff : (search name value).map Int.ofNat = some i ↔
    IsLeast {i : Int | ∃ field, lookup i = .ok field ∧ Fits name value field} i where
  mp h := by
    obtain ⟨n, hs, rfl⟩ := Option.map_eq_some_iff.mp h
    exact isLeast_of_search hs
  mpr hi := by
    cases hs : search name value
    case none =>
      have ⟨⟨field, hl, hf⟩, _⟩ := hi
      exact absurd hf (search_eq_none_iff.mp hs i field hl)
    case some n =>
      rw [hi.unique (isLeast_of_search hs)]
      rfl

theorem exists_fits_iff {value : String} :
    (∃ field, lookup i = .ok field ∧ Fits name (some value) field) ↔ lookup i = .ok ⟨name, value⟩ := by
  constructor
  case mp =>
    rintro ⟨field, hl, rfl, hv⟩
    simp only [reduceCtorEq, false_or, Option.some.injEq] at hv
    rwa [hv]
  case mpr => exact fun hl => ⟨_, hl, rfl, .inr rfl⟩

-- No field can be looked up at two indices.
theorem lookup_injective {j : Int} (h : lookup i = .ok field) (h' : lookup j = .ok field) : i = j := by
  obtain ⟨n, rfl, hn⟩ := lookup_eq_ok_iff.mp h
  obtain ⟨m, rfl, hm⟩ := lookup_eq_ok_iff.mp h'
  have ⟨hl, _⟩ := List.getElem?_eq_some_iff.mp hn
  have := (List.getElem?_inj hl nodup_table).mp (hn.trans hm.symm)
  omega

theorem search_value_iff {value : String} :
    (search name (some value)).map Int.ofNat = some i ↔ lookup i = .ok ⟨name, value⟩ := by
  rw [search_eq_some_iff]
  constructor
  case mp => exact fun h => exists_fits_iff.mp h.left
  case mpr =>
    refine fun h => ⟨exists_fits_iff.mpr h, fun j hj => ?_⟩
    exact (lookup_injective h (exists_fits_iff.mp hj)).le

theorem fits_none_iff : Fits name none field ↔ field.name = name := by
  simp [Fits]

-- All indices from one up to one at which there is a field can be looked up.
theorem exists_lookup {j : Int} (h : lookup i = .ok field) (hj : 1 ≤ j) (hi : j ≤ i) :
    ∃ field, lookup j = .ok field := by
  obtain ⟨n, rfl, ht⟩ := lookup_eq_ok_iff.mp h
  have ⟨hl, _⟩ := List.getElem?_eq_some_iff.mp ht
  have hm : j.toNat - 1 < table.length := by omega
  exact ⟨table[j.toNat - 1], lookup_eq_ok_iff.mpr ⟨_, by omega, List.getElem?_eq_getElem hm⟩⟩

theorem one_le_of_lookup (h : lookup i = .ok field) : 1 ≤ i := by
  have ⟨_, _, _⟩ := lookup_eq_ok_iff.mp h
  omega

theorem search_name_iff : (search name none).map Int.ofNat = some i ↔
    (∃ field, lookup i = .ok field ∧ field.name = name) ∧
      ∀ j, 1 ≤ j → j ≤ i - 1 → ∃ field, lookup j = .ok field ∧ field.name ≠ name := by
  simp only [search_eq_some_iff, fits_none_iff]
  constructor
  case mp =>
    intro ⟨⟨field, hl, hn⟩, hb⟩
    refine ⟨⟨field, hl, hn⟩, fun j hj hi => ?_⟩
    have ⟨other, ho⟩ := exists_lookup hl hj (by omega)
    refine ⟨other, ho, fun hn => ?_⟩
    have := hb ⟨other, ho, hn⟩
    omega
  case mpr =>
    refine fun ⟨hl, hd⟩ => ⟨hl, fun j ⟨field, hj, hn⟩ => ?_⟩
    by_contra hi
    have ⟨other, ho, hne⟩ := hd j (one_le_of_lookup hj) (by omega)
    cases ho.symm.trans hj
    exact hne hn

theorem writable_of_lookup (h : lookup i = .ok field) : Numeral.Writable .decimal i := by
  obtain ⟨n, rfl, ht⟩ := lookup_eq_ok_iff.mp h
  have ⟨hl, _⟩ := List.getElem?_eq_some_iff.mp ht
  have : table.length = 61 := rfl
  exact Numeral.writable_of_lt (by omega)

theorem lookup_of_not_writable (h : ¬Numeral.Writable .decimal i) :
    lookup i = .error .unwritable := by
  rw [lookup_of_not_ok fun _ hl => h (writable_of_lookup hl), Fault.raised_invalidIndex, if_neg h]

-- Fields of a name come no later than those which also have a given value.
theorem search_name_le {value : String} (h : (search name (some value)).map Int.ofNat = some i) :
    ∃ j ≤ i, (search name none).map Int.ofNat = some j ∧
      ∃ field, lookup j = .ok field ∧ field.name = name := by
  have hl := search_value_iff.mp h
  cases hs : search name none
  case none => exact absurd rfl (fits_none_iff.not.mp (search_eq_none_iff.mp hs i _ hl))
  case some n =>
    have hn := isLeast_of_search hs
    simp only [fits_none_iff] at hn
    exact ⟨n, hn.right ⟨_, hl, rfl⟩, rfl, hn.left⟩

theorem never_found_iff : (∀ name value, (search name value).map Int.ofNat ≠ some i) ↔
    lookup i = .error (Fault.invalidIndex i).raised where
  mp h := lookup_of_not_ok fun field hl => h field.name field.value (search_value_iff.mpr hl)
  mpr h := by
    intro name value hs
    have ⟨field, hl, _⟩ := (search_eq_some_iff.mp hs).left
    cases h.symm.trans hl

-- To search for a field and to look it up are inverse to each other. By its name alone, a field is
-- found at the first index at which there is one of the name. What is never found cannot be looked up,
-- and then the index is told unless it is too long.
theorem search_inverts_lookup (name value : String) (i : Int) :
    ((search name (some value)).map Int.ofNat = some i ↔ lookup i = .ok ⟨name, value⟩) ∧
    ((search name none).map Int.ofNat = some i ↔
      (∃ field, lookup i = .ok field ∧ field.name = name) ∧
        ∀ j, 1 ≤ j → j ≤ i - 1 → ∃ field, lookup j = .ok field ∧ field.name ≠ name) ∧
    (search name (some value) = none ↔ ¬∃ j, lookup j = .ok ⟨name, value⟩) ∧
    (search name none = none ↔ ¬∃ j field, lookup j = .ok field ∧ field.name = name) ∧
    ((search name (some value)).map Int.ofNat = some i →
      ∃ j ≤ i, (search name none).map Int.ofNat = some j ∧
        ∃ field, lookup j = .ok field ∧ field.name = name) ∧
    ((∀ name value, (search name value).map Int.ofNat ≠ some i) ↔
      lookup i = .error (if Numeral.Writable .decimal i then .invalidIndex i else .unwritable)) := by
  refine ⟨search_value_iff, search_name_iff, ?value, ?name, search_name_le, ?never⟩
  case value =>
    rw [search_eq_none_iff, not_exists]
    refine forall_congr' fun j => ?_
    rw [← exists_fits_iff, not_exists]
    simp only [not_and]
  case name => simp [search_eq_none_iff, fits_none_iff]
  case never => rw [never_found_iff, Fault.raised_invalidIndex]

-- An index with one digit more than can be told is found for no field, but that is not what is told.
theorem lookup_of_long_index :
    let i : Int := 10 ^ Numeral.maxDigits
    (∀ name value, (search name value).map Int.ofNat ≠ some i) ∧
    lookup i = .error .unwritable ∧ Fault.unwritable.kind ≠ .invalidIndex := by
  intro i
  have hw : ¬Numeral.Writable .decimal i := Numeral.not_writable_pow_maxDigits
  refine ⟨fun name value h => ?_, lookup_of_not_writable hw, nofun⟩
  have ⟨_, hl, _⟩ := (search_eq_some_iff.mp h).left
  exact hw (writable_of_lookup hl)

end HeaderField
end Hpack
