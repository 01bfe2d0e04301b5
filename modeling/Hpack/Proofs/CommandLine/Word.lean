import Hpack.CommandLine.Word
import Hpack.Numeral
import Mathlib.Data.List.TakeWhile

namespace Hpack
namespace CommandLine
namespace Word

variable {known : List Spelling} {t : List Char} {c : Char}

theorem ofText?_of_head (h : t.head? ≠ some '-') : ofText? known t = some (.value t) := by
  rw [ofText?, if_pos (.inl h)]

theorem isDigit_of_isDigit (h : c.isDigit) : isDigit c := by
  have ⟨hl, hu⟩ := Char.isDigit_iff_toNat.mp h
  rw [isDigit, Text.decimalValue?, Option.isSome_map, List.find?_isSome]
  exact ⟨'0'.toNat, by decide, by simpa using ⟨hl, Nat.lt_succ_of_le hu⟩⟩

-- No option with a certain character is known, so none goes by a text with that character.
theorem named?_of_foreign (hk : ∀ s ∈ known, c ∉ s.text) (hc : c ∈ t) : named? known t = none := by
  rw [named?, Option.map_eq_none_iff, List.find?_eq_none]
  intro s hs
  rw [decide_eq_true_iff]
  rintro rfl
  exact hk s hs hc

theorem named?_of_digit (hk : ∀ s ∈ known, ¬s.text.any Char.isDigit) (hc : c ∈ t) (hd : c.isDigit) :
    named? known t = none :=
  named?_of_foreign (fun s hs hm => hk s hs (List.any_eq_true.mpr ⟨c, hm, hd⟩)) hc

theorem isNegativeNumber_of_digits {digits : List Char} (hn : digits ≠ [])
    (hd : ∀ c ∈ digits, c.isDigit) : isNegativeNumber ('-' :: digits) := by
  have hl : digits.getLast? ≠ some '\n' := by
    intro hl
    have := hd _ (List.mem_of_mem_getLast? hl)
    simp at this
  have hw : digits.dropWhile isDigit = [] := by
    rw [List.dropWhile_eq_nil_iff]
    exact fun c hc => isDigit_of_isDigit (hd c hc)
  simp [isNegativeNumber, hl, hw, hn]

theorem ofShortened?_of_unnamed (hm : c ≠ '-') (hn : named? known ['-', c] = none) :
    ofShortened? known ('-' :: c :: t) = some (ofUnlisted ('-' :: c :: t)) := by
  rw [ofShortened?]
  · rw [List.take_succ_cons, List.take_succ_cons, List.take_zero, hn]
  · intro rest h
    injection h with _ h
    injection h with h
    exact hm h

theorem ofText?_negative (hk : ∀ s ∈ known, ¬s.text.any Char.isDigit) {digits : List Char}
    (hn : digits ≠ []) (hd : ∀ c ∈ digits, c.isDigit) :
    ofText? known ('-' :: digits) = some (.value ('-' :: digits)) := by
  have hi := isNegativeNumber_of_digits hn hd
  have ht : name ('-' :: digits) = '-' :: digits := by
    rw [name, List.takeWhile_eq_self_iff]
    intro c h
    rw [decide_eq_true_iff]
    rintro rfl
    cases hd _ (List.mem_of_ne_of_mem (by decide) h)
  cases digits
  case nil => contradiction
  case cons c digits =>
    have hc := hd c List.mem_cons_self
    have hm : c ≠ '-' := by
      rintro rfl
      contradiction
    -- Neither the whole text nor its first two characters are the name of an option.
    have hw := named?_of_digit hk (t := '-' :: c :: digits) (by simp) hc
    have hs := named?_of_digit hk (t := ['-', c]) (by simp) hc
    rw [ofText?, if_neg (by simp), if_neg (by simp [hm]), ht, hw, ofShortened?_of_unnamed hm hs,
      ofUnlisted, if_pos (.inl hi)]

-- A number is a value as long as no option has a digit in it, even if the number is negative.
theorem ofText?_write (hk : ∀ s ∈ known, ¬s.text.any Char.isDigit) (i : Int) :
    ofText? known (Numeral.write .decimal i) = some (.value (Numeral.write .decimal i)) := by
  have hd {n c} (h : c ∈ Nat.toDigits 10 n) : c.isDigit :=
    Nat.isDigit_of_mem_toDigits (by decide) (by decide) h
  cases i
  case ofNat n =>
    refine ofText?_of_head fun h => ?_
    cases hd (List.mem_of_mem_head? h)
  case negSucc n => exact ofText?_negative hk Nat.toDigits_ne_nil fun _ => hd

theorem name_attached (h : '=' ∉ t) (u : List Char) : name (t ++ '=' :: u) = t := by
  have ht : ∀ c ∈ t, c ≠ '=' := fun c hc he => h (he ▸ hc)
  rw [name, List.takeWhile_append_of_pos (by simpa using ht)]
  simp

theorem attached?_attached (h : '=' ∉ t) (u : List Char) : attached? (t ++ '=' :: u) = some u := by
  have ht : ∀ c ∈ t, c ≠ '=' := fun c hc he => h (he ▸ hc)
  rw [attached?, List.dropWhile_append_of_pos (by simpa using ht)]
  simp

theorem attached_ne {v : List Char} (h : '=' ∉ v) (u : List Char) : t ++ '=' :: u ≠ v :=
  fun he => h (he ▸ List.mem_append_right t List.mem_cons_self)

-- The value of an option may be attached to it, whatever the value is.
theorem ofText?_attached {key : Key} (hk : ∀ s ∈ known, '=' ∉ s.text) (hd : t.head? = some '-')
    (he : '=' ∉ t) (hn : named? known t = some key) (hv : key.TakesValue) (u : List Char) :
    ofText? known (t ++ '=' :: u) = some (.option key (some u)) := by
  have hu : t ++ '=' :: u ≠ ['-'] := attached_ne (by decide) u
  have hh : (t ++ '=' :: u).head? = some '-' := by simp [hd]
  rw [ofText?, if_neg (by simp [hh, hu]), if_neg (attached_ne (by decide) u),
    named?_of_foreign hk (by simp), name_attached he, hn, attached?_attached he]
  simp only [ofAttached, if_pos (Or.inl hv)]

theorem ofShortened?_of_foreign
    (h : (known.filter fun s => (name ('-' :: '-' :: t)).isPrefixOf s.text) = []) :
    ofShortened? known ('-' :: '-' :: t) = some (ofUnlisted ('-' :: '-' :: t)) := by
  rw [ofShortened?, h]

-- A long option that could not be the start of any known one is none, with a value or without.
theorem ofText?_unlisted (hk : ∀ s ∈ known, '=' ∉ s.text) (hd : ['-', '-'] <+: t) (he : '=' ∉ t)
    (hp : ∀ s ∈ known, ¬t.isPrefixOf s.text) (u : List Char) :
    ofText? known (t ++ '=' :: u) = some (ofUnlisted (t ++ '=' :: u)) := by
  have hn : named? known t = none := by
    rw [named?, Option.map_eq_none_iff, List.find?_eq_none]
    intro s hs
    rw [decide_eq_true_iff]
    intro h
    exact hp s hs (by simp [h])
  have hf : (known.filter fun s => (name (t ++ '=' :: u)).isPrefixOf s.text) = [] := by
    simpa [name_attached he, List.filter_eq_nil_iff] using hp
  obtain ⟨rest, rfl⟩ := hd
  rw [ofText?, if_neg (by simp), if_neg (attached_ne (by decide) u),
    named?_of_foreign hk (List.mem_append_right _ List.mem_cons_self), name_attached he, hn,
    attached?_attached he]
  exact ofShortened?_of_foreign hf

theorem ofUnlisted_ne_separator : ofUnlisted t ≠ .separator := by
  rw [ofUnlisted]
  split <;> nofun

theorem ofTexts?_cons {texts : List (List Char)} {word : Word} (h : ofText? known t = some word)
    (hw : word ≠ .separator) :
    ofTexts? known (t :: texts) = (ofTexts? known texts).map (word :: ·) := by
  rw [ofTexts?, h]
  cases word
  case separator => contradiction
  all_goals cases ofTexts? known texts <;> rfl

end Word
end CommandLine
end Hpack
