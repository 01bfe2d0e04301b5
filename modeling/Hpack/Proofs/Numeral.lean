import Hpack.Numeral.Reader
import Hpack.Proofs.Hex
import Mathlib.Tactic.Ring

namespace Hpack

theorem Base.radix_mem (b : Base) : 1 < b.radix ∧ b.radix ≤ 16 := by
  cases b <;> decide

namespace Text

variable {t : List Char}

-- A text of ASCII without blanks is read as it is.
theorem plain_eq_self (h : ∀ c ∈ t, c.toNat < 128 ∧ ¬isAsciiBlank c) : plain t = t := by
  have hm : t.map plainChar = t := by
    rw [List.map_congr_left (g := id), List.map_id]
    intro c hc
    simp [plainChar, h c hc]
  have hd {u : List Char} (hu : ∀ c ∈ u, ¬isAsciiBlank c) : u.dropWhile isAsciiBlank = u := by
    cases u
    case nil => rfl
    case cons => rw [List.dropWhile_cons_of_neg (hu _ List.mem_cons_self)]
  rw [plain, hm, trim, hd fun c hc => (h c hc).2, hd fun c hc => (h c (List.mem_reverse.mp hc)).2,
    List.reverse_reverse]

end Text

namespace Numeral

variable {b : Base} {n m d : Nat} {c : Char} {rest : List Char}

theorem exists_digit_of_mem (hb : 1 < m) (h : c ∈ Nat.toDigits m n) :
    ∃ d < m, c = Nat.digitChar d := by
  induction n using Nat.strong_induction_on
  case h n hi =>
    rw [Nat.toDigits_eq_if hb] at h
    split at h
    case isTrue hn => exact ⟨n, hn, List.mem_singleton.mp h⟩
    case isFalse hn =>
      rcases List.mem_append.mp h with h | h
      · exact hi (n / m) (Nat.div_lt_self (by omega) hb) h
      · exact ⟨n % m, Nat.mod_lt _ (by omega), List.mem_singleton.mp h⟩

theorem digit?_digitChar (h : d < b.radix) : digit? b (Nat.digitChar d) = some d := by
  have := b.radix_mem
  simp [digit?, Hex.value?_digitChar d (by omega), h]

theorem ne_underscore_of_digit? (h : digit? b c = some d) : c ≠ '_' := by
  rintro rfl
  simp [digit?, Hex.value?] at h

theorem further_cons (h : digit? b c = some d) :
    further b n (c :: rest) = further b (b.radix * n + d) rest := by
  rw [further, h]
  · rfl
  · simp [ne_underscore_of_digit? h]

theorem further_toDigits (n m : Nat) (rest : List Char) :
    further b m (Nat.toDigits b.radix n ++ rest) =
      further b (b.radix ^ (Nat.toDigits b.radix n).length * m + n) rest := by
  have ⟨hb, _⟩ := b.radix_mem
  induction n using Nat.strong_induction_on generalizing rest
  case h n hi =>
    by_cases hn : n < b.radix
    case pos => simp [Nat.toDigits_of_lt_base hn, further_cons (digit?_digitChar hn)]
    case neg =>
      have hd := Nat.mod_lt n (y := b.radix) (by omega)
      rw [Nat.toDigits_of_base_le hb (by omega), List.append_assoc, List.singleton_append,
        hi _ (Nat.div_lt_self (by omega) hb), further_cons (digit?_digitChar hd), List.length_append,
        List.length_singleton]
      congr 1
      have := Nat.div_add_mod n b.radix
      rw [Nat.mul_add, Nat.add_assoc, this]
      ring

theorem digits?_eq_further (h : digit? b c = some d) :
    digits? b (c :: rest) = further b 0 (c :: rest) := by
  rw [further_cons h, digits?, h]
  simp

-- The digits of a number are read as that number.
theorem digits?_toDigits (b : Base) (n : Nat) : digits? b (Nat.toDigits b.radix n) = some n := by
  cases ht : Nat.toDigits b.radix n
  case nil => exact absurd ht Nat.toDigits_ne_nil
  case cons c rest =>
    have hm : c ∈ Nat.toDigits b.radix n := ht ▸ List.mem_cons_self
    have ⟨d, hd, hc⟩ := exists_digit_of_mem b.radix_mem.left hm
    rw [digits?_eq_further (hc ▸ digit?_digitChar hd), ← ht, ← List.append_nil (Nat.toDigits _ _),
      further_toDigits, Nat.mul_zero, Nat.zero_add, further]

theorem signed?_of_unsigned {magnitude? : List Char → Option Nat} {t : List Char}
    (h : ∀ c ∈ t, c ≠ '-' ∧ c ≠ '+') : signed? magnitude? t = (magnitude? t).map (↑·) := by
  cases t
  case nil => cases h : magnitude? [] <;> simp [signed?, h]
  case cons c t =>
    have ⟨hm, hp⟩ := h c List.mem_cons_self
    cases h : magnitude? (c :: t) <;> simp [signed?, hm, hp, h]

theorem mem_write {i : Int} (h : c ∈ write b i) :
    c = '-' ∨ c ∈ b.marker ∨ ∃ d < 16, c = Nat.digitChar d := by
  have ⟨hb, hl⟩ := b.radix_mem
  have hm {n} (h : c ∈ Nat.toDigits b.radix n) : ∃ d < 16, c = Nat.digitChar d := by
    have ⟨d, hd, hc⟩ := exists_digit_of_mem hb h
    exact ⟨d, Nat.lt_of_lt_of_le hd hl, hc⟩
  cases i <;> simp only [write, List.cons_append, List.mem_cons, List.mem_append] at h
  case ofNat => exact .inr <| h.imp id hm
  case negSucc => exact h.imp id (Or.imp id hm)

-- A number is written without blanks and in ASCII.
theorem plain_write (b : Base) (i : Int) : Text.plain (write b i) = write b i := by
  have hd : ∀ d < 16, (Nat.digitChar d).toNat < 128 ∧ ¬Text.isAsciiBlank (Nat.digitChar d) := by
    decide
  refine Text.plain_eq_self fun c h => ?_
  rcases mem_write h with rfl | h | ⟨d, hn, rfl⟩
  · decide
  · cases b <;> simp [Base.marker] at h <;> rcases h with rfl | rfl <;> decide
  · exact hd d hn

-- Only zero is written with a zero in front.
theorem head?_toDigits_ne_zero (hb : 1 < m) (hn : 0 < n) : (Nat.toDigits m n).head? ≠ some '0' := by
  induction n using Nat.strong_induction_on
  case h n hi =>
    rw [Nat.toDigits_eq_if hb]
    split
    case isTrue => simp [Nat.ne_of_gt hn]
    case isFalse h =>
      have hi := hi (n / m) (Nat.div_lt_self hn hb) (Nat.div_pos (by omega) (by omega))
      rwa [List.head?_append, Option.or_of_isSome (by simp [Nat.toDigits_ne_nil])]

theorem head?_toDigits_ne_underscore (b : Base) (n : Nat) :
    (Nat.toDigits b.radix n).head? ≠ some '_' := by
  have hu : ∀ d < 16, '_' ≠ Nat.digitChar d := by decide
  have ⟨hb, hl⟩ := b.radix_mem
  intro h
  have ⟨d, hd, hc⟩ := exists_digit_of_mem hb (List.mem_of_mem_head? h)
  exact hu d (by omega) hc

theorem afterMarker?_of_head {t : List Char} (h : t.head? ≠ some '_') :
    afterMarker? b t = digits? b t := by
  cases t
  case nil => rfl
  case cons =>
    rw [afterMarker?]
    simpa using h

theorem twenty_le_maxDigits : 20 ≤ maxDigits := by
  simp [maxDigits]

-- A number has as many digits as its magnitude asks for.
theorem writable_decimal_iff {i : Int} : Writable .decimal i ↔ i.natAbs < 10 ^ maxDigits := by
  have hp : 0 < maxDigits := Nat.lt_of_lt_of_le (by decide) twenty_le_maxDigits
  simp [Writable, Nat.length_toDigits_le_iff _ hp]

-- Numbers that come up in practice are short enough.
theorem writable_of_lt {i : Int} (h : i.natAbs < 10 ^ 20) : Writable b i := by
  rintro rfl
  refine writable_decimal_iff.mpr (Nat.lt_of_lt_of_le h ?_) rfl
  exact Nat.pow_le_pow_right (by decide) twenty_le_maxDigits

theorem not_writable_pow_maxDigits : ¬Writable .decimal (10 ^ maxDigits) := by
  simp [writable_decimal_iff, Int.natAbs_pow]

theorem decimalDigits?_toDigits (h : Writable .decimal n) :
    decimalDigits? (Nat.toDigits 10 n) = some n := by
  have hl : (Nat.toDigits 10 n).length ≤ maxDigits := h rfl
  rw [decimalDigits?, if_pos (Nat.le_trans (List.length_filter_le ..) hl)]
  exact digits?_toDigits .decimal n

theorem marked?_of_head {t : List Char} (h : t.head? ≠ some '0') : marked? t = decimalDigits? t := by
  cases t
  case nil => rfl
  case cons => rw [marked?] <;> simp_all

-- The marker tells the base. Without one, a number that starts with a zero would not be read.
theorem marked?_marker_toDigits (h : Writable b n) :
    marked? (b.marker ++ Nat.toDigits b.radix n) = some n := by
  have ha := afterMarker?_of_head (b := b) (head?_toDigits_ne_underscore b n)
  rw [digits?_toDigits] at ha
  cases b
  case binary | octal | hexadecimal => exact ha
  case decimal =>
    by_cases hn : n = 0
    case pos =>
      subst hn
      change (decimalDigits? (Nat.toDigits 10 0)).filter (· = 0) = some 0
      rw [decimalDigits?_toDigits h]
      rfl
    case neg =>
      have hm := marked?_of_head (head?_toDigits_ne_zero (m := 10) (by decide) (Nat.pos_of_ne_zero hn))
      exact hm.trans (decimalDigits?_toDigits h)

-- Only a negative number has a sign.
theorem not_sign_of_mem_write {n : Nat} (h : c ∈ write b (.ofNat n)) : c ≠ '-' ∧ c ≠ '+' := by
  have hu : ∀ d < 16, Nat.digitChar d ≠ '-' ∧ Nat.digitChar d ≠ '+' := by decide
  rcases List.mem_append.mp h with h | h
  · cases b <;> simp [Base.marker] at h <;> rcases h with rfl | rfl <;> decide
  · have ⟨d, hd, hc⟩ := exists_digit_of_mem b.radix_mem.left h
    exact hc ▸ hu d (Nat.lt_of_lt_of_le hd b.radix_mem.right)

theorem signed?_write {magnitude? : List Char → Option Nat} {i : Int}
    (h : magnitude? (b.marker ++ Nat.toDigits b.radix i.natAbs) = some i.natAbs) :
    signed? magnitude? (write b i) = some i := by
  cases i
  case ofNat n =>
    rw [signed?_of_unsigned fun c => not_sign_of_mem_write, write]
    exact congrArg (Option.map _) h
  case negSucc n =>
    have hn : magnitude? (b.marker ++ Nat.toDigits b.radix (n + 1)) = some (n + 1) := h
    rw [write, List.cons_append, signed?, hn]
    rfl

-- A number in the decimal system is read back, unless it is too long to be written.
theorem readDecimal_write {i : Int} (h : Writable .decimal i) :
    readDecimal (write .decimal i) = some i := by
  rw [readDecimal, plain_write]
  exact signed?_write (decimalDigits?_toDigits h)

-- So is a number in any base if the marker is looked at.
theorem read_write {i : Int} (h : Writable b i) : read (write b i) = some i := by
  rw [read, plain_write]
  exact signed?_write (marked?_marker_toDigits h)

-- A sign is followed by a digit or by the marker of the base.
theorem write_ne_dashes (b : Base) (i : Int) : write b i ≠ ['-', '-'] := by
  intro h
  cases i
  case ofNat n => exact (not_sign_of_mem_write (h ▸ List.mem_cons_self)).left rfl
  case negSucc n =>
    have hd : write b (.ofNat (n + 1)) = ['-'] := List.tail_eq_of_cons_eq h
    exact (not_sign_of_mem_write (hd ▸ List.mem_cons_self)).left rfl

theorem digit?_lt (h : digit? b c = some d) : d < b.radix := by
  simpa using (Option.filter_eq_some_iff.mp h).right

-- Each digit takes a number to the next power of the base at most.
theorem further_lt {t : List Char} (h : further b n t = some m) :
    m < (n + 1) * b.radix ^ (t.filter (· ≠ '_')).length := by
  fun_induction further b n t
  case case1 =>
    cases h
    simp
  case case2 n c rest hi | case3 n c rest _ hi =>
    have ⟨d, hd, h⟩ := Option.bind_eq_some_iff.mp h
    have hc : (c :: rest).filter (· ≠ '_') = c :: rest.filter (· ≠ '_') := by
      simp [ne_underscore_of_digit? hd]
    have hs : b.radix * n + d + 1 ≤ (n + 1) * b.radix := by
      have := digit?_lt hd
      rw [Nat.add_mul, Nat.one_mul, Nat.mul_comm n]
      omega
    calc m
      _ < (b.radix * n + d + 1) * b.radix ^ (rest.filter (· ≠ '_')).length := hi d h
      _ ≤ (n + 1) * b.radix * b.radix ^ (rest.filter (· ≠ '_')).length := Nat.mul_le_mul_right _ hs
      _ = (n + 1) * b.radix ^ ((c :: rest).filter (· ≠ '_')).length := by
        rw [hc, List.length_cons, Nat.pow_succ', Nat.mul_assoc]

theorem lt_of_decimalDigits? {t : List Char} (h : decimalDigits? t = some n) :
    n < 10 ^ maxDigits := by
  rw [decimalDigits?] at h
  split_ifs at h with hl
  cases t
  case nil => contradiction
  case cons c rest =>
    have ⟨d, hd, _⟩ := Option.bind_eq_some_iff.mp h
    rw [digits?_eq_further hd] at h
    have hn : n < (0 + 1) * 10 ^ _ := further_lt h
    have hp : 10 ^ _ ≤ 10 ^ maxDigits := Nat.pow_le_pow_right (by decide) hl
    rw [Nat.zero_add, Nat.one_mul] at hn
    exact Nat.lt_of_lt_of_le hn hp

theorem natAbs_of_signed? {magnitude? : List Char → Option Nat} {t : List Char} {i : Int}
    (h : signed? magnitude? t = some i) : ∃ u, magnitude? u = some i.natAbs := by
  rw [signed?.eq_def] at h
  split at h
  all_goals
    obtain ⟨_, hm, rfl⟩ := Option.map_eq_some_iff.mp h
    have ⟨n, hn, hi⟩ := Option.bind_eq_some_iff.mp hm
    cases hi
  case h_1 => exact ⟨_, hn.trans (congrArg some (Int.natAbs_neg n).symm)⟩
  all_goals exact ⟨_, hn⟩

-- No number is read that is too long to be written.
theorem writable_of_readDecimal {t : List Char} {i : Int} (h : readDecimal t = some i) :
    Writable .decimal i := by
  have ⟨_, hu⟩ := natAbs_of_signed? h
  exact writable_decimal_iff.mpr (lt_of_decimalDigits? hu)

-- What is shown of a number is what is commonly shown of it.
theorem decimal_eq_toString (i : Int) : decimal i = toString i := by
  cases i
  case ofNat n => rfl
  case negSucc n =>
    have hs : String.ofList (['-'] ++ Nat.toDigits 10 (n + 1)) = "-" ++ toString (n + 1) :=
      String.ofList_append
    exact hs

theorem toList_toString (n : Nat) : (toString n).toList = write .decimal n :=
  String.toList_ofList

theorem lineFeed_not_mem_toDigits (n : Nat) : '\n' ∉ Nat.toDigits 10 n := by
  have hd : ∀ d < 10, '\n' ≠ Nat.digitChar d := by decide
  intro h
  have ⟨d, hn, hc⟩ := exists_digit_of_mem (by decide) h
  exact hd d hn hc

end Numeral
end Hpack
