import Hpack.CommandLine.Command
import Hpack.Proofs.CommandLine.Word
import Hpack.Proofs.Numeral

namespace Hpack
namespace CommandLine

namespace Arguments

variable {a a' : Arguments} {known : List Spelling} {words : List Word} {texts : List (List Char)}
  {k : Key} {t : List Char}

-- No option is set to a separator.
def Proper (a : Arguments) : Prop :=
  ∀ setting ∈ a.settings, setting.2 ≠ some ['-', '-']

theorem Proper.withOperand (h : a.Proper) (t : List Char) : (a.withOperand t).Proper := by
  rw [Arguments.withOperand]
  split <;> exact h

theorem Proper.set (h : a.Proper) (k : Key) (t : List Char) : (a.set k t).Proper := by
  intro setting hm
  rcases List.mem_append.mp hm with hm | hm
  · exact h setting hm
  · rw [List.mem_singleton.mp hm]
    split <;> simp_all

-- Whatever the words are, they either set an option or leave the settings as they are.
theorem Proper.collect (h : a.Proper) (hc : a.collect words = some a') : a'.Proper := by
  fun_induction Arguments.collect a words
  case case1 | case10 | case11 => cases hc; exact h
  case case2 hi | case3 hi => exact hi (h.withOperand _) hc
  case case4 hi => exact hi (by split <;> exact h) hc
  case case5 hi => exact hi h hc
  case case6 hi | case8 hi => exact hi (h.set _ _) hc
  case case7 | case9 | case12 => contradiction

theorem proper_ofTexts? (h : ofTexts? known texts = some a) : a.Proper := by
  have ⟨_, _, hc⟩ := Option.bind_eq_some_iff.mp h
  exact Proper.collect (by simp [Proper]) hc

theorem exists_of_mem_mapM {α β : Type} {f : α → Option β} {l : List α} {l' : List β} {b : β}
    (h : l.mapM f = some l') (hb : b ∈ l') : ∃ a ∈ l, f a = some b := by
  induction l generalizing l'
  case nil =>
    cases h
    cases hb
  case cons a l hi =>
    rw [List.mapM_cons] at h
    have ⟨c, hc, h⟩ := Option.bind_eq_some_iff.mp h
    have ⟨rest, hr, h⟩ := Option.bind_eq_some_iff.mp h
    cases h
    rcases List.mem_cons.mp hb with rfl | hb
    · exact ⟨a, List.mem_cons_self, hc⟩
    · have ⟨a', ha, hf⟩ := hi hr hb
      exact ⟨a', List.mem_cons_of_mem _ ha, hf⟩

-- An option has its default, or it has been set to a text which is read as its value.
theorem setting?_cases {α : Type} {read : List Char → Option α} {default x : α}
    (h : a.setting? k read default = some (some x)) :
    x = default ∨ ∃ t, (k, some t) ∈ a.settings ∧ read t = some x := by
  have ⟨values, hv, hl⟩ := Option.bind_eq_some_iff.mp h
  have hm := List.getLastD_mem_cons (a := some default) (l := values)
  rw [Option.some.inj hl] at hm
  rcases List.mem_cons.mp hm with hm | hm
  · exact .inl (Option.some.inj hm)
  · have ⟨t, ht, hr⟩ := exists_of_mem_mapM hv hm
    obtain ⟨⟨key, _ | t⟩, hs, rfl⟩ := List.mem_map.mp ht
    case none => cases hr
    case some =>
      have ⟨hm, hk⟩ := List.mem_filter.mp hs
      have ⟨_, ht, hx⟩ := Option.map_eq_some_iff.mp hr
      cases hx
      exact .inr ⟨t, of_decide_eq_true hk ▸ hm, ht⟩

theorem Proper.setting? (h : a.Proper) (hk : a.setting? k some [] = some (some t)) :
    t ≠ ['-', '-'] := by
  rcases setting?_cases hk with rfl | ⟨u, hu, ht⟩
  · decide
  · cases ht
    rintro rfl
    exact h _ hu rfl

end Arguments

-- A number in any base is a value, unless a sign comes before the marker of its base.
theorem Word.ofText?_spelled {known : List Spelling} {b : Base} {i : Int}
    (hk : ∀ s ∈ known, ¬s.text.any Char.isDigit) (h : b = .decimal ∨ 0 ≤ i) :
    ofText? known (Numeral.write b i) = some (.value (Numeral.write b i)) := by
  rcases h with rfl | h
  · exact ofText?_write hk i
  · lift i to Nat using h
    exact ofText?_of_head fun h => (Numeral.not_sign_of_mem_write (List.mem_of_mem_head? h)).left rfl

namespace Command

theorem no_digits : ∀ known ∈ [encodeSpellings, decodeSpellings, Invocation.spellings],
    ∀ s ∈ known, ¬s.text.any Char.isDigit := by
  decide

theorem no_equals : ∀ known ∈ [encodeSpellings, decodeSpellings, Invocation.spellings],
    ∀ s ∈ known, '=' ∉ s.text := by
  decide

-- A device without a name is as good as none.
def NoDevice (texts : List (List Char)) : Prop :=
  texts = [] ∨ texts = ["--port".toList, []]

variable {hex : List Char} {texts : List (List Char)}

theorem arguments_decode (hx : hex.head? ≠ some '-') (n : Int) (hd : NoDevice texts) :
    Arguments.ofTexts? decodeSpellings (hex :: "--prefix".toList :: Numeral.write .decimal n :: texts) =
      some {
        operand  := some hex
        settings := (.width, some (Numeral.write .decimal n)) ::
          if texts = [] then [] else [(.device, some [])]
      } := by
  have hx : Word.ofText? decodeSpellings hex = _ := Word.ofText?_of_head hx
  have hw : Word.ofText? decodeSpellings "--prefix".toList = some (.option .width none) := rfl
  have hn := Word.ofText?_write (no_digits decodeSpellings (by decide)) n
  have hs := Numeral.write_ne_dashes .decimal n
  rw [Arguments.ofTexts?, Word.ofTexts?_cons hx nofun, Word.ofTexts?_cons hw nofun,
    Word.ofTexts?_cons hn nofun]
  rcases hd with rfl | rfl
  · simp [Word.ofTexts?, Arguments.collect, Key.TakesValue, Arguments.withOperand, Arguments.set, hs]
  · have hd : Word.ofTexts? decodeSpellings ["--port".toList, []] =
        some [.option .device none, .value []] := rfl
    rw [hd]
    simp [Arguments.collect, Key.TakesValue, Arguments.withOperand, Arguments.set, hs]

-- Behind a separator, the octets may have any form.
theorem arguments_decode_separated (hex : List Char) (n : Int) (hd : NoDevice texts) :
    Arguments.ofTexts? decodeSpellings
        ("--prefix".toList :: Numeral.write .decimal n :: (texts ++ ["--".toList, hex])) =
      some {
        operand  := some hex
        settings := (.width, some (Numeral.write .decimal n)) ::
          if texts = [] then [] else [(.device, some [])]
      } := by
  have hw : Word.ofText? decodeSpellings "--prefix".toList = some (.option .width none) := rfl
  have hn := Word.ofText?_write (no_digits decodeSpellings (by decide)) n
  have hs := Numeral.write_ne_dashes .decimal n
  rw [Arguments.ofTexts?, Word.ofTexts?_cons hw nofun, Word.ofTexts?_cons hn nofun]
  rcases hd with rfl | rfl
  · have ht : Word.ofTexts? decodeSpellings ([] ++ ["--".toList, hex]) =
        some [.separator, .value hex] := rfl
    rw [ht]
    simp [Arguments.collect, Key.TakesValue, Arguments.withOperand, Arguments.set, hs]
  · have ht : Word.ofTexts? decodeSpellings (["--port".toList, []] ++ ["--".toList, hex]) =
        some [.option .device none, .value [], .separator, .value hex] := rfl
    rw [ht]
    simp [Arguments.collect, Key.TakesValue, Arguments.withOperand, Arguments.set, hs]

theorem readDecode_write (hex : List Char) (hn : Numeral.Writable .decimal n) (hd : NoDevice texts) :
    readDecode {
      operand  := some hex
      settings := (.width, some (Numeral.write .decimal n)) ::
        if texts = [] then [] else [(.device, some [])]
    } = .ok (.decode hex (.whole n)) := by
  have hr := Numeral.readDecimal_write hn
  rcases hd with rfl | rfl <;>
    simp [orRefuse, readDecode, readWidth, Arguments.setting?, hr, unlessHelp, bind, Except.bind,
      pure, Except.pure]

theorem ofTexts_decode (hx : hex.head? ≠ some '-') (hn : Numeral.Writable .decimal n)
    (hd : NoDevice texts) :
    ofTexts "decode".toList (hex :: "--prefix".toList :: Numeral.write .decimal n :: texts) =
      .ok (.decode hex (.whole n)) := by
  rw [ofTexts, if_neg (by decide), if_pos rfl, arguments_decode hx n hd]
  exact readDecode_write hex hn hd

theorem ofTexts_decode_separated (hex : List Char) (hn : Numeral.Writable .decimal n)
    (hd : NoDevice texts) :
    ofTexts "decode".toList
        ("--prefix".toList :: Numeral.write .decimal n :: (texts ++ ["--".toList, hex])) =
      .ok (.decode hex (.whole n)) := by
  rw [ofTexts, if_neg (by decide), if_pos rfl, arguments_decode_separated hex n hd]
  exact readDecode_write hex hn hd

variable {value width flags : Int}

theorem arguments_encode (value width flags : Int) :
    Arguments.ofTexts? encodeSpellings [Numeral.write .decimal value, "--prefix".toList,
        Numeral.write .decimal width, "--flags".toList, Numeral.write .decimal flags] =
      some {
        operand  := some (Numeral.write .decimal value)
        settings := [(.width, some (Numeral.write .decimal width)),
          (.flags, some (Numeral.write .decimal flags))]
      } := by
  have hn := Word.ofText?_write (no_digits encodeSpellings (by decide))
  have hw : Word.ofText? encodeSpellings "--prefix".toList = some (.option .width none) := rfl
  have hf : Word.ofText? encodeSpellings "--flags".toList = some (.option .flags none) := rfl
  rw [Arguments.ofTexts?, Word.ofTexts?_cons (hn value) nofun, Word.ofTexts?_cons hw nofun,
    Word.ofTexts?_cons (hn width) nofun, Word.ofTexts?_cons hf nofun,
    Word.ofTexts?_cons (hn flags) nofun]
  simp [Word.ofTexts?, Arguments.collect, Key.TakesValue, Arguments.withOperand, Arguments.set,
    Numeral.write_ne_dashes]

-- The value and the flags may be written in any base, but the width may not.
theorem readEncode_write {b b' : Base} (hv : Numeral.Writable b value)
    (hw : Numeral.Writable .decimal width) (hf : Numeral.Writable b' flags) :
    readEncode {
      operand  := some (Numeral.write b value)
      settings := [(.width, some (Numeral.write .decimal width)),
        (.flags, some (Numeral.write b' flags))]
    } = .ok (.encode value (.whole width) (some flags)) := by
  simp [orRefuse, readEncode, readWidth, Arguments.setting?, Numeral.read_write hv,
    Numeral.readDecimal_write hw, Numeral.read_write hf, unlessHelp, bind, Except.bind, pure,
    Except.pure]

theorem ofTexts_encode (hv : Numeral.Writable .decimal value)
    (hw : Numeral.Writable .decimal width) (hf : Numeral.Writable .decimal flags) :
    ofTexts "encode".toList [Numeral.write .decimal value, "--prefix".toList,
        Numeral.write .decimal width, "--flags".toList, Numeral.write .decimal flags] =
      .ok (.encode value (.whole width) (some flags)) := by
  rw [ofTexts, if_pos rfl, arguments_encode]
  exact readEncode_write hv hw hf

-- The width and the flags may be attached to their options.
def encodeTexts (b b' : Base) (value width flags : Int) : List (List Char) :=
  [Numeral.write b value, "--prefix".toList ++ '=' :: Numeral.write .decimal width,
    "--flags".toList ++ '=' :: Numeral.write b' flags]

theorem arguments_encode_attached {b : Base} (h : b = .decimal ∨ 0 ≤ value) (b' : Base)
    (width flags : Int) :
    Arguments.ofTexts? encodeSpellings (encodeTexts b b' value width flags) =
      some {
        operand  := some (Numeral.write b value)
        settings := [(.width, some (Numeral.write .decimal width)),
          (.flags, some (Numeral.write b' flags))]
      } := by
  have hv := Word.ofText?_spelled (no_digits encodeSpellings (by decide)) h
  have he := no_equals encodeSpellings (by decide)
  have hw : Word.ofText? encodeSpellings ("--prefix".toList ++ '=' :: Numeral.write .decimal width) = _ :=
    Word.ofText?_attached he rfl (by decide) rfl (by decide) _
  have hf : Word.ofText? encodeSpellings ("--flags".toList ++ '=' :: Numeral.write b' flags) = _ :=
    Word.ofText?_attached he rfl (by decide) rfl (by decide) _
  rw [Arguments.ofTexts?, encodeTexts, Word.ofTexts?_cons hv nofun, Word.ofTexts?_cons hw nofun,
    Word.ofTexts?_cons hf nofun]
  simp [Word.ofTexts?, Arguments.collect, Key.TakesValue, Arguments.withOperand, Arguments.set,
    Numeral.write_ne_dashes]

theorem ofTexts_encode_attached {b b' : Base} (h : b = .decimal ∨ 0 ≤ value)
    (hv : Numeral.Writable b value) (hw : Numeral.Writable .decimal width)
    (hf : Numeral.Writable b' flags) :
    ofTexts "encode".toList (encodeTexts b b' value width flags) =
      .ok (.encode value (.whole width) (some flags)) := by
  rw [ofTexts, if_pos rfl, arguments_encode_attached h]
  exact readEncode_write hv hw hf

variable {name : List Char}

-- A device may be asked for by any name that is attached to its option. Octets are given then in
-- vain, but they may have any form behind a separator.
def receiveTexts (name : List Char) (n : Int) (hex : Option (List Char)) : List (List Char) :=
  ("--port".toList ++ '=' :: name) :: "--prefix".toList :: Numeral.write .decimal n ::
    hex.elim [] (["--".toList, ·])

theorem arguments_receive (hs : name ≠ ['-', '-']) (n : Int) (hex : Option (List Char)) :
    Arguments.ofTexts? decodeSpellings (receiveTexts name n hex) =
      some {
        operand  := hex
        settings := [(.device, some name), (.width, some (Numeral.write .decimal n))]
      } := by
  have hd : Word.ofText? decodeSpellings ("--port".toList ++ '=' :: name) = _ :=
    Word.ofText?_attached (no_equals decodeSpellings (by decide)) rfl (by decide) rfl (by decide) name
  have hw : Word.ofText? decodeSpellings "--prefix".toList = some (.option .width none) := rfl
  have hn := Word.ofText?_write (no_digits decodeSpellings (by decide)) n
  rw [Arguments.ofTexts?, receiveTexts, Word.ofTexts?_cons hd nofun, Word.ofTexts?_cons hw nofun,
    Word.ofTexts?_cons hn nofun]
  cases hex
  case none =>
    simp [Word.ofTexts?, Arguments.collect, Key.TakesValue, Arguments.set, hs, Numeral.write_ne_dashes]
  case some hex =>
    have ht : Word.ofTexts? decodeSpellings ["--".toList, hex] = some [.separator, .value hex] := rfl
    rw [Option.elim_some, ht]
    simp [Arguments.collect, Key.TakesValue, Arguments.withOperand, Arguments.set, hs,
      Numeral.write_ne_dashes]

theorem ofTexts_receive (hn : name ≠ []) (hs : name ≠ ['-', '-']) {n : Int}
    (hi : Numeral.Writable .decimal n) (hex : Option (List Char)) :
    ofTexts "decode".toList (receiveTexts name n hex) =
      .ok (.receive name (.whole n) (some 115200) (some 5)) := by
  rw [ofTexts, if_neg (by decide), if_pos rfl, arguments_receive hs n hex]
  cases name
  case nil => contradiction
  case cons =>
    simp [orRefuse, readDecode, readWidth, Arguments.setting?, Numeral.readDecimal_write hi,
      unlessHelp, bind, Except.bind, pure, Except.pure]

variable {a : Arguments} {command : Command} {read : Except Complaint Command}
  {width : Width.Candidate} {baudrate : Option Int} {timeout : Option Float}

theorem ok_of_bind {ε α β : Type} {e : Except ε α} {f : α → Except ε β} {b : β}
    (h : e >>= f = .ok b) : ∃ a, e = .ok a ∧ f a = .ok b := by
  cases e
  case error => contradiction
  case ok a => exact ⟨a, rfl, h⟩

theorem orRefuse_eq_ok_iff {α : Type} {o : Option α} {a : α} : orRefuse o = .ok a ↔ o = some a := by
  cases o <;> simp [orRefuse]

theorem ok_of_unlessHelp {topic : Topic} (h : unlessHelp topic a read = .ok command)
    (hc : ∀ topic, command ≠ help topic) :
    read = .ok command := by
  rw [unlessHelp] at h
  split_ifs at h
  · injection h with h
    exact absurd h.symm (hc topic)
  · exact h

-- Commands that decode what they are given, or what a device delivers, at a width.
def Decodes (width : Width.Candidate) : Command → Prop
  | decode _ given | receive _ given _ _ => given = width
  | _ => False

theorem Decodes.ne_help (hd : command.Decodes width) (topic : Topic) : command ≠ help topic := by
  rintro rfl
  exact hd

theorem not_decodes_of_readEncode (h : readEncode a = .ok command) : ¬command.Decodes width := by
  intro hd
  have ⟨_, _, h⟩ := ok_of_bind h
  have ⟨_, _, h⟩ := ok_of_bind h
  have ⟨_, _, h⟩ := ok_of_bind h
  replace h := ok_of_unlessHelp h hd.ne_help
  split at h <;> cases h
  exact hd

theorem not_decodes_of_readTable (h : readTable a = .ok command) : ¬command.Decodes width := by
  intro hd
  have ⟨_, _, h⟩ := ok_of_bind h
  replace h := ok_of_unlessHelp h hd.ne_help
  split at h <;> cases h <;> exact hd

-- A command that decodes has been asked for by its name.
theorem exists_readDecode {c : List Char} {texts : List (List Char)}
    (h : ofTexts c texts = .ok command) (hd : command.Decodes width) :
    ∃ a, Arguments.ofTexts? decodeSpellings texts = some a ∧ readDecode a = .ok command := by
  rw [ofTexts] at h
  split_ifs at h
  all_goals have ⟨a, ha, h⟩ := ok_of_bind h
  · exact absurd hd (not_decodes_of_readEncode h)
  · exact ⟨a, orRefuse_eq_ok_iff.mp ha, h⟩
  · exact absurd hd (not_decodes_of_readTable h)

-- The name of a device is what its option has been set to.
theorem setting_of_readDecode (h : readDecode a = .ok (.receive name width baudrate timeout)) :
    name ≠ [] ∧ a.setting? .device some [] = some (some name) := by
  have ⟨_, _, h⟩ := ok_of_bind h
  have ⟨device, hd, h⟩ := ok_of_bind h
  have ⟨_, _, h⟩ := ok_of_bind h
  have ⟨_, _, h⟩ := ok_of_bind h
  replace h := ok_of_unlessHelp h nofun
  rw [orRefuse_eq_ok_iff.mp hd]
  split at h <;> cases h
  cases device <;> cases ho : a.operand <;> simp_all

-- No device can be asked for by an empty name or by a separator.
theorem name_of_ofTexts {c : List Char} {texts : List (List Char)}
    (h : ofTexts c texts = .ok (.receive name width baudrate timeout)) :
    name ≠ [] ∧ name ≠ ['-', '-'] := by
  have hw : (receive name width baudrate timeout).Decodes width := rfl
  have ⟨a, ha, h⟩ := exists_readDecode h hw
  have ⟨hn, hd⟩ := setting_of_readDecode h
  exact ⟨hn, (Arguments.proper_ofTexts? ha).setting? hd⟩

theorem writable_of_readWidth {n : Int} (h : readWidth a = .ok (.whole n)) :
    Numeral.Writable .decimal n := by
  have ⟨width, hw, h⟩ := ok_of_bind h
  cases width <;> cases h
  rcases Arguments.setting?_cases (orRefuse_eq_ok_iff.mp hw) with rfl | ⟨_, _, hr⟩
  · exact Numeral.writable_of_lt (by decide)
  · exact Numeral.writable_of_readDecimal hr

-- Nothing can be decoded at a width that is too long to be written.
theorem writable_of_ofTexts {c : List Char} {texts : List (List Char)} {n : Int}
    (h : ofTexts c texts = .ok command) (hd : command.Decodes (.whole n)) :
    Numeral.Writable .decimal n := by
  have ⟨a, _, h⟩ := exists_readDecode h hd
  have ⟨width, hw, h⟩ := ok_of_bind h
  have ⟨_, _, h⟩ := ok_of_bind h
  have ⟨_, _, h⟩ := ok_of_bind h
  have ⟨_, _, h⟩ := ok_of_bind h
  replace h := ok_of_unlessHelp h hd.ne_help
  obtain rfl : width = .whole n := by
    split at h <;> cases h <;> exact hd
  exact writable_of_readWidth hw

end Command

namespace Invocation

variable {hex : List Char} {texts : List (List Char)}

-- Before the words of a command are read, all words are looked at by the options of the program.
theorem ofTexts_decode (hx : hex.head? ≠ some '-') {n : Int} (hi : Numeral.Writable .decimal n)
    (hd : Command.NoDevice texts) :
    ofTexts ("decode".toList :: hex :: "--prefix".toList :: Numeral.write .decimal n :: texts) =
      .ok { verbose := false, command := .decode hex (.whole n) } := by
  have hc : Word.ofText? spellings "decode".toList = some (.value "decode".toList) := rfl
  have hx' : Word.ofText? spellings hex = _ := Word.ofText?_of_head hx
  have hw : Word.ofText? spellings "--prefix".toList = some .unknown := rfl
  have hn := Word.ofText?_write (Command.no_digits spellings (by decide)) n
  have ⟨words, ht⟩ : ∃ words, Word.ofTexts? spellings texts = some words := by
    rcases hd with rfl | rfl <;> exact ⟨_, rfl⟩
  rw [ofTexts, Word.ofTexts?_cons hc nofun, Word.ofTexts?_cons hx' nofun,
    Word.ofTexts?_cons hw nofun, Word.ofTexts?_cons hn nofun, ht]
  simp only [Option.map_some, ofTexts.go, hc]
  rw [Command.ofTexts_decode hx hi hd]
  rfl

theorem ofTexts_decode_separated (hex : List Char) {n : Int} (hi : Numeral.Writable .decimal n)
    (hd : Command.NoDevice texts) :
    ofTexts ("decode".toList :: "--prefix".toList :: Numeral.write .decimal n ::
        (texts ++ ["--".toList, hex])) =
      .ok { verbose := false, command := .decode hex (.whole n) } := by
  have hc : Word.ofText? spellings "decode".toList = some (.value "decode".toList) := rfl
  have hw : Word.ofText? spellings "--prefix".toList = some .unknown := rfl
  have hn := Word.ofText?_write (Command.no_digits spellings (by decide)) n
  have ⟨words, ht⟩ : ∃ words, Word.ofTexts? spellings (texts ++ ["--".toList, hex]) = some words := by
    rcases hd with rfl | rfl <;> exact ⟨_, rfl⟩
  rw [ofTexts, Word.ofTexts?_cons hc nofun, Word.ofTexts?_cons hw nofun,
    Word.ofTexts?_cons hn nofun, ht]
  simp only [Option.map_some, ofTexts.go, hc]
  rw [Command.ofTexts_decode_separated hex hi hd]
  rfl

theorem ofTexts_encode {value width flags : Int} (hi : Numeral.Writable .decimal value)
    (hi' : Numeral.Writable .decimal width) (hi'' : Numeral.Writable .decimal flags) :
    ofTexts ["encode".toList, Numeral.write .decimal value, "--prefix".toList,
        Numeral.write .decimal width, "--flags".toList, Numeral.write .decimal flags] =
      .ok { verbose := false, command := .encode value (.whole width) (some flags) } := by
  have hc : Word.ofText? spellings "encode".toList = some (.value "encode".toList) := rfl
  have hw : Word.ofText? spellings "--prefix".toList = some .unknown := rfl
  have hf : Word.ofText? spellings "--flags".toList = some .unknown := rfl
  have hn := Word.ofText?_write (Command.no_digits spellings (by decide))
  rw [ofTexts, Word.ofTexts?_cons hc nofun, Word.ofTexts?_cons (hn value) nofun,
    Word.ofTexts?_cons hw nofun, Word.ofTexts?_cons (hn width) nofun, Word.ofTexts?_cons hf nofun,
    Word.ofTexts?_cons (hn flags) nofun]
  simp only [Word.ofTexts?, Option.map_some, ofTexts.go, hc]
  rw [Command.ofTexts_encode hi hi' hi'']
  rfl

theorem ofTexts_encode_attached {b b' : Base} {value width flags : Int}
    (h : b = .decimal ∨ 0 ≤ value) (hi : Numeral.Writable b value)
    (hi' : Numeral.Writable .decimal width) (hi'' : Numeral.Writable b' flags) :
    ofTexts ("encode".toList :: Command.encodeTexts b b' value width flags) =
      .ok { verbose := false, command := .encode value (.whole width) (some flags) } := by
  have hc : Word.ofText? spellings "encode".toList = some (.value "encode".toList) := rfl
  have hv := Word.ofText?_spelled (Command.no_digits spellings (by decide)) h
  have he := Command.no_equals spellings (by decide)
  have hw : Word.ofText? spellings ("--prefix".toList ++ '=' :: Numeral.write .decimal width) = _ :=
    Word.ofText?_unlisted he (by decide) (by decide) (by decide) _
  have hf : Word.ofText? spellings ("--flags".toList ++ '=' :: Numeral.write b' flags) = _ :=
    Word.ofText?_unlisted he (by decide) (by decide) (by decide) _
  have hr := Command.ofTexts_encode_attached h hi hi' hi''
  rw [Command.encodeTexts] at hr ⊢
  rw [ofTexts, Word.ofTexts?_cons hc nofun, Word.ofTexts?_cons hv nofun,
    Word.ofTexts?_cons hw Word.ofUnlisted_ne_separator,
    Word.ofTexts?_cons hf Word.ofUnlisted_ne_separator]
  simp only [Word.ofTexts?, Option.map_some, ofTexts.go, hc]
  rw [hr]
  rfl

variable {name : List Char}

theorem ofTexts_receive (hn : name ≠ []) (hs : name ≠ ['-', '-']) {n : Int}
    (hw : Numeral.Writable .decimal n) (hex : Option (List Char)) :
    ofTexts ("decode".toList :: Command.receiveTexts name n hex) =
      .ok { verbose := false, command := .receive name (.whole n) (some 115200) (some 5) } := by
  have hc : Word.ofText? spellings "decode".toList = some (.value "decode".toList) := rfl
  have hd : Word.ofText? spellings ("--port".toList ++ '=' :: name) = _ :=
    Word.ofText?_unlisted (Command.no_equals spellings (by decide)) (by decide) (by decide)
      (by decide) name
  have hp : Word.ofText? spellings "--prefix".toList = some .unknown := rfl
  have hi := Word.ofText?_write (Command.no_digits spellings (by decide)) n
  have ⟨words, ht⟩ :
      ∃ words, Word.ofTexts? spellings (hex.elim [] (["--".toList, ·])) = some words := by
    cases hex <;> exact ⟨_, rfl⟩
  have hr := Command.ofTexts_receive hn hs hw hex
  rw [Command.receiveTexts] at hr ⊢
  rw [ofTexts, Word.ofTexts?_cons hc nofun, Word.ofTexts?_cons hd Word.ofUnlisted_ne_separator,
    Word.ofTexts?_cons hp nofun, Word.ofTexts?_cons hi nofun, ht]
  simp only [Option.map_some, ofTexts.go, hc]
  rw [hr]
  rfl

-- The wish to see the log may come before all other words, and changes nothing else.
theorem ofTexts_verbose (texts : List (List Char)) :
    ofTexts ("--verbose".toList :: texts) = (ofTexts texts).map ({ · with verbose := true }) := by
  have hv : Word.ofText? spellings "--verbose".toList = some (.option .verbose none) := rfl
  rw [ofTexts, ofTexts, Word.ofTexts?_cons hv nofun]
  cases Word.ofTexts? spellings texts
  case none => rfl
  case some =>
    simp only [Option.map_some, ofTexts.go, hv]
    cases ofTexts.go texts <;> rfl

-- It cannot come behind the name of the command.
theorem verbose_of_ofTexts {c : List Char} {texts : List (List Char)} {invocation : Invocation}
    (hc : c.head? ≠ some '-') (h : ofTexts (c :: texts) = .ok invocation) :
    invocation.verbose = false := by
  rw [ofTexts] at h
  split at h
  · contradiction
  · rw [ofTexts.go, Word.ofText?_of_head hc] at h
    have ⟨_, _, hi⟩ := Command.ok_of_bind h
    cases hi
    rfl

-- Unless help is asked for, some word is the name of the command, and it is read by the words that
-- follow.
theorem exists_of_go {texts : List (List Char)} {invocation : Invocation}
    (h : ofTexts.go texts = .ok invocation) (hc : ∀ topic, invocation.command ≠ .help topic) :
    ∃ c rest, Command.ofTexts c rest = .ok invocation.command := by
  fun_induction ofTexts.go texts generalizing invocation
  case case2 =>
    have ⟨_, hr, hi⟩ := Command.ok_of_bind h
    cases hi
    exact ⟨_, _, hr⟩
  case case3 hi =>
    have ⟨_, hr, hv⟩ := Command.ok_of_bind h
    cases hv
    have hi := hi hr
    exact hi hc
  case case4 | case5 => cases h; exact absurd rfl (hc _)
  all_goals contradiction

theorem name_of_ofTexts {texts : List (List Char)} {verbose : Bool} {width : Width.Candidate}
    {baudrate : Option Int} {timeout : Option Float}
    (h : ofTexts texts = .ok ⟨verbose, .receive name width baudrate timeout⟩) :
    name ≠ [] ∧ name ≠ ['-', '-'] := by
  rw [ofTexts] at h
  split at h
  · contradiction
  · have ⟨_, _, hc⟩ := exists_of_go h nofun
    exact Command.name_of_ofTexts hc

theorem writable_of_ofTexts {texts : List (List Char)} {invocation : Invocation} {n : Int}
    (h : ofTexts texts = .ok invocation) (hd : invocation.command.Decodes (.whole n)) :
    Numeral.Writable .decimal n := by
  rw [ofTexts] at h
  split at h
  · contradiction
  · have ⟨_, _, hc⟩ := exists_of_go h hd.ne_help
    exact Command.writable_of_ofTexts hc hd

end Invocation
end CommandLine
end Hpack
