import Hpack.Proofs.CommandLine.Encode
import Hpack.Proofs.CommandLine.HexText
import Hpack.Proofs.CommandLine.Receive

namespace Hpack
namespace CommandLine

-- The line about octets that no further ones can mend.
inductive Tells : String → Fault → Prop
  | overflow {value : Nat} :
    Tells ("DEBUG hpack_int.integers: HPACK integer overflow: " ++ toString value) (.overflow value)
  | unterminated :
    Tells "DEBUG hpack_int.integers: HPACK integer not terminated after 5 continuation octets"
      .tooManyOctets

-- What there is to be logged of a command: an integer has been encoded or received, or octets have been
-- refused for good, wherever they come from.
inductive Noteworthy (device : Device) : Command → String → Prop
  | encoded {value : Nat} {w : Width} {flags octets} :
    encode value (.whole w.bits) flags = .ok octets →
    Noteworthy device (.encode value (.whole w.bits) (some flags))
      ("DEBUG hpack_tool: Encoded " ++ toString value ++ " with " ++ toString w.bits ++
        "-bit prefix into " ++ toString octets.length ++ " octets")
  | received {name given baudrate timeout chunks value feed} :
    device = .ready chunks → Decoder.read given (Feed.mk chunks 0 0) = .ok value feed →
    Noteworthy device (.receive name given baudrate timeout)
      ("DEBUG hpack_tool: Read " ++ toString feed.requests ++ " octets from " ++ String.ofList name)
  | undecoded {hex octets} {w : Width} {found fault line} :
    Hex.Denotes hex octets → Segmented w octets found →
    decode octets (.whole w.bits) (found.flatMap Segment.octets).length = .error fault →
    Tells line fault → Noteworthy device (.decode hex (.whole w.bits)) line
  | unreceived {name given baudrate timeout chunks fault feed line} :
    device = .ready chunks → Decoder.read given (Feed.mk chunks 0 0) = .error fault feed →
    Tells line fault → Noteworthy device (.receive name given baudrate timeout) line

variable {device : Device} {command : Command} {event : Event} {line : String} {fault : Fault}

namespace Event

theorem line_encoded (value : Nat) (w : Width) (length : Nat) :
    (encoded value (.whole w.bits) length).line =
      "DEBUG hpack_tool: Encoded " ++ toString value ++ " with " ++ toString w.bits ++
        "-bit prefix into " ++ toString length ++ " octets" := by
  have hm : (encoded value (.whole w.bits) length).message =
      "Encoded " ++ toString value ++ " with " ++ toString w.bits ++ "-bit prefix into " ++
        toString length ++ " octets" := rfl
  simp [line, hm, source, ← String.append_assoc]

theorem line_received (count : Nat) (device : String) : (received count device).line =
    "DEBUG hpack_tool: Read " ++ toString count ++ " octets from " ++ device := by
  have hm : (received count device).message =
      "Read " ++ toString count ++ " octets from " ++ device := rfl
  simp [line, hm, source, ← String.append_assoc]

theorem line_overflow (value : Nat) : (overflow value).line =
    "DEBUG hpack_int.integers: HPACK integer overflow: " ++ toString value := by
  have hm : (overflow value).message = "HPACK integer overflow: " ++ toString value := rfl
  simp [line, hm, source, ← String.append_assoc]

theorem line_unterminated : unterminated.line =
    "DEBUG hpack_int.integers: HPACK integer not terminated after 5 continuation octets" := by
  decide +kernel

theorem tells_of_mem_ofFault (h : event ∈ ofFault fault) : Tells event.line fault := by
  cases fault <;> simp [ofFault] at h
  case overflow      => exact h ▸ line_overflow _ ▸ .overflow
  case tooManyOctets => exact h ▸ line_unterminated ▸ .unterminated

end Event

theorem Tells.lines_ofFault (h : Tells line fault) :
    (Event.ofFault fault).map Event.line = [line] := by
  cases h
  case overflow     => rw [Event.ofFault, List.map_singleton, Event.line_overflow]
  case unterminated => rw [Event.ofFault, List.map_singleton, Event.line_unterminated]

-- A text is decoded up to where its octets are refused. At their end, they are only not enough.
theorem log_runDecode {hex : List Char} {octets : List UInt8} {w : Width} {found : List Segment}
    (hx : Hex.Denotes hex octets) (hf : Segmented w octets found)
    (hd : decode octets (.whole w.bits) (found.flatMap Segment.octets).length = .error fault) :
    (runDecode hex (.whole w.bits)).log = Event.ofFault fault := by
  replace hx := Hex.read_eq_some_iff.mpr hx
  have ⟨stop, c⟩ := hf.exists_cut
  cases stop
  case none =>
    have hb : Grammar.Begins w (octets.drop octets.length) .absent := by
      rw [List.drop_length]
      exact .absent
    rw [c.of_none, decode_of_begins hb] at hd
    cases hd
    rw [runDecode_of_none hx c]
    rfl
  case some =>
    cases c.of_some.right.symm.trans hd
    rw [runDecode_of_some hx c]

-- What is worth a line is all that is logged.
theorem lines_of_noteworthy (h : Noteworthy device command line) :
    (command.run device).log.map Event.line = [line] := by
  cases h
  case encoded he => rw [Command.run, runEncode_of_ok he, List.map_singleton, Event.line_encoded]
  case received hd hr =>
    rw [hd, Command.run, runReceive_of_ok _ _ _ hr, List.map_singleton, Event.line_received,
      Feed.consumed_of_read hr]
  case undecoded hx hf hd ht => rw [Command.run, log_runDecode hx hf hd, ht.lines_ofFault]
  case unreceived hd hr ht =>
    rw [hd, Command.run, runReceive_of_error _ _ _ hr, ht.lines_ofFault]

-- Nothing else is logged, whichever command it is.
theorem noteworthy_of_mem_runEncode {value : Int} {given : Width.Candidate} {flags : Option Int}
    (h : event ∈ (runEncode value given flags).log) :
    Noteworthy device (.encode value given flags) event.line := by
  cases flags
  case none =>
    rw [runEncode] at h
    split at h <;> contradiction
  case some flags =>
    cases he : encode value given flags
    case error =>
      rw [runEncode_of_error he] at h
      contradiction
    case ok =>
      rw [runEncode_of_ok he] at h
      obtain ⟨w, v, _, rfl, rfl, _⟩ := encode_eq_ok_iff.mp he
      rw [List.mem_singleton.mp h, Event.line_encoded]
      exact .encoded he

theorem noteworthy_of_mem_runDecode {hex : List Char} {given : Width.Candidate}
    (h : event ∈ (runDecode hex given).log) : Noteworthy device (.decode hex given) event.line := by
  cases hx : Hex.read hex
  case none =>
    rw [runDecode, hx] at h
    contradiction
  case some octets =>
    cases hw : Width.ofCandidate given
    case error =>
      rw [runDecode_of_invalid hx hw] at h
      contradiction
    case ok w =>
      cases Width.ofCandidate_eq_ok_iff.mp hw
      have c := cut_segments octets w 0
      rw [List.drop_zero] at c
      cases hs : (segments octets (.whole w.bits) 0).2 <;> rw [hs] at c
      case none =>
        rw [runDecode_of_none hx c] at h
        contradiction
      case some =>
        rw [runDecode_of_some hx c] at h
        exact .undecoded (Hex.read_eq_some_iff.mp hx) c.segmented c.of_some.right
          (Event.tells_of_mem_ofFault h)

theorem noteworthy_of_mem_runReceive {name : List Char} {given : Width.Candidate}
    {baudrate : Option Int} {timeout : Option Float}
    (h : event ∈ (runReceive (String.ofList name) given baudrate timeout device).log) :
    Noteworthy device (.receive name given baudrate timeout) event.line := by
  cases device
  case failing | refusing => contradiction
  case ready chunks =>
    cases hr : Decoder.read given (Feed.mk chunks 0 0)
    case ok value feed =>
      rw [runReceive_of_ok _ _ _ hr, List.mem_singleton, Feed.consumed_of_read hr] at h
      rw [h, Event.line_received]
      exact .received rfl hr
    case error =>
      rw [runReceive_of_error _ _ _ hr] at h
      exact .unreceived rfl hr (Event.tells_of_mem_ofFault h)

theorem noteworthy_of_mem_log (h : event ∈ (command.run device).log) :
    Noteworthy device command event.line := by
  cases command <;> rw [Command.run] at h
  case help | table => contradiction
  case encode  => exact noteworthy_of_mem_runEncode h
  case decode  => exact noteworthy_of_mem_runDecode h
  case receive => exact noteworthy_of_mem_runReceive h
  case entry =>
    rw [runEntry] at h
    split at h <;> contradiction

theorem log_eq_nil (h : ¬∃ line, Noteworthy device command line) : (command.run device).log = [] :=
  List.eq_nil_iff_forall_not_mem.mpr fun event he => h ⟨event.line, noteworthy_of_mem_log he⟩

-- Only the name of a device may take what is logged over the end of its line.
theorem lineFeed_of_noteworthy (h : Noteworthy device command line) (hn : '\n' ∈ line.toList) :
    ∃ name given baudrate timeout,
      command = .receive name given baudrate timeout ∧ '\n' ∈ name := by
  have hd := Numeral.lineFeed_not_mem_toDigits
  cases h
  case encoded => simp [hd] at hn
  case received name given baudrate timeout chunks value feed _ _ =>
    exact ⟨name, given, baudrate, timeout, rfl, by simpa [hd] using hn⟩
  case undecoded ht | unreceived ht => cases ht <;> simp [hd] at hn

-- Where an integer has been received, all octets that have been asked for are there.
theorem receive_of_success {name : List Char} {given : Width.Candidate} {baudrate : Option Int}
    {timeout : Option Float}
    (h : (Command.run device (.receive name given baudrate timeout)).status = .success) :
    ∃ usage, (Command.run device (.receive name given baudrate timeout)).device = some usage ∧
      Noteworthy device (.receive name given baudrate timeout)
        ("DEBUG hpack_tool: Read " ++ toString usage.requests ++ " octets from " ++
          String.ofList name) := by
  cases device
  case failing | refusing => contradiction
  case ready chunks =>
    cases hr : Decoder.read given (Feed.mk chunks 0 0)
    case ok =>
      have he : Noteworthy (.ready chunks) (.receive name given baudrate timeout) _ :=
        .received rfl hr
      rw [Command.run, runReceive_of_ok _ _ _ hr]
      exact ⟨_, rfl, he⟩
    case error =>
      rw [Command.run, runReceive_of_error _ _ _ hr] at h
      contradiction

-- All commands come to an end that is provided for but one: to encode what could be encoded, without
-- any flags.
theorem status_runEncode_eq_crashed_iff {value : Int} {given : Width.Candidate} {flags : Option Int} :
    (runEncode value given flags).status = .crashed ↔
      flags = none ∧ ∃ length, encodedLength value given = .ok length := by
  cases flags
  case none =>
    rw [runEncode]
    cases encodedLength value given <;> simp
  case some flags =>
    cases he : encode value given flags
    case error => simp [runEncode_of_error he]
    case ok    => simp [runEncode_of_ok he]

theorem status_runDecode_ne_crashed (hex : List Char) (given : Width.Candidate) :
    (runDecode hex given).status ≠ .crashed := by
  fun_cases runDecode hex given <;> nofun

theorem status_runReceive_ne_crashed (name : String) (given : Width.Candidate)
    (baudrate : Option Int) (timeout : Option Float) (device : Device) :
    (runReceive name given baudrate timeout device).status ≠ .crashed := by
  fun_cases runReceive name given baudrate timeout device <;> nofun

theorem crashed_iff : (command.run device).status = .crashed ↔
    ∃ value given length, command = .encode value given none ∧
      encodedLength value given = .ok length := by
  cases command <;> rw [Command.run]
  case help | table => simp
  case encode  => rw [status_runEncode_eq_crashed_iff]; simp
  case decode  => simp [status_runDecode_ne_crashed]
  case receive => simp [status_runReceive_ne_crashed]
  case entry index => fun_cases runEntry index <;> simp

-- Whatever the words behind the name of a command are, they are taken in the same way with and without
-- the wish to see the log. Only if they make up a command, the log is what they differ in.
theorem run_verbose_cases {name : String} (h : name ∈ ["encode", "decode", "table"])
    (rest : List String) (device : Device) :
    (∃ complaint,
      run (name :: rest) device = { status := .refused complaint } ∧
      run ("--verbose" :: name :: rest) device = { status := .refused complaint }) ∨
    ∃ command,
      Invocation.ofTexts ((name :: rest).map String.toList) = .ok ⟨false, command⟩ ∧
      run (name :: rest) device = { command.run device with log := [] } ∧
      run ("--verbose" :: name :: rest) device = command.run device := by
  have hn : name.toList.head? ≠ some '-' := by
    revert name
    decide
  have hv := Invocation.ofTexts_verbose ((name :: rest).map String.toList)
  cases ho : Invocation.ofTexts ((name :: rest).map String.toList) <;> rw [ho] at hv
  case error complaint =>
    refine .inl ⟨complaint, by rw [run, ho], ?_⟩
    rw [run, List.map_cons, hv]
    rfl
  case ok invocation =>
    obtain ⟨verbose, command⟩ := invocation
    obtain rfl : verbose = false := Invocation.verbose_of_ofTexts hn ho
    refine .inr ⟨command, rfl, by rw [run, ho]; rfl, ?_⟩
    rw [run, List.map_cons, hv]
    rfl

-- The wish to see the log changes nothing but what is logged. Without it, there is no log. With it,
-- there is a line if an integer has been encoded or received, or if octets have been refused for good,
-- and nothing otherwise. The name of a device is logged as it is, and so the line may not be a single
-- one. An integer that has been received is logged with the number of requests.
theorem verbose_only_logs (name : String) (rest : List String) (device : Device)
    (h : name ∈ ["encode", "decode", "table"]) :
    let quiet := run (name :: rest) device
    let loud := run ("--verbose" :: name :: rest) device
    (loud.status = quiet.status ∧ loud.stdout = quiet.stdout ∧ loud.device = quiet.device) ∧
    (quiet.status.code ≠ 2 →
      ∃ command, Invocation.ofTexts ((name :: rest).map String.toList) = .ok ⟨false, command⟩ ∧
        (quiet.status = .crashed ↔ ∃ value given length, command = .encode value given none ∧
          encodedLength value given = .ok length) ∧
        (quiet.status ≠ .crashed →
          quiet.stderr = "" ∧
          (∀ line, Noteworthy device command line →
            loud.stderr = line ++ "\n" ∧
            ('\n' ∈ line.toList → ∃ name given baudrate timeout,
              command = .receive name given baudrate timeout ∧ '\n' ∈ name)) ∧
          ((¬∃ line, Noteworthy device command line) → loud.stderr = "") ∧
          ∀ name given baudrate timeout, command = .receive name given baudrate timeout →
            quiet.status = .success →
            ∃ usage, quiet.device = some usage ∧
              loud.stderr = "DEBUG hpack_tool: Read " ++ toString usage.requests ++
                " octets from " ++ String.ofList name ++ "\n")) := by
  rcases run_verbose_cases h rest device with ⟨complaint, hq, hl⟩ | ⟨command, hc, hq, hl⟩ <;>
    rw [hq, hl]
  case inl => exact ⟨⟨rfl, rfl, rfl⟩, fun hn => absurd rfl hn⟩
  case inr =>
    have hs {line} (he : Noteworthy device command line) :
        (command.run device).stderr = line ++ "\n" := by
      rw [Report.stderr, lines_of_noteworthy he]
      exact Report.text_singleton line
    refine ⟨⟨rfl, rfl, rfl⟩, fun _ => ⟨command, hc, crashed_iff, fun _ => ⟨rfl,
      fun line he => ⟨hs he, lineFeed_of_noteworthy he⟩, fun hn => ?silent, ?count⟩⟩⟩
    case silent =>
      rw [Report.stderr, log_eq_nil hn]
      rfl
    case count =>
      rintro name given baudrate timeout rfl hr
      have ⟨usage, hu, he⟩ := receive_of_success hr
      exact ⟨usage, hu, hs he⟩

theorem verbose_only_logs_received :
    let words := ["--port=tty", "--prefix", "5"]
    let device := Device.ready [.octets [0x1F, 0x00], .octets [0x9A], .octets [0x0A], .octets [0x05]]
    let quiet := run ("decode" :: words) device
    let loud := run ("--verbose" :: "decode" :: words) device
    "decode" ∈ ["encode", "decode", "table"] ∧
    quiet.status = .success ∧ quiet.stdout = "1337\n" ∧ quiet.stderr = "" ∧
    loud.status = .success ∧ loud.stdout = "1337\n" ∧
    loud.stderr = "DEBUG hpack_tool: Read 3 octets from tty\n" ∧
    ∃ usage, loud.device = some usage ∧ usage.requests = 3 := by
  intro words device quiet loud
  have hd : "decode" ∈ ["encode", "decode", "table"] := by decide
  have ⟨⟨hs, ho, hu⟩, hl⟩ := verbose_only_logs "decode" words device hd
  have hq : quiet.status = .success ∧ quiet.stdout = "1337\n" := by decide +kernel
  have hr : quiet.device.map Device.Usage.requests = some 3 := by decide +kernel
  have ⟨command, hc, _, hl⟩ := hl (by rw [hq.left]; decide)
  have hc' : Invocation.ofTexts ("decode".toList :: Command.receiveTexts "tty".toList 5 none) = _ :=
    Invocation.ofTexts_receive (by decide) (by decide) (Numeral.writable_of_lt (by decide)) none
  have hw : ("decode" :: words).map String.toList =
      "decode".toList :: Command.receiveTexts "tty".toList 5 none := by decide +kernel
  rw [hw, hc'] at hc
  cases hc
  have ⟨he, _, _, hn⟩ := hl (by rw [hq.left]; decide)
  have ⟨usage, hd', hn⟩ := hn _ _ _ _ rfl hq.left
  have hr : usage.requests = 3 := Option.some.inj ((congrArg (Option.map _) hd').symm.trans hr)
  rw [hr] at hn
  exact ⟨hd, hq.left, hq.right, he, hs.trans hq.left, ho.trans hq.right, hn, usage, hu.trans hd', hr⟩

-- The name of a device that holds a line feed is logged over two lines.
theorem verbose_logs_two_lines :
    let words := ["decode", "--port", "a\nb"]
    let device := Device.ready [.octets [0x41]]
    let loud := run ("--verbose" :: words) device
    (run words device).status = .success ∧ loud.status = .success ∧ loud.stdout = "65\n" ∧
    loud.stderr = "DEBUG hpack_tool: Read 1 octets from a\nb\n" ∧
    ¬∃ line : String, '\n' ∉ line.toList ∧ loud.stderr = line ++ "\n" := by
  intro words device loud
  have ⟨hq, hs, ho⟩ : (run words device).status = .success ∧ loud.status = .success ∧
      loud.stdout = "65\n" := by decide +kernel
  have he : loud.stderr = "DEBUG hpack_tool: Read 1 octets from a\nb" ++ "\n" := by decide +kernel
  refine ⟨hq, hs, ho, he, ?_⟩
  rintro ⟨line, hn, hl⟩
  obtain rfl := (String.append_left_inj _).mp (hl.symm.trans he)
  exact hn (by decide)

-- Flags that have been set to nothing cannot be compared, whether or not the log is asked for.
example : (run ["encode", "5", "--flags=--"] (.failing "no device")).status = .crashed := by
  decide +kernel

end CommandLine
end Hpack
