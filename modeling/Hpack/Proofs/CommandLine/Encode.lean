import Hpack.CommandLine.Run
import Hpack.Proofs.CommandLine.Invocation

namespace Hpack
namespace CommandLine

theorem Report.text_singleton (line : String) : text [line] = line ++ "\n" := by
  simp [text, String.join]

theorem Report.text_concat (lines : List String) (line : String) :
    text (lines ++ [line]) = text lines ++ line ++ "\n" := by
  simp [text, String.append_assoc]

theorem errorLine_invalidWidth (n : Int) : errorLine (.invalidWidth (.whole n)) =
    "Error: HPACK integer: invalid prefix width " ++ toString n := by
  rw [← Numeral.decimal_eq_toString]
  rfl

variable {arguments : List String} {value width flags : Int} {given : Width.Candidate}
  {octets : List UInt8} {fault : Fault}

theorem runEncode_of_ok (h : encode value given flags = .ok octets) :
    runEncode value given (some flags) = {
      status := .success
      output := [octetsLine octets]
      log    := [.encoded value given octets.length]
    } := by
  rw [runEncode, h]

theorem runEncode_of_error (h : encode value given flags = .error fault) :
    runEncode value given (some flags) = { status := .failure, output := [errorLine fault] } := by
  rw [runEncode, h]

-- Unless the log is asked for, it is left out.
theorem run_of_encode (device : Device) (h : Invocation.ofTexts (arguments.map String.toList) =
      .ok { verbose := false, command := .encode value given (some flags) }) :
    run arguments device = { runEncode value given (some flags) with log := [] } := by
  rw [run, h]
  rfl

-- The words that ask for a value to be encoded with flags, both of them written in a base each.
def spelledWords (b b' : Base) (value width flags : Int) : List String :=
  ["encode", String.ofList (Numeral.write b value), "--prefix=" ++ Numeral.decimal width,
    "--flags=" ++ String.ofList (Numeral.write b' flags)]

theorem run_spelledWords {b b' : Base} (h : b = .decimal ∨ 0 ≤ value) (hv : Numeral.Writable b value)
    (hw : Numeral.Writable .decimal width) (hf : Numeral.Writable b' flags) (device : Device) :
    run (spelledWords b b' value width flags) device =
      { runEncode value (.whole width) (some flags) with log := [] } := by
  refine run_of_encode device ?_
  rw [← Invocation.ofTexts_encode_attached h hv hw hf]
  simp [spelledWords, Command.encodeTexts, Numeral.decimal]

-- The digits of octets are shown in pairs with spaces between them.
theorem octetsLine_eq (octets : List UInt8) : octetsLine octets =
    String.ofList ([' '].intercalate (octets.map fun octet =>
      [Nat.digitChar (octet.toNat / 16), Nat.digitChar (octet.toNat % 16)])) := by
  simp only [octetsLine, Hex.spaced, ← Hex.pair_eq]

-- The program encodes what the numbers of the command line stand for, in whichever base they are
-- written, and it shows the octets or the reason why there are none. Negative values have to be
-- decimal, as they would be taken for options otherwise, and decimal numbers must not be too long.
theorem run_encode_spelled (b b' : Base) (value width flags : Int) (device : Device)
    (h : b = .decimal ∨ 0 ≤ value) (hv : Numeral.Writable b value)
    (hw : Numeral.Writable .decimal width) (hf : Numeral.Writable b' flags) :
    let report := run (spelledWords b b' value width flags) device
    (∀ octets, encode value (.whole width) flags = .ok octets →
      report.status.code = 0 ∧
      report.stdout = String.ofList ([' '].intercalate (octets.map fun octet =>
        [Nat.digitChar (octet.toNat / 16), Nat.digitChar (octet.toNat % 16)])) ++ "\n") ∧
    (∀ fault, encode value (.whole width) flags = .error fault →
      report.status.code = 1 ∧ report.stdout = "Error: " ++ fault.message ++ "\n") ∧
    (∀ c c' : Base, c = .decimal ∨ 0 ≤ value → Numeral.Writable c value →
      Numeral.Writable c' flags →
      run (spelledWords c c' value width flags) device = report) := by
  have hr := run_spelledWords h hv hw hf device
  refine ⟨fun octets he => ?shown, fun fault he => ?refused, fun c c' hc hv' hf' => ?spelling⟩
  case shown =>
    rw [hr, runEncode_of_ok he]
    exact ⟨rfl, by rw [Report.stdout, Report.text_singleton, octetsLine_eq]⟩
  case refused =>
    rw [hr, runEncode_of_error he]
    exact ⟨rfl, by rw [Report.stdout, Report.text_singleton, errorLine]⟩
  case spelling => rw [hr, run_spelledWords hc hv' hw hf']

theorem run_encode_spelled_1337 :
    let words := ["encode", "0x539", "--prefix=5", "--flags=0b11100000"]
    let device := Device.failing "no device"
    (Base.hexadecimal = .decimal ∨ (0 : Int) ≤ 1337) ∧
    Numeral.Writable .hexadecimal 1337 ∧ Numeral.Writable .decimal 5 ∧
    Numeral.Writable .binary 0xE0 ∧
    encode 1337 (.whole 5) 0xE0 = .ok [0xFF, 0x9A, 0x0A] ∧
    (run words device).status.code = 0 ∧
    (run words device).stdout = "ff 9a 0a\n" ∧
    (run ["encode", "1337", "--prefix=5", "--flags=0o340"] device) = run words device := by
  have hw : spelledWords .hexadecimal .binary 1337 5 0xE0 =
      ["encode", "0x539", "--prefix=5", "--flags=0b11100000"] := by decide +kernel
  have hd : spelledWords .decimal .octal 1337 5 0xE0 =
      ["encode", "1337", "--prefix=5", "--flags=0o340"] := by decide +kernel
  have he : encode 1337 (.whole 5) 0xE0 = .ok [0xFF, 0x9A, 0x0A] := by decide +kernel
  have h : Base.hexadecimal = .decimal ∨ (0 : Int) ≤ 1337 := by decide
  have hn {b} : Numeral.Writable b 1337 := Numeral.writable_of_lt (by decide)
  have h5 : Numeral.Writable .decimal 5 := Numeral.writable_of_lt (by decide)
  have hf {b} : Numeral.Writable b 0xE0 := Numeral.writable_of_lt (by decide)
  have ⟨ho, _, hs⟩ :=
    run_encode_spelled .hexadecimal .binary 1337 5 0xE0 (.failing "no device") h hn h5 hf
  rw [hw] at ho hs
  have ⟨hc, ht⟩ := ho _ he
  exact ⟨h, hn, h5, hf, he, hc, ht.trans (by decide +kernel),
    hd ▸ hs .decimal .octal (.inr (by decide)) hn hf⟩

-- Flags are attached to their option, so a sign may come before the marker of any base.
example : (run ["encode", "5", "--prefix=3", "--flags=-0x10"] (.failing "no device")).output =
    ["Error: Flags 0x-10 do not fit above a 3-bit prefix"] := by
  decide +kernel

end CommandLine
end Hpack
