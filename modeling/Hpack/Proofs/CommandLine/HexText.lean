import Hpack.Proofs.CommandLine.Decode
import Hpack.Proofs.CommandLine.Encode

namespace Hpack
namespace CommandLine

variable {hex hex' : List Char} {octets : List UInt8} {device : List String}

-- Any text can be given for octets. Behind a separator, it is not taken for an option.
theorem asksToDecode_separated (hex : List Char) {n : Int} (hn : Numeral.Writable .decimal n)
    (hd : device ∈ [[], ["--port", ""]]) :
    AsksToDecode (["decode", "--prefix", Numeral.decimal n] ++ device ++ ["--", String.ofList hex])
      hex n := by
  have hd : Command.NoDevice (device.map String.toList) := by
    simp only [List.mem_cons, List.not_mem_nil, or_false] at hd
    rcases hd with rfl | rfl
    · exact .inl rfl
    · exact .inr rfl
  have hi := Invocation.ofTexts_decode_separated hex hn hd
  exact ⟨false, by simpa [Numeral.decimal] using hi⟩

-- Once the octets are there, the text is not looked at any more.
theorem runDecode_congr (hd : Hex.Denotes hex octets) (hd' : Hex.Denotes hex' octets)
    (given : Width.Candidate) : runDecode hex given = runDecode hex' given := by
  rw [runDecode, runDecode, Hex.read_eq_some_iff.mpr hd, Hex.read_eq_some_iff.mpr hd']

-- The text is judged before the width.
theorem runDecode_of_not_denotes (h : ¬∃ octets, Hex.Denotes hex octets) (given : Width.Candidate) :
    runDecode hex given =
      { status := .failure, output := ["Error: Invalid hex string: " ++ String.ofList hex] } := by
  rw [runDecode, Hex.read_eq_none_iff.mpr h]

-- Of a text that stands for octets, only the octets matter, not the case of its digits and not where
-- the blanks are. Every other text is shown as it was given, whether or not the width is a proper one.
-- All widths can be given, but not those that are too long.
theorem run_decode_denoted (hex : List Char) (n : Int) :
    (Numeral.Writable .decimal n → ∀ texts ∈ [[], ["--port", ""]],
      AsksToDecode (["decode", "--prefix", Numeral.decimal n] ++ texts ++ ["--", String.ofList hex])
        hex n) ∧
    (∀ arguments, AsksToDecode arguments hex n → Numeral.Writable .decimal n) ∧
    ∀ arguments device, AsksToDecode arguments hex n →
      let report := run arguments device
      (∀ octets, Hex.Denotes hex octets →
        ∀ hex' arguments' device', Hex.Denotes hex' octets → AsksToDecode arguments' hex' n →
          (run arguments' device').status.code = report.status.code ∧
          (run arguments' device').stdout = report.stdout) ∧
      ((¬∃ octets, Hex.Denotes hex octets) →
        report.status.code = 1 ∧
        report.stdout = "Error: Invalid hex string: " ++ String.ofList hex ++ "\n") := by
  refine ⟨fun hn _ => asksToDecode_separated hex hn, fun _ => AsksToDecode.writable,
    fun arguments device ha => ⟨?same, fun hn => ?other⟩⟩
  all_goals have ⟨hs, ho⟩ := run_of_asksToDecode ha device
  case same =>
    intro octets hd hex' arguments' device' hd' ha'
    have ⟨hs', ho'⟩ := run_of_asksToDecode ha' device'
    rw [hs, ho, hs', ho', runDecode_congr hd hd']
    exact ⟨rfl, rfl⟩
  case other =>
    rw [hs, ho, runDecode_of_not_denotes hn]
    exact ⟨rfl, Report.text_singleton _⟩

-- Blanks do not come between the digits of a pair, and there is no such width.
example : (run ["decode", "1 f", "--prefix", "9"] (.failing "no device")).output =
    ["Error: Invalid hex string: 1 f"] := by
  decide +kernel

end CommandLine
end Hpack
