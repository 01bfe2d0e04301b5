import Hpack.CommandLine.Run
import Hpack.Proofs.CommandLine.Encode
import Hpack.Proofs.Segment

namespace Hpack
namespace CommandLine

variable {arguments : List String} {hex : List Char} {octets : List UInt8} {n : Int} {w : Width}
  {found : List Segment} {device : Device}

-- Command lines which ask for the octets of a text to be decoded at a width. They name no device.
def AsksToDecode (arguments : List String) (hex : List Char) (n : Int) : Prop :=
  ∃ verbose, Invocation.ofTexts (arguments.map String.toList) =
    .ok { verbose, command := .decode hex (.whole n) }

theorem asksToDecode (hx : Hex.read hex = some octets) (hn : Numeral.Writable .decimal n)
    {device : List String} (hd : device ∈ [[], ["--port", ""]]) :
    AsksToDecode (["decode", String.ofList hex, "--prefix", Numeral.decimal n] ++ device) hex n := by
  have hd : Command.NoDevice (device.map String.toList) := by
    simp only [List.mem_cons, List.not_mem_nil, or_false] at hd
    rcases hd with rfl | rfl
    · exact .inl rfl
    · exact .inr rfl
  have hi := Invocation.ofTexts_decode (Hex.head?_of_read hx) hn hd
  exact ⟨false, by simpa [Numeral.decimal] using hi⟩

-- A width that is too long to be told cannot be asked for.
theorem AsksToDecode.writable (h : AsksToDecode arguments hex n) : Numeral.Writable .decimal n := by
  have ⟨_, hi⟩ := h
  exact Invocation.writable_of_ofTexts hi rfl

-- The wish to see the log only changes the log.
theorem run_of_asksToDecode (h : AsksToDecode arguments hex n) (device : Device) :
    (run arguments device).status = (runDecode hex (.whole n)).status ∧
      (run arguments device).stdout = (runDecode hex (.whole n)).stdout := by
  have ⟨verbose, h⟩ := h
  rw [run, h]
  cases verbose <;> exact ⟨rfl, rfl⟩

theorem runDecode_of_invalid {given : Width.Candidate} {fault : Fault}
    (hx : Hex.read hex = some octets) (hw : Width.ofCandidate given = .error fault) :
    runDecode hex given = { status := .failure, output := [errorLine fault] } := by
  simp [runDecode, hx, hw]

theorem segments_of_cut {fault : Option Fault} (c : Cut w octets found fault) :
    segments octets (.whole w.bits) 0 = (found, fault) := by
  have ⟨hf, hs⟩ := (cut_segments octets w 0).unique c
  exact Prod.ext hf hs

theorem runDecode_of_none (hx : Hex.read hex = some octets) (c : Cut w octets found none) :
    runDecode hex (.whole w.bits) = { status := .success, output := found.map segmentLine } := by
  simp [runDecode, hx, Width.ofCandidate_bits, segments_of_cut c]

theorem runDecode_of_some {fault : Fault} (hx : Hex.read hex = some octets)
    (c : Cut w octets found (some fault)) :
    runDecode hex (.whole w.bits) = {
      status := .failure
      output := found.map segmentLine ++ [errorLine fault]
      log    := Event.ofFault fault
    } := by
  simp [runDecode, hx, Width.ofCandidate_bits, segments_of_cut c]

-- Of a value and of octets, the digits are shown.
theorem segmentLine_eq (s : Segment) : segmentLine s =
    toString s.value ++ "  (" ++ String.ofList ([' '].intercalate (s.octets.map fun octet =>
      [Nat.digitChar (octet.toNat / 16), Nat.digitChar (octet.toNat % 16)])) ++ ")" := by
  rw [segmentLine, Numeral.decimal_eq_toString, octetsLine_eq]
  rfl

-- Each integer that is found is shown on a line of its own, and the reason for stopping short if there
-- is one.
theorem run_of_segmented (hx : Hex.read hex = some octets) (ha : AsksToDecode arguments hex w.bits)
    (h : Segmented w octets found) (device : Device) :
    let report := run arguments device
    let own := found.flatMap Segment.octets
    let lines := found.map fun s =>
      toString s.value ++ "  (" ++ String.ofList ([' '].intercalate (s.octets.map fun octet =>
        [Nat.digitChar (octet.toNat / 16), Nat.digitChar (octet.toNat % 16)])) ++ ")"
    (own = octets ∧ report.status.code = 0 ∧
      report.stdout = String.join (lines.map (· ++ "\n"))) ∨
    (own ≠ octets ∧ ∃ fault,
      decode octets (.whole w.bits) own.length = .error fault ∧ report.status.code = 1 ∧
        report.stdout =
          String.join (lines.map (· ++ "\n")) ++ "Error: " ++ fault.message ++ "\n") := by
  have ⟨hs, ho⟩ := run_of_asksToDecode ha device
  have ⟨fault, c⟩ := h.exists_cut
  have hl : found.map segmentLine = _ := List.map_congr_left fun s _ => segmentLine_eq s
  simp only [hs, ho]
  cases fault
  case none =>
    rw [runDecode_of_none hx c]
    exact .inl ⟨c.of_none, rfl, congrArg Report.text hl⟩
  case some fault =>
    rw [runDecode_of_some hx c]
    refine .inr ⟨c.of_some.left, fault, c.of_some.right, rfl, ?_⟩
    rw [Report.stdout, Report.text_concat, hl, errorLine, ← String.append_assoc]
    rfl

theorem run_of_outside (hx : Hex.read hex = some octets) (ha : AsksToDecode arguments hex n)
    (hn : ¬(1 ≤ n ∧ n ≤ 8)) (device : Device) :
    (run arguments device).status.code = 1 ∧ (run arguments device).stdout =
      "Error: HPACK integer: invalid prefix width " ++ toString n ++ "\n" := by
  have ⟨hs, ho⟩ := run_of_asksToDecode ha device
  rw [hs, ho, runDecode_of_invalid hx (Width.ofCandidate_of_outside hn ha.writable)]
  exact ⟨rfl, by rw [Report.stdout, Report.text_singleton, errorLine_invalidWidth]⟩

-- Octets that are given in hex are cut into integers in the only way there is, and each of them is
-- shown on a line of its own. Where no integer can be decoded, the reason is shown instead. Without
-- a proper width, only that is shown.
theorem run_decode_segmented (octets : List UInt8) (device : Device) :
    Hex.read (Hex.compact octets) = some octets ∧
    ∀ hex, Hex.read hex = some octets →
      (∀ n, Numeral.Writable .decimal n → ∀ texts ∈ [[], ["--port", ""]],
        AsksToDecode (["decode", String.ofList hex, "--prefix", toString n] ++ texts) hex n) ∧
      ∀ arguments n, AsksToDecode arguments hex n →
        let report := run arguments device
        Numeral.Writable .decimal n ∧
        (∀ w : Width, n = w.bits → (∃! found, Segmented w octets found) ∧
          ∀ found, Segmented w octets found →
            let own := found.flatMap Segment.octets
            let lines := found.map fun s =>
              toString s.value ++ "  (" ++ String.ofList ([' '].intercalate (s.octets.map fun octet =>
                [Nat.digitChar (octet.toNat / 16), Nat.digitChar (octet.toNat % 16)])) ++ ")"
            (own = octets ∧ report.status.code = 0 ∧
              report.stdout = String.join (lines.map (· ++ "\n"))) ∨
            (own ≠ octets ∧ ∃ fault,
              decode octets (.whole w.bits) own.length = .error fault ∧ report.status.code = 1 ∧
                report.stdout =
                  String.join (lines.map (· ++ "\n")) ++ "Error: " ++ fault.message ++ "\n")) ∧
        (¬(1 ≤ n ∧ n ≤ 8) → report.status.code = 1 ∧ report.stdout =
          "Error: HPACK integer: invalid prefix width " ++ toString n ++ "\n") := by
  refine ⟨Hex.read_compact octets, fun hex hx => ⟨fun n hn texts ht => ?asked, ?told⟩⟩
  case asked => exact Numeral.decimal_eq_toString n ▸ asksToDecode hx hn ht
  case told =>
    intro arguments n ha
    refine ⟨ha.writable, fun w hn => ?cut, fun hn => run_of_outside hx ha hn device⟩
    case cut =>
      subst hn
      exact ⟨existsUnique_segmented w octets, fun found h => run_of_segmented hx ha h device⟩

-- What has been found before the octets run out is still shown.
example : (run ["decode", "1f 9a 0a 05 ff", "--prefix", "5"] (.failing "no device")).output =
    ["1337  (1f 9a 0a)", "5  (05)", "Error: HPACK integer: not enough octets"] := by
  decide +kernel

end CommandLine
end Hpack
