import Hpack.Proofs.CommandLine.Decode
import Hpack.Proofs.CommandLine.Encode

namespace Hpack
namespace CommandLine

open Grammar

-- Texts that stand one after the other, with any blanks between them.
inductive Joined : List (List Char) → List Char → Prop
  | nil : Joined [] []
  | cons {t blanks texts rest} :
    (∀ c ∈ blanks, c ∈ [' ', '\t', '\n', '\x0b', '\x0c', '\r']) → Joined texts rest →
    Joined (t :: texts) (t ++ blanks ++ rest)

def encodeWords (w : Width) (value flags : Nat) : List String :=
  ["encode", toString value, "--prefix", toString w.bits, "--flags", toString flags]

-- A value is encoded together with flags, and the digits of the octets are shown on a line of their
-- own.
structure Shown (w : Width) (device : Device) (value flags : Nat) (line : String) : Prop where
  encoded : ∃ octets, encode value (.whole w.bits) flags = .ok octets ∧
    line = String.ofList ([' '].intercalate (octets.map fun octet =>
      [Nat.digitChar (octet.toNat / 16), Nat.digitChar (octet.toNat % 16)]))
  code    : (run (encodeWords w value flags) device).status.code = 0
  stdout  : (run (encodeWords w value flags) device).stdout = line ++ "\n"

variable {w : Width} {value flags : Nat} {hex : List Char} {pairs : List (Nat × Nat)}

theorem run_encode (h : value ≤ 2 ^ 32 - 1) (a : w.Admits flags) (device : Device) :
    run (encodeWords w value flags) device =
      { runEncode value (.whole w.bits) (some flags) with log := [] } := by
  have hv : Numeral.Writable .decimal value := Numeral.writable_of_lt (by omega)
  have hf : Numeral.Writable .decimal flags := Numeral.writable_of_lt (by have := a.le; omega)
  refine run_of_encode device ?_
  rw [← Invocation.ofTexts_encode hv w.writable_bits hf]
  simp only [encodeWords, List.map_cons, List.map_nil, Numeral.toList_toString]

theorem shown_canonical (h : value ≤ 2 ^ 32 - 1) (a : w.Admits flags) (device : Device) :
    Shown w device value flags (octetsLine (canonical w flags value)) where
  encoded := ⟨_, encode_eq h a, octetsLine_eq _⟩
  code    := by rw [run_encode h a, runEncode_of_ok (encode_eq h a)]; rfl
  stdout  := by
    rw [run_encode h a, runEncode_of_ok (encode_eq h a), Report.stdout, Report.text_singleton]

theorem read_joined {integers : List (List UInt8)} (h : Joined (integers.map Hex.spaced) hex) :
    Hex.read hex = some integers.flatten := by
  induction integers generalizing hex
  case nil =>
    cases h
    rfl
  case cons octets integers hi =>
    cases h
    case cons hb h =>
      have hb := fun c hc => Text.isAsciiBlank_iff.mpr (hb c hc)
      rw [List.append_assoc, Hex.read_spaced_append, Hex.read_blanks hb, hi h]
      rfl

-- Integers that are written one after the other are cut where they have been joined.
theorem cut_canonical (h : ∀ p ∈ pairs, p.1 ≤ 2 ^ 32 - 1 ∧ w.Admits p.2) :
    Cut w (pairs.map fun p => canonical w p.2 p.1).flatten
      (pairs.map fun p => ⟨p.1, canonical w p.2 p.1⟩) none := by
  refine Cut.iff_append.mpr ⟨fun s hs => ?whole, [], ?octets, .done⟩
  case whole =>
    have ⟨p, hp, hs⟩ := List.mem_map.mp hs
    have ⟨hv, a⟩ := h p hp
    exact hs ▸ ((represents_canonical hv).spells hv a).value
  case octets => rw [List.append_nil, List.flatMap_map, List.flatMap_def]

-- Values that have been encoded one by one are decoded from what the program has shown for them, in
-- the same order and with the same octets, however these are laid out.
theorem run_decode_encoded (w : Width) (pairs : List (Nat × Nat)) (device : Device)
    (h : ∀ p ∈ pairs, p.1 ≤ 2 ^ 32 - 1 ∧ w.Admits p.2) :
    ∃ lines : List String,
      List.Forall₂ (fun p line => Shown w device p.1 p.2 line) pairs lines ∧
      ∀ hex, Joined (lines.map String.toList) hex →
        let report := run ["decode", String.ofList hex, "--prefix", toString w.bits] device
        let found := pairs.zipWith (fun p line => toString p.1 ++ "  (" ++ line ++ ")") lines
        report.status.code = 0 ∧ report.stdout = String.join (found.map (· ++ "\n")) := by
  refine ⟨pairs.map fun p => octetsLine (canonical w p.2 p.1), ?shown, fun hex hj => ?decoded⟩
  case shown =>
    rw [List.forall₂_map_right_iff, List.forall₂_same]
    exact fun p hp => shown_canonical (h p hp).left (h p hp).right device
  case decoded =>
    have hj : Joined ((pairs.map fun p => canonical w p.2 p.1).map Hex.spaced) hex := by
      simpa [octetsLine, Function.comp_def] using hj
    have hx := read_joined hj
    obtain ⟨hs, ho⟩ := run_of_asksToDecode (asksToDecode hx w.writable_bits List.mem_cons_self) device
    rw [List.append_nil] at hs ho
    rw [runDecode_of_none hx (cut_canonical h)] at hs ho
    refine ⟨congrArg Status.code hs, ho.trans ?_⟩
    rw [Report.stdout, List.zipWith_map_right, List.zipWith_self, List.map_map]
    rfl

theorem run_decode_encoded_two :
    let w : Width := ⟨5, by decide, by decide⟩
    let pairs := [(1337, 0xE0), (10, 0x40)]
    let device := Device.failing "no device"
    (∀ p ∈ pairs, p.1 ≤ 2 ^ 32 - 1 ∧ w.Admits p.2) ∧
    ∃ lines : List String,
      List.Forall₂ (fun p line => Shown w device p.1 p.2 line) pairs lines ∧
      ∀ hex, Joined (lines.map String.toList) hex →
        let report := run ["decode", String.ofList hex, "--prefix", toString w.bits] device
        let found := pairs.zipWith (fun p line => toString p.1 ++ "  (" ++ line ++ ")") lines
        report.status.code = 0 ∧ report.stdout = String.join (found.map (· ++ "\n")) := by
  have h : ∀ p ∈ [(1337, 0xE0), (10, 0x40)], p.1 ≤ 2 ^ 32 - 1 ∧
      Width.Admits ⟨5, by decide, by decide⟩ p.2 := by
    intro p hp
    simp only [List.mem_cons, List.not_mem_nil, or_false] at hp
    rcases hp with rfl | rfl <;> exact ⟨by decide, by decide, by decide⟩
  exact ⟨h, run_decode_encoded _ _ _ h⟩

end CommandLine
end Hpack
