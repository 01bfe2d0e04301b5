import Hpack.Proofs.Decode
import Hpack.Proofs.Encoder
import Hpack.Proofs.Trace
import Hpack.Session

namespace Hpack

open Grammar

namespace Session

def movedTo (s : Session) (position : Nat) : Session :=
  { s with buffer.position := position }

def holding (s : Session) (octets : List UInt8) : Session :=
  { s with buffer.octets := octets }

def marked (s : Session) : Session :=
  { s with mark := s.buffer.position }

variable {s s' : Session} {step : Step} {outcome : Except Fault Answer}

-- What a step can come to, and the state that it leaves.
inductive Transition (s : Session) : Step → Except Fault Answer → Session → Prop
  | octet {octet} :
    s.buffer.octets[s.buffer.position]? = some octet →
    Transition s .octet (.ok (.number octet.toNat)) (s.movedTo (s.buffer.position + 1))
  | noOctet :
    s.buffer.octets[s.buffer.position]? = none →
    Transition s .octet (.error (.insufficient .buffer)) s
  | integer {w form} :
    Begins w (s.buffer.octets.drop s.buffer.position) form →
    Transition s (.integer (.whole w.bits)) ((form.verdict (.insufficient .buffer)).map .number)
      (s.movedTo (s.buffer.position + form.length))
  | noWidth {given fault} :
    Width.ofCandidate given = .error fault → Transition s (.integer given) (.error fault) s
  | seek (position : Nat) : Transition s (.seek position) (.ok .nothing) (s.movedTo position)
  | seekBefore {position} :
    position < 0 → Transition s (.seek position) (.error .negativePosition) s
  | mark : Transition s .mark (.ok .nothing) s.marked
  | rewind : Transition s .rewind (.ok .nothing) (s.movedTo s.mark)
  | restart (offset : Nat) : Transition s (.restart offset) (.ok .nothing) (s.movedTo offset)
  | restartBefore {offset} :
    offset < 0 → Transition s (.restart offset) (.error .negativePosition) s
  | decode (given offset) :
    Transition s (.decode given offset)
      ((Hpack.decode s.buffer.octets given offset).map fun (value, next) => .located value next) s
  | write {value given flags octets} :
    encode value given flags = .ok octets →
    Transition s (.write value given flags) (.ok (.number octets.length))
      (s.holding (s.buffer.octets ++ octets))
  | noWrite {value given flags fault} :
    encode value given flags = .error fault →
    Transition s (.write value given flags) (.error fault) s
  | append (octets) :
    Transition s (.append octets) (.ok .nothing) (s.holding (s.buffer.octets ++ octets))
  | truncate (length) :
    Transition s (.truncate length) (.ok .nothing) (s.holding (s.buffer.octets.take length))

theorem onBuffer_of_act {α : Type} {act : EStateM Fault Buffer α} {b : Buffer} {a : Except Fault α}
    (h : act s.buffer = leaving b a) : onBuffer act s = leaving { s with buffer := b } a := by
  rw [onBuffer, h]
  cases a <;> rfl

theorem onOctets_of_act {α : Type} {act : EStateM Fault (List UInt8) α} {octets : List UInt8}
    {a : Except Fault α} (h : act s.buffer.octets = leaving octets a) :
    onOctets act s = leaving (s.holding octets) a := by
  rw [onOctets, h]
  cases a <;> rfl

theorem ofExcept_eq {σ α : Type} {a : Except Fault α} {s : σ} :
    (ofExcept a : EStateM Fault σ α) s = leaving s a := by
  cases a <;> rfl

theorem onBuffer_seek (s : Session) (position : Int) :
    (∃ n : Nat, position = n ∧ onBuffer (Buffer.seek position) s = leaving (s.movedTo n) (.ok ())) ∨
    (position < 0 ∧ onBuffer (Buffer.seek position) s = leaving s (.error .negativePosition)) := by
  cases position
  case ofNat n => exact .inl ⟨n, rfl, onBuffer_of_act Buffer.seek_natural⟩
  case negSucc n =>
    have hn := Int.negSucc_lt_zero n
    exact .inr ⟨hn, onBuffer_of_act (by rw [Buffer.seek, if_pos hn]; rfl)⟩

theorem onBuffer_pull (s : Session) :
    (∃ octet, s.buffer.octets[s.buffer.position]? = some octet ∧
      onBuffer Source.pull s = leaving (s.movedTo (s.buffer.position + 1)) (.ok octet)) ∨
    (s.buffer.octets[s.buffer.position]? = none ∧
      onBuffer Source.pull s = leaving s (.error (.insufficient .buffer))) := by
  cases h : s.buffer.octets[s.buffer.position]?
  case none => exact .inr ⟨rfl, onBuffer_of_act (by simp [Source.pull, Buffer.pull, h, leaving])⟩
  case some octet =>
    refine .inl ⟨octet, rfl, onBuffer_of_act (b := { s.buffer with position := _ }) ?_⟩
    simp [Source.pull, Buffer.pull, h, leaving]

-- Every step is one of the transitions, wherever the session is.
theorem step_transition (i : Step) (s : Session) :
    ∃ outcome s', Session.step i s = leaving s' outcome ∧ Transition s i outcome s' := by
  cases i
  case octet =>
    rcases onBuffer_pull s with ⟨octet, ho, hp⟩ | ⟨ho, hp⟩
    · exact ⟨_, _, return_of_act _ hp, .octet ho⟩
    · exact ⟨_, _, return_of_act _ hp, .noOctet ho⟩
  case integer given =>
    cases hw : Width.ofCandidate given
    case error fault =>
      have hr : Decoder.read given s.buffer = leaving s.buffer (.error fault) :=
        Decoder.read_of_invalid hw
      exact ⟨_, _, return_of_act _ (onBuffer_of_act hr), .noWidth hw⟩
    case ok w =>
      cases Width.ofCandidate_eq_ok_iff.mp hw
      have ⟨form, hb⟩ := Begins.exists_form w (s.buffer.octets.drop s.buffer.position)
      exact ⟨_, _, return_of_act _ (onBuffer_of_act (Buffer.read_of_begins hb)), .integer hb⟩
  case seek position =>
    rcases onBuffer_seek s position with ⟨n, rfl, hs⟩ | ⟨hn, hs⟩
    · exact ⟨_, _, return_of_act _ hs, .seek n⟩
    · exact ⟨_, _, return_of_act _ hs, .seekBefore hn⟩
  case restart offset =>
    rcases onBuffer_seek s offset with ⟨n, rfl, hs⟩ | ⟨hn, hs⟩
    · exact ⟨_, _, return_of_act _ hs, .restart n⟩
    · exact ⟨_, _, return_of_act _ hs, .restartBefore hn⟩
  case rewind =>
    have hs : onBuffer (Buffer.seek s.mark) s = leaving (s.movedTo s.mark) (.ok ()) :=
      onBuffer_of_act Buffer.seek_natural
    exact ⟨_, _, return_of_act (fun _ => Answer.nothing) hs, .rewind⟩
  case decode given offset => exact ⟨_, _, return_of_act _ ofExcept_eq, .decode given offset⟩
  case write value given flags =>
    have hw := Encoder.write_eq_encode value given flags s.buffer.octets
    cases he : encode value given flags <;> rw [he] at hw
    case error fault =>
      exact ⟨_, _, return_of_act _ (onOctets_of_act (a := .error fault) hw), .noWrite he⟩
    case ok octets => exact ⟨_, _, return_of_act _ (onOctets_of_act (a := .ok _) hw), .write he⟩
  case mark            => exact ⟨_, _, rfl, .mark⟩
  case append octets   => exact ⟨_, _, rfl, .append octets⟩
  case truncate length => exact ⟨_, _, rfl, .truncate length⟩

-- What holds of a session at all times.
structure Sound (s : Session) : Prop where
  position  : 0 ≤ (s.buffer.position : Int)
  mark      : 0 ≤ (s.mark : Int)
  remaining : (s.buffer.remaining : Int) = max (s.buffer.octets.length - s.buffer.position : Int) 0
  octets    : ∀ octet ∈ s.buffer.octets, 0 ≤ octet.toNat ∧ octet.toNat ≤ 255

theorem sound (s : Session) : s.Sound where
  position  := Int.natCast_nonneg _
  mark      := Int.natCast_nonneg _
  remaining := by
    rw [Buffer.remaining]
    omega
  octets octet _ := ⟨Nat.zero_le _, Nat.le_of_lt_succ octet.toNat_lt⟩

-- Steps that put octets behind those which are there.
def Step.Extends : Step → Prop
  | .write .. | .append _ => True
  | _                     => False

-- Steps that do not move.
def Step.Stays : Step → Prop
  | .mark | .decode .. | .write .. | .append _ | .truncate _ => True
  | _                                                        => False

-- What a step does not do to a session. If it fails, nothing but an integer which is not complete or
-- which is refused moves the position.
structure Framed (step : Step) (before : Session) (outcome : Except Fault Answer) (after : Session) :
    Prop where
  octets   : ¬step.Extends → (∀ length, step ≠ .truncate length) →
    after.buffer.octets = before.buffer.octets
  extended : step.Extends → before.buffer.octets <+: after.buffer.octets
  cut      : ∀ length, step = .truncate length → after.buffer.octets <+: before.buffer.octets
  position : step.Stays → after.buffer.position = before.buffer.position
  mark     : step ≠ .mark → after.mark = before.mark
  sought   : ∀ position, step = .seek position ∨ step = .restart position → outcome = .ok .nothing →
    (after.buffer.position : Int) = position
  rewound  : step = .rewind → outcome = .ok .nothing ∧ after.buffer.position = before.mark
  failed   : ∀ fault, outcome = .error fault →
    after.buffer.octets = before.buffer.octets ∧ after.mark = before.mark ∧
    (after.buffer.position = before.buffer.position ∨
      (∃ given, step = .integer given) ∧
        fault.kind ∈ [.insufficient, .tooManyOctets, .overflow] ∧
        before.buffer.position ≤ after.buffer.position ∧
        after.buffer.position ≤ before.buffer.position + 6)

namespace Transition

variable {fault : Fault} {position : Int}

theorem octets_eq (t : Transition s step outcome s') (he : ¬step.Extends)
    (hc : ∀ length, step ≠ .truncate length) : s'.buffer.octets = s.buffer.octets := by
  cases t
  case write | append => exact absurd trivial he
  case truncate length => exact absurd rfl (hc length)
  all_goals rfl

theorem octets_prefix (t : Transition s step outcome s') (h : step.Extends) :
    s.buffer.octets <+: s'.buffer.octets := by
  cases t
  case write | append => exact List.prefix_append ..
  case noWrite => exact List.prefix_rfl
  all_goals exact h.elim

theorem prefix_octets {length : Nat} (t : Transition s (.truncate length) outcome s') :
    s'.buffer.octets <+: s.buffer.octets := by
  cases t
  exact List.take_prefix ..

theorem position_eq (t : Transition s step outcome s') (h : step.Stays) :
    s'.buffer.position = s.buffer.position := by
  cases t
  case octet | integer | seek | rewind | restart => exact h.elim
  all_goals rfl

theorem mark_eq (t : Transition s step outcome s') (h : step ≠ .mark) : s'.mark = s.mark := by
  cases t
  case mark => contradiction
  all_goals rfl

-- Any position that is moved to is the one which is asked for, so there are none before zero.
theorem position_of_sought (t : Transition s step outcome s')
    (h : step = .seek position ∨ step = .restart position) (ho : outcome = .ok .nothing) :
    (s'.buffer.position : Int) = position := by
  cases t <;> simp at h <;> cases ho
  case seek => exact h
  case restart => exact h

theorem of_rewind (t : Transition s .rewind outcome s') :
    outcome = .ok .nothing ∧ s'.buffer.position = s.mark := by
  cases t
  exact ⟨rfl, rfl⟩

theorem of_error (t : Transition s step outcome s') (h : outcome = .error fault) :
    s' = s ∨ (∃ given, step = .integer given) ∧
      fault.kind ∈ [.insufficient, .tooManyOctets, .overflow] ∧
      ∃ count ≤ 6, s' = s.movedTo (s.buffer.position + count) := by
  cases t
  case integer w form hb =>
    refine .inr ⟨⟨_, rfl⟩, ?kind, form.length, hb.form_length_le, rfl⟩
    case kind =>
      cases hv : form.verdict (.insufficient .buffer) <;> rw [hv] at h <;> cases h
      exact form.kind_of_verdict hv
  case noOctet | noWidth | seekBefore | restartBefore | decode | noWrite => exact .inl rfl
  all_goals cases h

theorem framed (t : Transition s step outcome s') : Framed step s outcome s' where
  octets     := t.octets_eq
  extended   := t.octets_prefix
  cut _ h    := (h ▸ t).prefix_octets
  position   := t.position_eq
  mark       := t.mark_eq
  sought _   := t.position_of_sought
  rewound h  := (h ▸ t).of_rewind
  failed _ h := by
    rcases t.of_error h with rfl | ⟨hi, hk, count, hc, rfl⟩
    · exact ⟨rfl, rfl, .inl rfl⟩
    · exact ⟨rfl, rfl, .inr ⟨hi, hk, Nat.le_add_right .., Nat.add_le_add_left hc _⟩⟩

end Transition

-- Whatever is done to a session, each step keeps within its bounds, from the start and from wherever
-- the steps before it have left the session.
theorem sound_and_framed_throughout (octets : List UInt8) (offset : Nat) (steps : List Step) :
    ∃ s, start octets offset = .ok s ∧ s.Sound ∧
      Trace.Throughout
        (fun step before outcome after => after.Sound ∧ Framed step before outcome after)
        s steps (trace Session.step s steps) := by
  refine ⟨{ buffer := { octets, position := offset } }, ?start, sound _, ?steps⟩
  case start =>
    rw [start, Buffer.start_natural]
    rfl
  case steps =>
    refine Trace.throughout_trace (fun i s => ?_) _ steps
    have ⟨outcome, s', hs, t⟩ := step_transition i s
    exact ⟨outcome, s', hs, sound s', t.framed⟩

end Session
end Hpack
