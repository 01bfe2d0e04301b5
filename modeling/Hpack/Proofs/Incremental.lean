import Hpack.Incremental
import Hpack.Proofs.ViablePrefix

namespace Hpack

open Grammar

namespace Buffer

variable {w : Width} {b b' : Buffer} {form : Form} {value : Nat} {fault : Fault}

-- What has been taken of an integer that is not complete is all given back.
theorem attempt_of_starved (h : Begins w (b.octets.drop b.position) form) (hs : form.Starved) :
    attempt w b = .error (.insufficient .buffer) b := by
  rw [attempt_eq, read_of_begins h, form.verdict_of_starved hs]
  rfl

theorem attempt_of_begins (h : Begins w (b.octets.drop b.position) form) (hs : ¬form.Starved) :
    attempt w b = leaving { b with position := b.position + form.length }
      (form.verdict (.insufficient .buffer)) := by
  rw [attempt_eq, read_of_begins h]
  cases form <;> simp [Form.Starved] at hs <;> rfl

-- An attempt is decided by the octets that are there, whatever comes after them, unless it lacks some.
theorem attempt_cases (w : Width) (b : Buffer) :
    (attempt w b = .error (.insufficient .buffer) b ∧
      decode b.octets (.whole w.bits) b.position = .error (.insufficient .buffer)) ∨
    ∃ position outcome,
      attempt w b = leaving { b with position } outcome ∧
      outcome.mapError Fault.kind ≠ .error .insufficient ∧
      ∀ more, decode (b.octets ++ more) (.whole w.bits) b.position = outcome.map (·, position) := by
  have ⟨form, hb⟩ := Begins.exists_form w (b.octets.drop b.position)
  by_cases hs : form.Starved
  case pos => exact .inl ⟨attempt_of_starved hb hs, decode_of_starved hb hs⟩
  case neg =>
    refine .inr ⟨_, _, attempt_of_begins hb hs, mt (form.kind_verdict_iff).mp hs, fun more => ?_⟩
    rw [decode_append hb hs, decode_of_begins hb]

theorem decode_of_attempt (h : attempt w b = .ok value b') :
    b'.octets = b.octets ∧ ∀ more,
      decode (b.octets ++ more) (.whole w.bits) b.position = .ok (value, b'.position) := by
  rcases attempt_cases w b with ⟨ha, _⟩ | ⟨position, outcome, ha, _, hd⟩ <;> rw [ha] at h
  · cases h
  · cases outcome <;> cases h
    exact ⟨rfl, hd⟩

theorem decode_of_attempt_fails (h : attempt w b = .error fault b')
    (hk : fault.kind ≠ .insufficient) (more : List UInt8) :
    decode (b.octets ++ more) (.whole w.bits) b.position = .error fault := by
  rcases attempt_cases w b with ⟨ha, _⟩ | ⟨position, outcome, ha, _, hd⟩ <;> rw [ha] at h
  · cases h
    exact absurd rfl hk
  · cases outcome <;> cases h
    exact hd more

theorem decode_of_attempt_starves (h : attempt w b = .error fault b')
    (hk : fault.kind = .insufficient) :
    b' = b ∧ decode b.octets (.whole w.bits) b.position = .error fault := by
  rcases attempt_cases w b with ⟨ha, hd⟩ | ⟨position, outcome, ha, hn, _⟩ <;> rw [ha] at h
  · cases h
    exact ⟨rfl, hd⟩
  · cases outcome <;> cases h
    exact absurd (congrArg Except.error hk) hn

end Buffer

namespace Progress

variable {w : Width} {ws : List Width} {b : Buffer}

-- Two runs come to the same integers and end for the same reason. If this is a lack of octets, they
-- also stop at the same place.
structure Agrees (p q : Progress) : Prop where
  values : p.values = q.values
  fault  : p.fault = q.fault
  buffer : ∀ fault, q.fault = some fault → fault.kind = .insufficient → p.buffer = q.buffer

theorem Agrees.after {p q : Progress} {value : Nat × Nat} (a : p.Agrees q) :
    (after value p).Agrees (after value q) where
  values := congrArg (value :: ·) a.values
  fault  := a.fault
  buffer := a.buffer

theorem oneShot_of_ok {value next : Nat}
    (h : decode b.octets (.whole w.bits) b.position = .ok (value, next)) :
    oneShot b (w :: ws) = after (value, next) (oneShot { b with position := next } ws) := by
  simp [oneShot, h]

theorem oneShot_of_error {fault : Fault}
    (h : decode b.octets (.whole w.bits) b.position = .error fault) :
    oneShot b (w :: ws) = { fault := some fault, buffer := b } := by
  simp [oneShot, h]

-- Each attempt is decided by the octets that are there, and those still to come do not change what it
-- comes to unless it fails for the lack of them.
theorem arriving_agrees (b : Buffer) (widths : List Width) (chunks : List (List UInt8)) :
    (arriving b widths chunks).Agrees
      (oneShot { b with octets := b.octets ++ chunks.flatten } widths) := by
  fun_induction arriving b widths chunks
  case case1 => exact ⟨rfl, rfl, fun _ h => by cases h⟩
  case case2 b chunks w ws value b' h hi =>
    have ⟨ho, hd⟩ := Buffer.decode_of_attempt h
    rw [oneShot_of_ok (hd chunks.flatten)]
    rw [ho] at hi
    exact hi.after
  case case3 b w ws supply b' h =>
    have ⟨hb, hd⟩ := Buffer.decode_of_attempt_starves h rfl
    rw [List.flatten_nil, List.append_nil, oneShot_of_error hd, hb]
    exact ⟨rfl, rfl, fun _ _ _ => rfl⟩
  case case4 b w ws supply b' h chunk rest hi =>
    have ⟨hb, _⟩ := Buffer.decode_of_attempt_starves h rfl
    rw [hb, List.append_assoc] at hi
    exact hb ▸ hi
  case case5 b chunks w ws fault b' hk h =>
    have hk : fault.kind ≠ .insufficient := by
      cases fault <;> simp [Fault.kind] at hk ⊢
    rw [oneShot_of_error (Buffer.decode_of_attempt_fails h hk chunks.flatten)]
    refine ⟨rfl, rfl, fun _ h => ?_⟩
    cases h
    exact (absurd · hk)

-- Where the integer starts that comes after those which have been decoded.
def reached (start : Nat) (p : Progress) : Nat :=
  (p.values.map (·.2)).getLastD start

theorem reached_after {start next value : Nat} {p : Progress} :
    reached start (after (value, next) p) = reached next p := by
  rw [reached, after, List.map_cons, List.getLastD_cons]
  rfl

theorem oneShot_buffer (b : Buffer) (widths : List Width) :
    (oneShot b widths).buffer = { b with position := reached b.position (oneShot b widths) } := by
  induction widths generalizing b
  case nil => rfl
  case cons w ws hi =>
    cases hd : decode b.octets (.whole w.bits) b.position
    case error => rw [oneShot_of_error hd]; rfl
    case ok r => rw [oneShot_of_ok hd, reached_after]; exact hi _

-- Octets that arrive in chunks are decoded like those which are all there from the start: the same
-- integers are found at the same places, and decoding ends for the same reason. If this is a lack
-- of octets, all of them have arrived and the position is back at the start of the integer that is
-- not complete.
theorem arriving_eq_oneShot (chunks : List (List UInt8)) (widths : List Width) :
    let arrived := arriving { octets := [], position := 0 } widths chunks
    let whole := oneShot { octets := chunks.flatten, position := 0 } widths
    arrived.values = whole.values ∧
    arrived.fault = whole.fault ∧
    (∀ fault, whole.fault = some fault → fault.kind = .insufficient →
      arrived.buffer = { octets := chunks.flatten, position := reached 0 arrived }) := by
  have a := arriving_agrees { octets := [], position := 0 } widths chunks
  refine ⟨a.values, a.fault, fun fault h hk => ?_⟩
  rw [a.buffer fault h hk, oneShot_buffer, reached, reached, a.values]
  rfl

end Progress
end Hpack
