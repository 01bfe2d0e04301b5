import Hpack.Fault

namespace Hpack

-- The groups of faults that a handler can be set up for. Some of them lie within others. The last
-- three are not about header compression: bad values, bad indices and look-ups that fail.
inductive Fault.Category
  | hpack
  | integer
  | invalidWidth
  | insufficient
  | tooManyOctets
  | overflow
  | invalidIndex
  | value
  | index
  | lookup
  deriving DecidableEq

namespace Fault

-- An overflow counts as too many octets, as no more octets can mend it either. What a device
-- tells belongs to no group.
def Kind.categories : Kind → List Category
  | invalidWidth    => [.invalidWidth, .integer, .hpack, .value]
  | insufficient    => [.insufficient, .integer, .hpack, .value]
  | tooManyOctets   => [.tooManyOctets, .integer, .hpack, .value]
  | overflow        => [.overflow, .tooManyOctets, .integer, .hpack, .value]
  | invalidIndex    => [.invalidIndex, .hpack, .index, .lookup]
  | invalidArgument => [.value]
  | device          => []

def Category.Catches (c : Category) (fault : Fault) : Prop :=
  c ∈ fault.kind.categories

instance {c : Category} {fault : Fault} : Decidable (c.Catches fault) :=
  inferInstanceAs (Decidable (_ ∈ _))

end Fault

-- What a call under a handler comes to when no fault escapes.
inductive Guarded (α : Type)
  | returned (a : α)
  | caught (fault : Fault)

-- Faults that the handler is not set up for escape.
def guarded {α : Type} (c : Fault.Category) : Except Fault α → Except Fault (Guarded α)
  | .ok a        => .ok (.returned a)
  | .error fault => if c.Catches fault then .ok (.caught fault) else .error fault

end Hpack
