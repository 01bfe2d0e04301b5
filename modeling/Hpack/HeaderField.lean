import Hpack.Fault

namespace Hpack

@[ext]
structure HeaderField where
  name  : String
  value : String
  deriving DecidableEq

namespace HeaderField

-- The fields of the static table, which every decoding context shares. On the wire they are counted
-- from one.
def table : List HeaderField := [
  ⟨":authority", ""⟩,
  ⟨":method", "GET"⟩,
  ⟨":method", "POST"⟩,
  ⟨":path", "/"⟩,
  ⟨":path", "/index.html"⟩,
  ⟨":scheme", "http"⟩,
  ⟨":scheme", "https"⟩,
  ⟨":status", "200"⟩,
  ⟨":status", "204"⟩,
  ⟨":status", "206"⟩,
  ⟨":status", "304"⟩,
  ⟨":status", "400"⟩,
  ⟨":status", "404"⟩,
  ⟨":status", "500"⟩,
  ⟨"accept-charset", ""⟩,
  ⟨"accept-encoding", "gzip, deflate"⟩,
  ⟨"accept-language", ""⟩,
  ⟨"accept-ranges", ""⟩,
  ⟨"accept", ""⟩,
  ⟨"access-control-allow-origin", ""⟩,
  ⟨"age", ""⟩,
  ⟨"allow", ""⟩,
  ⟨"authorization", ""⟩,
  ⟨"cache-control", ""⟩,
  ⟨"content-disposition", ""⟩,
  ⟨"content-encoding", ""⟩,
  ⟨"content-language", ""⟩,
  ⟨"content-length", ""⟩,
  ⟨"content-location", ""⟩,
  ⟨"content-range", ""⟩,
  ⟨"content-type", ""⟩,
  ⟨"cookie", ""⟩,
  ⟨"date", ""⟩,
  ⟨"etag", ""⟩,
  ⟨"expect", ""⟩,
  ⟨"expires", ""⟩,
  ⟨"from", ""⟩,
  ⟨"host", ""⟩,
  ⟨"if-match", ""⟩,
  ⟨"if-modified-since", ""⟩,
  ⟨"if-none-match", ""⟩,
  ⟨"if-range", ""⟩,
  ⟨"if-unmodified-since", ""⟩,
  ⟨"last-modified", ""⟩,
  ⟨"link", ""⟩,
  ⟨"location", ""⟩,
  ⟨"max-forwards", ""⟩,
  ⟨"proxy-authenticate", ""⟩,
  ⟨"proxy-authorization", ""⟩,
  ⟨"range", ""⟩,
  ⟨"referer", ""⟩,
  ⟨"refresh", ""⟩,
  ⟨"retry-after", ""⟩,
  ⟨"server", ""⟩,
  ⟨"set-cookie", ""⟩,
  ⟨"strict-transport-security", ""⟩,
  ⟨"transfer-encoding", ""⟩,
  ⟨"user-agent", ""⟩,
  ⟨"vary", ""⟩,
  ⟨"via", ""⟩,
  ⟨"www-authenticate", ""⟩
]

def lookup (index : Int) : Except Fault HeaderField :=
  if index < 1 then
    .error (Fault.invalidIndex index).raised
  else
    match table[index.toNat - 1]? with
    | some field => .ok field
    | none       => .error (Fault.invalidIndex index).raised

-- Without a value, any field of the name will do.
def Fits (name : String) (value : Option String) (field : HeaderField) : Prop :=
  field.name = name ∧ (value = none ∨ value = some field.value)

instance {name value field} : Decidable (Fits name value field) :=
  inferInstanceAs (Decidable (_ ∧ _))

-- The lowest index of a field that fits.
def search (name : String) (value : Option String) : Option Nat :=
  (table.findIdx? (Fits name value ·)).map (· + 1)

end HeaderField
end Hpack
