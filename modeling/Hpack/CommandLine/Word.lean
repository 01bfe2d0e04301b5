import Hpack.Text.Digit

namespace Hpack
namespace CommandLine

-- The options of all commands. Only some of them are known to a given command.
inductive Key
  | help
  | verbose
  | width
  | flags
  | device
  | baudrate
  | timeout
  deriving DecidableEq

def Key.TakesValue (k : Key) : Prop :=
  k ≠ help ∧ k ≠ verbose

instance {k : Key} : Decidable k.TakesValue :=
  inferInstanceAs (Decidable (_ ∧ _))

-- One way to write an option.
structure Spelling where
  text : List Char
  key  : Key
  deriving DecidableEq

-- A word of the command line, by the options that are known. A bundle is a request for help together
-- with an option which still lacks its value.
inductive Word
  | value (text : List Char)
  | option (key : Key) (attached : Option (List Char))
  | bundle
  | unknown
  | separator
  deriving DecidableEq

namespace Word

def named? (known : List Spelling) (t : List Char) : Option Key :=
  (known.find? (·.text = t)).map (·.key)

-- The parts of a word before and after its first equals sign.
def name (t : List Char) : List Char :=
  t.takeWhile (· ≠ '=')

def attached? (t : List Char) : Option (List Char) :=
  match t.dropWhile (· ≠ '=') with
  | []        => none
  | _ :: rest => some rest

def isDigit (c : Char) : Bool :=
  (Text.decimalValue? c).isSome

-- Negative numbers are values in spite of their dash. A line feed may follow them.
def isNegativeNumber (t : List Char) : Bool :=
  match t with
  | '-' :: rest =>
    let digits := if rest.getLast? = some '\n' then rest.dropLast else rest
    match digits.dropWhile isDigit with
    | []              => digits ≠ []
    | '.' :: fraction => fraction ≠ [] ∧ fraction.all isDigit
    | _               => false
  | _ => false

-- A word that starts with a dash but does not spell an option.
def ofUnlisted (t : List Char) : Word :=
  if isNegativeNumber t ∨ ' ' ∈ t then value t else unknown

-- A short option which takes no value may be followed by further ones, up to one that takes what is
-- left for its value. The first option is carried out before the others, so these only have to be
-- known.
def bundled (known : List Spelling) (key : Key) : List Char → Word
  | [] => option key (some [])
  | c :: rest =>
    match named? known ['-', c] with
    | none => option key (some (c :: rest))
    | some other =>
      if other.TakesValue then
        if rest = [] then bundle else option key none
      else
        if rest = [] then option key none else bundled known key rest

-- An option with a text attached to it. Only short options can be bundled.
def ofAttached (known : List Spelling) (name : List Char) (key : Key) (attached : List Char) : Word :=
  if key.TakesValue ∨ 2 < name.length then option key (some attached)
  else bundled known key attached

-- The option that a word stands for which is not spelled in full. Long options may be cut short as
-- long as just one of them is meant, and the value of a short option may follow immediately.
-- Without a result, more than one option could be meant.
def ofShortened? (known : List Spelling) (t : List Char) : Option Word :=
  match t with
  | '-' :: '-' :: _ =>
    match known.filter fun s => (name t).isPrefixOf s.text with
    | []  => some (ofUnlisted t)
    | [s] => some (option s.key (attached? t))
    | _   => none
  | _ =>
    match named? known (t.take 2) with
    | some key => some (ofAttached known (t.take 2) key (t.drop 2))
    | none     => some (ofUnlisted t)

def ofText? (known : List Spelling) (t : List Char) : Option Word :=
  if t.head? ≠ some '-' ∨ t = ['-'] then
    some (value t)
  else if t = ['-', '-'] then
    some separator
  else
    match named? known t, named? known (name t), attached? t with
    | some key, _, _           => some (option key none)
    | none, some key, some u   => some (ofAttached known (name t) key u)
    | none, _, _               => ofShortened? known t

-- All words are values after the first separator.
def ofTexts? (known : List Spelling) : List (List Char) → Option (List Word)
  | [] => some []
  | t :: rest => do
    match ← ofText? known t with
    | separator => return separator :: rest.map value
    | word      => return word :: (← ofTexts? known rest)

end Word
end CommandLine
end Hpack
