import Hpack.CommandLine.Word

namespace Hpack
namespace CommandLine

-- What the words of a command say, up to a request for help if there is one. A command takes at most
-- one operand. An option may be set to nothing, and words may be left over.
structure Arguments where
  operand  : Option (List Char) := none
  settings : List (Key × Option (List Char)) := []
  surplus  : Bool := false
  help     : Bool := false
  deriving DecidableEq

namespace Arguments

variable (a : Arguments)

def withOperand (t : List Char) : Arguments :=
  if a.operand = none then { a with operand := some t } else { a with surplus := true }

-- A separator that is attached to an option is dropped, and then the option is set to nothing.
def set (k : Key) (t : List Char) : Arguments :=
  { a with settings := a.settings ++ [(k, if t = ['-', '-'] then none else some t)] }

-- The value of an option is attached to it or is the next word. A separator may only stand before
-- the operand or right behind it. Nothing is read past a request for help.
def collect : Arguments → List Word → Option Arguments
  | a, [] => some a
  | a, .value t :: .separator :: rest => collect (a.withOperand t) rest
  | a, .value t :: rest => collect (a.withOperand t) rest
  | a, .separator :: rest =>
    collect (if a.operand = none then a else { a with surplus := true }) rest
  | a, .unknown :: rest => collect { a with surplus := true } rest
  | a, .option k (some t) :: rest => if k.TakesValue then collect (a.set k t) rest else none
  | a, .option k none :: rest =>
    if k.TakesValue then
      match rest with
      | .value t :: rest => collect (a.set k t) rest
      | _                => none
    else
      some { a with help := true }
  | a, .bundle :: rest =>
    match rest with
    | .value _ :: _ => some { a with help := true }
    | _             => none

def ofTexts? (known : List Spelling) (texts : List (List Char)) : Option Arguments := do
  collect {} (← Word.ofTexts? known texts)

-- If an option is set more than once, all its values have to be readable, and the last one counts.
def setting? {α : Type} (k : Key) (read : List Char → Option α) (default : α) :
    Option (Option α) := do
  let texts := (a.settings.filter (·.1 = k)).map (·.2)
  let values ← texts.mapM (Option.mapM read)
  return values.getLastD (some default)

end Arguments
end CommandLine
end Hpack
