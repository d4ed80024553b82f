import ScriptHost.Data.Value
import ScriptHost.Decimal.Shortest
import ScriptHost.Text.Characters

/-!
# JSON text of values

The compact form: no blanks, the members of an object in key order, strings with the short escapes and
`\u00xx` for the other control characters, floats with the fewest digits that read back.
-/

namespace ScriptHost.Json

/-- A character of a string. Only the quote, the backslash and control characters are escaped. -/
def escapeChar (c : Char) : List Char :=
  match c with
  | '"' => ['\\', '"']
  | '\\' => ['\\', '\\']
  | '\x08' => ['\\', 'b']
  | '\x0c' => ['\\', 'f']
  | '\n' => ['\\', 'n']
  | '\r' => ['\\', 'r']
  | '\t' => ['\\', 't']
  | c =>
    if c.toNat < 0x20 then ['\\', 'u', '0', '0', Hex.digit (c.toNat / 16), Hex.digit (c.toNat % 16)]
    else [c]

def quote (s : String) : List Char := '"' :: s.toList.flatMap escapeChar ++ ['"']

/-- How floats are written: without exponent while the leading digit stands for a power of ten between
these two, with a point in any case. -/
structure FloatFormat where
  leastPlain : Int
  greatestPlain : Int

/-- Floats are written without exponent from `0.00001` up to sixteen digits before the point. -/
def floatFormat : FloatFormat := ⟨-5, 15⟩

/-- Digits with the leading one at a power of ten, without exponent. -/
def plain (ds : List Char) (power : Int) : List Char :=
  if power < 0 then ['0', '.'] ++ List.replicate (power.natAbs - 1) '0' ++ ds
  else
    -- zeros fill up to the point, and a zero after it marks the number as a float
    let whole := power.toNat + 1
    if ds.length ≤ whole then ds ++ List.replicate (whole - ds.length) '0' ++ ['.', '0']
    else ds.take whole ++ ['.'] ++ ds.drop whole

/-- Digits with the leading one at a power of ten, with an exponent. -/
def scientific (ds : List Char) (power : Int) : List Char :=
  let fraction := match ds.drop 1 with
    | [] => []
    | rest => '.' :: rest
  ds.take 1 ++ fraction ++ ['e', if power < 0 then '-' else '+'] ++ Decimal.digits power.natAbs

/-- A float with the fewest digits that read back. Zero keeps its sign. -/
def float (x : Float) : List Char :=
  let (negative, v) := Decimal.Binary.ofBits x.toBits
  let sign := if negative then ['-'] else []
  if v.significand = 0 then sign ++ ['0', '.', '0']
  else
    let (ds, power) := v.shortest.normal
    sign ++ (if floatFormat.leastPlain ≤ power ∧ power ≤ floatFormat.greatestPlain then plain ds power
      else scientific ds power)

/-- A number; a float always has a point or an exponent, so it is told from a whole number. -/
def number : Number → List Char
  | .int n => Decimal.ofInt n
  | .float x => float x

def commas : List (List Char) → List Char
  | [] => []
  | [part] => part
  | part :: rest => part ++ ',' :: commas rest

def object (members : List (String × List Char)) : List Char :=
  '\x7b' :: commas (members.map fun m => quote m.1 ++ ':' :: m.2) ++ ['\x7d']

def array (elements : List (List Char)) : List Char := '[' :: commas elements ++ [']']

mutual

def value : Value → List Char
  | .null => ['n', 'u', 'l', 'l']
  | .bool true => ['t', 'r', 'u', 'e']
  | .bool false => ['f', 'a', 'l', 's', 'e']
  | .number n => number n
  | .string s => quote s
  | .list items => array (values items)
  | .map entries => object (members entries)

def values : List Value → List (List Char)
  | [] => []
  | v :: rest => value v :: values rest

def members : {lo : Option String} → Entries Value lo → List (String × List Char)
  | _, .nil => []
  | _, .cons key _ v rest => (key, value v) :: members rest

end

end ScriptHost.Json

namespace ScriptHost.Value

def compact (v : Value) : String := String.ofList (Json.value v)

end ScriptHost.Value
