import Mathlib.Tactic

/-! The string operations the compiler uses, on characters. -/
namespace Domiform.Text

/-- The Unicode `White_Space` characters, which `trim` removes. -/
def isWhitespace (c : Char) : Bool :=
  let n := c.toNat
  (9 ≤ n && n ≤ 13) || n == 0x20 || n == 0x85 || n == 0xA0 || n == 0x1680 ||
    (0x2000 ≤ n && n ≤ 0x200A) || n == 0x2028 || n == 0x2029 || n == 0x202F || n == 0x205F ||
    n == 0x3000

def trim (s : List Char) : List Char :=
  ((s.dropWhile isWhitespace).reverse.dropWhile isWhitespace).reverse

/-- `s.split_once(sep)`: around the first occurrence. -/
def splitOnce (sep : Char) : List Char → Option (List Char × List Char)
  | [] => none
  | c :: cs => if c = sep then some ([],cs) else (splitOnce sep cs).map fun p => (c :: p.1,p.2)

/-- `s.rsplit_once(sep)`: around the last occurrence. -/
def rsplitOnce (sep : Char) (s : List Char) : Option (List Char × List Char) :=
  (splitOnce sep s.reverse).map fun p => (p.2.reverse,p.1.reverse)

/-- `s.parse()` for an unsigned type: an optional `+`, then decimal digits within the bound. -/
def parseUnsigned (bound : ℕ) (s : List Char) : Option ℕ :=
  let digits :=
    match s with
    | '+' :: rest => rest
    | _ => s
  if digits = [] then none
  else if digits.all Char.isDigit then
    let n := digits.foldl (fun n c => 10*n+(c.toNat-48)) 0
    if n ≤ bound then some n else none
  else none

def startsWith (s : List Char) (p : String) : Bool := p.toList.isPrefixOf s

/-- `s.strip_prefix(p)`. -/
def stripPrefix (s : List Char) (p : String) : Option (List Char) :=
  if startsWith s p then some (s.drop p.toList.length) else none

def hexDigit (c : Char) : Option ℕ :=
  if c.isDigit then some (c.toNat-48)
  else if 'a' ≤ c ∧ c ≤ 'f' then some (c.toNat-87)
  else if 'A' ≤ c ∧ c ≤ 'F' then some (c.toNat-55)
  else none

/-- `color::hex_to_rgb`: `#RRGGBB`, the `#` optional. -/
def hexToRgb (s : List Char) : Option (UInt8 × UInt8 × UInt8) :=
  match ((stripPrefix s "#").getD s).mapM hexDigit with
  | some [r₁,r₀,g₁,g₀,b₁,b₀] =>
    some (UInt8.ofNat (16*r₁+r₀),UInt8.ofNat (16*g₁+g₀),UInt8.ofNat (16*b₁+b₀))
  | _ => none

end Domiform.Text
