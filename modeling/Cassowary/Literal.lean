import Cassowary.Constraint

/-!
Stored values. A priority or a relation is stored as its quoted name and a strength as a number, in the
notation of JSON. Reading takes one value with blanks around it and nothing else, and takes an object
whose only key is a name and which holds null for the name. The digits of a number are gathered in a
64-bit word and the word is scaled once by a power of ten, so a long number may come out one unit in the
last place beside the nearest double.
-/

namespace Cassowary

inductive Literal where
  | text (s : String)
  | number (x : Float)

namespace Literal

private def isBlank (c : Char) : Bool := c = ' ' || c = '\n' || c = '\t' || c = '\r'

private def hexDigit? (c : Char) : Option Nat :=
  if '0' ≤ c && c ≤ '9' then some (c.toNat - 48)
  else if 'a' ≤ c && c ≤ 'f' then some (c.toNat - 87)
  else if 'A' ≤ c && c ≤ 'F' then some (c.toNat - 55)
  else none

/-- Four hexadecimal digits. -/
private def unit? (a b c d : Char) : Option Nat := do
  return (((← hexDigit? a) * 16 + (← hexDigit? b)) * 16 + (← hexDigit? c)) * 16 + (← hexDigit? d)

/-- The character that a letter after a backslash stands for. -/
private def escaped? : Char → Option Char
  | '"' => some '"'
  | '\\' => some '\\'
  | '/' => some '/'
  | 'b' => some '\x08'
  | 'f' => some '\x0c'
  | 'n' => some '\n'
  | 'r' => some '\r'
  | 't' => some '\t'
  | _ => none

/-- The characters up to the closing quote, and what follows it. Control characters must be escaped,
and two escaped surrogates stand for one character. -/
private def quoted? : List Char → Option (List Char × List Char)
  | [] => none
  | '"' :: rest => some ([], rest)
  | '\\' :: 'u' :: a :: b :: c :: d :: '\\' :: 'u' :: e :: f :: g :: h :: rest => do
    let high ← unit? a b c d
    if 0xD800 ≤ high && high < 0xDC00 then
      let low ← unit? e f g h
      if 0xDC00 ≤ low && low < 0xE000 then
        let (cs, rest) ← quoted? rest
        return (Char.ofNat (0x10000 + (high - 0xD800) * 0x400 + (low - 0xDC00)) :: cs, rest)
      else none
    else if 0xDC00 ≤ high && high < 0xE000 then none
    else
      let (cs, rest) ← quoted? ('\\' :: 'u' :: e :: f :: g :: h :: rest)
      return (Char.ofNat high :: cs, rest)
  | '\\' :: 'u' :: a :: b :: c :: d :: rest => do
    let code ← unit? a b c d
    if 0xD800 ≤ code && code < 0xE000 then none
    else
      let (cs, rest) ← quoted? rest
      return (Char.ofNat code :: cs, rest)
  | '\\' :: c :: rest => do
    let c ← escaped? c
    let (cs, rest) ← quoted? rest
    return (c :: cs, rest)
  | c :: rest =>
    if c.toNat < 0x20 || c = '\\' then none
    else do
      let (cs, rest) ← quoted? rest
      return (c :: cs, rest)

/-- A number being read: the word of digits so far, and the power of ten it stands to. -/
private structure Digits where
  word : Nat
  power : Int

/-- The greatest word of digits. -/
private def wordLimit : Nat := 1 <<< 64

private def Digits.push? (d : Digits) (c : Char) : Option Nat :=
  let next := d.word * 10 + (c.toNat - 48)
  if next < wordLimit then some next else none

/-- Takes the digits before the point. Those that do not fit into the word only raise the power. -/
private def Digits.whole (d : Digits) : List Char → Digits
  | [] => d
  | c :: rest =>
    match d.push? c with
    | some word => { d with word : Digits }.whole rest
    | none => { d with power := d.power + (rest.length + 1 : Nat) }

/-- Takes the digits after the point, up to the first that does not fit into the word. -/
private def Digits.fraction (d : Digits) : List Char → Digits
  | [] => d
  | c :: rest =>
    match d.push? c with
    | some word => Digits.fraction ⟨word, d.power - 1⟩ rest
    | none => d

/-- The double `x * 10 ^ power`. A number beyond the doubles is refused, and a power too small for one
division is taken in steps. -/
private def scaled? : Nat → Float → Int → Option Float
  | 0, x, _ => some x
  | steps + 1, x, power =>
    if 0 ≤ power then
      if power ≤ 308 then
        let y := x * Float.ofScientific 1 false power.toNat
        if y.isInf then none else some y
      else if x == 0.0 then some x else none
    else if -308 ≤ power then some (x / Float.ofScientific 1 false (-power).toNat)
    else if x == 0.0 then some x
    else scaled? steps (x / 1e308) (power + 308)

private def Digits.value? (d : Digits) : Option Float := scaled? 8 (Float.ofNat d.word) d.power

private def digitsOf (cs : List Char) : List Char × List Char :=
  (cs.takeWhile Char.isDigit, cs.dropWhile Char.isDigit)

/-- The exponent that may end a number, and what follows it. -/
private def exponent? (d : Digits) (cs : List Char) : Option (Digits × List Char) :=
  match cs with
  | c :: rest =>
    if c = 'e' || c = 'E' then
      let (negative, rest) := match rest with
        | '+' :: rest => (false, rest)
        | '-' :: rest => (true, rest)
        | _ => (false, rest)
      let (digits, rest) := digitsOf rest
      if digits.isEmpty then none
      else
        let size : Nat := digits.foldl (fun n c => n * 10 + (c.toNat - 48)) 0
        some ({ d with power := if negative then d.power - size else d.power + size }, rest)
    else some (d, cs)
  | [] => some (d, cs)

/-- A number without its sign, and what follows it. A leading zero stands alone. -/
private def magnitude? (cs : List Char) : Option (Float × List Char) := do
  let (digits, rest) := digitsOf cs
  if digits.isEmpty || (digits.length > 1 && digits.head? = some '0') then none
  else
    let whole := Digits.whole ⟨0, 0⟩ digits
    let (d, rest) ← match rest with
      | '.' :: rest =>
        let (digits, rest) := digitsOf rest
        if digits.isEmpty then none else some (whole.fraction digits, rest)
      | _ => some (whole, rest)
    let (d, rest) ← exponent? d rest
    return (← d.value?, rest)

private def skipBlanks (cs : List Char) : List Char := cs.dropWhile isBlank

/-- The name that is the only key of an object, and what follows the object. -/
private def wrapped? (cs : List Char) : Option (List Char × List Char) :=
  match skipBlanks cs with
  | '"' :: rest => do
    let (name, rest) ← quoted? rest
    match skipBlanks rest with
    | ':' :: rest =>
      match skipBlanks rest with
      | 'n' :: 'u' :: 'l' :: 'l' :: rest =>
        match skipBlanks rest with
        | '\x7d' :: rest => some (name, rest)
        | _ => none
      | _ => none
    | _ => none
  | _ => none

private def value? : List Char → Option (Literal × List Char)
  | '"' :: rest => (quoted? rest).map fun (s, rest) => (text (String.ofList s), rest)
  | '\x7b' :: rest => (wrapped? rest).map fun (s, rest) => (text (String.ofList s), rest)
  | '-' :: rest => (magnitude? rest).map fun (x, rest) => (number (-x), rest)
  | cs => (magnitude? cs).map fun (x, rest) => (number x, rest)

/-- Reads one value. -/
def parse? (s : String) : Option Literal := do
  let (literal, rest) ← value? (skipBlanks s.toList)
  if rest.all isBlank then some literal else none

/-- Writes a name in quotes. Names hold no character that would have to be escaped. -/
def quote (name : String) : String := "\"" ++ name ++ "\""

end Literal

def Priority.read? (s : String) : Option Priority :=
  match Literal.parse? s with
  | some (.text name) => ofName? name
  | _ => none

def Priority.written (p : Priority) : String := Literal.quote p.name

/-- A stored priority reads back. -/
@[simp] theorem Priority.read?_written (p : Priority) : read? p.written = some p := by
  cases p <;> rfl

def Relation.read? (s : String) : Option Relation :=
  match Literal.parse? s with
  | some (.text name) => ofName? name
  | _ => none

def Relation.written (r : Relation) : String := Literal.quote r.name

/-- A stored relation reads back. -/
@[simp] theorem Relation.read?_written (r : Relation) : read? r.written = some r := by
  cases r <;> rfl

/-- A stored strength is taken as it is and not brought into range. -/
def Strength.read? (s : String) : Option (Strength Float) :=
  match Literal.parse? s with
  | some (.number x) => some ⟨x⟩
  | _ => none

end Cassowary
