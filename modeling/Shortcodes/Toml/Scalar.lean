import Shortcodes.Json.Basic

/-!
# TOML: strings, numbers and dates

The values of TOML without parts. A date or time stays text, in its normal spelling.
-/

namespace Shortcodes.Toml

/-! ### Characters -/

/-- A blank within a line. -/
def isSpace (c : Char) : Bool := c = ' ' || c = '\t'

/-- Whether a character may stand in comments and strings: no control character but the
    tab. -/
def isAllowed (c : Char) : Bool := c = '\t' || (0x20 ≤ c.toNat && c.toNat ≠ 0x7F)

/-- Whether a character may stand in a key without quotation marks. -/
def isBareKey (c : Char) : Bool := c.isAlphanum || c = '_' || c = '-'

/-- The text after the blanks at its start. -/
def skipSpace (t : Text) : Text := t.dropWhile isSpace

/-- What follows the line break at the start of a text. -/
def lineBreak? : Text → Option Text
  | '\n' :: rest => some rest
  | '\r' :: '\n' :: rest => some rest
  | _ => none

/-- What follows the comment at the start of a text, if it is well-formed. -/
def comment? (t : Text) : Option Text :=
  match t with
  | '#' :: rest =>
    let tail := rest.dropWhile isAllowed
    if tail = [] || (lineBreak? tail).isSome then some tail else none
  | _ => some t

/-- What follows blanks, comments and line breaks, in at most `fuel` rounds. -/
def skipLines? : (fuel : Nat) → Text → Option Text
  | 0, t => some t
  | fuel + 1, t => do
    let rest ← comment? (skipSpace t)
    match lineBreak? rest with
    | some tail => skipLines? fuel tail
    | none => some rest

/-! ### Strings -/

/-- The value of a hexadecimal digit. -/
def hexValue? (c : Char) : Option Nat :=
  if c.isDigit then some (c.toNat - '0'.toNat)
  else if 'a' ≤ c ∧ c ≤ 'f' then some (c.toNat - 'a'.toNat + 10)
  else if 'A' ≤ c ∧ c ≤ 'F' then some (c.toNat - 'A'.toNat + 10)
  else none

/-- The character whose code point the first `count` characters spell in base 16. -/
def codePoint? (count : Nat) (t : Text) : Option (Char × Text) := do
  let digits := t.take count
  if digits.length < count then none
  let n ← digits.foldlM (fun n c => (hexValue? c).map (n * 16 + ·)) 0
  if n < 0xD800 || (0xE000 ≤ n && n ≤ 0x10FFFF) then some (Char.ofNat n, t.drop count) else none

/-- The character that an escape stands for, after its backslash. -/
def escape? : Text → Option (Char × Text)
  | 'b' :: rest => some ('\x08', rest)
  | 't' :: rest => some ('\t', rest)
  | 'n' :: rest => some ('\n', rest)
  | 'f' :: rest => some ('\x0c', rest)
  | 'r' :: rest => some ('\r', rest)
  | '"' :: rest => some ('"', rest)
  | '\\' :: rest => some ('\\', rest)
  | 'u' :: rest => codePoint? 4 rest
  | 'U' :: rest => codePoint? 8 rest
  | _ => none

/-- The rest of a string in double quotes on one line, in at most `fuel` steps. -/
def basic? : (fuel : Nat) → Text → Option (Text × Text)
  | 0, _ => none
  | _ + 1, [] => none
  | _ + 1, '"' :: rest => some ([], rest)
  | fuel + 1, '\\' :: rest => do
    let (c, rest) ← escape? rest
    let (s, tail) ← basic? fuel rest
    return (c :: s, tail)
  | fuel + 1, c :: rest => do
    if !isAllowed c then none
    let (s, tail) ← basic? fuel rest
    return (c :: s, tail)

/-- The rest of a string in single quotes on one line. -/
def literal? (t : Text) : Option (Text × Text) :=
  let inside (c : Char) : Bool := c ≠ '\'' && isAllowed c
  match t.dropWhile inside with
  | '\'' :: rest => some (t.takeWhile inside, rest)
  | _ => none

/-- The end of a string between triple marks: three marks, and up to two more that belong to the
    string. -/
def tripleEnd? (mark : Char) (t : Text) : Option (Text × Text) :=
  let marks := (t.takeWhile (· = mark)).length
  if 3 ≤ marks then
    let own := min (marks - 3) 2
    some (List.replicate own mark, t.drop (own + 3))
  else none

/-- The text after the blanks and line breaks at its start. -/
def skipBlankLines : Text → Text
  | [] => []
  | '\r' :: '\n' :: rest => skipBlankLines rest
  | c :: rest => if isSpace c || c = '\n' then skipBlankLines rest else c :: rest

/-- What follows the blanks and line breaks after a backslash that ends a line. -/
def continuation? (t : Text) : Option Text := (lineBreak? (skipSpace t)).map skipBlankLines

/-- The rest of a string between triple double quotes, in at most `fuel` steps. -/
def basicLines? : (fuel : Nat) → Text → Option (Text × Text)
  | 0, _ => none
  | fuel + 1, t =>
    match tripleEnd? '"' t with
    | some found => some found
    | none =>
      match lineBreak? t with
      | some rest => (basicLines? fuel rest).map fun (s, tail) => ('\n' :: s, tail)
      | none =>
        match t with
        | [] => none
        | '\\' :: rest =>
          match continuation? rest with
          | some rest => basicLines? fuel rest
          | none => do
            let (c, rest) ← escape? rest
            let (s, tail) ← basicLines? fuel rest
            return (c :: s, tail)
        | c :: rest => do
          if !isAllowed c then none
          let (s, tail) ← basicLines? fuel rest
          return (c :: s, tail)

/-- The rest of a string between triple single quotes, in at most `fuel` steps. -/
def literalLines? : (fuel : Nat) → Text → Option (Text × Text)
  | 0, _ => none
  | fuel + 1, t =>
    match tripleEnd? '\'' t with
    | some found => some found
    | none =>
      match lineBreak? t with
      | some rest => (literalLines? fuel rest).map fun (s, tail) => ('\n' :: s, tail)
      | none =>
        match t with
        | [] => none
        | c :: rest => do
          if !isAllowed c then none
          let (s, tail) ← literalLines? fuel rest
          return (c :: s, tail)

/-- A line break right after the opening marks does not count. -/
def skipFirstBreak (t : Text) : Text := (lineBreak? t).getD t

/-- Reads a string of any kind. -/
def string? (t : Text) : Option (Text × Text) :=
  match t with
  | '"' :: '"' :: '"' :: rest => basicLines? (t.length + 1) (skipFirstBreak rest)
  | '"' :: rest => basic? (t.length + 1) rest
  | '\'' :: '\'' :: '\'' :: rest => literalLines? (t.length + 1) (skipFirstBreak rest)
  | '\'' :: rest => literal? rest
  | _ => none

/-! ### Numbers -/

/-- Digits with single underscores between them, without the underscores. -/
def digits? (isDigit : Char → Bool) : Text → Option Text
  | [] => none
  | [c] => if isDigit c then some [c] else none
  | c :: '_' :: rest => if isDigit c then (digits? isDigit rest).map (c :: ·) else none
  | c :: rest => if isDigit c then (digits? isDigit rest).map (c :: ·) else none

/-- The value of digits in a base. -/
def valueOf (base : Nat) (digits : Text) : Nat :=
  digits.foldl (fun n c => n * base + (hexValue? c).getD 0) 0

/-- Splits a sign off. -/
def sign : Text → Bool × Text
  | '+' :: rest => (false, rest)
  | '-' :: rest => (true, rest)
  | t => (false, t)

/-- Decimal digits without a zero in front. -/
def decimal? (t : Text) : Option Text := do
  let digits ← digits? Char.isDigit t
  match digits with
  | '0' :: _ :: _ => none
  | _ => some digits

/-- An integer that fits 64 bits with its sign. -/
def fits (n : Int) : Option Int := if Number.fitsSigned n then some n else none

/-- Reads an integer. -/
def integer? (t : Text) : Option Int :=
  match t with
  | '0' :: 'x' :: rest =>
    (digits? (fun c => (hexValue? c).isSome) rest).bind fun d => fits (valueOf 16 d)
  | '0' :: 'o' :: rest =>
    (digits? (fun c => '0' ≤ c && c ≤ '7') rest).bind fun d => fits (valueOf 8 d)
  | '0' :: 'b' :: rest =>
    (digits? (fun c => c = '0' || c = '1') rest).bind fun d => fits (valueOf 2 d)
  | _ =>
    let (negative, body) := sign t
    (decimal? body).bind fun d =>
      fits (if negative then -(valueOf 10 d : Int) else valueOf 10 d)

/-- Reads a number with a fraction or an exponent, or one that is no number. -/
def float? (t : Text) : Option Float := do
  let (negative, body) := sign t
  let signed (x : Float) : Float := if negative then -x else x
  if body = "inf".toList then return signed (1.0 / 0.0)
  if body = "nan".toList then return 0.0 / 0.0
  let isExponent (c : Char) : Bool := c = 'e' || c = 'E'
  let mantissa := body.takeWhile fun c => !isExponent c
  let exponentPart := body.dropWhile fun c => !isExponent c
  let whole ← decimal? (mantissa.takeWhile (· ≠ '.'))
  let fraction ← match mantissa.dropWhile (· ≠ '.') with
    | [] => some []
    | _ :: rest => digits? Char.isDigit rest
  let exponent ← match exponentPart with
    | [] => some 0
    | _ :: rest =>
      let (negative, digits) := sign rest
      (digits? Char.isDigit digits).map fun d =>
        if negative then -(valueOf 10 d : Int) else valueOf 10 d
  if mantissa.all (· ≠ '.') && exponentPart = [] then none
  let x := nearestDouble (valueOf 10 (whole ++ fraction)) (exponent - fraction.length)
  if x.isInf && !negative then none else return signed x

/-! ### Dates and times -/

/-- A number of exactly `count` digits, within bounds, and what follows. -/
def field? (count low high : Nat) (t : Text) : Option (Nat × Text) := do
  let digits := t.take count
  if digits.length < count || !digits.all Char.isDigit then none
  let n := valueOf 10 digits
  if low ≤ n && n ≤ high then some (n, t.drop count) else none

/-- A numeral filled up with zeros to `count` digits. -/
def padded (count n : Nat) : Text :=
  let digits := Text.ofNat n
  List.replicate (count - digits.length) '0' ++ digits

/-- The number of days of a month. -/
def daysIn (year month : Nat) : Nat :=
  if month = 2 then
    if year % 4 = 0 ∧ (year % 100 ≠ 0 ∨ year % 400 = 0) then 29 else 28
  else if [4, 6, 9, 11].contains month then 30
  else 31

/-- Reads a date, in its normal spelling. -/
def date? (t : Text) : Option (Text × Text) := do
  let (year, t) ← field? 4 0 9999 t
  let t ← Text.after? ['-'] t
  let (month, t) ← field? 2 1 12 t
  let t ← Text.after? ['-'] t
  let (day, t) ← field? 2 1 31 t
  if daysIn year month < day then none
  return (padded 4 year ++ '-' :: padded 2 month ++ '-' :: padded 2 day, t)

/-- The fraction of a second, to nine digits and without zeros at its end. -/
def secondFraction (digits : Text) : Text :=
  match ((digits.take 9).reverse.dropWhile (· = '0')).reverse with
  | [] => []
  | kept => '.' :: kept

/-- Reads a time of day, in its normal spelling. -/
def time? (t : Text) : Option (Text × Text) := do
  let (hour, t) ← field? 2 0 23 t
  let t ← Text.after? [':'] t
  let (minute, t) ← field? 2 0 59 t
  let t ← Text.after? [':'] t
  let (second, t) ← field? 2 0 60 t
  let clock := padded 2 hour ++ ':' :: padded 2 minute ++ ':' :: padded 2 second
  match t with
  | '.' :: rest =>
    let digits := rest.takeWhile Char.isDigit
    if digits = [] then none
    else return (clock ++ secondFraction digits, rest.dropWhile Char.isDigit)
  | _ => return (clock, t)

/-- Reads a distance from universal time, which must be all of a text. -/
def zone? (t : Text) : Option Text :=
  match t with
  | [] => some []
  | ['Z'] | ['z'] => some ['Z']
  | mark :: rest => do
    if mark ≠ '+' && mark ≠ '-' then none
    let (hour, t) ← field? 2 0 23 rest
    let t ← Text.after? [':'] t
    let (minute, t) ← field? 2 0 59 t
    if t ≠ [] then none
    let shown := if hour = 0 && minute = 0 then '+' else mark
    return shown :: padded 2 hour ++ ':' :: padded 2 minute

/-- Reads a date, a time of day, or both, which must be all of a text. -/
def dateTime? (t : Text) : Option Text :=
  match date? t with
  | some (date, []) => some date
  | some (date, mark :: rest) => do
    if mark ≠ 'T' && mark ≠ 't' && mark ≠ ' ' then none
    let (time, t) ← time? rest
    return date ++ 'T' :: time ++ (← zone? t)
  | none =>
    match time? t with
    | some (time, []) => some time
    | _ => none

/-! ### Scalars -/

/-- Whether a character may stand in a scalar without quotation marks. -/
def isScalarChar (c : Char) : Bool :=
  c.isAlphanum || c = '_' || c = '+' || c = '-' || c = '.' || c = ':'

/-- Splits the scalar without quotation marks at the start of a text off. A blank may stand
    between a date and a time. -/
def splitScalar (t : Text) : Text × Text :=
  let word := t.takeWhile isScalarChar
  let rest := t.dropWhile isScalarChar
  match date? word, rest with
  | some (_, []), ' ' :: a :: b :: ':' :: _ =>
    if a.isDigit && b.isDigit then
      (word ++ ' ' :: (rest.drop 1).takeWhile isScalarChar, (rest.drop 1).dropWhile isScalarChar)
    else (word, rest)
  | _, _ => (word, rest)

/-- A value without parts. -/
inductive Scalar where
  | string (t : Text)
  | bool (b : Bool)
  | number (n : Number)
  /-- A date or a time, in its normal spelling. -/
  | moment (t : Text)
  deriving Inhabited

/-- A scalar as a JSON value. -/
def Scalar.toJson : Scalar → Json
  | string t | moment t => .string t
  | bool b => .bool b
  | number n => .number n

/-- Reads a scalar without quotation marks. -/
def Scalar.ofWord? (word : Text) : Option Scalar :=
  if word = "true".toList then some (.bool true)
  else if word = "false".toList then some (.bool false)
  else
    match dateTime? word with
    | some t => some (.moment t)
    | none =>
      match integer? word with
      | some n => some (.number (.whole n))
      | none => (float? word).map fun x => .number (.real x)

end Shortcodes.Toml
