/-!
# Text as a list of characters

All text that a user writes (documents, arguments, markup) is handled as the list of its
characters, so that readers are plain recursions on the list and their laws are plain
inductions. This module holds the units in which offsets are counted and the searches
that the readers share: a fixed beginning, the first occurrence of a needle, ASCII case.
-/
namespace Shortcodes

/-- Text is the list of its characters. -/
abbrev Text := List Char

namespace Text

/-! ### Offsets -/

/-- The number of bytes of the UTF-8 form. Every offset that a caller sees counts these. -/
def byteLength : Text → Nat
  | [] => 0
  | c :: rest => c.utf8Size + byteLength rest

@[simp] theorem byteLength_nil : byteLength [] = 0 := rfl

@[simp] theorem byteLength_cons (c : Char) (t : Text) :
    byteLength (c :: t) = c.utf8Size + byteLength t := rfl

@[simp] theorem byteLength_append (s t : Text) :
    byteLength (s ++ t) = byteLength s + byteLength t := by
  induction s with
  | nil => simp
  | cons c s ih => simp [ih, Nat.add_assoc]

/-! ### Beginnings and occurrences -/

/-- What follows `beginning` in a text that starts with it. -/
def after? : (beginning : Text) → Text → Option Text
  | [], t => some t
  | _ :: _, [] => none
  | b :: bs, c :: cs => if b = c then after? bs cs else none

theorem after?_eq_some_iff {b t r : Text} : after? b t = some r ↔ t = b ++ r := by
  induction b generalizing t with
  | nil => simp [after?, eq_comm]
  | cons x b ih =>
    cases t with
    | nil => simp [after?]
    | cons c t =>
      by_cases h : x = c
      · simp [after?, h, ih]
      · simp [after?, h, Ne.symm h]

/-- The text before and after the first occurrence of `needle`. -/
def cut? (needle : Text) : Text → Option (Text × Text)
  | [] => if needle = [] then some ([], []) else none
  | c :: rest =>
    match after? needle (c :: rest) with
    | some tail => some ([], tail)
    | none => (cut? needle rest).map fun (front, tail) => (c :: front, tail)

/-- Whether `needle` occurs in the text. -/
def has (needle : Text) (t : Text) : Bool := (cut? needle t).isSome

theorem eq_of_cut? {needle t front tail : Text} (h : cut? needle t = some (front, tail)) :
    t = front ++ needle ++ tail := by
  induction t generalizing front tail with
  | nil =>
    by_cases hn : needle = []
    · simp_all [cut?]
    · simp [cut?, hn] at h
  | cons c t ih =>
    rw [cut?] at h
    cases ha : after? needle (c :: t) with
    | some r =>
      rw [ha] at h
      simp only [Option.some.injEq, Prod.mk.injEq] at h
      obtain ⟨rfl, rfl⟩ := h
      simpa using after?_eq_some_iff.1 ha
    | none =>
      rw [ha] at h
      simp only [Option.map_eq_some_iff, Prod.mk.injEq, Prod.exists] at h
      obtain ⟨f, r, hc, rfl, rfl⟩ := h
      simp [ih hc]

/-- The pieces of the text between the occurrences of the separator, from the left. -/
def pieces (separator : Char) : Text → List Text
  | [] => [[]]
  | c :: rest =>
    if c = separator then [] :: pieces separator rest
    else
      match pieces separator rest with
      | [] => [[c]]
      | first :: others => (c :: first) :: others

/-- Every occurrence of `needle` (which is not empty), from the left, written as `new`.
    The recursion stops after `fuel` characters; `replaceAll` gives it enough. -/
def replaceUpTo (needle new : Text) : (fuel : Nat) → Text → Text
  | 0, t => t
  | _ + 1, [] => []
  | fuel + 1, c :: rest =>
    match after? needle (c :: rest) with
    | some tail => new ++ replaceUpTo needle new fuel tail
    | none => c :: replaceUpTo needle new fuel rest

/-- Every occurrence of `needle` from the left written as `new`. The empty needle occurs
    before every character and at the end. -/
def replaceAll (needle new t : Text) : Text :=
  if needle = [] then new ++ t.flatMap fun c => c :: new
  else replaceUpTo needle new t.length t

/-- The parts joined with `separator` between neighbours. -/
def join (separator : Text) : List Text → Text
  | [] => []
  | [t] => t
  | t :: ts => t ++ separator ++ join separator ts

/-! ### ASCII case

`Char.toLower` moves the ASCII capitals and nothing else. -/

/-- The text with its ASCII capitals made small. -/
def lowerAscii (t : Text) : Text := t.map Char.toLower

/-- Equality up to ASCII case. -/
def sameUpToCase (s t : Text) : Bool := lowerAscii s == lowerAscii t

/-! ### Order -/

/-- Comparison by code points, which is also the order of the UTF-8 bytes. -/
def precedes : Text → Text → Bool
  | [], [] => false
  | [], _ :: _ => true
  | _ :: _, [] => false
  | a :: s, b :: t => a.toNat < b.toNat || (a == b && precedes s t)

end Text

end Shortcodes
