import BisayaPlus.Yaml.Fault
/-!
# Sources

The characters of a file. A mark at its start says how they are encoded, UTF-8
being meant without one. A file is taken in portions, and a bad character spoils
its portion only: what comes before may be used as long as nothing has to be
looked up behind.
-/

set_option autoImplicit false

namespace BisayaPlus.Yaml

/-- How characters are encoded. -/
inductive Encoding where
  | utf8
  | utf16 (lowFirst : Bool)
  deriving DecidableEq

/-- The encoding of a file, and the length of the mark that tells it. -/
def Encoding.ofFile : Text → Encoding × Nat
  | 0xFF :: 0xFE :: _ => (utf16 true, 2)
  | 0xFE :: 0xFF :: _ => (utf16 false, 2)
  | 0xEF :: 0xBB :: 0xBF :: _ => (utf8, 3)
  | _ => (utf8, 0)

/-! ## Single characters -/

/-- What stands at the front of encoded bytes: a code and its width, too few
bytes, which is a problem only at the end of the file, or a problem. -/
inductive Front where
  | code (code width : Nat)
  | short (problem : Problem)
  | bad (problem : Problem)

/-- The width of a UTF-8 sequence by its first byte, zero for none. -/
def sequenceWidth (b : UInt8) : Nat :=
  if b < 0x80 then 1
  else if b < 0xC0 then 0
  else if b < 0xE0 then 2
  else if b < 0xF0 then 3
  else if b < 0xF8 then 4
  else 0

/-- A byte that continues a UTF-8 sequence. -/
def isTrailing (b : UInt8) : Bool := 0x80 ≤ b && b < 0xC0

/-- The least code that needs a width. -/
def leastCode : Nat → Nat
  | 2 => 0x80
  | 3 => 0x800
  | 4 => 0x10000
  | _ => 0

/-- The code at the front of UTF-8 bytes. -/
def utf8Front (t : Text) : Front :=
  match t with
  | [] => .short .incompleteSequence
  | b :: more =>
    let width := sequenceWidth b
    let trail := more.take (width - 1)
    if width = 0 then .bad .leadingOctet
    else if t.length < width then .short .incompleteSequence
    else if !trail.all isTrailing then .bad .trailingOctet
    else
      let lead := if width = 1 then b.toNat else b.toNat % Nat.pow 2 (7 - width)
      let code := trail.foldl (fun n d => n * 64 + d.toNat % 64) lead
      if code < leastCode width then .bad .sequenceLength
      else if code.isValidChar then .code code width
      else .bad .notACharacter

/-- A unit of two bytes. -/
def unit (lowFirst : Bool) (a b : UInt8) : Nat :=
  if lowFirst then a.toNat + b.toNat * 256 else a.toNat * 256 + b.toNat

/-- The code at the front of UTF-16 bytes. -/
def utf16Front (lowFirst : Bool) : Text → Front
  | a :: b :: more =>
    let first := unit lowFirst a b
    if first / 0x400 = 0x37 then .bad .lowSurrogate
    else if first / 0x400 = 0x36 then
      match more with
      | c :: d :: _ =>
        let second := unit lowFirst c d
        if second / 0x400 = 0x37 then .code (0x10000 + first % 0x400 * 0x400 + second % 0x400) 4
        else .bad .noLowSurrogate
      | _ => .short .incompletePair
    else .code first 2
  | _ => .short .incompleteUnit

/-- The code at the front of bytes. -/
def Encoding.front : Encoding → Text → Front
  | utf8 => utf8Front
  | utf16 lowFirst => utf16Front lowFirst

/-- A character that may stand in a text. -/
def isAllowed (code : Nat) : Bool :=
  code = 0x09 || code = 0x0A || code = 0x0D || (0x20 ≤ code && code ≤ 0x7E) || code = 0x85 ||
    (0xA0 ≤ code && code ≤ 0xD7FF) || (0xE000 ≤ code && code ≤ 0xFFFD) || (0x10000 ≤ code && code ≤ 0x10FFFF)

/-! ## Portions -/

/-- A portion of a file. -/
inductive Portion where
  | chars (list : List Char)
  | broken (problem : Problem)

/-- The size of a portion in bytes, the mark of the file and bytes carried over
from the portion before included. -/
def portionSize : Nat := 512

/-- The characters in a stretch of bytes, and the bytes of an unfinished one
after them with the problem it is if nothing follows. `bound` limits the number
of characters, and `done` are those so far, the last one first. -/
def stretch (e : Encoding) : Nat → Text → List Char → Except Problem (List Char × Option (Text × Problem))
  | 0, _, done => .ok (done.reverse, none)
  | _, [], done => .ok (done.reverse, none)
  | bound + 1, b :: t, done =>
    match e.front (b :: t) with
    | .bad problem => .error problem
    | .short problem => .ok (done.reverse, some (b :: t, problem))
    | .code code width =>
      if isAllowed code then stretch e bound ((b :: t).drop width) (Char.ofNat code :: done)
      else .error .controlCharacter

/-- The portions of a file after bytes that were carried over, where `room` is
how many more bytes the next portion takes. -/
def portionsFrom (e : Encoding) : Nat → Nat → Option (Text × Problem) → Text → List Portion
  | _, _, none, [] => []
  | _, _, some (_, problem), [] => [.broken problem]
  | 0, _, _, _ => []
  | bound + 1, room, carried, b :: t =>
    let bytes := (match carried with | some (u, _) => u | none => []) ++ (b :: t).take room
    match stretch e bytes.length bytes [] with
    | .error problem => [.broken problem]
    | .ok (list, left) =>
      let kept := match left with | some (u, _) => u.length | none => 0
      .chars list :: portionsFrom e bound (portionSize - kept) left ((b :: t).drop room)

/-- The portions of a file. -/
def portions (file : Text) : List Portion :=
  let (e, mark) := Encoding.ofFile file
  portionsFrom e file.length (portionSize - mark) none (file.drop mark)

/-- The number of characters in portions. -/
def portionsLength (list : List Portion) : Nat :=
  list.foldl (fun n p => match p with | .chars cs => n + cs.length | .broken _ => n) 0

end BisayaPlus.Yaml
