/-!
# Text/Utf8 — bytes read as text

Bytes become characters by the UTF-8 table of well-formed sequences. Strict
reading refuses any ill-formed byte; lenient reading puts one replacement
character for each maximal part of an ill-formed sequence, so that no
character around it is lost.
-/


namespace MediaPipeline

namespace Text

namespace Utf8

/-- The character that stands for bytes that write none. -/
def replacement : Char := Char.ofNat 0xfffd

/-- What a first byte promises: the bits it contributes, and the range each
continuation byte must lie in. -/
structure Lead where
  bits : Nat
  tails : List (Nat × Nat)

/-- The table of well-formed sequences, by their first byte. -/
def lead? (b : Nat) : Option Lead :=
  if b < 0x80 then some ⟨b, []⟩
  else if 0xc2 ≤ b ∧ b ≤ 0xdf then some ⟨b - 0xc0, [(0x80, 0xbf)]⟩
  else if b = 0xe0 then some ⟨0, [(0xa0, 0xbf), (0x80, 0xbf)]⟩
  else if b = 0xed then some ⟨0xd, [(0x80, 0x9f), (0x80, 0xbf)]⟩
  else if 0xe1 ≤ b ∧ b ≤ 0xef then some ⟨b - 0xe0, [(0x80, 0xbf), (0x80, 0xbf)]⟩
  else if b = 0xf0 then some ⟨0, [(0x90, 0xbf), (0x80, 0xbf), (0x80, 0xbf)]⟩
  else if 0xf1 ≤ b ∧ b ≤ 0xf3 then
    some ⟨b - 0xf0, [(0x80, 0xbf), (0x80, 0xbf), (0x80, 0xbf)]⟩
  else if b = 0xf4 then some ⟨4, [(0x80, 0x8f), (0x80, 0xbf), (0x80, 0xbf)]⟩
  else none

/-- Between characters, or inside one that still owes continuation bytes. -/
inductive Progress where
  | between
  | inside (bits : Nat) (owed : List (Nat × Nat))

/-- The text so far, last item first (`none` for an ill-formed part), and the
state after the bytes read. -/
structure Reading where
  items : List (Option Char)
  progress : Progress

namespace Reading

/-- A byte that starts a character, or that no character starts with. -/
def start (items : List (Option Char)) (b : Nat) : Reading :=
  match lead? b with
  | none => ⟨none :: items, .between⟩
  | some ⟨bits, []⟩ => ⟨some (Char.ofNat bits) :: items, .between⟩
  | some ⟨bits, owed⟩ => ⟨items, .inside bits owed⟩

/-- One byte more: a byte that cannot go on ends the part before it and is
read anew. -/
def push (r : Reading) (b : Nat) : Reading :=
  match r.progress with
  | .between => start r.items b
  | .inside bits owed =>
    match owed with
    | [] => start r.items b
    | range :: more =>
      if range.1 ≤ b ∧ b ≤ range.2 then
        let bits' := bits * 64 + (b - 0x80)
        match more with
        | [] => ⟨some (Char.ofNat bits') :: r.items, .between⟩
        | _ => ⟨r.items, .inside bits' more⟩
      else start (none :: r.items) b

/-- The items in order; a character that was not finished is ill-formed. -/
def finish (r : Reading) : List (Option Char) :=
  match r.progress with
  | .between => r.items.reverse
  | .inside _ _ => (none :: r.items).reverse

end Reading

/-- The characters of a byte sequence, `none` for each ill-formed part. -/
def items (bytes : List UInt8) : List (Option Char) :=
  (bytes.foldl (fun r b => r.push b.toNat) (⟨[], .between⟩ : Reading)).finish

/-- The text that the bytes write, if all of them are well formed. -/
def decode? (bytes : List UInt8) : Option String :=
  ((items bytes).mapM id).map String.ofList

/-- The text that the bytes write, with a replacement character for each
ill-formed part. -/
def decodeLossy (bytes : List UInt8) : String :=
  String.ofList ((items bytes).map (·.getD replacement))

end Utf8

end Text

end MediaPipeline
