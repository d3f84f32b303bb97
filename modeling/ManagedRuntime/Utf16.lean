/-!
# UTF-16

* `Utf16.encode` : the code units of a list of characters, two for each one above U+FFFF.
* `Utf16.decode` : the characters of any list of code units; surrogates without their partner are left out.
-/

namespace ManagedRuntime.Utf16

set_option autoImplicit false

/-! ## Code units -/

/-- The first half of a surrogate pair. -/
def isHigh (u : UInt16) : Bool := 0xD800 ≤ u && u ≤ 0xDBFF

/-- The second half of a surrogate pair. -/
def isLow (u : UInt16) : Bool := 0xDC00 ≤ u && u ≤ 0xDFFF

def isSurrogate (u : UInt16) : Bool := isHigh u || isLow u

/-- The character of a unit that is no surrogate. -/
def single (u : UInt16) : Char := Char.ofNat u.toNat

/-- The character of a surrogate pair. -/
def pair (high low : UInt16) : Char :=
  Char.ofNat (0x10000 + (high.toNat - 0xD800) * 0x400 + (low.toNat - 0xDC00))

/-! ## Encoding and decoding -/

def encodeChar (c : Char) : List UInt16 :=
  if c.toNat < 0x10000 then [c.toNat.toUInt16]
  else [(0xD800 + (c.toNat - 0x10000) / 0x400).toUInt16, (0xDC00 + (c.toNat - 0x10000) % 0x400).toUInt16]

def encode (cs : List Char) : List UInt16 := cs.flatMap encodeChar

/-- A high surrogate pairs with a low one right after it; every other surrogate is left out. -/
def decode : List UInt16 → List Char
  | [] => []
  | [u] => if isSurrogate u then [] else [single u]
  | u :: v :: rest =>
    if isHigh u && isLow v then pair u v :: decode rest
    else if isSurrogate u then decode (v :: rest)
    else single u :: decode (v :: rest)

@[simp] theorem encode_nil : encode [] = [] := rfl

theorem encode_cons (c : Char) (cs : List Char) : encode (c :: cs) = encodeChar c ++ encode cs := rfl

theorem encode_append (a b : List Char) : encode (a ++ b) = encode a ++ encode b := by
  simp [encode, List.flatMap_append]

end ManagedRuntime.Utf16
