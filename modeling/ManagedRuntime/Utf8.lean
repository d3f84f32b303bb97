/-!
# UTF-8

* `Utf8.encode` : the octets of a list of characters.
* `Utf8.scan` : the sequence that an octet opens: a character, a broken sequence, or one that the end of
  the input cuts off.
* `Utf8.decode` : the characters of any list of octets; each longest beginning of a sequence that cannot
  be completed is left out, and a sequence cut off by the end likewise.
-/

namespace ManagedRuntime.Utf8

set_option autoImplicit false

def encode (cs : List Char) : List UInt8 := cs.flatMap String.utf8EncodeChar

/-! ## One sequence -/

/-- What a lead octet opens. The number counts the octets of the sequence after the lead. -/
inductive Sequence where
  | character (c : Char) (following : Nat)
  | broken (following : Nat)
  | truncated
deriving DecidableEq

/-- How many octets a lead announces; some octets lead nothing. -/
def announced? (lead : UInt8) : Option Nat :=
  if lead < 0x80 then some 0
  else if lead < 0xC2 then none
  else if lead < 0xE0 then some 1
  else if lead < 0xF0 then some 2
  else if lead < 0xF5 then some 3
  else none

def isContinuation (b : UInt8) : Bool := 0x80 ≤ b && b ≤ 0xBF

/-- The octet after a lead; four leads leave out what would be overlong, a surrogate or above U+10FFFF. -/
def isSecond (lead b : UInt8) : Bool :=
  if lead = 0xE0 then 0xA0 ≤ b && b ≤ 0xBF
  else if lead = 0xED then 0x80 ≤ b && b ≤ 0x9F
  else if lead = 0xF0 then 0x90 ≤ b && b ≤ 0xBF
  else if lead = 0xF4 then 0x80 ≤ b && b ≤ 0x8F
  else isContinuation b

/-- The bits that a lead contributes. -/
def leadBits (lead : UInt8) (announced : Nat) : Nat :=
  match announced with
  | 0 => lead.toNat
  | 1 => lead.toNat % 32
  | 2 => lead.toNat % 16
  | _ => lead.toNat % 8

/-- Six further bits. -/
def extend (value : Nat) (b : UInt8) : Nat := value * 64 + b.toNat % 64

/-- Read `missing` further octets into `value`, `taken` octets after the lead being read already. -/
def scanRest : (missing value taken : Nat) → List UInt8 → Sequence
  | 0, value, taken, _ => .character (Char.ofNat value) taken
  | _ + 1, _, _, [] => .truncated
  | missing + 1, value, taken, b :: rest =>
    if isContinuation b then scanRest missing (extend value b) (taken + 1) rest else .broken taken

/-- The sequence that `lead` opens before `rest`. -/
def scan (lead : UInt8) (rest : List UInt8) : Sequence :=
  match announced? lead with
  | none => .broken 0
  | some 0 => .character (Char.ofNat lead.toNat) 0
  | some (n + 1) =>
    match rest with
    | [] => .truncated
    | b :: rest =>
      if isSecond lead b then scanRest n (extend (leadBits lead (n + 1)) b) 1 rest else .broken 0

/-! ## Whole inputs -/

def decode : List UInt8 → List Char
  | [] => []
  | lead :: rest =>
    match scan lead rest with
    | .character c following => c :: decode (rest.drop following)
    | .broken following => decode (rest.drop following)
    | .truncated => []
termination_by octets => octets.length
decreasing_by all_goals simp only [List.length_cons, List.length_drop]; omega

/-- Decoding that refuses an input with an ill-formed sequence. -/
def decode? : List UInt8 → Option (List Char)
  | [] => some []
  | lead :: rest =>
    match scan lead rest with
    | .character c following => (decode? (rest.drop following)).map (c :: ·)
    | .broken _ => none
    | .truncated => none
termination_by octets => octets.length
decreasing_by simp only [List.length_cons, List.length_drop]; omega

@[simp] theorem decode_nil : decode [] = [] := by rw [decode]

@[simp] theorem encode_nil : encode [] = [] := rfl

theorem encode_append (a b : List Char) : encode (a ++ b) = encode a ++ encode b := by
  simp [encode, List.flatMap_append]

end ManagedRuntime.Utf8
