import ManagedRuntime.Text.Quoted

/-!
# Named texts

* `Text.Registers` : texts under names;
* `Text.Command` : the operations on named texts;
* `Text.Command.run` : what a command answers and the texts after it; a refused command leaves them as they were.
-/

namespace ManagedRuntime.Text

set_option autoImplicit false

abbrev Registers := List (String × Text)

namespace Registers

/-- A name without a text reads as the empty text. -/
def read (rs : Registers) (r : String) : Text := (rs.lookup r).getD empty

def write (rs : Registers) (r : String) (t : Text) : Registers := (r, t) :: rs.filter (·.1 ≠ r)

end Registers

inductive Command where
  | assign (r : String) (t : Text)
  | ofOctets (r : String) (octets : List UInt8)
  | ofString (r : String) (s : String)
  | ofCodePoints (r : String) (codePoints : List UInt32)
  | assignFrom (r source : String)
  | concat (r a b : String)
  /-- The second text goes through UTF-8 first. -/
  | concatCharacters (r a b : String)
  | copy (r source : String) (start count : Int32)
  | append (r source : String)
  | appendString (r : String) (s : String)
  | push (r : String) (u : UInt16)
  | setChar (r : String) (index : Int32) (u : UInt16)
  | setLength (r : String) (n : Int32)
  | delete (r : String) (index count : Int32)
  | insert (r source : String) (index : Int32)
  | charAt (r : String) (index : Int32)
  | length (r : String)
  | isEmpty (r : String)
  | compare (r other : String)
  | same (r other : String)
  | toOctets (r : String)
  | describe (r : String)
  | toCodePoints (r : String)
  | units (r : String)

inductive Reply where
  | text (t : Text)
  | unit (u : UInt16)
  | word (w : Int32)
  | truth (b : Bool)
  | ordering (o : Ordering)
  | octets (octets : List UInt8)
  | codePoints (codePoints : List UInt32)
  | units (units : List UInt16)

namespace Command

/-- The answer of a command that writes a text. -/
def writing (rs : Registers) (r : String) (t : Text) : Except Failure (Reply × Registers) :=
  .ok (.text t, rs.write r t)

/-- The answer of a command that writes nothing. -/
def answering (rs : Registers) (reply : Reply) : Except Failure (Reply × Registers) := .ok (reply, rs)

/-- Sources are read before anything is written. -/
def run (rs : Registers) : Command → Except Failure (Reply × Registers)
  | .assign r t => writing rs r t
  | .ofOctets r octets => writing rs r (Text.ofOctets octets)
  | .ofString r s => writing rs r (Text.ofString s)
  | .ofCodePoints r codePoints => writing rs r (Text.ofCodePoints codePoints)
  | .assignFrom r source => writing rs r (rs.read source)
  | .concat r a b => writing rs r (rs.read a ++ rs.read b)
  | .concatCharacters r a b => writing rs r (rs.read a ++ Text.ofCharacters (rs.read b).characters)
  | .copy r source start count => writing rs r ((rs.read source).copy start count)
  | .append r source => writing rs r (rs.read r ++ rs.read source)
  | .appendString r s => writing rs r (rs.read r ++ Text.ofString s)
  | .push r u => writing rs r ((rs.read r).push u)
  | .setChar r index u => (rs.read r).setChar index u >>= writing rs r
  | .setLength r n => writing rs r ((rs.read r).setLength n)
  | .delete r index count => writing rs r ((rs.read r).delete index count)
  | .insert r source index => writing rs r ((rs.read r).insert (rs.read source) index)
  | .charAt r index => (rs.read r).charAt index >>= fun u => answering rs (.unit u)
  | .length r => answering rs (.word (rs.read r).length)
  | .isEmpty r => answering rs (.truth (rs.read r).isEmpty)
  | .compare r other => answering rs (.ordering (Ord.compare (rs.read r) (rs.read other)))
  | .same r other => answering rs (.truth (rs.read r == rs.read other))
  | .toOctets r => answering rs (.octets (rs.read r).toOctets)
  | .describe r => answering rs (.octets (Utf8.encode (rs.read r).describe))
  | .toCodePoints r => answering rs (.codePoints (rs.read r).toCodePoints)
  | .units r => answering rs (.units (rs.read r).units)

end Command

end ManagedRuntime.Text
