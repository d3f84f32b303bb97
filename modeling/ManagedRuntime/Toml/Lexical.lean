import ManagedRuntime.Toml.Reader

/-!
# Blanks, strings and keys

* `endOfLine` : what may follow on a line that is complete;
* `gap` : blanks, line ends and comments between the elements of an array;
* `string` : the four forms of strings;
* `key` : a key, whose parts are joined by points.
-/

namespace ManagedRuntime.Toml

set_option autoImplicit false

/-! ## Blanks and comments -/

def isBlank (c : Char) : Bool := c = ' ' || c = '\t'

def skipBlanks (cs : List Char) : List Char := cs.dropWhile isBlank

/-- A tab, or a character that is no control character of ASCII. -/
def isPlain (c : Char) : Bool := c = '\t' || ' ' ≤ c && c ≠ '\x7f'

/-- A line ends in a line feed that a carriage return may precede. -/
def newline : List Char → Option (List Char)
  | '\n' :: rest => some rest
  | '\r' :: '\n' :: rest => some rest
  | _ => none

def skipComment : List Char → List Char
  | '#' :: rest => rest.dropWhile isPlain
  | cs => cs

/-- Blanks and a comment up to the end of the line or of the input. -/
def endOfLine (cs : List Char) : Option (List Char) :=
  match skipComment (skipBlanks cs) with
  | [] => some []
  | rest => newline rest

/-- One end of a line, with what stands in front of it. -/
def lineGap : Reader Unit := fun cs => (newline (skipComment (skipBlanks cs))).map fun rest => ((), rest)

/-- Blanks, comments and line ends. -/
def gap (cs : List Char) : List Char := skipBlanks (Reader.many lineGap cs).2

/-! ## Escapes -/

def hexValue? (c : Char) : Option Nat :=
  if c.isDigit then some (c.toNat - '0'.toNat)
  else if 'a' ≤ c ∧ c ≤ 'f' then some (c.toNat - 'a'.toNat + 10)
  else if 'A' ≤ c ∧ c ≤ 'F' then some (c.toNat - 'A'.toNat + 10)
  else none

/-- A code point in exactly `n` hexadecimal digits. -/
def codePoint (n : Nat) : Reader Char := fun cs => do
  let digits ← (cs.take n).mapM hexValue?
  let value := digits.foldl (fun v d => 16 * v + d) 0
  if digits.length = n ∧ value.isValidChar then some (Char.ofNat value, cs.drop n) else none

/-- The character of an escape, after the backslash. -/
def escape : Reader Char
  | 'b' :: rest => some ('\x08', rest)
  | 't' :: rest => some ('\t', rest)
  | 'n' :: rest => some ('\n', rest)
  | 'f' :: rest => some ('\x0c', rest)
  | 'r' :: rest => some ('\r', rest)
  | '"' :: rest => some ('"', rest)
  | '\\' :: rest => some ('\\', rest)
  | 'u' :: rest => codePoint 4 rest
  | 'U' :: rest => codePoint 8 rest
  | _ => none

/-! ## Strings on one line -/

def basicItem : Reader Char
  | '\\' :: rest => escape rest
  | c :: rest => if isPlain c && c ≠ '"' then some (c, rest) else none
  | [] => none

def literalItem : Reader Char
  | c :: rest => if isPlain c && c ≠ '\'' then some (c, rest) else none
  | [] => none

/-- Items up to a closing quote. -/
def quotedBy (quote : Char) (item : Reader Char) : Reader (List Char) := fun cs => do
  let (body, rest) := Reader.many item cs
  match rest with
  | c :: rest => if c = quote then some (body, rest) else none
  | [] => none

/-- A string between double or single quotes. -/
def lineString : Reader (List Char)
  | '"' :: rest => quotedBy '"' basicItem rest
  | '\'' :: rest => quotedBy '\'' literalItem rest
  | _ => none

/-! ## Strings on several lines -/

/-- One or two quotes that do not close the string. -/
def innerQuotes (quote : Char) : Reader (List Char) := fun cs =>
  let quotes := cs.takeWhile (· = quote)
  if quotes.length = 1 ∨ quotes.length = 2 then some (quotes, cs.drop quotes.length) else none

/-- A line end, which counts as a line feed. -/
def innerLine : Reader (List Char) := fun cs => (newline cs).map fun rest => (['\n'], rest)

/-- The rest after blanks and line ends, of which there is one at least. -/
def continuation (cs : List Char) : Option (List Char) :=
  (newline (skipBlanks cs)).map fun rest =>
    skipBlanks (Reader.many (fun cs => (newline (skipBlanks cs)).map fun rest => ((), rest)) rest).2

/-- A backslash at the end of a line leaves out what follows up to the next character. -/
def innerEscape : Reader (List Char)
  | '\\' :: rest =>
    match continuation rest with
    | some rest => some ([], rest)
    | none => (escape rest).map fun (c, rest) => ([c], rest)
  | _ => none

def innerPlain (quote : Char) (excluded : List Char) : Reader (List Char)
  | c :: rest => if isPlain c && c ≠ quote && !excluded.contains c then some ([c], rest) else none
  | [] => none

def basicLines : Reader (List Char) := fun cs =>
  (innerPlain '"' ['\\'] cs).or <| (innerLine cs).or <| (innerEscape cs).or (innerQuotes '"' cs)

def literalLines : Reader (List Char) := fun cs =>
  (innerPlain '\'' [] cs).or <| (innerLine cs).or (innerQuotes '\'' cs)

/--
Items after a line end that may come first, up to three quotes; one or two more quotes before these
belong to the text.
-/
def blockOf (quote : Char) (item : Reader (List Char)) : Reader (List Char) := fun cs =>
  let (body, rest) := Reader.many item ((newline cs).getD cs)
  let quotes := min (rest.takeWhile (· = quote)).length 5
  if 3 ≤ quotes then some (body.flatten ++ List.replicate (quotes - 3) quote, rest.drop quotes) else none

def string : Reader (List Char)
  | '"' :: '"' :: '"' :: rest => blockOf '"' basicLines rest
  | '\'' :: '\'' :: '\'' :: rest => blockOf '\'' literalLines rest
  | cs => lineString cs

/-! ## Keys -/

def isBare (c : Char) : Bool := c.isAlphanum || c = '_' || c = '-'

/-- A part of a key: a string on one line, or bare characters. -/
def keyPart : Reader (List Char) := fun cs =>
  (lineString cs).or <|
    let bare := cs.takeWhile isBare
    if bare = [] then none else some (bare, cs.drop bare.length)

/-- A further part of a key. -/
def furtherPart : Reader String
  | '.' :: rest => (keyPart (skipBlanks rest)).map fun (part, rest) => (String.ofList part, skipBlanks rest)
  | _ => none

/-- Keys have less parts than this. -/
def maxParts : Nat := 80

/-- The parts in front of the last one, and the last one, with the blanks around them. -/
def key : Reader (List String × String) := fun cs => do
  let (first, rest) ← keyPart (skipBlanks cs)
  let (further, rest) := Reader.many furtherPart (skipBlanks rest)
  let parts := String.ofList first :: further
  if parts.length < maxParts then some ((parts.dropLast, parts.getLastD ""), rest) else none

end ManagedRuntime.Toml
