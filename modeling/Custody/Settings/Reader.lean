import Custody.Settings
import Custody.Settings.Document

/-! Reading settings from a text. A document has one statement a line, `key = value` or a
`[header]`, with comments after `#`. There are two settings, a language and a flag, so numbers,
dates and lists with elements are refused where they stand, just as keys that are not known. -/

namespace Custody.Settings

/-! ### Characters -/

def isSpace (c : Char) : Bool :=
  c == ' ' || c == '\t'

/-- Characters that may stand in comments and in texts on one line. -/
def isPlain (c : Char) : Bool :=
  c == '\t' || (0x20 ≤ c.toNat && c.toNat != 0x7F)

def isKeyChar (c : Char) : Bool :=
  c.isAlphanum || c == '_' || c == '-'

def skipSpaces (cs : List Char) : List Char :=
  cs.dropWhile isSpace

/-- The rest behind the end of a line. -/
def lineBreak? : List Char → Option (List Char)
  | '\n' :: rest => some rest
  | '\r' :: '\n' :: rest => some rest
  | _ => none

/-- Skips a comment, but not the end of its line. -/
def skipComment : List Char → List Char
  | '#' :: rest => rest.dropWhile isPlain
  | cs => cs

/-- The rest behind a line on which nothing but a comment follows. -/
def endLine? (cs : List Char) : Option (List Char) :=
  match skipComment (skipSpaces cs) with
  | [] => some []
  | c :: rest => lineBreak? (c :: rest)

/-! ### Texts -/

def hexDigit? (c : Char) : Option Nat :=
  if c.isDigit then some (c.toNat - '0'.toNat)
  else if 'a' ≤ c ∧ c ≤ 'f' then some (c.toNat - 'a'.toNat + 10)
  else if 'A' ≤ c ∧ c ≤ 'F' then some (c.toNat - 'A'.toNat + 10)
  else none

/-- The character with the code that the digits give. -/
def charOfHex? (digits : List Char) : Option Char := do
  let digits ← digits.mapM hexDigit?
  let code := digits.foldl (fun n d => 16 * n + d) 0
  if code.isValidChar then some (Char.ofNat code) else none

/-- What a backslash and this letter stand for. -/
def escape? : Char → Option Char
  | 'b' => some '\x08'
  | 't' => some '\t'
  | 'n' => some '\n'
  | 'f' => some '\x0c'
  | 'r' => some '\r'
  | '"' => some '"'
  | '\\' => some '\\'
  | _ => none

/-- Puts a character in front of a text that has been read. -/
def consTo (c : Char) (read : List Char × List Char) : List Char × List Char :=
  (c :: read.1, read.2)

/-- A text in double quotes, behind the first one, and the rest. -/
def quoted? : List Char → Option (List Char × List Char)
  | '"' :: rest => some ([], rest)
  | '\\' :: 'u' :: a :: b :: c :: d :: rest => do
      let char ← charOfHex? [a, b, c, d]
      (quoted? rest).map (consTo char)
  | '\\' :: 'U' :: a :: b :: c :: d :: e :: f :: g :: h :: rest => do
      let char ← charOfHex? [a, b, c, d, e, f, g, h]
      (quoted? rest).map (consTo char)
  | '\\' :: c :: rest => do
      let char ← escape? c
      (quoted? rest).map (consTo char)
  | c :: rest => if isPlain c && c != '\\' then (quoted? rest).map (consTo c) else none
  | [] => none

/-- A text in single quotes, behind the first one, and the rest. It has no escapes. -/
def literal? : List Char → Option (List Char × List Char)
  | '\'' :: rest => some ([], rest)
  | c :: rest => if isPlain c then (literal? rest).map (consTo c) else none
  | [] => none

/-- A text in three double quotes. It may go over several lines; a backslash at the end of a line
takes away the line's end and the blanks that follow, which is what `folding` stands for. -/
def quotedLines? : (folding : Bool) → List Char → Option (List Char × List Char)
  | _, '"' :: '"' :: '"' :: rest => some ([], rest)
  | _, '\\' :: 'u' :: a :: b :: c :: d :: rest => do
      let char ← charOfHex? [a, b, c, d]
      (quotedLines? false rest).map (consTo char)
  | _, '\\' :: 'U' :: a :: b :: c :: d :: e :: f :: g :: h :: rest => do
      let char ← charOfHex? [a, b, c, d, e, f, g, h]
      (quotedLines? false rest).map (consTo char)
  | folding, '\r' :: '\n' :: rest =>
      if folding then quotedLines? true rest else (quotedLines? false rest).map (consTo '\n')
  | _, '\\' :: c :: rest =>
      match escape? c with
      | some char => (quotedLines? false rest).map (consTo char)
      | none =>
          if (lineBreak? (skipSpaces (c :: rest))).isSome then quotedLines? true (c :: rest)
          else none
  | folding, c :: rest =>
      if folding && (isSpace c || c == '\n') then quotedLines? true rest
      else if (isPlain c && c != '\\') || c == '\n' then (quotedLines? false rest).map (consTo c)
      else none
  | _, [] => none

/-- A text in three single quotes, over several lines and without escapes. -/
def literalLines? : List Char → Option (List Char × List Char)
  | '\'' :: '\'' :: '\'' :: rest => some ([], rest)
  | '\r' :: '\n' :: rest => (literalLines? rest).map (consTo '\n')
  | c :: rest => if isPlain c || c == '\n' then (literalLines? rest).map (consTo c) else none
  | [] => none

/-- A line break right behind the opening quotes does not belong to the text. -/
def dropFirstBreak (cs : List Char) : List Char :=
  (lineBreak? cs).getD cs

/-! ### Keys -/

/-- One name of a key. -/
def name? : List Char → Option (String × List Char)
  | '"' :: rest => (quoted? rest).map fun (text, rest) => (String.ofList text, rest)
  | '\'' :: rest => (literal? rest).map fun (text, rest) => (String.ofList text, rest)
  | cs =>
      match cs.takeWhile isKeyChar with
      | [] => none
      | c :: name => some (String.ofList (c :: name), cs.dropWhile isKeyChar)

/-- A key: names with dots between them. It is given as its last name and those in front of it. The
first argument bounds the number of names. -/
def key? : Nat → List Char → Option ((List String × String) × List Char)
  | 0, _ => none
  | fuel + 1, cs => do
      let (name, rest) ← name? (skipSpaces cs)
      match skipSpaces rest with
      | '.' :: rest => do
          let ((tables, last), rest) ← key? fuel rest
          return ((name :: tables, last), rest)
      | rest => return (([], name), rest)

/-- A key and what follows it. A key has fewer names than characters. -/
def keyPath? (cs : List Char) : Option ((List String × String) × List Char) :=
  key? cs.length cs

/-! ### Values -/

/-- What is behind the blanks, line breaks and comments of a list. The first argument bounds their
number. -/
def skipFiller : Nat → List Char → List Char
  | 0, cs => cs
  | fuel + 1, cs =>
      let rest := skipComment (skipSpaces cs)
      match lineBreak? rest with
      | some rest => skipFiller fuel rest
      | none => rest

/-- The value of a text that has been read. -/
def textNode (read : List Char × List Char) : Node × List Char :=
  (.text (String.ofList read.1), read.2)

/-- A text of any kind, a flag, or a list without elements. -/
def simple? : List Char → Option (Node × List Char)
  | '"' :: '"' :: '"' :: rest =>
      (quotedLines? false (dropFirstBreak rest)).map textNode
  | '\'' :: '\'' :: '\'' :: rest =>
      (literalLines? (dropFirstBreak rest)).map textNode
  | '"' :: rest => (quoted? rest).map textNode
  | '\'' :: rest => (literal? rest).map textNode
  | 't' :: 'r' :: 'u' :: 'e' :: rest => some (.flag true, rest)
  | 'f' :: 'a' :: 'l' :: 's' :: 'e' :: rest => some (.flag false, rest)
  | '[' :: rest =>
      match skipFiller rest.length rest with
      | ']' :: rest => some (.emptyList, rest)
      | _ => none
  | _ => none

mutual
/-- A value. The first argument bounds how deep tables are nested. -/
def value? : Nat → List Char → Option (Node × List Char)
  | 0, _ => none
  | fuel + 1, '\x7b' :: rest =>
      match skipSpaces rest with
      | '\x7d' :: rest => some (.table .inline [], rest)
      | rest => (inline? fuel [] rest).map fun (entries, rest) => (.table .inline entries, rest)
  | _ + 1, cs => simple? cs

/-- The entries of a table in braces, after those in `done`. -/
def inline? : Nat → (done : Entries) → List Char → Option (Entries × List Char)
  | 0, _, _ => none
  | fuel + 1, done, cs => do
      let ((tables, key), rest) ← keyPath? cs
      let '=' :: rest := rest | none
      let (value, rest) ← value? fuel (skipSpaces rest)
      let done ← done.assign tables key value
      match skipSpaces rest with
      | '\x7d' :: rest => some (done, rest)
      | ',' :: rest => inline? fuel done rest
      | _ => none
end

/-! ### Documents -/

/-- One statement, and the rest behind its line. -/
def line? (cs : List Char) : Option (Line × List Char) :=
  match cs with
  | '[' :: rest => do
      let ((tables, name), rest) ← keyPath? rest
      let ']' :: rest := rest | none
      let rest ← endLine? rest
      return (.header tables name, rest)
  | cs => do
      let ((tables, key), rest) ← keyPath? cs
      let '=' :: rest := rest | none
      let (value, rest) ← value? rest.length (skipSpaces rest)
      let rest ← endLine? rest
      return (.assign tables key value, rest)

/-- The statements of a document. The first argument bounds the number of lines. -/
def lines? : Nat → List Char → Option (List Line)
  | _, [] => some []
  | 0, _ => none
  | fuel + 1, cs =>
      match endLine? cs with
      | some rest => lines? fuel rest
      | none => do
          let (line, rest) ← line? (skipSpaces cs)
          let lines ← lines? fuel rest
          return line :: lines

/-- Reads a document. Every line has a character at least; a byte order mark may stand in front. -/
def document? (cs : List Char) : Option Entries :=
  let cs :=
    match cs with
    | c :: rest => if c.toNat = 0xFEFF then rest else c :: rest
    | [] => []
  (lines? cs.length cs).bind (build [] [])

/-! ### Settings -/

def languageOfName? (name : String) : Option Language :=
  if name = "razorforge" then some .razorForge
  else if name = "suflae" then some .suflae
  else none

/-- A choice without parameters is written as a list or a table with nothing in it. -/
def isHollow : Node → Bool
  | .emptyList => true
  | .table _ entries => entries.isEmpty
  | _ => false

/-- A language is written as its name, or as a table with its name as only key and nothing in it. -/
def language? : Node → Option Language
  | .text name => languageOfName? name
  | .table _ [(name, node)] => if isHollow node then languageOfName? name else none
  | _ => none

/-- Sets what an entry says. -/
def withEntry? (settings : Settings) : String × Node → Option Settings
  | (key, node) =>
      if key = "language" then do
        let language ← language? node
        return { settings with language }
      else if key = "tolerate_missing_prelude" then
        match node with
        | .flag value => some { settings with toleratesMissingPrelude := value }
        | _ => none
      else none

/-- Reads settings. What a document does not say stays at its default. -/
def ofText? (text : String) : Option Settings := do
  let entries ← document? text.toList
  entries.foldlM withEntry? {}

end Custody.Settings
