/-!
# Values on the console

The console takes words in square brackets for style tags. Values are protected so that a tag in
them is shown like any other text, but the protection is not perfect: of the backslashes in front of
a bracket that opens no tag, one is lost. Characters that only move the cursor are not shown, and
tabs are filled up with blanks.
-/

namespace LayerLint.Console

def startsTag (c : Char) : Bool :=
  ('a' ≤ c && c ≤ 'z') || c = '#' || c = '/' || c = '@'

/-- Whether the text behind a bracket continues a tag, which is closed before another bracket opens.
-/
def continuesTag : List Char → Bool
  | [] => false
  | c :: cs => startsTag c && (cs.takeWhile (· != '[')).contains ']'

/-- A text without the backslashes that get lost. -/
def dropBackslashes : List Char → List Char
  | [] => []
  | c :: cs =>
      match c, cs with
      | '\\', '[' :: rest =>
          if continuesTag rest then '\\' :: dropBackslashes cs else dropBackslashes cs
      | _, _ => c :: dropBackslashes cs

/-- Whether a character only moves the cursor or rings the bell. -/
def movesCursor (c : Char) : Bool :=
  [0x07, 0x08, 0x0b, 0x0c, 0x0d].contains c.toNat

/-- What the console shows of a value with a tag behind it. -/
def shown (s : String) : String :=
  String.ofList ((dropBackslashes s.toList).filter (!movesCursor ·))

/-- What the console shows of a value with no tag behind it: a single backslash at the end was
doubled to protect a tag that did not come. -/
def shownBare (s : String) : String :=
  match s.toList.reverse with
  | ['\\'] => "\\\\"
  | '\\' :: c :: _ => if c = '\\' then shown s else shown s ++ "\\"
  | _ => shown s

def tabWidth : Nat := 8

/-- Fills up tabs with blanks, starting in a column. -/
def fillTabs (column : Nat) : List Char → List Char
  | [] => []
  | '\n' :: cs => '\n' :: fillTabs 0 cs
  | '\t' :: cs =>
      let width := tabWidth - column % tabWidth
      List.replicate width ' ' ++ fillTabs (column + width) cs
  | c :: cs => c :: fillTabs (column + 1) cs

/-- A line, or several, as the console prints them. -/
def line (s : String) : String :=
  String.ofList (fillTabs 0 s.toList)

end LayerLint.Console
