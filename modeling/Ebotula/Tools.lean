import Ebotula.DbAccess

/-!
# The database tool

`tools/`: a program that dumps a database file to text and stores entries in one, on its own files
and without the locks and the lower case of the bot. A text goes through `quote_string` on its way
out and through `dequote_string` on its way in.

`iter2` of `dequote_string` writes a cell and moves on later; `front` is what lies before it and
`cell` what it points at.
-/

set_option autoImplicit false

namespace Ebotula

open Library

/-! ## Quoting -/

/-- `str_quotes`. -/
def strQuotes : CStr := " \"\\"

/-- `sym_quotes`. -/
def symQuotes : CStr := ['\x07', '\x08', '\x0c', '\n', '\r', '\t', '\x0b']

/-- The letter that `quote_string` writes for a character of `sym_quotes`. -/
def symLetter (c : Char) : Char :=
  if c = '\x07' then 'a'
  else if c = '\x08' then 'b'
  else if c = '\x0c' then 'f'
  else if c = '\n' then 'n'
  else if c = '\r' then 'r'
  else if c = '\t' then 't'
  else 'v'

/-- What `quote_string` writes for one character. -/
def quoteChar (c : Char) : CStr :=
  if strQuotes.contains c then ['\\', c]
  else if symQuotes.contains c then ['\\', symLetter c]
  else [c]

/-- `quote_string`. -/
def quoteString (s : CStr) : Option CStr :=
  if s = [] then none else some ('"' :: (s.flatMap quoteChar ++ ['"']))

/-- The character that `dequote_string` writes for the letter behind a backslash. -/
def letterSym (c : Char) : Char :=
  if c = 'a' then '\x07'
  else if c = 'b' then '\x08'
  else if c = 'f' then '\x0c'
  else if c = 'n' then '\n'
  else if c = 'r' then '\r'
  else if c = 't' then '\t'
  else if c = 'v' then '\x0b'
  else c

/-- The loop of `dequote_string`, up to the NUL that it writes at the end. -/
def dequoteLoop (front : CStr) (cell : Char) (bSlash : Nat) : CStr → CStr
  | [] => front
  | c :: iter =>
    let cell := if bSlash = 1 then letterSym c else cell
    let bSlash := if bSlash = 1 then 2 else bSlash
    if c = '\\' ∧ bSlash = 0 then dequoteLoop front cell 1 iter
    else
      -- the character itself, over what the letter gave
      let cell := c
      if iter ≠ [] then dequoteLoop (front ++ [cell]) '\x00' 0 iter
      else dequoteLoop front cell 0 iter

/-- `dequote_string`. -/
def dequoteString (s : CStr) : Option CStr :=
  match s with
  | [] => none
  | c :: iter => if c ≠ '"' then some s else some (dequoteLoop [] '\x00' 0 iter)

/-! ## Dumping and storing -/

section Files

variable {G : Type} [Table G CStr CStr]

/-- What `%s` prints of a quoted text. -/
def printed (s : Option CStr) : CStr := s.getD "(null)".toList

/-- `dump_gdbm` with quoting: the key and the content of every line `%s %s\n` that it prints. -/
def dumpGdbm (qDbF : G) : List (CStr × CStr) :=
  (Table.keys qDbF).filterMap fun datKey =>
    (Table.fetch qDbF datKey).map fun datContent =>
      (printed (quoteString datKey), printed (quoteString datContent))

/-- `gdbm_store` on a file: inserting refuses a key that is there. -/
def storeDatum (qDbF : G) (datKey datContent : CStr) (nFlags : StoreMode) : Int × G :=
  if nFlags = .insert ∧ (Table.fetch qDbF datKey).isSome then (1, qDbF)
  else (0, Table.store qDbF datKey datContent)

/-- `store_gdbm`; `none` where it follows the NULL that `dequote_string` returns of an empty
text. -/
def storeGdbm (qDbF : G) (bIgnoreQuoting bReplace : Bool) (sKey sContent : Option CStr) :
    Option (Int × G) :=
  match sKey, sContent with
  | some sKey, some sContent =>
    let sKeyD := if bIgnoreQuoting then some sKey else dequoteString sKey
    let sContentD := if bIgnoreQuoting then some sContent else dequoteString sContent
    match sKeyD, sContentD with
    | some datKey, some datContent =>
      some (storeDatum qDbF datKey datContent (if bReplace then .replace else .insert))
    | _, _ => none
  | _, _ => some (1, qDbF)

/-- The file after `store_gdbm` with dequoting has stored one pair after the other. -/
def storePairs (bReplace : Bool) (qDbF : G) (pairs : List (CStr × CStr)) : Option G :=
  pairs.foldlM (fun qDbF pair =>
    (storeGdbm qDbF false bReplace (some pair.1) (some pair.2)).map Prod.snd) qDbF

end Files

end Ebotula
