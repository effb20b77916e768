import Ebotula.Utilities
import Mathlib.Algebra.Group.Int.Defs
import Mathlib.Algebra.Group.Nat.Defs
import Mathlib.Logic.Function.Basic

/-!
# The configuration file

`configparser.c`: the table of the keys, their checks, and the loop over the lines of the
file. The fields of `sSetup` that the table points to are a family indexed by the entries of
the table, each of the C type that it is declared with.

The loop may come to a step that C gives no meaning: a table index that is out of range, the
length of a NULL pointer, a key that is longer than its memory. It stops there, as it does
where the source calls `exit`.
-/

set_option autoImplicit false

namespace Ebotula

open Library

/-! ## Keys -/

/-- `enum Values_e`, the entries of `vsInputConfig`. -/
inductive Values
  | botname | realname | exeuser | exegroup | threadlimit | server | port | databasepath
  | fastsenddelay | slowsenddelay | fastsendlimit | initdelay | alt | autologoff | pingtimeout
  | loglevel | nickservIdent | enableNickservIdent | nickservIdentTimeout
  deriving DecidableEq, Repr

namespace Values

/-- The entries below `VAL_COUNT`, in the order of their indices. -/
def all : List Values :=
  [botname, realname, exeuser, exegroup, threadlimit, server, port, databasepath, fastsenddelay,
    slowsenddelay, fastsendlimit, initdelay, alt, autologoff, pingtimeout, loglevel,
    nickservIdent, enableNickservIdent, nickservIdentTimeout]

/-- `sParamName`. -/
def sParamName : Values → CStr
  | botname => "botname"
  | realname => "realname"
  | exeuser => "user"
  | exegroup => "group"
  | threadlimit => "threadlimit"
  | server => "hostname"
  | port => "port"
  | databasepath => "databasepath"
  | fastsenddelay => "fastsenddelay"
  | slowsenddelay => "slowsenddelay"
  | fastsendlimit => "fastsendlimit"
  | initdelay => "initdelay"
  | alt => "accountlivetime"
  | autologoff => "autologoff"
  | pingtimeout => "pingtimeout"
  | loglevel => "loglevel"
  | nickservIdent => "nickserv_ident"
  | enableNickservIdent => "enable_nickserv_ident"
  | nickservIdentTimeout => "nickserv_ident_timeout"

end Values

/-- `Input_t`, as far as the table uses it. -/
inductive ParamType
  | paramShort
  | paramInt
  | paramString
  deriving DecidableEq, Repr

/-- `iParamType`. -/
def Values.iParamType : Values → ParamType
  | botname | realname | exeuser | exegroup | server | port | databasepath | nickservIdent =>
    .paramString
  | threadlimit => .paramShort
  | _ => .paramInt

/-- The type of the field that an entry points to: a `char *`, or an `int` or `unsigned int`.
The short of `threadlimit` is written into an `unsigned int`. -/
def ParamType.Field : ParamType → Type
  | paramString => Option CStr
  | paramShort | paramInt => BitVec 32

/-- `ConfigSetup_t`: the fields that `pParam` points to. -/
abbrev ConfigSetup := (counter : Values) → counter.iParamType.Field

/-! ## Checks -/

/-- `EDOM` and `EINVAL`. -/
inductive Errno
  | edom
  | einval
  deriving DecidableEq, Repr

/-- `atoi`: `strtol` ends at the bounds of a long, and the cast keeps its lower half. -/
def atoi (value : CStr) : BitVec 32 :=
  BitVec.ofInt 32 (max (-2 ^ 63) (min (2 ^ 63 - 1) (atol value)))

/-- `key_int_checker`. A second bound of 0 is NULL, and none. -/
def keyIntChecker (range1 : Int) (range2 : Option Int) (value : CStr) : Option Errno :=
  let tmp := (atoi value).toInt
  if tmp < range1 then some .edom
  else
    match range2 with
    | some range2 => if tmp > range2 then some .edom else none
    | none => none

/-- `SERVER_NOT_ALLOW_CHAR`. -/
def serverNotAllowChar : CStr :=
  [' ', ':', ';', '<', '>', '*', '#', '/', '"', '\'', '\\', '\x7b', '\x7d', '[', ']', '(', ')',
    '=', '?', '\xa7', '$']

/-- `key_server_checker`. -/
def keyServerChecker (value : CStr) : Option Errno :=
  if strpbrk value serverNotAllowChar then some .einval else none

/-- `key_nick_checker`. -/
def keyNickChecker (value : CStr) : Option Errno :=
  if nickStringCheck value then none else some .einval

/-- `check_param` with its two bounds; NULL accepts everything. -/
def Values.checkParam : Values → CStr → Option Errno
  | botname => keyNickChecker
  | threadlimit => keyIntChecker 1 (some 25)
  | server => keyServerChecker
  | port => keyIntChecker 1 (some 65536)
  | fastsenddelay | slowsenddelay | fastsendlimit | initdelay | alt => keyIntChecker 0 none
  | autologoff | pingtimeout => keyIntChecker 1 none
  | loglevel => keyIntChecker 0 (some 7)
  | enableNickservIdent => keyIntChecker 0 (some 1)
  | nickservIdentTimeout => keyIntChecker 0 none
  | realname | exeuser | exegroup | databasepath | nickservIdent => fun _ => none

/-! ## Lines -/

/-- Why the parser does not come back. -/
inductive ConfigStop
  /-- `exit(err)` for a value that is not accepted -/
  | exit (err : Errno)
  /-- `vsInputConfig[VAL_COUNT]` -/
  | indexRange
  /-- `strlen(NULL)` after a search for `=` that failed -/
  | nullPointer
  /-- `strcpy` of a key that is longer than the memory for it -/
  | overrun
  deriving DecidableEq, Repr

/-- What the loop carries from line to line; `isFound` is kept in the table. -/
structure ConfigState where
  sSetup : ConfigSetup
  isFound : Values → Bool
  elem : Bool

/-- The switch on `iParamType`: the field after the value was written. -/
def ParamType.store : (type : ParamType) → type.Field → CStr → type.Field
  -- the lower half of the field, on a machine that stores it first
  | .paramShort, (field : BitVec 32), value =>
    BitVec.ofNat 32 (field.toNat / 2 ^ 16 * 2 ^ 16 + (atoi value).toNat % 2 ^ 16)
  | .paramInt, _, value => atoi value
  | .paramString, _, value => some value

/-- `COMMENT_CHAR`. -/
def commentChar : Char := '#'

/-- The body of the loop of `ConfigFileParser` for what `fgets` has read. -/
def configLine (st : ConfigState) (buffer : CStr) : Except ConfigStop ConfigState :=
  let buffer := clearspace (trim (cString buffer))
  if buffer.head? = some commentChar ∨ buffer = [] then .ok st
  else
    match cutFirst '=' buffer with
    | none => .error .nullPointer
    -- `strtok` steps over a leading `=`, and the whole buffer is copied
    | some ([], _) => .error .overrun
    | some (key, value) =>
      let counter := Values.all.find? fun counter => counter.sParamName = key
      -- the flag keeps its value of the last line where the key is not in the table
      let elem :=
        match counter with
        | some counter => !st.isFound counter
        | none => st.elem
      if !elem then .ok { st with elem }
      else
        match counter with
        | none => .error .indexRange
        | some counter =>
          match counter.checkParam value with
          | some err => .error (.exit err)
          | none => .ok {
              sSetup := Function.update st.sSetup counter
                (counter.iParamType.store (st.sSetup counter) value)
              isFound := Function.update st.isFound counter true
              elem }

/-! ## The file -/

/-- `MAX_READ_BUFFER_SIZE`. -/
def maxReadBufferSize : Nat := 256

/-- `fgets(buffer,size,fd)`: what it reads, and what is left of the file. -/
def fgets (size : Nat) (file : CStr) : Option (CStr × CStr) :=
  if file = [] then none
  else
    let read := file.take (size - 1)
    match cutFirst '\n' read with
    | some (line, _) => some (line ++ ['\n'], file.drop (line.length + 1))
    | none => some (read, file.drop (size - 1))

/-- The loop of `ConfigFileParser`; every turn reads at least one character. -/
def configLoop : (fuel : Nat) → CStr → ConfigState → Except ConfigStop ConfigState
  | 0, _, st => .ok st
  | fuel + 1, file, st =>
    match fgets maxReadBufferSize file with
    | none => .ok st
    | some (buffer, file) => configLine st buffer >>= configLoop fuel file

/-- `ConfigFileParser` on the file with these contents; there is nothing to read where it
cannot be opened. -/
def configFileParser (file : Option CStr) (st : ConfigState) : Except ConfigStop ConfigState :=
  match file with
  | none => .ok st
  | some file => configLoop file.length file { st with elem := false }

end Ebotula
