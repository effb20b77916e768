import Ebotula.Runs

/-!
# The dialog for a new master

`dialogMaster`, which creates an account with the rights of a master before the bot goes to its
server. What it reads from the terminal are its arguments, as `fgets` delivers them. A run of the
bot together with its dialogs is a run over `Act`.
-/

set_option autoImplicit false

namespace Ebotula

open Library

/-- `dialogMaster`. -/
def dialogMaster (name passwd repasswd : CStr) : Bot Bool := do
  let name := trim name
  if !nickStringCheck name || name.isEmpty then
    logger .err "Forbidden characters used.\n" []
    return false
  if passwd ≠ repasswd then
    logger .err "Typing error... passwords not equal\n" []
    return false
  if strpbrk passwd " \t" then
    logger .err "Forbidden characters used.\n" []
    return false
  let passwd := trim passwd
  if !(← addDb .user (some name) (some passwd)) then
    logger .err "A account %s already exists." [.str name]
    return false
  if !(← addDb .access (some name) (some "+m")) then
    let _ ← delDb .user (some name)
    logger .err "Couldn't set this account to master." []
    return false
  return true

/-- What changes the databases: a dialog, or an event of the running bot. -/
inductive Act
  | dialogMaster (env : Env) (name passwd repasswd : CStr)
  | event (e : Event)

variable {G : Type} [DbLib G]

/-- One act, to its end. -/
def act (w : World G) : Act → Option (World G)
  | .dialogMaster env name passwd repasswd =>
    ((dialogMaster name passwd repasswd).run (perform env) w).map Prod.snd
  | .event e => step w e

end Ebotula
