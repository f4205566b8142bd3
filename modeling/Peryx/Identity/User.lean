import Peryx.Core.Text

/-! # Server users (peryx-identity/src/user.rs) -/

namespace Peryx.Identity

def isWhitespace : Str → Bool
  | [byte] => Str.isAsciiSpace byte
  | [0xC2, byte] => byte == 0x85 || byte == 0xA0
  | [0xE1, 0x9A, 0x80] => true
  | [0xE2, 0x80, byte] =>
    (0x80 ≤ byte && byte ≤ 0x8A) || byte == 0xA8 || byte == 0xA9 || byte == 0xAF
  | [0xE2, 0x81, 0x9F] => true
  | [0xE3, 0x80, 0x80] => true
  | _ => false

def trim (text : Str) : Str :=
  (((Str.chars text).dropWhile isWhitespace).rdropWhile isWhitespace).flatten

/-- `str::to_lowercase`, and the normal form of unicode_normalization. -/
structure NameFolding where
  lowercase : Str → Str
  nfc : Str → Str

structure UserName where
  display : Str
  canonical : Str
  deriving Repr, DecidableEq

inductive UserNameError where
  | empty
  deriving Repr, DecidableEq

def NameFolding.shown (folding : NameFolding) (display : Str) : UserName :=
  ⟨display, folding.nfc (folding.lowercase display)⟩

def NameFolding.userName (folding : NameFolding) (value : Str) : Except UserNameError UserName :=
  if trim value = [] then .error .empty else .ok (folding.shown (trim value))

inductive UserState where
  | active
  | disabled
  deriving Repr, DecidableEq

structure ServerUser where
  id : Str
  name : UserName
  state : UserState
  revision : Nat
  deriving Repr, DecidableEq

inductive UserLifecycleChange where
  | created (displayName : Str)
  | renamed (previousDisplayName displayName : Str)
  | disabled
  | reactivated
  deriving Repr, DecidableEq

structure UserLifecycleEvent where
  userId : Str
  sequence : Nat
  change : UserLifecycleChange
  deriving Repr, DecidableEq

section Replay
variable (folding : NameFolding)

def ServerUser.change (user : ServerUser) : UserLifecycleChange → Option ServerUser
  | .created _ => none
  | .renamed previous display =>
    if previous = user.name.display then some { user with name := folding.shown display } else none
  | .disabled => if user.state = .active then some { user with state := .disabled } else none
  | .reactivated => if user.state = .disabled then some { user with state := .active } else none

def ServerUser.follow (user : ServerUser) (event : UserLifecycleEvent) : Option ServerUser :=
  if event.userId = user.id ∧ event.sequence = user.revision + 1 then
    (user.change folding event.change).map fun changed => { changed with revision := event.sequence }
  else none

def opened (event : UserLifecycleEvent) : Option ServerUser :=
  match event.change with
  | .created display =>
    if event.sequence = 1 then some ⟨event.userId, folding.shown display, .active, 1⟩ else none
  | _ => none

def replay : List UserLifecycleEvent → Option ServerUser
  | [] => none
  | event :: events => (opened folding event).bind fun user =>
    events.foldlM (ServerUser.follow folding) user

theorem replay_append (events : List UserLifecycleEvent) (event : UserLifecycleEvent)
    (user : ServerUser) (h : replay folding events = some user) :
    replay folding (events ++ [event]) = user.follow folding event := by
  cases events with
  | nil => cases h
  | cons first events =>
    obtain ⟨start, hstart, hrest⟩ := Option.bind_eq_some_iff.mp h
    show (opened folding first).bind (fun user =>
      (events ++ [event]).foldlM (ServerUser.follow folding) user) = _
    rw [hstart, Option.bind_some, List.foldlM_append, hrest]
    simp

end Replay
end Peryx.Identity
