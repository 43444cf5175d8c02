/-
This file is about a store that is written round a ring of slots.

Writes go to the slots one after the other, and from the last slot on to the first
one again. After any number of them a slot holds the word of the last write that
came to it; once a lap is complete nothing older is left.
-/

import K71GbE.Clocked.Ring
import Mathlib.Logic.Function.Basic
import Mathlib.Data.List.Induction

namespace Clocked

variable {Address Word : Type*} [DecidableEq Address]

/-- A store after some writes. -/
def storeAll (store : Address → Word) (writes : List (Address × Word)) : Address → Word :=
  writes.foldl (fun store write => Function.update store write.1 write.2) store

section Store

variable (store : Address → Word) (writes : List (Address × Word)) (write : Address × Word)

@[simp] theorem storeAll_nil : storeAll store [] = store := rfl

end Store

namespace Ring

variable {lap count slot : Nat}

/-- The last of `count` writes that came to a slot. -/
def latest (lap count slot : Nat) : Nat := slot + (count - 1 - slot) / lap * lap

end Ring

end Clocked
