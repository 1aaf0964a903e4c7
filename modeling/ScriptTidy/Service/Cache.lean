import ScriptTidy.Failure

/-!
# Caches

A cache keeps values by key and may lose them again. The usual one is of bounded size: the least
recently used value is dropped when there is no more room.
-/

namespace ScriptTidy.Service

/-- A kind of cache. -/
structure CacheKind (κ ν : Type) where
  /-- The states of a cache. -/
  Cache : Type
  /-- An empty cache of a size. -/
  new : Int → Except Failure Cache
  /-- Looks for the value of a key. -/
  get : Cache → κ → Option ν × Cache
  /-- Sets the value of a key. -/
  add : Cache → κ → ν → Cache

/-- A cache with room for `capacity` values. Entries lie in the order of their last use, the
latest first. -/
structure Lru (κ ν : Type) where
  capacity : Nat
  entries : List (κ × ν) := []

namespace Lru

/-- An empty cache. It must have room for a value. -/
def new {κ ν : Type} (size : Int) : Except Failure (Lru κ ν) :=
  if size ≤ 0 then .error (.plain (utf8 "Must provide a positive size"))
  else .ok { capacity := size.toNat }

variable {κ ν : Type} [DecidableEq κ]

/-- The value of a key. -/
def find? (c : Lru κ ν) (key : κ) : Option ν :=
  (c.entries.find? fun e => e.1 = key).map (·.2)

/-- The entries of all other keys. -/
def others (c : Lru κ ν) (key : κ) : List (κ × ν) := c.entries.filter fun e => e.1 ≠ key

/-- The cache after a value has been used or set: it comes first, and what does not fit any
more is dropped. -/
def put (c : Lru κ ν) (key : κ) (value : ν) : Lru κ ν :=
  { c with entries := ((key, value) :: c.others key).take c.capacity }

/-- Looks for the value of a key, which counts as a use of it. -/
def use (c : Lru κ ν) (key : κ) : Option ν × Lru κ ν :=
  match c.find? key with
  | some value => (some value, c.put key value)
  | none => (none, c)

/-- Caches that drop the least recently used value. -/
def kind (κ ν : Type) [DecidableEq κ] : CacheKind κ ν where
  Cache := Lru κ ν
  new := new
  get := use
  add := put

end Lru

end ScriptTidy.Service
