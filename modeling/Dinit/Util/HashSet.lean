import Mathlib.Algebra.GroupWithZero.Nat
import Mathlib.Data.Set.Defs
import Dinit.Framework.Buckets

namespace Dinit

open Framework

/-- The hasher and the predicate of a set, on the values of every type that it is given. An element
is made from a value of another type by `construct`. -/
structure Keyed (α : Type) where
  hashF : α → Nat
  keyEqualF : α → α → Bool
  construct : α → α
  refl : ∀ a,keyEqualF a a=true
  symm : ∀ a b,keyEqualF a b=true → keyEqualF b a=true
  trans : ∀ a b c,keyEqualF a b=true → keyEqualF b c=true → keyEqualF a c=true
  hash_eq : ∀ a b,keyEqualF a b=true → hashF a=hashF b
  construct_equal : ∀ a,keyEqualF (construct a) a=true

/-- `dinit_unordered_set` -/
structure HashSet (α : Type) where
  buckets : Buckets α := []
  currentSize : Nat := 0
  currentLimit : Nat := 0

namespace HashSet

/-- `resize` past `max_size` throws; the remainder by zero has no defined result. -/
inductive Fault where
  | lengthError
  | divisionByZero

/-- `max_size` of a vector of lists, each of which is three words -/
def maxSize : Nat := (2^63-1)/24

def bucketsToMax (buckets : Nat) : Nat :=
  let base := buckets/4*3
  let extra := buckets%4*3/4
  base+extra

section
variable {α : Type} (k : Keyed α) (s : HashSet α)

/-- A node goes to the end of its bucket. -/
def place (newBuckets : Nat) (bs : Buckets α) (a : α) : Buckets α :=
  bs.put (k.hashF a%newBuckets) a

def doRehash (buckets : Buckets α) (newBuckets : Nat) : Except Fault (Buckets α) :=
  let allNodes := buckets.flatten
  if newBuckets=0 ∧ ¬allNodes.isEmpty then .error .divisionByZero
  else .ok (allNodes.foldl (place k newBuckets) (buckets.map fun _ => []))

def minBuckets : Nat :=
  if s.currentSize>bucketsToMax maxSize then maxSize
  else
    let base := s.currentSize/3*4
    let extra := s.currentSize%3*4/3
    base+extra

def rehash (newBucketCount : Nat) : Except Fault (HashSet α) :=
  let newBucketCount := max newBucketCount s.minBuckets
  if newBucketCount < s.buckets.length then
    (doRehash k s.buckets newBucketCount).map fun bs => {s with buckets := bs.take newBucketCount}
  else if newBucketCount>maxSize then .error .lengthError
  else
    (doRehash k (s.buckets++List.replicate (newBucketCount-s.buckets.length) []) newBucketCount).map
      fun bs => {s with buckets := bs}

/-- The place in its bucket of an element that is equal to a value -/
def findIn (v : α) : Option (Nat × Nat) :=
  let bucketNum := k.hashF v%s.buckets.length
  ((s.buckets.getD bucketNum []).findIdx? fun a => k.keyEqualF a v).map fun i => (bucketNum,i)

/-- The end of `do_insert`: the new set, where the element is, and that it is new -/
def insertNode (v : α) : HashSet α × (Nat × Nat) × Bool :=
  let bucketNum := k.hashF v%s.buckets.length
  ({s with
    buckets := s.buckets.put bucketNum (k.construct v)
    currentSize := (s.currentSize+1)%2^64},
    (bucketNum,(s.buckets.getD bucketNum []).length),true)

/-- More buckets, where they are needed for another element -/
def expand : Except Fault (HashSet α) :=
  if s.currentSize ≥ s.currentLimit then
    if s.buckets.length ≤ maxSize/2 then
      (rehash k s (s.buckets.length*2)).map fun s => {s with currentLimit := s.currentLimit*2%2^64}
    else .ok {s with currentLimit := 2^64-1}
  else .ok s

def doInsert (v : α) : Except Fault (HashSet α × (Nat × Nat) × Bool) :=
  if s.buckets.isEmpty then
    .ok (insertNode k {s with buckets := List.replicate 4 [],currentLimit := 3} v)
  else
    match findIn k s v with
    | some p => .ok (s,p,false)
    | none => (expand k s).map fun s => insertNode k s v

def find (v : α) : Option (Nat × Nat) := if s.buckets.isEmpty then none else findIn k s v

def contains (v : α) : Bool := (find k s v).isSome

/-- An iterator that is not the end is a position. -/
def begin : Option (Nat × Nat) := if s.currentSize=0 then none else s.buckets.firstFrom 0

/-- `erase` with an iterator, which leads to an element: the new set, and the next element -/
def eraseAt (p : Nat × Nat) : HashSet α × Option (Nat × Nat) :=
  ({s with buckets := s.buckets.remove p},
    (s.buckets.after p).map fun n => if n.1=p.1 then p else n)

/-- `erase` with a value, and how many elements were removed -/
def erase (v : α) : HashSet α × Nat :=
  match find k s v with
  | some p => ({s with buckets := s.buckets.remove p},1)
  | none => (s,0)

def size : Nat := s.currentSize

def empty : Bool := s.currentSize=0

def clear : HashSet α := {buckets := [],currentSize := 0,currentLimit := 0}

/-- What a set is asked to do. `insert_byval` is `insert` with a value of another type. -/
inductive Op (α : Type) where
  | insert (v : α)
  | erase (v : α)
  | eraseAt (p : Nat × Nat)
  | rehash (n : Nat)
  | clear

/-- Where `resize` throws, the set stays as it is. -/
def unlessThrown (r : Except Fault (HashSet α)) : Option (HashSet α) :=
  match r with
  | .ok s' => some s'
  | .error .lengthError => some s
  | .error .divisionByZero => none

/-- Only an iterator that leads to an element is passed to `erase`. -/
def apply : Op α → Option (HashSet α)
  | .insert v => s.unlessThrown ((s.doInsert k v).map fun r => r.1)
  | .erase v => some (s.erase k v).1
  | .eraseAt p => (s.buckets.elem p).map fun _ => (s.eraseAt p).1
  | .rehash n => s.unlessThrown (s.rehash k n)
  | .clear => some clear

/-- The same on a mathematical set, where `erase` with an iterator removes the element that the
iterator leads to in the hash set. -/
def applySet (o : Op α) (t : Set α) : Set α :=
  match o with
  | .insert v => {x | x∈t ∨ (∀ y∈t,k.keyEqualF y v=false) ∧ x=k.construct v}
  | .erase v => {x | x∈t ∧ k.keyEqualF x v=false}
  | .eraseAt p => {x | x∈t ∧ s.buckets.elem p≠some x}
  | .rehash _ => t
  | .clear => ∅

/-- Both side by side -/
def step (r : HashSet α × Set α) (o : Op α) : Option (HashSet α × Set α) :=
  (r.1.apply k o).map fun s' => (s',r.1.applySet k o r.2)

end
end HashSet
end Dinit
