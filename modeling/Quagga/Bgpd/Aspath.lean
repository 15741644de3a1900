import Mathlib.Data.List.Basic

/-!
# AS paths

An AS path is a list of segments. The decision process reads its length in two ways: hops
count the ordinary segments and confeds count the confederation segments, and in both a set
counts once whatever its size. Two paths are comparable by MED when they enter the
neighbourhood through the same AS (`aspathCmpLeft`, `aspathCmpLeftConfed`).
-/

set_option autoImplicit false

namespace Quagga.Bgpd

/-- The segment types `AS_SET`, `AS_SEQUENCE`, `AS_CONFED_SEQUENCE` and `AS_CONFED_SET`. -/
inductive SegmentType where
  | asSet
  | asSequence
  | asConfedSequence
  | asConfedSet
  deriving DecidableEq, Repr

/-- `struct assegment`, with a length of the type `u_short`. A parsed segment holds at least one AS
number, since `assegments_parse` rejects the length zero. But where numbers are added the length may
wrap around, to zero also. -/
@[ext] structure Assegment where
  type : SegmentType
  as : List Nat
  length_lt : as.length < 65536
  deriving DecidableEq

/-- `struct aspath`: its segments in order. -/
structure Aspath where
  segments : List Assegment
  deriving DecidableEq

/-- What a segment adds to a count in which one type counts its length and another one
counts once. -/
def segmentCount (byLength once : SegmentType) (seg : Assegment) : Nat :=
  if seg.type = byLength then seg.as.length else if seg.type = once then 1 else 0

/-- The hops outside the confederation. -/
def aspathCountHops (aspath : Aspath) : Nat :=
  aspath.segments.foldl (fun count seg => count + segmentCount .asSequence .asSet seg) 0

/-- The hops inside the confederation. -/
def aspathCountConfeds (aspath : Aspath) : Nat :=
  aspath.segments.foldl
    (fun count seg => count + segmentCount .asConfedSequence .asConfedSet seg) 0

/-- The segments from the first one outside the confederation on. -/
def skipConfed (segments : List Assegment) : List Assegment :=
  segments.dropWhile fun seg => seg.type = .asConfedSequence ∨ seg.type = .asConfedSet

/-- `aspath_cmp_left`. A segment whose length has come to zero has no first number. -/
def aspathCmpLeft (aspath1 aspath2 : Aspath) : Bool :=
  match skipConfed aspath1.segments, skipConfed aspath2.segments with
  | seg1 :: _, seg2 :: _ =>
    seg1.type = .asSequence ∧ seg2.type = .asSequence ∧
      seg1.as ≠ [] ∧ seg1.as.head? = seg2.as.head?
  | _, _ => false

/-- `aspath_cmp_left_confed`. -/
def aspathCmpLeftConfed (aspath1 aspath2 : Aspath) : Bool :=
  match aspath1.segments, aspath2.segments with
  | seg1 :: _, seg2 :: _ =>
    seg1.type = .asConfedSequence ∧ seg2.type = .asConfedSequence ∧
      seg1.as ≠ [] ∧ seg1.as.head? = seg2.as.head?
  | _, _ => false

end Quagga.Bgpd
